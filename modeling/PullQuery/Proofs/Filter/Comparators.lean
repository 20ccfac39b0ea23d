import PullQuery.Proofs.Filter.ClauseLists
import PullQuery.Proofs.Value.Membership

/-! The comparators that look for values. All of them ask whether the value of a field offers one that
is wanted: some of those that are wanted, all of them, or none. -/
namespace PullQuery

/-- Whether a value, or an item of a list, goes with the one that is wanted. -/
def Value.offers (value wanted : Value) : Bool := value.items.any fun item => item.isAmong [wanted]

theorem Value.any_isAmong (value : Value) (wanted : List Value) :
    (value.items.any fun item => item.isAmong wanted) = wanted.any value.offers := by
  simp only [isAmong_eq_any _ wanted]
  exact any_any_comm value.items wanted fun item wanted => item.isAmong [wanted]

theorem Value.isAmong_items (value wanted : Value) : wanted.isAmong value.items = value.offers wanted := by
  rw [isAmong_eq_any, offers]
  congr 1
  funext item
  exact isAmong_comm wanted item

namespace Filter
open Comparator

namespace Clause

def scalars (clause : Clause) : List Scalar := clause.value.toList ++ clause.values

def comparing (clause : Clause) (compare : Comparator) : Clause := { clause with compare }

def only (clause : Clause) (scalar : Scalar) : Clause :=
  { clause with value := some scalar, values := [] }

section Accepting
variable (clause : Clause) (value : Value)

theorem accepts_includes_eq :
    (clause.comparing includes).accepts value = clause.wanted.any value.offers := by
  rw [← value.any_isAmong]
  cases value with
  | list items => rfl
  | _ => exact (Bool.or_false _).symm

theorem accepts_includesAll_eq :
    (clause.comparing includesAll).accepts value = clause.wanted.all value.offers := by
  have each : (fun wanted : Value => wanted.isAmong value.items) = value.offers :=
    funext value.isAmong_items
  exact congrArg clause.wanted.all each

theorem accepts_excludes_eq :
    (clause.comparing excludes).accepts value = !clause.wanted.any value.offers := by
  cases value with
  | list items =>
    have each : (fun wanted : Value => wanted.isAmong items) = (Value.list items).offers :=
      funext (Value.list items).isAmong_items
    exact congrArg (fun offers => !clause.wanted.any offers) each
  | _ =>
    rw [← Value.any_isAmong]
    exact congrArg (!·) (Bool.or_false _).symm

private theorem accepts_only (scalar : Scalar) :
    ((clause.only scalar).comparing includes).accepts value = value.offers scalar.toValue := by
  rw [accepts_includes_eq]
  exact Bool.or_false _

end Accepting

private theorem wanted_eq (clause : Clause) :
    clause.wanted = clause.scalars.map Scalar.toValue := rfl

/-- More values make a clause that asks for some of them accept more, and one that asks for all or for
none accept less. -/
theorem accepts_of_subset {clause other : Clause} (subset : clause.scalars ⊆ other.scalars)
    (value : Value) :
    ((clause.comparing includes).accepts value = true →
        (other.comparing includes).accepts value = true) ∧
      ((other.comparing includesAll).accepts value = true →
        (clause.comparing includesAll).accepts value = true) ∧
      ((other.comparing excludes).accepts value = true →
        (clause.comparing excludes).accepts value = true) := by
  have wanted : clause.wanted ⊆ other.wanted := List.map_subset _ subset
  have more : clause.wanted.any value.offers = true → other.wanted.any value.offers = true := by
    simp only [List.any_eq_true]
    rintro ⟨scalar, member, offered⟩
    exact ⟨scalar, wanted member, offered⟩
  simp only [accepts_includes_eq, accepts_includesAll_eq, accepts_excludes_eq, Bool.not_eq_true']
  refine ⟨more, ?_, ?_⟩
  · simp only [List.all_eq_true]
    exact fun all scalar member => all scalar (wanted member)
  · intro none
    rw [← Bool.not_eq_true] at none ⊢
    exact mt more none

/-- In which place, in which order and how often the values are given does not matter. -/
theorem accepts_congr {clause other : Clause}
    (same : ∀ scalar, scalar ∈ other.scalars ↔ scalar ∈ clause.scalars) (compare : Comparator)
    (value : Value) :
    (other.comparing compare).accepts value = (clause.comparing compare).accepts value := by
  obtain ⟨some, all, none⟩ := accepts_of_subset (fun _ member => (same _).mpr member) value
  obtain ⟨some', all', none'⟩ := accepts_of_subset (fun _ member => (same _).mp member) value
  rw [Bool.eq_iff_iff]
  cases compare with
  | isTrue => rfl
  | isFalse => rfl
  | includes => exact ⟨some', some⟩
  | includesAll => exact ⟨all, all'⟩
  | excludes => exact ⟨none, none'⟩

end Clause

private theorem byClauses_single (records : List PullRequest) (clause : Clause)
    (bindings : Query.Variables) :
    byClauses records [clause] bindings =
      records.filter fun pr => clause.accepts (resolve pr clause.field bindings.currentUser?) := by
  rw [byClauses]
  congr 1
  funext pr
  rw [passes_eq]
  exact Bool.and_true _

/-- A record is kept by one of two clauses that ask for some of the same values and for none of them. -/
theorem byClauses_partition (records : List PullRequest) (clause : Clause) (bindings : Query.Variables) :
    let including := byClauses records [clause.comparing includes] bindings
    let excluding := byClauses records [clause.comparing excludes] bindings
    (including ++ excluding).Perm records ∧ including.Disjoint excluding := by
  intro including excluding
  let accepted := fun pr =>
    (clause.comparing includes).accepts (resolve pr clause.field bindings.currentUser?)
  have kept : including = records.filter accepted := byClauses_single _ _ _
  have left : excluding = records.filter fun pr => !accepted pr := by
    refine (byClauses_single _ _ _).trans ?_
    congr 1
    funext pr
    exact (clause.accepts_excludes_eq _).trans (congrArg (!·) (clause.accepts_includes_eq _).symm)
  rw [kept, left]
  refine ⟨List.filter_append_perm accepted records, fun pr member other => ?_⟩
  have accepts := List.of_mem_filter member
  have refuses := List.of_mem_filter other
  simp [accepts] at refuses

/-- To include some values is to include one of them, to include all of them is to include each alone,
and to exclude them is not to include any. So it does not matter how the values of a clause are given,
more of them make it easier to include some and harder to include all or exclude all, and every record
is on one side of including and excluding the same values. -/
theorem comparators_are_one_relation (clause : Clause) :
    (∀ value,
      (clause.comparing excludes).accepts value = !(clause.comparing includes).accepts value ∧
      (clause.comparing includes).accepts value =
        clause.scalars.any (fun scalar => ((clause.only scalar).comparing includes).accepts value) ∧
      (clause.comparing includesAll).accepts value =
        clause.scalars.all fun scalar => ((clause.only scalar).comparing includes).accepts value) ∧
    (∀ other : Clause, (∀ scalar, scalar ∈ other.scalars ↔ scalar ∈ clause.scalars) →
      ∀ compare value,
        (other.comparing compare).accepts value = (clause.comparing compare).accepts value) ∧
    (∀ other : Clause, clause.scalars ⊆ other.scalars → ∀ value,
      ((clause.comparing includes).accepts value = true →
          (other.comparing includes).accepts value = true) ∧
        ((other.comparing includesAll).accepts value = true →
          (clause.comparing includesAll).accepts value = true) ∧
        ((other.comparing excludes).accepts value = true →
          (clause.comparing excludes).accepts value = true)) ∧
    ∀ (records : List PullRequest) (bindings : Query.Variables),
      let including := byClauses records [clause.comparing includes] bindings
      let excluding := byClauses records [clause.comparing excludes] bindings
      (including ++ excluding).Perm records ∧ including.Disjoint excluding := by
  refine ⟨fun value => ⟨?_, ?_, ?_⟩, fun other same compare value => Clause.accepts_congr same compare value,
    fun other subset => Clause.accepts_of_subset subset,
    fun records bindings => byClauses_partition records clause bindings⟩
  · rw [Clause.accepts_excludes_eq, Clause.accepts_includes_eq]
  · simp only [Clause.accepts_only]
    rw [Clause.accepts_includes_eq, Clause.wanted_eq, List.any_map]
    rfl
  · simp only [Clause.accepts_only]
    rw [Clause.accepts_includesAll_eq, Clause.wanted_eq, List.all_map]
    rfl

theorem comparators_are_one_relation_with_nan :
    let nan : Scalar := .float (0 / 0)
    let clause : Clause := ⟨"label", .includes, some (.integer 33), [.text "Bug", nan]⟩
    let other : Clause := ⟨"label", .includes, none, [nan, .text "Bug", .integer 33, .text "Bug"]⟩
    let value : Value := .list [.null, .list [.integer 33], .float (0 / 0)]
    ((∀ scalar, scalar ∈ other.scalars ↔ scalar ∈ clause.scalars) ∧
        (other.comparing .includes).accepts value = (clause.comparing .includes).accepts value) ∧
      ((clause.only nan).scalars ⊆ clause.scalars ∧
        ((clause.comparing .includesAll).accepts value = true →
          ((clause.only nan).comparing .includesAll).accepts value = true)) ∧
      (clause.comparing .includes).accepts value = true ∧
      (clause.comparing .includesAll).accepts value = false ∧
      ((clause.only nan).comparing .includesAll).accepts value = true := by
  intro nan clause other value
  have same : ∀ scalar, scalar ∈ other.scalars ↔ scalar ∈ clause.scalars := by
    intro scalar
    simp only [Clause.scalars, clause, other, Option.toList, List.nil_append, List.cons_append,
      List.mem_cons, List.not_mem_nil, or_false]
    tauto
  have subset : (clause.only nan).scalars ⊆ clause.scalars := by
    simp [Clause.scalars, clause, Clause.only]
  refine ⟨⟨same, (comparators_are_one_relation clause).2.1 other same .includes value⟩,
    ⟨subset, ((comparators_are_one_relation (clause.only nan)).2.2.1 clause subset value).2.1⟩, ?_, ?_, ?_⟩
  · decide +kernel
  · decide +kernel
  · decide +kernel

end Filter
end PullQuery
