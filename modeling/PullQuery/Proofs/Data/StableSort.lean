import PullQuery.Data.Ordered
import Mathlib.Order.Lattice
import Mathlib.Data.List.Basic

/-! What sorting by a key keeps: elements of one key stay in their order, so the elements that satisfy
a condition are sorted as if they were alone, and the last element is the last of those with the
greatest key. -/
namespace PullQuery.Data
variable {α κ : Type} [LinearOrder κ] {key : α → κ} {comesFirst : α → α → Bool}

/-- The last of some elements in the order of their keys, those with one key in their given order. -/
def IsLast (key : α → κ) (items : List α) (a : α) : Prop :=
  ∃ before after, items = before ++ a :: after ∧
    (∀ b ∈ before, key b ≤ key a) ∧ ∀ b ∈ after, key b < key a

/-- The last element has the greatest key, and is the last with that key. -/
theorem isLast_iff {items : List α} {a : α} :
    IsLast key items a ↔
      (∀ b ∈ items, key b ≤ key a) ∧ (items.filter (key · = key a)).getLast? = some a := by
  constructor
  · rintro ⟨before, after, rfl, notLater, earlier⟩
    constructor
    · intro b member
      rcases List.mem_append.mp member with front | rest
      · exact notLater b front
      · rcases List.mem_cons.mp rest with rfl | behind
        · exact le_refl _
        · exact (earlier b behind).le
    · have none : after.filter (key · = key a) = [] :=
        List.filter_eq_nil_iff.mpr fun b member => by simpa using (earlier b member).ne
      simp [none]
  · rintro ⟨greatest, last⟩
    obtain ⟨others, alike⟩ := List.getLast?_eq_some_iff.mp last
    obtain ⟨front, rest, rfl, -, single⟩ := List.filter_eq_append_iff.mp alike
    obtain ⟨between, behind, rfl, -, -, none⟩ := List.filter_eq_cons_iff.mp single
    refine ⟨front ++ between, behind, by simp, fun b member => ?_, fun b member => ?_⟩
    · exact greatest b (by simp at member ⊢; tauto)
    · have differs : key b ≠ key a := by simpa using List.filter_eq_nil_iff.mp none b member
      exact lt_of_le_of_ne (greatest b (by simp [member])) differs

/-- Which element is the last depends only on the order within each key. -/
theorem IsLast.congr {items others : List α} {a : α} (last : IsLast key items a)
    (alike : ∀ b, items.filter (key · = key b) = others.filter (key · = key b)) :
    IsLast key others a := by
  obtain ⟨greatest, found⟩ := isLast_iff.mp last
  refine isLast_iff.mpr ⟨fun b member => greatest b ?_, alike a ▸ found⟩
  have inside : b ∈ others.filter (key · = key b) := by simp [member]
  rw [← alike b] at inside
  exact (List.mem_filter.mp inside).1

def Sorted (key : α → κ) (items : List α) : Prop :=
  items.Pairwise fun first later => key first ≤ key later

theorem Sorted.getLast?_eq_some_iff {items : List α} (sorted : Sorted key items) {a : α} :
    items.getLast? = some a ↔ IsLast key items a := by
  constructor
  · intro last
    obtain ⟨front, rfl⟩ := List.getLast?_eq_some_iff.mp last
    have below := (List.pairwise_append.mp sorted).2.2
    exact ⟨front, [], rfl, fun b member => below b member a (.head _), by simp⟩
  · rintro ⟨before, after, rfl, -, earlier⟩
    have above := (List.pairwise_cons.mp (List.pairwise_append.mp sorted).2.1).1
    match after with
    | [] => simp
    | b :: rest => exact absurd (earlier b (.head _)) (above b (.head _)).not_gt

variable (order : ∀ a b, comesFirst a b = true ↔ key a < key b)
include order

private theorem insertOrdered_eq_cons {a : α} {items : List α}
    (least : ∀ b ∈ items, key a ≤ key b) :
    insertOrdered comesFirst a items = a :: items := by
  cases items with
  | nil => rfl
  | cons b rest =>
    rw [insertOrdered, if_neg]
    exact fun before => (least b (.head _)).not_gt ((order b a).mp before)

private theorem sorted_insertOrdered {items : List α} (sorted : Sorted key items) (a : α) :
    Sorted key (insertOrdered comesFirst a items) := by
  induction items with
  | nil => exact List.pairwise_singleton _ _
  | cons b rest ih =>
    obtain ⟨above, behind⟩ := List.pairwise_cons.mp sorted
    rw [insertOrdered]
    split
    · rename_i before
      refine .cons (fun later member => ?_) (ih behind)
      rcases List.mem_cons.mp ((insertOrdered_perm comesFirst a rest).mem_iff.mp member) with
        rfl | inside
      · exact ((order b later).mp before).le
      · exact above later inside
    · rename_i behindA
      have least : key a ≤ key b := not_lt.mp fun before => behindA ((order b a).mpr before)
      refine .cons (fun later member => ?_) sorted
      rcases List.mem_cons.mp member with rfl | inside
      · exact least
      · exact least.trans (above later inside)

theorem sorted_stableSort (items : List α) : Sorted key (stableSort comesFirst items) := by
  induction items with
  | nil => exact .nil
  | cons a rest ih => exact sorted_insertOrdered order ih a

theorem stableSort_of_sorted {items : List α} (sorted : Sorted key items) :
    stableSort comesFirst items = items := by
  induction items with
  | nil => rfl
  | cons a rest ih =>
    obtain ⟨above, behind⟩ := List.pairwise_cons.mp sorted
    change insertOrdered comesFirst a (stableSort comesFirst rest) = a :: rest
    rw [ih behind, insertOrdered_eq_cons order above]

private theorem filter_insertOrdered {items : List α} (sorted : Sorted key items)
    (keep : α → Bool) (a : α) :
    (insertOrdered comesFirst a items).filter keep =
      if keep a then insertOrdered comesFirst a (items.filter keep) else items.filter keep := by
  induction items with
  | nil => cases kept : keep a <;> simp [insertOrdered, kept]
  | cons b rest ih =>
    obtain ⟨above, behind⟩ := List.pairwise_cons.mp sorted
    by_cases before : comesFirst b a = true
    · rw [insertOrdered, if_pos before, List.filter_cons, List.filter_cons, ih behind]
      cases keep b <;> cases keep a <;> simp [insertOrdered, before]
    · have least : key a ≤ key b := not_lt.mp fun first => before ((order b a).mpr first)
      have all : ∀ later ∈ b :: rest, key a ≤ key later := by
        intro later member
        rcases List.mem_cons.mp member with rfl | inside
        · exact least
        · exact least.trans (above later inside)
      have kept : ∀ later ∈ (b :: rest).filter keep, key a ≤ key later :=
        fun later member => all later (List.mem_filter.mp member).1
      rw [insertOrdered_eq_cons order kept, insertOrdered_eq_cons order all, List.filter_cons]

/-- Elements that satisfy a condition are sorted as if there were no others. -/
theorem filter_stableSort (keep : α → Bool) (items : List α) :
    (stableSort comesFirst items).filter keep = stableSort comesFirst (items.filter keep) := by
  induction items with
  | nil => rfl
  | cons a rest ih =>
    change (insertOrdered comesFirst a (stableSort comesFirst rest)).filter keep = _
    rw [filter_insertOrdered order (sorted_stableSort order rest), ih, List.filter_cons]
    cases keep a <;> rfl

/-- Sorting puts the last element in the order of the keys at the end. -/
theorem getLast?_stableSort {items : List α} {a : α} :
    (stableSort comesFirst items).getLast? = some a ↔ IsLast key items a := by
  have alike (b : α) : (stableSort comesFirst items).filter (key · = key b) =
      items.filter (key · = key b) := by
    rw [filter_stableSort order]
    refine stableSort_of_sorted order (List.pairwise_of_forall_mem_list fun c first d later => ?_)
    simp only [List.mem_filter, decide_eq_true_eq] at first later
    exact le_of_eq (first.2.trans later.2.symm)
  rw [(sorted_stableSort order items).getLast?_eq_some_iff]
  exact ⟨fun last => last.congr alike, fun last => last.congr fun b => (alike b).symm⟩

end PullQuery.Data
