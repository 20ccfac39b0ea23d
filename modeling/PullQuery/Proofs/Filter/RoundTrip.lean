import PullQuery.Filter.Saved
import PullQuery.Proofs.Json.Fields
import PullQuery.Proofs.Json.Floats

/-! Stored filters are read back from what is written for them. Each reader gives back what its writer
was given, and a structure is read field by field from the fields that are there. -/
namespace PullQuery.Filter

open PullQuery.Data
open PullQuery.Json (Draft Legible ReadsBack)

theorem Comparator.ofText?_text (comparator : Comparator) :
    ofText? comparator.text = some comparator := by
  cases comparator <;> rfl

section Readers
variable {α : Type} {read : Draft → Reading α} {write : α → Json}

private theorem readOptional_some {json : Json} {a : α} (visible : json ≠ .null)
    (back : read (.ofJson json) = .ok a) : readOptional read (.ofJson json) = .ok (some a) := by
  have step : readOptional read (.ofJson json) = (read (.ofJson json)).map some := by
    cases json with
    | null => exact absurd rfl visible
    | _ => rfl
  rw [step, back]
  rfl

private theorem readOptional_ofOption (back : ∀ a, read (.ofJson (write a)) = .ok a)
    (visible : ∀ a, write a ≠ .null) (o : Option α) :
    readOptional read (.ofJson (.ofOption (o.map write))) = .ok o := by
  cases o with
  | none => rfl
  | some a => exact readOptional_some (visible a) (back a)

private theorem readList_map (back : ∀ a, read (.ofJson (write a)) = .ok a) (items : List α) :
    readList read (.ofJson (.list (items.map write))) = .ok items := by
  rw [Draft.ofJson, readList, Json.Draft.ofItems_eq_map, List.map_map]
  induction items with
  | nil => rfl
  | cons item rest ih =>
    rw [List.map_cons, readItems, Function.comp_apply, back, ih]
    rfl

private theorem readComparator_text (comparator : Comparator) :
    readComparator (.ofJson (.text comparator.text)) = .ok comparator := by
  rw [Draft.ofJson, readComparator, readComparator.known, comparator.ofText?_text]

theorem readScalar_json (depth : Nat) (scalar : Scalar) :
    readScalar depth (.ofJson scalar.json) = .ok scalar := by
  cases scalar with
  | integer n => simp [readScalar, Scalar.json, Draft.ofJson, Draft.json?, Number.word?_toInt]
  | boolean | float | text => rfl

end Readers

namespace FieldReader
variable {σ : Type} (reader : FieldReader σ)

/-- Reads the fields that are there one after the other, from a place on. -/
def readPresent : (place : Nat) → σ → List (Option Json) → Reading σ
  | _, state, [] => .ok state
  | place, state, none :: rest => readPresent (place + 1) state rest
  | place, state, some json :: rest => do
    let next ← reader.read place (.ofJson json) state
    readPresent (place + 1) next rest

variable {reader}

theorem readPresent_field {place : Nat} {state next : σ} {json : Json}
    (read : reader.read place (.ofJson json) state = .ok next) (rest : List (Option Json)) :
    reader.readPresent place state (some json :: rest) = reader.readPresent (place + 1) next rest := by
  rw [readPresent, read]
  rfl

theorem readPresent_optional {α : Type} {write : α → Json} (place : Nat) (put : Option α → σ)
    (back : ∀ a, reader.read place (.ofJson (write a)) (put none) = .ok (put (some a)))
    (o : Option α) (rest : List (Option Json)) :
    reader.readPresent place (put none) (o.map write :: rest) =
      reader.readPresent (place + 1) (put o) rest := by
  cases o with
  | none => rfl
  | some a => exact readPresent_field (back a) rest

theorem readMembers_present {fields : List (String × Option Json)} {before : List String}
    {seen : List Nat} (names : reader.names = before ++ fields.map (·.1))
    (distinct : reader.names.Nodup) (earlier : ∀ place ∈ seen, place < before.length) (state : σ) :
    reader.readMembers true seen state (Draft.ofMembers (Json.present fields)) =
      reader.readPresent before.length state (fields.map (·.2)) := by
  induction fields generalizing before seen state with
  | nil => rfl
  | cons field rest ih =>
    obtain ⟨name, value⟩ := field
    have behind {seen : List Nat} (earlier : ∀ place ∈ seen, place < before.length + 1) (state : σ) :
        reader.readMembers true seen state (Draft.ofMembers (Json.present rest)) =
          reader.readPresent (before.length + 1) state (rest.map (·.2)) := by
      have next : reader.names = (before ++ [name]) ++ rest.map (·.1) := by simp [names]
      simpa using ih next (by simpa using earlier) state
    cases value with
    | none => exact behind (fun place member => Nat.lt_succ_of_lt (earlier place member)) state
    | some json =>
      have fresh : name ∉ before := by
        rw [names, List.map_cons] at distinct
        exact fun member => List.disjoint_of_nodup_append distinct member (.head _)
      have found : reader.names.findIdx? (· == name) = some before.length := by
        have absent : before.findIdx? (· == name) = none := by
          rw [List.findIdx?_eq_none_iff]
          intro other member
          simpa using ne_of_mem_of_not_mem member fresh
        rw [names, List.findIdx?_append, absent, List.map_cons, List.findIdx?_cons]
        simp
      have unseen : before.length ∉ seen := fun member => (earlier _ member).ne rfl
      have members : Draft.ofMembers (Json.present ((name, some json) :: rest)) =
          (some name, .ofJson json) :: Draft.ofMembers (Json.present rest) := rfl
      rw [members, readMembers, found]
      simp only [if_neg unseen, List.map_cons, readPresent]
      congr 1
      funext next
      exact behind (by simpa using fun place member => Nat.lt_succ_of_lt (earlier place member)) next

theorem readStructure_ofFields {α : Type} {fields : List (String × Option Json)}
    (names : reader.names = fields.map (·.1)) (distinct : reader.names.Nodup) (initial : σ)
    (finish : σ → Reading α) :
    reader.readStructure initial finish (.ofJson (.ofFields fields)) =
      (reader.readPresent 0 initial (fields.map (·.2))).bind finish := by
  have members := @readMembers_present _ reader fields [] [] names distinct (by simp) initial
  exact congrArg (·.bind finish) members

end FieldReader

theorem readClause_json (clause : Clause) : readClause (.ofJson clause.json) = .ok clause := by
  obtain ⟨field, compare, value, values⟩ := clause
  have fields : clauseReader.read 0 (.ofJson (.text field)) ⟨none, none, none, []⟩ =
      .ok ⟨some field, none, none, []⟩ := rfl
  have compares : clauseReader.read 1 (.ofJson (.text compare.text)) ⟨some field, none, none, []⟩ =
      .ok ⟨some field, some compare, none, []⟩ :=
    congrArg (Except.map _) (readComparator_text compare)
  have single (scalar : Scalar) : clauseReader.read 2 (.ofJson scalar.json)
      ⟨some field, some compare, none, []⟩ = .ok ⟨some field, some compare, some scalar, []⟩ := by
    have visible : scalar.json ≠ .null := by cases scalar <;> nofun
    exact congrArg (Except.map _) (readOptional_some visible (readScalar_json 3 scalar))
  have others : clauseReader.read 3 (.ofJson (.list (values.map Scalar.json)))
      ⟨some field, some compare, value, []⟩ = .ok ⟨some field, some compare, value, values⟩ :=
    congrArg (Except.map _) (readList_map (readScalar_json 4) values)
  rw [readClause, Clause.json, FieldReader.readStructure_ofFields rfl (by decide)]
  simp only [List.map_cons, List.map_nil]
  -- The fields in their order. The single value may be left out.
  rw [FieldReader.readPresent_field fields, FieldReader.readPresent_field compares,
    clauseReader.readPresent_optional 2 (fun value => ⟨some field, some compare, value, []⟩) single,
    FieldReader.readPresent_field others]
  rfl

theorem readSaved_json (saved : Saved) : readSaved (.ofJson saved.json) = .ok saved := by
  obtain ⟨id, name, shown, lessShown, text, filters, query⟩ := saved
  have ids : savedReader.read 0 (.ofJson (.text id)) .blank =
      .ok ⟨id, "", none, none, none, none, ""⟩ := rfl
  have names : savedReader.read 1 (.ofJson (.text name)) ⟨id, "", none, none, none, none, ""⟩ =
      .ok ⟨id, name, none, none, none, none, ""⟩ := rfl
  have list (clauses : List Clause) :
      readList readClause (.ofJson (Clause.listJson clauses)) = .ok clauses :=
    readList_map readClause_json clauses
  have clauses : savedReader.read 5 (.ofJson (.ofOption (filters.map Clause.listJson)))
      ⟨id, name, shown, lessShown, text, none, ""⟩ =
        .ok ⟨id, name, shown, lessShown, text, filters, ""⟩ :=
    congrArg (Except.map _) (readOptional_ofOption list (fun _ => nofun) filters)
  have queries : savedReader.read 6 (.ofJson (.text query))
      ⟨id, name, shown, lessShown, text, filters, ""⟩ =
        .ok ⟨id, name, shown, lessShown, text, filters, query⟩ := rfl
  rw [readSaved, Saved.json, FieldReader.readStructure_ofFields rfl (by decide)]
  simp only [List.map_cons, List.map_nil]
  -- The fields in their order. Three of them may be left out; the clauses are null instead.
  rw [FieldReader.readPresent_field ids, FieldReader.readPresent_field names,
    savedReader.readPresent_optional 2 (fun shown => ⟨id, name, shown, none, none, none, ""⟩)
      fun _ => rfl,
    savedReader.readPresent_optional 3 (fun less => ⟨id, name, shown, less, none, none, ""⟩)
      fun _ => rfl,
    savedReader.readPresent_optional 4 (fun text => ⟨id, name, shown, lessShown, text, none, ""⟩)
      fun _ => rfl,
    FieldReader.readPresent_field clauses, FieldReader.readPresent_field queries]
  rfl

def Scalar.float? : Scalar → Option Float
  | float x => some x
  | _ => none

def Clause.floats (clause : Clause) : List Float :=
  (clause.value.toList ++ clause.values).filterMap Scalar.float?

def Saved.floats (saved : Saved) : List Float :=
  (saved.filters.getD []).flatMap Clause.floats

theorem Scalar.legible {scalar : Scalar} (reads : ∀ x ∈ scalar.float?, ReadsBack x) :
    Legible scalar.json := by
  cases scalar with
  | boolean b => exact .boolean b
  | integer n => exact (Json.regular_word n : Json.Regular 0 _).legible
  | float x => exact Json.legible_float (reads x rfl)
  | text s => exact .text s

theorem Clause.legible {clause : Clause} (reads : ∀ x ∈ clause.floats, ReadsBack x) :
    Legible clause.json := by
  have scalars : ∀ scalar ∈ clause.value.toList ++ clause.values, Legible scalar.json :=
    fun scalar member => Scalar.legible fun x same =>
      reads x (List.mem_filterMap.mpr ⟨scalar, member, same⟩)
  have single : ∀ scalar, clause.value = some scalar → Legible scalar.json :=
    fun scalar same => scalars scalar (by simp [same])
  have others : Legible (.list (clause.values.map Scalar.json)) :=
    .list (List.forall_mem_map.mpr fun scalar member => scalars scalar (by simp [member]))
  refine .ofFields ?_
  simpa [Legible.text, others] using single

theorem Saved.legible {saved : Saved} (reads : ∀ x ∈ saved.floats, ReadsBack x) :
    Legible saved.json := by
  have clauses : ∀ list, saved.filters = some list → Legible (Clause.listJson list) := by
    intro list same
    refine .list (List.forall_mem_map.mpr fun clause member => Clause.legible fun x inside => ?_)
    refine reads x (List.mem_flatMap.mpr ⟨clause, ?_, inside⟩)
    simpa [same] using member
  have filters : Legible (.ofOption (saved.filters.map Clause.listJson)) := by
    cases same : saved.filters with
    | none => exact .null
    | some list => exact clauses list same
  have flag (shown : Option Bool) : ∀ value ∈ shown.map Json.boolean, Legible value := by
    intro value member
    obtain ⟨b, -, rfl⟩ := Option.map_eq_some_iff.mp member
    exact .boolean b
  refine .ofFields ?_
  simp only [List.forall_mem_cons]
  refine ⟨?_, ?_, flag _, flag _, ?_⟩
  all_goals simp [Legible.text, filters]

/-- A filter is read back from its JSON, on one line or over several, and selects by the same predicate,
if the text of each of its floats is a number with the value of the float. -/
theorem saved_filters_are_read_back {saved : Saved}
    (finite : ∀ x ∈ saved.floats, x.isFinite = true)
    (reads : ∀ x ∈ saved.floats, x.isFinite = true → ReadsBack x) :
    ∀ text ∈ [saved.json.compactText, saved.json.prettyText],
      Saved.read text = .ok saved ∧ (Saved.read text).map Saved.predicate = .ok saved.predicate := by
  have legible := saved.legible fun x member => reads x member (finite x member)
  have back {text : List Char} (written : Draft.Reads text (.ofJson saved.json)) :
      Saved.read (String.ofList text) = .ok saved := by
    have whole := written.read (show ∀ c ∈ [], Json.isBlank c = true by simp)
    rw [List.append_nil] at whole
    rw [Saved.read, String.toList_ofList, whole]
    simp only [readSaved_json]
    rfl
  intro text member
  have same : Saved.read text = .ok saved := by
    simp only [List.mem_cons, List.not_mem_nil, or_false] at member
    rcases member with rfl | rfl
    · exact back legible.reads.1
    · exact back (legible.reads.2 0)
  exact ⟨same, congrArg (Except.map Saved.predicate) same⟩

/-- Floats with a whole value, with decimals and with an exponent, beside texts that look like a number
or a boolean. -/
theorem saved_filters_are_read_back_every_scalar :
    let saved : Saved :=
      { id := "1", name := "null", showAsNotification := some false
        showAsNotificationDecrease := none, notificationText := some "\"3\""
        filters := some [⟨"changes", .isTrue, some (.float 1), []⟩,
          ⟨"label", .includesAll, none, [.text "1.0", .text "true", .boolean true, .integer (-1),
            .float (-0.1), .float 2.5e-7]⟩]
        query := "" }
    ((∀ x ∈ saved.floats, x.isFinite = true) ∧
        ∀ x ∈ saved.floats, x.isFinite = true → ReadsBack x) ∧
      ∀ text ∈ [saved.json.compactText, saved.json.prettyText],
        Saved.read text = .ok saved ∧
          (Saved.read text).map Saved.predicate = .ok saved.predicate := by
  intro saved
  have floats : saved.floats = [1, -0.1, 2.5e-7] := rfl
  have finite : ∀ x ∈ saved.floats, x.isFinite = true := by
    rw [floats]
    exact List.all_eq_true.mp (by decide +kernel)
  have reads : ∀ x ∈ saved.floats, x.isFinite = true → ReadsBack x := by
    have all : saved.floats.all (fun x => decide (ReadsBack x)) = true := by
      rw [floats]
      decide +kernel
    intro x member _
    exact of_decide_eq_true (List.all_eq_true.mp all x member)
  exact ⟨⟨finite, reads⟩, saved_filters_are_read_back finite reads⟩

end PullQuery.Filter
