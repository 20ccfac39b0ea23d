import PullQuery.Proofs.Json.Reading
import PullQuery.Proofs.Time.DocumentText
import PullQuery.Record.Document

/-! What is written for a field is read from it: a field that may be missing, one that may be null,
a list, and the object that all fields of a structure make up. -/
namespace PullQuery.Json

open PullQuery.Data
open PullQuery.Time

theorem instant?_ofInstant (t : Instant) : instant? (ofInstant t) = some t :=
  t.readLoose?_documentText

section Values
variable {α : Type} {read : Json → Option α} {write : α → Json}

private theorem optional?_of_ne_null {json : Json} (visible : json ≠ .null) :
    optional? read json = (read json).map some := by
  cases json with
  | null => exact absurd rfl visible
  | _ => rfl

theorem optional?_ofOption (back : ∀ a, read (write a) = some a) (visible : ∀ a, write a ≠ .null)
    (o : Option α) : optional? read (ofOption (o.map write)) = some o := by
  cases o with
  | none => rfl
  | some a =>
    rw [Option.map_some, ofOption, Option.getD_some, optional?_of_ne_null (visible a), back]
    rfl

theorem list?_map (back : ∀ a, read (write a) = some a) (items : List α) :
    list? read (.list (items.map write)) = some items := by
  rw [list?, List.mapM_map]
  induction items with
  | nil => rfl
  | cons item rest ih =>
    rw [List.mapM_cons]
    simp [back, ih]

end Values

section Fields
variable {α : Type} {table : Dictionary Json} {name : String}

theorem required?_eq (table : Dictionary Json) (name : String) (read : Json → Option α) :
    required? table name read = (table.find? name).bind read := rfl

theorem defaulted?_of_find? {json : Json} (found : table.find? name = some json) (default : α)
    (read : Json → Option α) : defaulted? table name default read = read json := by
  rw [defaulted?, found]

theorem defaulted?_optional {o : Option α} {read : Json → Option α} {write : α → Json}
    (found : table.find? name = o.map write) (back : ∀ a, read (write a) = some a)
    (visible : ∀ a, write a ≠ .null) :
    defaulted? table name none (optional? read) = some o := by
  cases o with
  | none => rw [defaulted?, found, Option.map_none]
  | some a =>
    rw [defaulted?_of_find? found]
    exact optional?_ofOption back visible (some a)

end Fields

def present (fields : List (String × Option Json)) : Dictionary Json :=
  fields.filterMap fun field => field.2.map fun value => (field.1, value)

theorem mem_present {fields : List (String × Option Json)} {binding : String × Json}
    (member : binding ∈ present fields) : (binding.1, some binding.2) ∈ fields := by
  obtain ⟨⟨name, value⟩, inside, found⟩ := List.mem_filterMap.mp member
  obtain ⟨json, rfl, rfl⟩ := Option.map_eq_some_iff.mp found
  exact inside

section Objects
variable {fields : List (String × Option Json)}

private theorem find?_present (ordered : (fields.map (·.1)).Pairwise (· < ·)) :
    ∀ field ∈ fields, (present fields).find? field.1 = field.2 := by
  induction fields with
  | nil => simp
  | cons first rest ih =>
    obtain ⟨name, value⟩ := first
    obtain ⟨below, behind⟩ := List.pairwise_cons.mp ordered
    have above : ∀ field ∈ rest, name < field.1 := fun field member =>
      below field.1 (List.mem_map_of_mem member)
    intro field member
    rcases List.mem_cons.mp member with rfl | later
    · cases value with
      | none => exact Dictionary.find?_eq_none fun binding inside => (above _ (mem_present inside)).ne
      | some json => exact if_pos rfl
    · cases value with
      | none => exact ih behind field later
      | some json => exact (if_neg (above field later).ne').trans (ih behind field later)

/-- The table of an object that is written with these fields, with every field in its place. -/
theorem exists_fields? {json : Json} (written : json = .ofFields fields)
    (ordered : (fields.map (·.1)).Pairwise (· < ·)) (names : List String) :
    ∃ table, fields? names json = some table ∧
      ∀ field ∈ fields, Dictionary.find? table field.1 = field.2 := by
  subst written
  exact ⟨_, rfl, find?_present ordered⟩

theorem Regular.ofFields {depth : Nat} (shallow : depth + 1 < Draft.depthLimit)
    (ordered : (fields.map (·.1)).Pairwise (· < ·))
    (all : ∀ field ∈ fields, ∀ value ∈ field.2, Regular (depth + 1) value) :
    Regular depth (.ofFields fields) := by
  refine .object shallow (show Dictionary.Ordered (present fields) from ?_) ?_
  · refine List.Pairwise.filterMap _ ?_ (List.pairwise_map.mp ordered)
    intro first later below binding found other behind
    obtain ⟨json, -, rfl⟩ := Option.map_eq_some_iff.mp found
    obtain ⟨value, -, rfl⟩ := Option.map_eq_some_iff.mp behind
    exact below
  · exact fun binding member => all _ (mem_present member) binding.2 rfl

theorem Legible.ofFields (all : ∀ field ∈ fields, ∀ value ∈ field.2, Legible value) :
    Legible (.ofFields fields) :=
  .object fun _ member => all _ (mem_present member) _ rfl

end Objects

section Regular
variable {depth : Nat}

theorem regular_word (w : Int64) : Regular depth (.integer w.toInt) := by
  have low := w.le_toInt
  have high := w.toInt_lt
  have large : 0x8000000000000000 ≤ largestDigits := by decide
  exact .integer (by omega) (by omega)

theorem regular_map {α : Type} {write : α → Json} (shallow : depth + 1 < Draft.depthLimit)
    (regular : ∀ a, Regular (depth + 1) (write a)) (items : List α) :
    Regular depth (.list (items.map write)) := by
  refine .list shallow fun item member => ?_
  obtain ⟨a, -, rfl⟩ := List.mem_map.mp member
  exact regular a

theorem regular_ofOption {α : Type} {write : α → Json} (regular : ∀ a, Regular depth (write a))
    (o : Option α) : Regular depth (.ofOption (o.map write)) := by
  cases o with
  | none => exact .null
  | some a => exact regular a

end Regular

end PullQuery.Json
