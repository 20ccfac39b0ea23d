/-! Lists in order: sorting that keeps the order of elements of which neither comes first, and tables
from names to values in the order of the names' code points. Sorting inserts one element after the
other, so that what holds of insertion carries over by induction. -/
namespace PullQuery.Data

/-- Puts an element before the first one that does not come strictly before it. -/
def insertOrdered {α : Type} (comesFirst : α → α → Bool) (a : α) : List α → List α
  | [] => [a]
  | b :: rest => if comesFirst b a then b :: insertOrdered comesFirst a rest else a :: b :: rest

/-- The elements in the order of `comesFirst`, equals in their given order. -/
def stableSort {α : Type} (comesFirst : α → α → Bool) (items : List α) : List α :=
  items.foldr (insertOrdered comesFirst) []

theorem insertOrdered_perm {α : Type} (comesFirst : α → α → Bool) (a : α) (items : List α) :
    (insertOrdered comesFirst a items).Perm (a :: items) := by
  induction items with
  | nil => exact .refl _
  | cons b rest ih =>
    unfold insertOrdered
    split
    · exact (ih.cons b).trans (.swap a b rest)
    · exact .refl _

theorem stableSort_perm {α : Type} (comesFirst : α → α → Bool) (items : List α) :
    (stableSort comesFirst items).Perm items := by
  induction items with
  | nil => exact .refl _
  | cons a rest ih => exact (insertOrdered_perm comesFirst a _).trans (ih.cons a)

/-- Bindings in increasing order of their names. -/
abbrev Dictionary (α : Type) := List (String × α)

namespace Dictionary

variable {α : Type}

def find? : Dictionary α → String → Option α
  | [], _ => none
  | (key, value) :: rest, name => if name = key then some value else find? rest name

def insert : Dictionary α → String → α → Dictionary α
  | [], name, value => [(name, value)]
  | (key, old) :: rest, name, value =>
    if name = key then (name, value) :: rest
    else if name < key then (name, value) :: (key, old) :: rest
    else (key, old) :: insert rest name value

def erase : Dictionary α → String → Dictionary α
  | [], _ => []
  | (key, value) :: rest, name =>
    if name = key then erase rest name else (key, value) :: erase rest name

def ofList (bindings : List (String × α)) : Dictionary α :=
  bindings.foldl (fun table binding => table.insert binding.1 binding.2) []

theorem find?_insert (table : Dictionary α) (name other : String) (value : α) :
    (table.insert name value).find? other =
      if other = name then some value else table.find? other := by
  induction table with
  | nil => simp [insert, find?]
  | cons binding rest ih =>
    obtain ⟨key, old⟩ := binding
    by_cases same : name = key
    · subst same
      by_cases hit : other = name <;> simp [insert, find?, hit]
    · by_cases before : name < key
      · by_cases hit : other = name <;> simp [insert, find?, same, before, hit]
      · by_cases hit : other = key
        · have differs : other ≠ name := fun equal => same (equal ▸ hit)
          simp [insert, find?, same, before, hit, Ne.symm same]
        · simp [insert, find?, same, before, hit, ih]

theorem find?_erase (table : Dictionary α) (name other : String) :
    (table.erase name).find? other = if other = name then none else table.find? other := by
  induction table with
  | nil => simp [erase, find?]
  | cons binding rest ih =>
    obtain ⟨key, old⟩ := binding
    by_cases same : name = key
    · subst same
      simp only [erase, if_true, ih, find?]
      by_cases hit : other = name <;> simp [hit]
    · by_cases hit : other = key
      · simp [erase, find?, same, hit, Ne.symm same]
      · simp [erase, find?, same, hit, ih]

end Dictionary

end PullQuery.Data
