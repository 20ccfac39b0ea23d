import PullQuery.Data.Ordered
import Mathlib.Data.List.Sort
import Mathlib.Data.String.Basic

/-! Tables built from bindings have each name once, in the order of the names. -/
namespace PullQuery.Data.Dictionary
variable {α : Type}

def Ordered (table : Dictionary α) : Prop := table.Pairwise fun first later => first.1 < later.1

theorem mem_insert {table : Dictionary α} {name : String} {value : α} {binding : String × α}
    (member : binding ∈ table.insert name value) : binding = (name, value) ∨ binding ∈ table := by
  induction table with
  | nil => exact .inl (by simpa [insert] using member)
  | cons first rest ih =>
    obtain ⟨key, old⟩ := first
    rw [insert] at member
    split at member
    · rcases List.mem_cons.mp member with rfl | later
      · exact .inl rfl
      · exact .inr (.tail _ later)
    · split at member
      · exact List.mem_cons.mp member
      · rcases List.mem_cons.mp member with rfl | later
        · exact .inr (.head _)
        · exact (ih later).imp_right (.tail _)

theorem Ordered.insert {table : Dictionary α} (ordered : table.Ordered) (name : String) (value : α) :
    (table.insert name value).Ordered := by
  induction table with
  | nil => exact List.pairwise_singleton _ _
  | cons first rest ih =>
    obtain ⟨key, old⟩ := first
    obtain ⟨below, behind⟩ := List.pairwise_cons.mp ordered
    rw [Dictionary.insert]
    split
    · rename_i same
      exact .cons (fun later member => same ▸ below later member) behind
    · rename_i other
      split
      · rename_i before
        refine .cons ?_ ordered
        intro later member
        rcases List.mem_cons.mp member with rfl | inside
        · exact before
        · exact before.trans (below later inside)
      · rename_i behindKey
        refine .cons ?_ (ih behind)
        intro later member
        rcases mem_insert member with rfl | inside
        · exact lt_of_le_of_ne (not_lt.mp behindKey) (Ne.symm other)
        · exact below later inside

private theorem erase_sublist (table : Dictionary α) (name : String) :
    (table.erase name).Sublist table := by
  induction table with
  | nil => exact .slnil
  | cons first rest ih =>
    rw [Dictionary.erase]
    split
    · exact ih.cons _
    · exact ih.cons_cons _

theorem Ordered.erase {table : Dictionary α} (ordered : table.Ordered) (name : String) :
    (table.erase name).Ordered := ordered.sublist (erase_sublist table name)

theorem ofList_spec (bindings : List (String × α)) :
    (ofList bindings).Ordered ∧ ∀ binding ∈ ofList bindings, binding ∈ bindings := by
  suffices all : ∀ table : Dictionary α, table.Ordered →
      let built := bindings.foldl (fun table binding => table.insert binding.1 binding.2) table
      built.Ordered ∧ ∀ binding ∈ built, binding ∈ table ∨ binding ∈ bindings by
    obtain ⟨ordered, made⟩ := all [] .nil
    exact ⟨ordered, fun binding member => (made binding member).resolve_left (by simp)⟩
  induction bindings with
  | nil => exact fun table ordered => ⟨ordered, fun _ member => .inl member⟩
  | cons first rest ih =>
    intro table ordered
    obtain ⟨built, made⟩ := ih (table.insert first.1 first.2) (ordered.insert _ _)
    refine ⟨built, fun binding member => ?_⟩
    rcases made binding member with before | later
    · rcases mem_insert before with rfl | inside
      · exact .inr (.head _)
      · exact .inl inside
    · exact .inr (.tail _ later)

theorem Ordered.nodup {table : Dictionary α} (ordered : table.Ordered) :
    (table.map (·.1)).Nodup := by
  rw [List.nodup_iff_pairwise_ne, List.pairwise_map]
  exact ordered.imp fun below => ne_of_lt below

theorem find?_eq_none {table : Dictionary α} {name : String}
    (other : ∀ binding ∈ table, name ≠ binding.1) : table.find? name = none := by
  induction table with
  | nil => rfl
  | cons first rest ih =>
    obtain ⟨key, value⟩ := first
    rw [find?, if_neg (other _ (.head _)), ih fun binding member => other binding (.tail _ member)]

theorem Ordered.mem_iff {table : Dictionary α} (ordered : table.Ordered) {name : String} {value : α} :
    (name, value) ∈ table ↔ table.find? name = some value := by
  induction table with
  | nil => simp [find?]
  | cons first rest ih =>
    obtain ⟨key, old⟩ := first
    obtain ⟨below, behind⟩ := List.pairwise_cons.mp ordered
    rw [List.mem_cons, ih behind, find?]
    split
    · rename_i same
      subst same
      have none : Dictionary.find? rest name = none :=
        find?_eq_none fun later member => ne_of_lt (below later member)
      simp [none, eq_comm]
    · rename_i other
      simp [other]

/-- A table is determined by what it binds each name to. -/
theorem Ordered.ext {first second : Dictionary α} (ordered : first.Ordered) (other : second.Ordered)
    (same : ∀ name, first.find? name = second.find? name) : first = second := by
  have antisymm : Std.Antisymm fun a b : String × α => a.1 < b.1 :=
    ⟨fun a b below above => absurd above (lt_asymm below)⟩
  have irrefl : Std.Irrefl fun a b : String × α => a.1 < b.1 := ⟨fun a => lt_irrefl a.1⟩
  refine ordered.eq_of_mem_iff other fun binding => ?_
  rw [ordered.mem_iff, other.mem_iff, same]

theorem insert_eq_append {table : Dictionary α} {name : String}
    (below : ∀ binding ∈ table, binding.1 < name) (value : α) :
    table.insert name value = table ++ [(name, value)] := by
  induction table with
  | nil => rfl
  | cons first rest ih =>
    obtain ⟨key, old⟩ := first
    have before : key < name := below (key, old) (.head _)
    rw [insert, if_neg (ne_of_gt before), if_neg (lt_asymm before)]
    rw [ih fun binding member => below binding (.tail _ member), List.cons_append]

theorem Ordered.ofList_eq {table : Dictionary α} (ordered : table.Ordered) : ofList table = table := by
  suffices all : ∀ before : Dictionary α, Ordered (before ++ table) →
      table.foldl (fun table binding => table.insert binding.1 binding.2) before = before ++ table by
    exact all [] ordered
  induction table with
  | nil => exact fun before _ => (List.append_nil before).symm
  | cons first rest ih =>
    intro before sorted
    have below : ∀ binding ∈ before, binding.1 < first.1 := fun binding member =>
      (List.pairwise_append.mp sorted).2.2 binding member first (.head _)
    rw [List.foldl_cons, insert_eq_append below]
    rw [ih ordered.of_cons _ (by simpa using sorted)]
    simp

end PullQuery.Data.Dictionary
