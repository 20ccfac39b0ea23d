import PullQuery.Proofs.Value.Membership
import Mathlib.Data.List.Forall2

/-! The equality of values as a relation. It does not matter which of two values stands first, lists are
equal if their items are, one by one, and a value is equal to itself unless something in it is no number. -/
namespace PullQuery

namespace Number
open Float.Model

theorem compare_self {x : UnpackedFloat} : x.compare x = some .eq ↔ x.isNaN = false := by
  cases x with
  | notANumber => simp [UnpackedFloat.compare, UnpackedFloat.isNaN]
  | infinity sign | zero sign => cases sign <;> exact iff_of_true rfl rfl
  | finite sign => cases sign <;> simp [UnpackedFloat.compare, UnpackedFloat.isNaN]

theorem float_beq_self {x : Float} : (x == x) = true ↔ x.isNaN = false := by
  change (x.toModel.unpack.compare x.toModel.unpack == some .eq) = true ↔ x.toModel.unpack.isNaN = false
  rw [beq_iff_eq, compare_self]

end Number

namespace Value
open Text

mutual

theorem equals_comm (x y : Value) : x.equals y = y.equals x := by
  match x with
  | .null => cases y <;> rfl
  | .boolean a => cases y with
    | boolean b => exact Bool.beq_comm
    | _ => rfl
  | .integer m => cases y with
    | integer n => exact Bool.beq_comm
    | float y => exact Number.float_beq_comm _ y
    | _ => rfl
  | .float x => cases y with
    | integer n => exact Number.float_beq_comm x _
    | float y => exact Number.float_beq_comm x y
    | _ => rfl
  | .text s => cases y with
    | text t => exact Bool.beq_comm
    | _ => rfl
  | .instant t => cases y with
    | instant u => exact Bool.beq_comm
    | _ => rfl
  | .list xs => cases y with
    | list ys => exact listEquals_comm xs ys
    | _ => rfl

theorem listEquals_comm (xs ys : List Value) : listEquals xs ys = listEquals ys xs := by
  match xs, ys with
  | [], [] | [], _ :: _ | _ :: _, [] => rfl
  | x :: xs, y :: ys => rw [listEquals, listEquals, equals_comm x y, listEquals_comm xs ys]

end

private theorem listEquals_iff_forall₂ {xs ys : List Value} :
    listEquals xs ys = true ↔ List.Forall₂ (fun x y => x.equals y = true) xs ys := by
  induction xs generalizing ys with
  | nil => cases ys <;> simp [listEquals]
  | cons x xs ih => cases ys <;> simp [listEquals, ih]

/-- The values that a value is made of: itself and, in a list, those that its items are made of. -/
inductive OccursIn (part : Value) : Value → Prop
  | whole : OccursIn part part
  | item {item : Value} {items : List Value} (member : item ∈ items) (inside : OccursIn part item) :
      OccursIn part (.list items)

def IsNaNFree (value : Value) : Prop := ∀ x, OccursIn (.float x) value → x.isNaN = false

private theorem isNaNFree_float {x : Float} : IsNaNFree (.float x) ↔ x.isNaN = false := by
  constructor
  · exact fun free => free x .whole
  · intro number y occurs
    cases occurs
    exact number

private theorem isNaNFree_list {items : List Value} :
    IsNaNFree (.list items) ↔ ∀ item ∈ items, IsNaNFree item := by
  constructor
  · exact fun free item member x inside => free x (.item member inside)
  · intro free x occurs
    cases occurs with
    | item member inside => exact free _ member x inside

mutual

theorem equals_self (value : Value) : value.equals value = true ↔ IsNaNFree value := by
  match value with
  | .float x => exact Number.float_beq_self.trans isNaNFree_float.symm
  | .list items => exact (listEquals_self items).trans isNaNFree_list.symm
  | .null | .boolean _ | .integer _ | .text _ | .instant _ =>
    refine iff_of_true (by simp [equals, sameFolded]) ?_
    intro x occurs
    cases occurs

theorem listEquals_self (items : List Value) :
    listEquals items items = true ↔ ∀ item ∈ items, IsNaNFree item := by
  match items with
  | [] => simp [listEquals]
  | item :: items =>
    rw [listEquals, Bool.and_eq_true, equals_self item, listEquals_self items, List.forall_mem_cons]

end

/-- Equality is symmetric, a value is equal to itself exactly if there is no NaN anywhere in it, and lists
are equal exactly if they are of one length and equal position by position. -/
theorem equality_is_symmetric_and_nearly_reflexive :
    (∀ a b : Value, a.equals b = b.equals a) ∧
      (∀ a : Value, a.equals a = true ↔ ∀ x, OccursIn (.float x) a → x.isNaN = false) ∧
      ∀ xs ys : List Value, (list xs).equals (list ys) = true ↔
        xs.length = ys.length ∧
          ∀ (i : Nat) (first : i < xs.length) (second : i < ys.length), xs[i].equals ys[i] = true :=
  ⟨equals_comm, equals_self, fun _ _ => listEquals_iff_forall₂.trans List.forall₂_iff_get⟩

theorem equality_is_symmetric_and_nearly_reflexive_nested :
    let nan : Float := 0 / 0
    let deep := list [text "ẞ", list [integer 2, list [float nan]], null]
    let xs := [text "OPEN", integer 3, instant .epoch, list [boolean true, float 0]]
    let ys := [text "open", integer 3, text "1970-01-01", list [boolean true, float (-0)]]
    (OccursIn (.float nan) deep ∧ nan.isNaN = true) ∧ deep.equals deep = false ∧
      (list xs).equals (list ys) = true ∧ (list ys).equals (list xs) = true ∧
        (instant .epoch).equals (text "1970-01-01") = true := by
  intro nan deep xs ys
  obtain ⟨symmetric, reflexive, listwise⟩ := equality_is_symmetric_and_nearly_reflexive
  have occurs : OccursIn (.float nan) deep :=
    .item (.tail _ (.head _)) (.item (.tail _ (.head _)) (.item (.head _) .whole))
  have noNumber : nan.isNaN = true := by decide +kernel
  have equal : (list xs).equals (list ys) = true := by decide +kernel
  refine ⟨⟨occurs, noNumber⟩, ?_, equal, symmetric _ _ ▸ equal, ?_⟩
  · refine Bool.eq_false_iff.mpr fun same => ?_
    have number := (reflexive deep).mp same nan occurs
    rw [noNumber] at number
    contradiction
  · exact ((listwise xs ys).mp equal).2 2 (by decide) (by decide)

end Value
end PullQuery
