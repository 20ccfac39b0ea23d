import PullQuery.Value.Equality
import Mathlib

/-! Loose membership as a relation between two values. A value is among others if it goes with one of
them, and two values go together whichever of them is looked for. -/
namespace PullQuery

namespace Number
open Float.Model

theorem compare_eq_comm (x y : UnpackedFloat) :
    x.compare y = some .eq ↔ y.compare x = some .eq := by
  rcases x with (_ | _) | _ | (_ | _) | ⟨_ | _⟩ <;> rcases y with (_ | _) | _ | (_ | _) | ⟨_ | _⟩ <;>
    simp [UnpackedFloat.compare, @eq_comm ℤ, @eq_comm ℕ]

/-- This holds of what is no number and of the two zeros too. -/
theorem float_beq_comm (x y : Float) : (x == y) = (y == x) := by
  have same := compare_eq_comm x.toModel.unpack y.toModel.unpack
  change (UnpackedFloat.compare _ _ == some .eq) = (UnpackedFloat.compare _ _ == some .eq)
  rw [Bool.eq_iff_iff, beq_iff_eq, beq_iff_eq, same]

end Number

theorem any_any_comm {α β : Type} (xs : List α) (ys : List β) (p : α → β → Bool) :
    (xs.any fun x => ys.any fun y => p x y) = ys.any fun y => xs.any fun x => p x y := by
  apply Bool.eq_iff_iff.mpr
  simp only [List.any_eq_true]
  constructor
  · rintro ⟨x, inside, y, member, holds⟩
    exact ⟨y, member, x, inside, holds⟩
  · rintro ⟨y, member, x, inside, holds⟩
    exact ⟨x, inside, y, member, holds⟩

namespace Value

mutual

theorem same_comm (x y : Value) : x.same y = y.same x := by
  match x with
  | .null => cases y <;> rfl
  | .boolean a => cases y with
    | boolean b => exact Bool.beq_comm
    | _ => rfl
  | .integer m => cases y with
    | integer n => exact Bool.beq_comm
    | _ => rfl
  | .float x => cases y with
    | float y => exact Number.float_beq_comm x y
    | _ => rfl
  | .text s => cases y with
    | text t => exact Bool.beq_comm
    | _ => rfl
  | .instant t => cases y with
    | instant u => exact Bool.beq_comm
    | _ => rfl
  | .list xs => cases y with
    | list ys => exact listSame_comm xs ys
    | _ => rfl

theorem listSame_comm (xs ys : List Value) : listSame xs ys = listSame ys xs := by
  match xs, ys with
  | [], [] | [], _ :: _ | _ :: _, [] => rfl
  | x :: xs, y :: ys => rw [listSame, listSame, same_comm x y, listSame_comm xs ys]

end

theorem isNull_iff {value : Value} : value.isNull = true ↔ value = .null := by
  cases value <;> simp [isNull]

/-- A value is among others if it is among one of them alone. -/
theorem isAmong_eq_any (needle : Value) (haystack : List Value) :
    needle.isAmong haystack = haystack.any fun value => needle.isAmong [value] := by
  unfold isAmong
  cases needle.isNull <;> simp

/-- Which of two values is looked for does not matter. -/
theorem isAmong_comm (x y : Value) : x.isAmong [y] = y.isAmong [x] := by
  have texts : (y.folded == x.folded) = (x.folded == y.folded) := Bool.beq_comm
  cases isNull : x.isNull with
  | true =>
    obtain rfl := isNull_iff.mp isNull
    cases y <;> rfl
  | false =>
    cases other : y.isNull with
    | true =>
      obtain rfl := isNull_iff.mp other
      cases x <;> rfl
    | false => simp [isAmong, isNull, other, same_comm x y, texts]

end Value
end PullQuery
