import PullQuery.Proofs.Text.LowerCase
import PullQuery.Proofs.Time.LetterCase
import PullQuery.Query.Evaluation
import Mathlib.Data.List.Forall2

/-! Values to the right of a comparison. Equality, membership and containment look at a text on their
right in small letters or as a time, and neither depends on the letter case it is written in. -/
namespace PullQuery.Value
open Text Time

/-- The same value, or two texts with the same lower case. -/
inductive ItemRecased : Value → Value → Prop
  | same (value : Value) : ItemRecased value value
  | text {s t : String} (folded : lower s = lower t) : ItemRecased (.text s) (.text t)

/-- The same but for the letter case of a text, or of the texts in a list. -/
inductive Recased : Value → Value → Prop
  | item {value other : Value} (recased : ItemRecased value other) : Recased value other
  | list {items others : List Value} (each : List.Forall₂ ItemRecased items others) :
      Recased (.list items) (.list others)

section Items
variable {value other : Value} {items others : List Value}

private theorem ItemRecased.equals (recased : ItemRecased value other) (left : Value) :
    left.equals value = left.equals other := by
  cases recased with
  | same => rfl
  | text folded =>
    cases left with
    | text s => rw [Value.equals, Value.equals, sameFolded, sameFolded, folded]
    | instant t => rw [Value.equals, Value.equals, readInstant?_of_lower folded]
    | null | boolean _ | integer _ | float _ | list _ => rfl

private theorem ItemRecased.folded (recased : ItemRecased value other) :
    value.folded = other.folded := by
  cases recased with
  | same => rfl
  | text folded => exact folded

private theorem forall₂_same (values : List Value) : List.Forall₂ ItemRecased values values :=
  List.forall₂_same.mpr fun value _ => .same value

private theorem listEquals_congr (each : List.Forall₂ ItemRecased items others)
    (left : List Value) :
    listEquals left items = listEquals left others := by
  induction each generalizing left with
  | nil => rfl
  | cons recased _ ih =>
    cases left with
    | nil => rfl
    | cons first left => rw [listEquals, listEquals, recased.equals, ih]

private theorem any_equals_congr (each : List.Forall₂ ItemRecased items others) (left : Value) :
    (items.any fun item => left.equals item) = others.any fun item => left.equals item := by
  induction each with
  | nil => rfl
  | cons recased _ ih => rw [List.any_cons, List.any_cons, recased.equals, ih]

private theorem lower_comma (s t : String) : lower (s ++ "," ++ t) = lower s ++ "," ++ lower t := by
  have letters : (s ++ "," ++ t).toList = s.toList ++ ',' :: t.toList := by simp
  rw [lower, letters, lowerAfter_comma, lower, lower]
  apply String.toList_injective
  simp

theorem lower_asTexts_congr (each : List.Forall₂ ItemRecased items others) :
    lower (asTexts items) = lower (asTexts others) := by
  induction each with
  | nil => rfl
  | cons recased behind ih =>
    cases behind with
    | nil => exact recased.folded
    | cons _ _ =>
      rw [asTexts_cons_cons, asTexts_cons_cons, lower_comma, lower_comma, ih]
      exact congrArg (· ++ "," ++ _) recased.folded

end Items

namespace Recased
variable {value other : Value}

private theorem equals (recased : Recased value other) (left : Value) :
    left.equals value = left.equals other := by
  cases recased with
  | item recased => exact recased.equals left
  | list each =>
    cases left with
    | list left => exact listEquals_congr each left
    | null | boolean _ | integer _ | float _ | text _ | instant _ => rfl

theorem items (recased : Recased value other) :
    List.Forall₂ ItemRecased value.items other.items := by
  cases recased with
  | item recased =>
    cases recased with
    | same => exact forall₂_same _
    | text folded => exact .cons (.text folded) .nil
  | list each => exact each

theorem unwrapped (recased : Recased value other) : Recased value.unwrapped other.unwrapped := by
  cases recased with
  | item recased =>
    cases recased with
    | same => exact .item (.same _)
    | text folded => exact .item (.text folded)
  | list each =>
    cases each with
    | nil => exact .list .nil
    | cons recased behind =>
      cases behind with
      | nil => exact .item recased
      | cons next behind => exact .list (.cons recased (.cons next behind))

private theorem isNull (recased : Recased value other) : value.isNull = other.isNull := by
  obtain ⟨⟨_⟩ | _⟩ | _ := recased <;> rfl

private theorem folded (recased : Recased value other) : value.folded = other.folded := by
  cases recased with
  | item recased => exact recased.folded
  | list each => exact lower_asTexts_congr each

theorem equal (recased : Recased value other) (left : Value) :
    Query.equal left value = Query.equal left other := by
  unfold Query.equal
  split <;> simp only [recased.equals]

theorem sharesItem (recased : Recased value other) (left : Value) :
    Query.sharesItem left value = Query.sharesItem left other := by
  unfold Query.sharesItem
  simp only [any_equals_congr recased.items]

theorem contains (recased : Recased value other) (left : Value) :
    left.contains value = left.contains other := by
  rw [Value.contains, Value.contains, recased.isNull, recased.folded]

end Recased

theorem flatMap_items {values others : List Value} (each : List.Forall₂ Recased values others) :
    List.Forall₂ ItemRecased (values.flatMap items) (others.flatMap items) := by
  induction each with
  | nil => exact .nil
  | cons recased _ ih =>
    rw [List.flatMap_cons, List.flatMap_cons]
    exact List.rel_append recased.items ih

end PullQuery.Value
