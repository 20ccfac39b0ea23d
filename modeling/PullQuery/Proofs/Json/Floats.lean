import PullQuery.Proofs.Json.Reading

/-! Floats in documents. The text of a float has a point or an exponent, so that a reader never takes it
for an integer: where the number that is read has the value of the float, it is the float. -/
namespace PullQuery.Json

open PullQuery.Number
open PullQuery.Text (StopsRun)

def Number.toFloat : Number → Float
  | integer n => Float.ofInt n
  | float x => x

def number? (cs : List Char) : Option Number :=
  match scanNumber? cs with
  | some (n, width) => if width = cs.length then n else none
  | none => none

/-- The text of a float is a number, and it has the value of the float. -/
def ReadsBack (x : Float) : Prop := (number? (documentText x).toList).map Number.toFloat = some x

instance (x : Float) : Decidable (ReadsBack x) :=
  inferInstanceAs (Decidable ((number? (documentText x).toList).map Number.toFloat = some x))

private theorem numberText_of_number? {cs : List Char} {n : Number} (read : number? cs = some n) :
    ∃ parts : NumberParts, NumberText parts cs ∧ parts.value? = some n := by
  unfold number? at read
  split at read
  · rename_i m width scanned
    obtain ⟨parts, source, after, rfl, rfl, rfl, written⟩ := numberText_of_scanNumber? scanned
    split at read
    · rename_i whole
      obtain rfl : after = [] := by simpa using whole
      rw [List.append_nil]
      exact ⟨parts, written, read⟩
    · simp at read
  · simp at read

/-- What has a fraction or an exponent is read as a float. -/
theorem NumberParts.value?_integer {parts : NumberParts} {n : Int}
    (read : parts.value? = some (.integer n)) : parts.fraction = none ∧ parts.exponent = none := by
  obtain ⟨negative, whole, fraction, exponent⟩ := parts
  cases fraction <;> cases exponent
  · exact ⟨rfl, rfl⟩
  all_goals
    simp only [value?] at read
    split at read
    · split at read <;> simp at read
    · simp at read

theorem NumberText.plain {parts : NumberParts} {source : List Char} (written : NumberText parts source)
    (whole : parts.fraction = none) (unscaled : parts.exponent = none) :
    '.' ∉ source ∧ 'e' ∉ source := by
  obtain @⟨negative, digits, point, mark, _, _, isDigits, _, decimals, scale⟩ := written
  cases whole
  cases unscaled
  cases decimals
  cases scale
  have digit (c : Char) (other : c.isDigit = false) : c ∉ digits := by
    intro inside
    simp [isDigits.all c inside] at other
  cases negative with
  | true => simp [digit '.' rfl, digit 'e' rfl]
  | false => simp [digit '.' rfl, digit 'e' rfl]

private theorem point_mem_positional {digits : List Char} {exponent : Int} (low : exponent < 0) :
    '.' ∈ positional digits exponent := by
  rw [positional, if_neg (by omega)]
  dsimp only
  split <;> simp

theorem marked_documentText {x : Float} (reads : ReadsBack x) :
    '.' ∈ (documentText x).toList ∨ 'e' ∈ (documentText x).toList := by
  have absent : number? ['n', 'u', 'l', 'l'] = none := by decide
  have signed {magnitude : List Char} (negative : Bool) (marked : '.' ∈ magnitude ∨ 'e' ∈ magnitude) :
      '.' ∈ (if negative then '-' :: magnitude else magnitude) ∨
        'e' ∈ (if negative then '-' :: magnitude else magnitude) := by
    cases negative with
    | true => simpa using marked
    | false => exact marked
  cases bits : Binary64.ofFloat x with
  | nan => simp [ReadsBack, documentText, bits, absent] at reads
  | infinite negative => simp [ReadsBack, documentText, bits, absent] at reads
  | finite negative mantissa exponent =>
    simp only [documentText, bits, String.toList_ofList]
    refine signed negative ?_
    split
    · simp
    · split
      · split
        · simp
        · exact .inl (List.mem_append_left _ (point_mem_positional (by omega)))
      · simp

theorem legible_float {x : Float} (reads : ReadsBack x) : Legible (.float x) := by
  obtain ⟨n, read, same⟩ := Option.map_eq_some_iff.mp reads
  obtain ⟨parts, written, value⟩ := numberText_of_number? read
  obtain rfl : n = .float x := by
    cases n with
    | float y => exact congrArg Number.float same
    | integer n =>
      obtain ⟨whole, unscaled⟩ := NumberParts.value?_integer value
      obtain ⟨noPoint, noMark⟩ := written.plain whole unscaled
      exact absurd (marked_documentText reads) (not_or.mpr ⟨noPoint, noMark⟩)
  refine .float fun rest ends => ?_
  rw [written.streamFrom ends, value]

end PullQuery.Json
