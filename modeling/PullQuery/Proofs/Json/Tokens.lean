import PullQuery.Json.Draft
import PullQuery.Proofs.Json.Numbers
import Mathlib.Tactic.FinCases

/-! What a text of a value begins with is scanned as the token that was written: a word or bracket,
a quoted text, a number. Only a number needs something of what stands behind it. -/
namespace PullQuery.Json

open PullQuery.Number
open PullQuery.Text (StopsRun)

private theorem hexValue?_hexDigit {n : Nat} (fits : n < 16) : hexValue? (hexDigit n) = some n := by
  revert n
  decide

theorem scanText?_skip (passed rest : List Char) :
    scanText? passed.length (passed ++ rest) =
      (scanText? 0 rest).map fun (cs, width) => (cs, width + passed.length) := by
  induction passed with
  | nil => simp
  | cons c passed ih =>
    simp only [List.length_cons, List.cons_append, scanText?, ih, Option.map_map]
    rfl

/-- A character stands for itself behind what `text` puts in its place. -/
private def Stands (c : Char) (text : List Char) : Prop :=
  ∀ rest, scanText? 0 (text ++ rest) =
    (scanText? 0 rest).map fun (cs, width) => (cs.map (c :: ·), width + text.length)

private theorem stands_of_escape {c : Char} {escape : List Char}
    (scanned : ∀ rest, scanEscape? (escape ++ rest) = some (some c, escape.length)) :
    Stands c ('\\' :: escape) := by
  intro rest
  rw [List.cons_append, scanText?, if_neg (by decide), if_neg (by decide), if_pos rfl, scanned]
  simp only [scanText?_skip, Option.map_map]
  congr 1
  funext ⟨cs, width⟩
  cases cs <;> rfl

private theorem scanEscape?_letter {letter c : Char} (meant : unescape? letter = some c)
    (rest : List Char) :
    scanEscape? (letter :: rest) = some (some c, 1) := by
  have plain : letter ≠ 'u' := by
    rintro rfl
    simp [unescape?] at meant
  rw [scanEscape?, meant]
  · rfl
  · exact plain

private theorem scanEscape?_control {c : Char} (control : c.toNat < 32) (rest : List Char) :
    scanEscape? ('u' :: '0' :: '0' :: hexDigit (c.toNat / 16) :: hexDigit (c.toNat % 16) :: rest) =
      some (some c, 5) := by
  have zero : hexValue? '0' = some 0 := rfl
  have high := hexValue?_hexDigit (show c.toNat / 16 < 16 by omega)
  have low := hexValue?_hexDigit (show c.toNat % 16 < 16 by omega)
  have unit : c.toNat / 16 * 16 + c.toNat % 16 = c.toNat := by omega
  have plain : ¬ (0xd800 ≤ c.toNat ∧ c.toNat < 0xdc00) ∧ ¬ (0xdc00 ≤ c.toNat ∧ c.toNat < 0xe000) := by
    omega
  simp [scanEscape?, hexUnit?, zero, high, low, unit, plain, Char.ofNat_toNat]

private theorem stands_escapedChar (c : Char) : Stands c (escapedChar c) := by
  unfold escapedChar
  -- Seven characters have an escape of one letter; other controls are written in hexadecimal.
  iterate 7
    split
    · subst c
      exact stands_of_escape (scanEscape?_letter rfl)
  split
  · rename_i control
    exact stands_of_escape (scanEscape?_control control)
  · rename_i quote backslash _ _ _ _ _ printable
    intro rest
    simp [scanText?, quote, backslash, printable]

private theorem scanText?_quoted (cs rest : List Char) :
    scanText? 0 (cs.flatMap escapedChar ++ '"' :: rest) =
      some (some cs, (cs.flatMap escapedChar).length + 1) := by
  induction cs with
  | nil => simp [scanText?]
  | cons c cs ih =>
    rw [List.flatMap_cons, List.append_assoc, stands_escapedChar, ih]
    simp
    omega

private theorem isNumberPart_of_isBlank {c : Char} (blank : isBlank c = true) :
    isNumberPart c = false := by
  simp only [isBlank, Bool.or_eq_true, beq_iff_eq] at blank
  rcases blank with ((rfl | rfl) | rfl) | rfl <;> rfl

theorem stops_blanks {blanks rest : List Char} (blank : ∀ c ∈ blanks, isBlank c = true)
    (stops : StopsRun isNumberPart rest) : StopsRun isNumberPart (blanks ++ rest) := by
  cases blanks with
  | nil => exact stops
  | cons c blanks =>
    rintro d ⟨⟩
    exact isNumberPart_of_isBlank (blank c (.head _))

def TokenStream.after (token : Token) (stream : TokenStream) : TokenStream :=
  ⟨token :: stream.tokens, stream.whole⟩

private theorem streamFrom_skip (passed rest : List Char) :
    streamFrom passed.length (passed ++ rest) = streamFrom 0 rest := by
  induction passed with
  | nil => rfl
  | cons c passed ih => exact ih

theorem streamFrom_blank {c : Char} (blank : isBlank c = true) (rest : List Char) :
    streamFrom 0 (c :: rest) = streamFrom 0 rest := by
  rw [streamFrom, if_pos blank]

theorem streamFrom_token {c : Char} {cs rest : List Char} {token : Token}
    (visible : isBlank c = false) (scanned : scan? c (cs ++ rest) = some (token, cs.length + 1)) :
    streamFrom 0 (c :: cs ++ rest) = (streamFrom 0 rest).after token := by
  rw [List.cons_append, streamFrom, if_neg (by simp [visible]), scanned]
  simp only [Nat.add_sub_cancel, streamFrom_skip]
  rfl

theorem streamFrom_symbol {spelling : List Char} {token : Token}
    (known : (spelling, token) ∈ symbols) (rest : List Char) :
    streamFrom 0 (spelling ++ rest) = (streamFrom 0 rest).after token := by
  fin_cases known <;> exact streamFrom_token rfl rfl

theorem streamFrom_quoted (s : String) (rest : List Char) :
    streamFrom 0 (quoted s ++ rest) = (streamFrom 0 rest).after (.text (some s)) := by
  have scanned : scan? '"' (s.toList.flatMap escapedChar ++ ['"'] ++ rest) =
      some (.text (some s), (s.toList.flatMap escapedChar ++ ['"']).length + 1) := by
    have text := scanText?_quoted s.toList rest
    simp [scan?, symbols, text]
  exact streamFrom_token rfl scanned

private theorem scan?_number {c : Char} (first : c.isDigit = true ∨ c = '-') (rest : List Char) :
    scan? c rest = (scanNumber? (c :: rest)).map fun (n, width) => (.number n, width) := by
  have unknown : symbols.find? (fun symbol => symbol.1.isPrefixOf (c :: rest)) = none := by
    rw [List.find?_eq_none]
    intro symbol known
    fin_cases known <;> simp [List.isPrefixOf] <;> rintro rfl <;> simp at first
  have unquoted : c ≠ '"' := by
    rintro rfl
    simp at first
  rw [scan?, unknown]
  simp [unquoted, first]

theorem NumberText.streamFrom {parts : NumberParts} {source rest : List Char}
    (written : NumberText parts source) (ends : StopsRun isNumberPart rest) :
    streamFrom 0 (source ++ rest) = (streamFrom 0 rest).after (.number parts.value?) := by
  have scanned := written.scanNumber? ends
  obtain ⟨c, cs, rfl, first⟩ := written.exists_cons
  have visible : isBlank c = false := by
    rw [Bool.eq_false_iff]
    intro blank
    simp only [isBlank, Bool.or_eq_true, beq_iff_eq] at blank
    rcases blank with ((rfl | rfl) | rfl) | rfl <;> simp at first
  refine streamFrom_token visible ?_
  rw [scan?_number first, ← List.cons_append, scanned]
  rfl

theorem streamFrom_intDigits {n : Int} (low : -0x8000000000000000 ≤ n) (high : n ≤ largestDigits)
    {rest : List Char} (ends : StopsRun isNumberPart rest) :
    streamFrom 0 (intDigits n ++ rest) = (streamFrom 0 rest).after (.number (some (.integer n))) := by
  rw [(numberText_intDigits n).streamFrom ends, value?_intDigits low high]

end PullQuery.Json
