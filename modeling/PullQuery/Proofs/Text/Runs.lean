import PullQuery.Text.Character
import PullQuery.Text.Quoted
import Mathlib.Data.List.TakeWhile

/-! Runs of characters of one class at the front of a text, and which of the classes that readers
use have no character in common. -/
namespace PullQuery.Text

def StopsRun (p : Char → Bool) (cs : List Char) : Prop := ∀ c ∈ cs.head?, p c = false

theorem run_split {p : Char → Bool} {run rest : List Char} (all : ∀ c ∈ run, p c = true)
    (stops : StopsRun p rest) :
    (run ++ rest).takeWhile p = run ∧ (run ++ rest).dropWhile p = rest := by
  rw [List.takeWhile_append_of_pos all, List.dropWhile_append_of_pos all]
  cases rest with
  | nil => simp
  | cons c rest =>
    have ends : p c = false := stops c rfl
    simp [ends]

theorem StopsRun.ne_cons {p : Char → Bool} {rest : List Char} (stops : StopsRun p rest) {c : Char}
    (inside : p c = true) (more : List Char) : rest ≠ c :: more := by
  rintro rfl
  simp [stops c rfl] at inside

theorem run_ne_cons {p : Char → Bool} {run : List Char} (some : run ≠ [])
    (all : ∀ c ∈ run, p c = true) {c : Char} (outside : p c = false) (rest more : List Char) :
    run ++ rest ≠ c :: more := by
  obtain ⟨d, behind, rfl⟩ := List.exists_cons_of_ne_nil some
  rintro same
  obtain rfl : d = c := (List.cons.inj same).1
  simp [all d (.head _)] at outside

theorem exists_run (p : Char → Bool) (cs : List Char) :
    ∃ run rest, cs = run ++ rest ∧ (∀ c ∈ run, p c = true) ∧ StopsRun p rest := by
  refine ⟨cs.takeWhile p, cs.dropWhile p, List.takeWhile_append_dropWhile.symm, ?_, ?_⟩
  · intro c member
    exact List.mem_takeWhile_imp member
  · induction cs with
    | nil => simp [StopsRun]
    | cons c cs ih =>
      by_cases holds : p c = true
      · rwa [List.dropWhile_cons_of_pos holds]
      · rw [List.dropWhile_cons_of_neg holds]
        simpa [StopsRun] using holds

theorem run_unique {p : Char → Bool} {run rest other left : List Char}
    (same : run ++ rest = other ++ left) (all : ∀ c ∈ run, p c = true) (stops : StopsRun p rest)
    (others : ∀ c ∈ other, p c = true) (ends : StopsRun p left) : run = other ∧ rest = left := by
  have first := run_split all stops
  rw [same] at first
  have second := run_split others ends
  exact ⟨first.1.symm.trans second.1, first.2.symm.trans second.2⟩

def RangeTable.avoids (table other : RangeTable) : Bool :=
  table.all fun range =>
    (List.range' range.1 (range.2 + 1 - range.1)).all fun code => !other.holds code

theorem RangeTable.holds_eq_false_of_avoids {table other : RangeTable} {code : Nat}
    (apart : table.avoids other = true) (inside : table.holds code = true) :
    other.holds code = false := by
  obtain ⟨range, member, low, high⟩ := RangeTable.exists_of_holds inside
  have checked := List.all_eq_true.mp apart range member
  have listed : code ∈ List.range' range.1 (range.2 + 1 - range.1) := by
    rw [List.mem_range'_1]
    omega
  simpa using List.all_eq_true.mp checked code listed

theorem isAlphabetic_of_isBlank {c : Char} (blank : isBlank c = true) : isAlphabetic c = false :=
  RangeTable.holds_eq_false_of_avoids (by decide +kernel : blankTable.avoids alphabeticTable) blank

theorem isNumeric_of_isBlank {c : Char} (blank : isBlank c = true) : isNumeric c = false :=
  RangeTable.holds_eq_false_of_avoids (by decide : blankTable.avoids numericTable) blank

theorem isAlphabetic_of_isDigit {c : Char} (digit : c.isDigit = true) : isAlphabetic c = false := by
  have apart : RangeTable.avoids [(0x30, 0x39)] alphabeticTable = true := by decide
  simp only [Char.isDigit, Bool.and_eq_true, decide_eq_true_eq] at digit
  exact RangeTable.holds_eq_false_of_avoids apart (RangeTable.holds_first digit)

theorem isNumeric_of_isDigit {c : Char} (digit : c.isDigit = true) : isNumeric c = true := by
  simp only [Char.isDigit, Bool.and_eq_true, decide_eq_true_eq] at digit
  exact RangeTable.holds_first digit

theorem isDecimal_of_isBlank {c : Char} (blank : isBlank c = true) : isDecimal c = false :=
  RangeTable.holds_eq_false_of_avoids (by decide : blankTable.avoids decimalTable) blank

theorem isWordChar_of_isBlank {c : Char} (blank : isBlank c = true) : isWordChar c = false := by
  have mark : isMark c = false :=
    RangeTable.holds_eq_false_of_avoids (by decide +kernel : blankTable.avoids markTable) blank
  have joiner : isJoiner c = false :=
    RangeTable.holds_eq_false_of_avoids (by decide : blankTable.avoids joinerTable) blank
  simp [isWordChar, isAlphabetic_of_isBlank blank, isDecimal_of_isBlank blank, mark, joiner]

theorem StopsRun.isDecimal {cs : List Char} (stops : StopsRun isWordChar cs) :
    StopsRun isDecimal cs := by
  intro c first
  have plain := stops c first
  simp only [isWordChar, Bool.or_eq_false_iff] at plain
  exact plain.1.2

/-- No range of the first table meets one of the second, found in one walk along both of them. -/
def RangeTable.isApart : (fuel : Nat) → RangeTable → RangeTable → Bool
  | _, [], _ | _, _, [] => true
  | 0, _, _ => false
  | fuel + 1, (first, last) :: rest, (start, stop) :: others =>
    if last < start then isApart fuel rest ((start, stop) :: others)
    else if stop < first then isApart fuel ((first, last) :: rest) others
    else false

private theorem RangeTable.holds_eq_false_of_isApart {fuel code : Nat} {table other : RangeTable}
    (apart : isApart fuel table other = true) (inside : table.holds code = true) :
    other.holds code = false := by
  fun_induction isApart fuel table other with
  | case1 => simp [holds] at inside
  | case2 => rfl
  | case3 => simp at apart
  | case4 fuel first last rest start stop others below ih =>
    by_cases beyond : code ≤ last
    · rw [holds, if_pos (by omega)]
    · refine ih apart ?_
      rw [holds, if_neg beyond] at inside
      split at inside
      · simp at inside
      · exact inside
  | case5 fuel first last rest start stop others _ below ih =>
    have low : ¬ code < first := by
      intro low
      rw [holds, if_pos low] at inside
      simp at inside
    rw [holds, if_neg (show ¬ code ≤ stop by omega), ih apart inside, ite_self]
  | case6 => simp at apart

theorem isAlphabetic_of_isDecimal {c : Char} (decimal : isDecimal c = true) :
    isAlphabetic c = false :=
  RangeTable.holds_eq_false_of_isApart
    (by decide +kernel : RangeTable.isApart 1000 decimalTable alphabeticTable) decimal

def RangeTable.reach? : RangeTable → Nat → Option Nat
  | [], _ => none
  | (first, last) :: rest, code =>
    if code < first then none else if code ≤ last then some last else reach? rest code

private theorem RangeTable.holds_of_reach? {table : RangeTable} {low code stop : Nat}
    (reach : table.reach? low = some stop) (above : low ≤ code) (below : code ≤ stop) :
    table.holds code = true := by
  fun_induction reach? table low with
  | case1 => simp at reach
  | case2 => simp at reach
  | case3 =>
    obtain rfl := Option.some.inj reach
    exact holds_first (by omega)
  | case4 low first last rest notBelow beyond ih =>
    rw [holds, if_neg (by omega), if_neg (by omega)]
    exact ih reach above

def RangeTable.isWithin (table other : RangeTable) : Bool :=
  table.all fun range => (other.reach? range.1).any (range.2 ≤ ·)

private theorem RangeTable.holds_of_isWithin {table other : RangeTable} {code : Nat}
    (within : table.isWithin other = true) (inside : table.holds code = true) :
    other.holds code = true := by
  obtain ⟨range, member, low, high⟩ := RangeTable.exists_of_holds inside
  have checked := List.all_eq_true.mp within range member
  obtain ⟨stop, reach, bound⟩ := (Option.any_eq_true _ _).mp checked
  exact holds_of_reach? reach low (Nat.le_trans high (of_decide_eq_true bound))

theorem isNumeric_of_isDecimal {c : Char} (decimal : isDecimal c = true) : isNumeric c = true :=
  RangeTable.holds_of_isWithin (by decide +kernel : decimalTable.isWithin numericTable) decimal

end PullQuery.Text
