/-! Sets of code points as tables of inclusive ranges in increasing order. A look-up
stops at the first range that ends at or beyond the code point. -/
namespace PullQuery.Text

/-- Inclusive ranges `(first, last)` of code points, in increasing order. -/
abbrev RangeTable := List (Nat × Nat)

namespace RangeTable

def holds : RangeTable → Nat → Bool
  | [], _ => false
  | (first, last) :: rest, code =>
    if code < first then false
    else if code ≤ last then true
    else holds rest code

def isOrdered : RangeTable → Bool
  | [] => true
  | [(first, last)] => first ≤ last
  | (first, last) :: (next, final) :: rest =>
    first ≤ last && last + 1 < next && isOrdered ((next, final) :: rest)

theorem exists_of_holds {table : RangeTable} {code : Nat} (inside : table.holds code = true) :
    ∃ range ∈ table, range.1 ≤ code ∧ code ≤ range.2 := by
  induction table with
  | nil => simp [holds] at inside
  | cons range rest ih =>
    obtain ⟨first, last⟩ := range
    unfold holds at inside
    split at inside
    · simp at inside
    · split at inside
      · exact ⟨(first, last), by simp, by simp; omega⟩
      · obtain ⟨range, member, bounds⟩ := ih inside
        exact ⟨range, by simp [member], bounds⟩

theorem holds_first {first last code : Nat} {rest : RangeTable}
    (bounds : first ≤ code ∧ code ≤ last) : holds ((first, last) :: rest) code = true := by
  rw [holds, if_neg (Nat.not_lt.mpr bounds.1), if_pos bounds.2]

theorem holds_later {first last code : Nat} {rest : RangeTable} (ordered : first ≤ last)
    (beyond : last < code) (inside : rest.holds code = true) :
    holds ((first, last) :: rest) code = true := by
  rw [holds, if_neg (Nat.not_lt.mpr (by omega)), if_neg (Nat.not_le.mpr beyond), inside]

end RangeTable
end PullQuery.Text
