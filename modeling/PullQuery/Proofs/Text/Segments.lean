import PullQuery.Proofs.Text.Literals
import PullQuery.Text.Parts

/-! Texts with literals put into them. A rewritten text is told by its segments, kept characters and
placed literals, so that one can speak of what was placed apart from what it says. The literals
stand outside of all others, which is what keeps their contents from being read as anything else. -/
namespace PullQuery.Text

theorem replaceFrom_skip (rule : PieceRule) (before : List Char) (source rest : List Char) :
    replaceFrom rule before source.length (source ++ rest) =
      replaceFrom rule (source.reverse ++ before) 0 rest := by
  induction source generalizing before with
  | nil => rfl
  | cons c source ih =>
    rw [List.length_cons, List.cons_append, replaceFrom, ih, List.reverse_cons,
      List.append_assoc]
    rfl

theorem replaceFrom_keep {rule : PieceRule} {before rest : List Char} {c : Char}
    (passed : rule before (c :: rest) = none) :
    replaceFrom rule before 0 (c :: rest) = c :: replaceFrom rule (c :: before) 0 rest := by
  rw [replaceFrom, passed]

theorem replaceFrom_piece {rule : PieceRule} {before source rest text : List Char}
    (some : source ≠ [])
    (picked : rule before (source ++ rest) = .some ⟨source.length, text⟩) :
    replaceFrom rule before 0 (source ++ rest) =
      text ++ replaceFrom rule (source.reverse ++ before) 0 rest := by
  cases source with
  | nil => exact absurd rfl some
  | cons c source =>
    rw [List.cons_append] at picked ⊢
    rw [replaceFrom, picked]
    have behind := replaceFrom_skip rule (c :: before) source rest
    simpa using behind

/-- A part of a text is rewritten as it is elsewhere if the rule does the same everywhere in it. -/
theorem replaceFrom_append {rule : PieceRule} {cs rest : List Char}
    (fits : ∀ before cs piece, rule before cs = some piece → piece.width ≤ cs.length)
    {before other : List Char}
    (same : ∀ front back, cs = front ++ back → back ≠ [] →
      rule (front.reverse ++ before) (back ++ rest) = rule (front.reverse ++ other) back)
    {skip : Nat} (bound : skip ≤ cs.length) :
    replaceFrom rule before skip (cs ++ rest) =
      replaceFrom rule other skip cs ++ replaceFrom rule (cs.reverse ++ before) 0 rest := by
  -- A picked piece may end anywhere in the part, so the induction also covers what is left of one.
  induction cs generalizing before other skip with
  | nil =>
    obtain rfl : skip = 0 := Nat.le_zero.mp bound
    rfl
  | cons c cs ih =>
    have behind {left : Nat} (short : left ≤ cs.length) :
        replaceFrom rule (c :: before) left (cs ++ rest) =
          replaceFrom rule (c :: other) left cs ++
            replaceFrom rule ((c :: cs).reverse ++ before) 0 rest := by
      rw [List.reverse_cons, List.append_assoc]
      apply ih _ short
      intro front back split some
      have whole := same (c :: front) back (by rw [split]; rfl) some
      simpa using whole
    cases skip with
    | succ skip => exact behind (Nat.le_of_succ_le_succ bound)
    | zero =>
      have here : rule before (c :: (cs ++ rest)) = rule other (c :: cs) :=
        same [] (c :: cs) rfl (List.cons_ne_nil c cs)
      rw [List.cons_append, replaceFrom, replaceFrom, here]
      cases picked : rule other (c :: cs) with
      | none => simpa using behind (Nat.zero_le _)
      | some piece =>
        have short : piece.width - 1 ≤ cs.length := by
          have := fits other (c :: cs) piece picked
          simp at this
          omega
        simpa using behind short
/-- A part of a rewritten text: a character of the text before it, or the literal of a value that
was placed instead of some characters. -/
inductive Segment (α : Type) where
  | kept (c : Char)
  | placed (source : List Char) (value : α)

namespace Segment
variable {α : Type}

def source : Segment α → List Char
  | kept c => [c]
  | placed source _ => source

def text (meaning : α → String) : Segment α → List Char
  | kept c => [c]
  | placed _ value => asLiteral (meaning value).toList

end Segment

abbrev Trace (α : Type) := List (Segment α)

namespace Trace
variable {α : Type}

def source (trace : Trace α) : List Char := trace.flatMap Segment.source

def text (meaning : α → String) (trace : Trace α) : List Char :=
  trace.flatMap (Segment.text meaning)

def kept (cs : List Char) : Trace α := cs.map .kept

/-- Literals are placed outside of all others only, for a scan that starts in the state. -/
def Apart : QuoteState → Trace α → Prop
  | _, [] => True
  | s, .kept c :: rest => Apart (s.next c) rest
  | s, .placed _ _ :: rest => s = .outside ∧ Apart .outside rest

@[simp] theorem source_nil : source ([] : Trace α) = [] := rfl

@[simp] theorem source_cons (segment : Segment α) (trace : Trace α) :
    source (segment :: trace) = segment.source ++ trace.source := rfl

@[simp] theorem text_nil (meaning : α → String) : text meaning ([] : Trace α) = [] := rfl

@[simp] theorem text_cons (meaning : α → String) (segment : Segment α) (trace : Trace α) :
    text meaning (segment :: trace) = segment.text meaning ++ trace.text meaning := rfl

theorem source_append (first second : Trace α) :
    source (first ++ second) = first.source ++ second.source := List.flatMap_append

theorem text_append (meaning : α → String) (first second : Trace α) :
    text meaning (first ++ second) = first.text meaning ++ second.text meaning :=
  List.flatMap_append

@[simp] theorem source_kept (cs : List Char) : source (kept cs : Trace α) = cs := by
  induction cs with
  | nil => rfl
  | cons c cs ih => exact congrArg _ ih

@[simp] theorem text_kept (meaning : α → String) (cs : List Char) :
    text meaning (kept cs : Trace α) = cs := by
  induction cs with
  | nil => rfl
  | cons c cs ih => exact congrArg _ ih

theorem eq_nil_of_text {meaning : α → String} {trace : Trace α}
    (empty : trace.text meaning = []) : trace = [] := by
  match trace with
  | [] => rfl
  | .kept c :: trace => simp [Segment.text] at empty
  | .placed source value :: trace => simp [Segment.text, asLiteral] at empty

theorem apart_kept_append {s : QuoteState} {cs : List Char} {trace : Trace α} :
    Apart s (kept cs ++ trace) ↔ Apart (s.after cs) trace := by
  induction cs generalizing s with
  | nil => rfl
  | cons c cs ih => exact ih

theorem apart_kept (s : QuoteState) (cs : List Char) : Apart s (kept cs : Trace α) := by
  have empty : Apart (s.after cs) ([] : Trace α) := trivial
  simpa using apart_kept_append.mpr empty

def lead? : Trace α → Option Char
  | [] => none
  | .kept c :: _ => some c
  | .placed _ _ :: _ => some '"'

theorem head?_text (meaning : α → String) (trace : Trace α) :
    (trace.text meaning).head? = trace.lead? := by
  match trace with
  | [] => rfl
  | .kept c :: trace => rfl
  | .placed source value :: trace => rfl

theorem exists_quoteFree (trace : Trace α) :
    ∃ run behind, trace = kept run ++ behind ∧ (∀ c ∈ run, isQuote c = false) ∧
      ∀ c ∈ behind.lead?, isQuote c = true := by
  induction trace with
  | nil => exact ⟨[], [], rfl, by simp, by simp [lead?]⟩
  | cons segment trace ih =>
    obtain ⟨run, behind, split, free, quote⟩ := ih
    match segment with
    | .placed source value => exact ⟨[], _, rfl, by simp, by simp [lead?, isQuote]⟩
    | .kept c =>
      cases quoted : isQuote c with
      | true => exact ⟨[], _, rfl, by simp, by simpa [lead?] using quoted⟩
      | false => exact ⟨c :: run, behind, congrArg _ split, by simpa [quoted] using free, quote⟩

theorem Apart.split {meaning : α → String} {s : QuoteState} {trace : Trace α} {cs rest : List Char}
    (apart : Apart s trace) (split : trace.text meaning = cs ++ rest) (opens : s.OpensNone cs) :
    ∃ behind, trace = kept cs ++ behind ∧ behind.text meaning = rest ∧
      Apart (s.after cs) behind := by
  induction cs generalizing s trace with
  | nil => exact ⟨trace, rfl, split, apart⟩
  | cons c cs ih =>
    match trace with
    | [] => simp at split
    | .kept d :: trace =>
      obtain ⟨rfl, said⟩ : d = c ∧ text meaning trace = cs ++ rest := by
        simpa [Segment.text] using split
      have inner : Apart (s.next d) trace := apart
      obtain ⟨behind, rfl, said, ends⟩ := ih inner said opens.2
      exact ⟨behind, rfl, said, ends⟩
    | .placed source value :: trace =>
      obtain ⟨rfl, -⟩ : '"' = c ∧ _ := by simpa [Segment.text, asLiteral] using split
      have plain := opens.1 apart.1
      simp [isQuote] at plain

end Trace
end PullQuery.Text
