import PullQuery.Text.Parts
import Mathlib.Data.List.Basic

/-! Where the characters of a rewritten text come from. A text is taken apart into what is rewritten and
the characters between, so that an offset in the rewritten text has its origin in the text before, and
is away from it by what the pieces in front of it grew. -/
namespace PullQuery.Text

structure Rewriting where
  source : List Char
  text : List Char
  deriving DecidableEq

namespace Rewriting

def growth (piece : Rewriting) : Int := piece.text.length - piece.source.length

def growthOfAll (pieces : List Rewriting) : Int := pieces.foldr (fun piece rest => piece.growth + rest) 0

def sources (pieces : List Rewriting) : List Char := pieces.flatMap source

def texts (pieces : List Rewriting) : List Char := pieces.flatMap text

private theorem growthOfAll_eq (pieces : List Rewriting) :
    growthOfAll pieces = (texts pieces).length - (sources pieces).length := by
  induction pieces with
  | nil => rfl
  | cons piece rest ih =>
    change piece.growth + growthOfAll rest = _
    simp only [ih, growth, texts, sources, List.flatMap_cons, List.length_append]
    omega

def inFront : List Rewriting → Nat → List Rewriting
  | [], _ => []
  | piece :: rest, offset =>
    if piece.text.length ≤ offset then piece :: inFront rest (offset - piece.text.length) else []

theorem exists_inFront (pieces : List Rewriting) (offset : Nat) :
    ∃ behind, pieces = inFront pieces offset ++ behind ∧
      (texts (inFront pieces offset)).length ≤ offset ∧
        ∀ piece ∈ behind.head?, offset < (texts (inFront pieces offset)).length + piece.text.length := by
  induction pieces generalizing offset with
  | nil => exact ⟨[], rfl, by simp [inFront, texts], by simp⟩
  | cons piece rest ih =>
    rw [inFront]
    split
    · rename_i ends
      obtain ⟨behind, split, short, next⟩ := ih (offset - piece.text.length)
      refine ⟨behind, congrArg _ split, ?_, fun other first => ?_⟩
      · simp only [texts, List.flatMap_cons, List.length_append] at short ⊢
        omega
      · have within := next other first
        simp only [texts, List.flatMap_cons, List.length_append] at within ⊢
        omega
    · rename_i within
      exact ⟨piece :: rest, rfl, by simp [texts], by simpa [texts] using within⟩

/-- The offset in the text before from which an offset comes, within a piece that of the piece. -/
def origin (pieces : List Rewriting) (offset : Nat) : Nat := (sources (inFront pieces offset)).length

/-- How far an offset is from where it comes: what the pieces in front of it grew, and how far it stands
within its own piece. -/
def drift (pieces : List Rewriting) (offset : Nat) : Int :=
  growthOfAll (inFront pieces offset) + (offset - (texts (inFront pieces offset)).length)

private theorem origin_add_drift (pieces : List Rewriting) (offset : Nat) :
    (origin pieces offset : Int) + drift pieces offset = offset := by
  rw [drift, growthOfAll_eq, origin]
  omega

private theorem origin_le (pieces : List Rewriting) (offset : Nat) :
    origin pieces offset ≤ (sources pieces).length := by
  obtain ⟨behind, split, -⟩ := exists_inFront pieces offset
  conv_rhs => rw [split]
  simp [origin, sources]

def IsKept (pieces : List Rewriting) (offset : Nat) : Prop :=
  ∃ c behind, pieces = inFront pieces offset ++ ⟨[c], [c]⟩ :: behind

private theorem IsKept.getElem? {pieces : List Rewriting} {offset : Nat}
    (kept : IsKept pieces offset) :
    (texts pieces)[offset]? = (sources pieces)[origin pieces offset]? := by
  obtain ⟨c, behind, split⟩ := kept
  obtain ⟨others, again, ends, within⟩ := exists_inFront pieces offset
  obtain rfl := List.append_cancel_left (again.symm.trans split)
  have here : offset = (texts (inFront pieces offset)).length := by
    have inside := within ⟨[c], [c]⟩ rfl
    simp only [List.length_singleton] at inside
    omega
  have written : texts pieces = texts (inFront pieces offset) ++ c :: texts behind := by
    conv_lhs => rw [split]
    simp [texts]
  have before : sources pieces = sources (inFront pieces offset) ++ c :: sources behind := by
    conv_lhs => rw [split]
    simp [sources]
  have middle {n : Nat} {front rest : List Char} (size : n = front.length) :
      (front ++ c :: rest)[n]? = some c := by simp [size]
  rw [written, before, origin, middle here, middle rfl]

end Rewriting

open Rewriting

def rewritingsFrom (rule : PieceRule) : (before : List Char) → (skip : Nat) → List Char → List Rewriting
  | _, _, [] => []
  | before, skip + 1, c :: rest => rewritingsFrom rule (c :: before) skip rest
  | before, 0, c :: rest =>
    match rule before (c :: rest) with
    | none => ⟨[c], [c]⟩ :: rewritingsFrom rule (c :: before) 0 rest
    | some piece =>
      ⟨c :: rest.take (piece.width - 1), piece.text⟩ ::
        rewritingsFrom rule (c :: before) (piece.width - 1) rest

def rewritings (rule : PieceRule) (cs : List Char) : List Rewriting := rewritingsFrom rule [] 0 cs

private theorem sources_rewritingsFrom (rule : PieceRule) (before : List Char) (skip : Nat)
    (cs : List Char) :
    sources (rewritingsFrom rule before skip cs) = cs.drop skip := by
  induction cs generalizing before skip with
  | nil => simp [rewritingsFrom, sources]
  | cons c rest ih =>
    cases skip with
    | succ skip => exact ih (c :: before) skip
    | zero =>
      rw [rewritingsFrom]
      split
      · have behind := ih (c :: before) 0
        simpa [sources] using behind
      · rename_i piece picked
        have behind := ih (c :: before) (piece.width - 1)
        rw [sources] at behind
        simp [sources, behind]

private theorem texts_rewritingsFrom (rule : PieceRule) (before : List Char) (skip : Nat)
    (cs : List Char) :
    texts (rewritingsFrom rule before skip cs) = replaceFrom rule before skip cs := by
  induction cs generalizing before skip with
  | nil => simp [rewritingsFrom, replaceFrom, texts]
  | cons c rest ih =>
    cases skip with
    | succ skip => exact ih (c :: before) skip
    | zero =>
      rw [rewritingsFrom, replaceFrom]
      cases picked : rule before (c :: rest) with
      | none => exact congrArg (c :: ·) (ih (c :: before) 0)
      | some piece => exact congrArg (piece.text ++ ·) (ih (c :: before) (piece.width - 1))

private theorem sources_rewritings (rule : PieceRule) (cs : List Char) :
    sources (rewritings rule cs) = cs :=
  sources_rewritingsFrom rule [] 0 cs

private theorem texts_rewritings (rule : PieceRule) (cs : List Char) :
    texts (rewritings rule cs) = replacePieces rule cs := texts_rewritingsFrom rule [] 0 cs

def replaceAll (rules : List PieceRule) (cs : List Char) : List Char :=
  rules.foldl (fun cs rule => replacePieces rule cs) cs

def originThrough : List PieceRule → List Char → Nat → Nat
  | [], _, offset => offset
  | rule :: rules, cs, offset =>
    origin (rewritings rule cs) (originThrough rules (replacePieces rule cs) offset)

def driftThrough : List PieceRule → List Char → Nat → Int
  | [], _, _ => 0
  | rule :: rules, cs, offset =>
    drift (rewritings rule cs) (originThrough rules (replacePieces rule cs) offset) +
      driftThrough rules (replacePieces rule cs) offset

def KeptThrough : List PieceRule → List Char → Nat → Prop
  | [], _, _ => True
  | rule :: rules, cs, offset =>
    IsKept (rewritings rule cs) (originThrough rules (replacePieces rule cs) offset) ∧
      KeptThrough rules (replacePieces rule cs) offset

theorem KeptThrough.getElem? {rules : List PieceRule} {cs : List Char} {offset : Nat}
    (kept : KeptThrough rules cs offset) :
    (replaceAll rules cs)[offset]? = cs[originThrough rules cs offset]? := by
  induction rules generalizing cs with
  | nil => rfl
  | cons rule rules ih =>
    have first := kept.1.getElem?
    rw [texts_rewritings, sources_rewritings] at first
    exact (ih kept.2).trans first

theorem originThrough_add_driftThrough (rules : List PieceRule) (cs : List Char) (offset : Nat) :
    (originThrough rules cs offset : Int) + driftThrough rules cs offset = offset := by
  induction rules generalizing cs with
  | nil => simp [originThrough, driftThrough]
  | cons rule rules ih =>
    have whole := ih (replacePieces rule cs)
    have first := origin_add_drift (rewritings rule cs)
      (originThrough rules (replacePieces rule cs) offset)
    rw [originThrough, driftThrough]
    omega

theorem originThrough_le {rules : List PieceRule} {cs : List Char} {offset : Nat}
    (inside : offset ≤ (replaceAll rules cs).length) : originThrough rules cs offset ≤ cs.length := by
  cases rules with
  | nil => exact inside
  | cons rule rules =>
    have short := origin_le (rewritings rule cs) (originThrough rules (replacePieces rule cs) offset)
    rwa [sources_rewritings] at short

end PullQuery.Text
