import PullQuery.Proofs.Query.CorrectPrefixes
import PullQuery.Proofs.Text.Rewritings
import PullQuery.Query.Variables

/-! What the offset of a fault refers to. It is one of the text that is read, in which variables and
durations have been rewritten, and lies in the query as it was written only as long as the text in
front of it did not grow by more than there is of the query behind it. -/
namespace PullQuery.Query
open PullQuery.Text Lexeme Grammar

namespace Lexeme

private theorem scanQuoted_error {quote : Char} {cs : List Char} {fault : LexFault} {distance : Nat}
    (failed : scanQuoted quote cs = .error (fault, some distance)) : distance < cs.length := by
  fun_induction scanQuoted quote cs generalizing distance with
  | case4 escaped rest unknown other =>
    simp only [Except.error.injEq, Prod.mk.injEq, Option.some.injEq] at failed
    simp [← failed.2]
  | case6 escaped rest meant known found inner read other ih =>
    obtain ⟨rfl, within⟩ := Prod.mk.inj (Except.error.inj failed)
    obtain ⟨near, rfl, rfl⟩ := Option.map_eq_some_iff.mp within
    simpa using ih read
  | case8 c rest notQuote notEscape found inner read ih =>
    obtain ⟨rfl, within⟩ := Prod.mk.inj (Except.error.inj failed)
    obtain ⟨near, rfl, rfl⟩ := Option.map_eq_some_iff.mp within
    simpa using ih read
  | _ => simp at failed

private theorem scan_error {c : Char} {rest : List Char} {fault : LexFault} {distance : Nat}
    (failed : scan c rest = .error (fault, distance)) : distance ≤ rest.length := by
  unfold scan at failed
  split at failed
  · simp at failed
  · split at failed
    · cases read : scanQuoted c rest with
      | ok found => simp [read] at failed
      | error found =>
        rw [read] at failed
        obtain ⟨rfl, rfl⟩ := Prod.mk.inj (Except.error.inj failed)
        cases within : found.2 with
        | none => exact Nat.zero_le _
        | some near => exact scanQuoted_error (read.trans (by rw [← within]))
    · have first : distance = 0 := by
        split at failed
        · cases read : scanNumber (c :: rest) <;> simp_all [Except.mapError]
        · split at failed <;> simp_all
      exact first ▸ Nat.zero_le _

private theorem streamFrom_bounded (offset skip : Nat) (cs : List Char) :
    (∀ lexeme ∈ (streamFrom offset skip cs).lexemes, lexeme.start ≤ offset + cs.length) ∧
      (∀ stop, (streamFrom offset skip cs).ending = .ok stop → stop ≤ offset + cs.length) ∧
        ∀ error, (streamFrom offset skip cs).ending = .error error →
          error.offset ≤ offset + cs.length := by
  induction cs generalizing offset skip with
  | nil => cases skip <;> simp [streamFrom]
  | cons c rest ih =>
    have size : offset + (c :: rest).length = offset + 1 + rest.length := by simp; omega
    rw [size]
    cases skip with
    | succ skip => exact ih (offset + 1) skip
    | zero =>
      by_cases blank : isBlank c = true
      · rw [streamFrom_blank offset blank]
        exact ih (offset + 1) 0
      · cases scanned : scan c rest with
        | error found =>
          have near := scan_error scanned
          rw [streamFrom, if_neg blank, scanned]
          simp
          omega
        | ok found =>
          obtain ⟨starts, ends⟩ := ih (offset + 1) (found.2 - 1)
          rw [streamFrom, if_neg blank, scanned]
          refine ⟨fun lexeme member => ?_, ends⟩
          rcases List.mem_cons.mp member with rfl | later
          · simp
            omega
          · exact starts lexeme later

end Lexeme

theorem parse_error_bounded {table : OperatorTable} {cs : List Char} {error : ParseError}
    (failed : parse table cs = .error error) : error.offset ≤ cs.length := by
  obtain ⟨starts, stops, faults⟩ := streamFrom_bounded 0 0 cs
  simp only [Nat.zero_add] at starts stops faults
  rcases parseFrom_error failed with
    ⟨final, -, ⟨fault, ending, rfl⟩ | ⟨stop, fault, ending, -, rfl⟩⟩ |
      ⟨front, lexeme, back, mid, split, -, -, rfl⟩
  · exact faults fault ending
  · exact stops stop ending
  · exact starts lexeme (by simp [show (streamFrom 0 0 cs).lexemes = _ from split])

def Variables.rules (bindings : Variables) : List PieceRule :=
  bindings.byLength.map (fun binding => variableRule binding.1.toList binding.2.toList) ++
    [durationRule]

private theorem expand_eq (bindings : Variables) (cs : List Char) :
    expand bindings cs = replaceAll bindings.rules cs := by
  simp [expand, Variables.substitute, Variables.rules, replaceAll, durationsInSeconds, substituteOne,
    List.foldl_map]

private theorem compile_error {table : OperatorTable} {bindings : Variables} {source : String}
    {error : ParseError} :
    compile table bindings source = .error error ↔
      parse table (expand bindings source.toList) = .error error := by
  cases read : parse table (expand bindings source.toList) <;>
    simp [compile, read, bind, Except.bind, pure, Except.pure]

/-- The offset of a fault is one of the text that is read. It has an origin in the query, which has the
same character there if no rule wrote it, and lies in the query itself exactly if it does not drift from
the origin by more than there is of the query behind the origin. -/
theorem fault_offset_drifts {table : OperatorTable} {bindings : Variables} {source : String}
    {error : ParseError} (failed : compile table bindings source = .error error) :
    let read := expand bindings source.toList
    let origin := originThrough bindings.rules source.toList error.offset
    let drift := driftThrough bindings.rules source.toList error.offset
    error.offset ≤ read.length ∧ origin ≤ source.length ∧
      (KeptThrough bindings.rules source.toList error.offset →
        read[error.offset]? = source.toList[origin]?) ∧
      (error.offset : Int) = origin + drift ∧
      (error.offset ≤ source.length ↔ drift ≤ source.length - origin) := by
  intro read origin drift
  have bounded : error.offset ≤ read.length := parse_error_bounded (compile_error.mp failed)
  have rewritten : read = replaceAll bindings.rules source.toList := expand_eq bindings source.toList
  have moved : (origin : Int) + drift = error.offset := originThrough_add_driftThrough _ _ _
  have inside : origin ≤ source.length := originThrough_le (rewritten ▸ bounded)
  refine ⟨bounded, inside, fun kept => ?_, moved.symm, ?_⟩
  · rw [rewritten]
    exact kept.getElem?
  · omega

theorem fault_offset_drifts_behind_login :
    let bindings := Variables.ofUser "octocat"
    let source := "@me ) = 1y title"
    let error : ParseError := ⟨.unexpected .closeParen, 10⟩
    let read := expand bindings source.toList
    compile .standard bindings source = .error error ∧
      originThrough bindings.rules source.toList 10 = 4 ∧
        driftThrough bindings.rules source.toList 10 = 6 ∧
          read[10]? = source.toList[4]? ∧
            (10 ≤ source.length ↔ (6 : Int) ≤ source.length - (4 : Nat)) := by
  intro bindings source error read
  have lexed : (tokensOf read).lexemes = [⟨0, 9, .text "octocat"⟩] ++ ⟨10, 11, .closeParen⟩ ::
      [⟨12, 13, .equal⟩, ⟨14, 22, .integer 31536000⟩, ⟨23, 28, .name "title"⟩] := by decide +kernel
  have failed : compile .standard bindings source = .error error :=
    compile_error.mpr (parse_stuck lexed rfl rfl)
  have origin : originThrough bindings.rules source.toList 10 = 4 := by decide +kernel
  have drift : driftThrough bindings.rules source.toList 10 = 6 := by decide +kernel
  have kept : KeptThrough bindings.rules source.toList 10 := by
    let pieces := rewritings (variableRule "@me".toList "octocat".toList) source.toList
    let others := rewritings durationRule (Rewriting.texts pieces)
    refine ⟨⟨')', pieces.drop 3, ?_⟩, ⟨')', others.drop 11, ?_⟩, trivial⟩ <;> decide +kernel
  obtain ⟨-, -, same, -, inside⟩ := fault_offset_drifts failed
  rw [show error.offset = 10 from rfl, origin] at same inside
  rw [drift] at inside
  exact ⟨failed, origin, drift, same kept, inside⟩

/-- The literal of a login is longer than the variable that stands for it, so that the fault behind it
is blamed on an offset behind the end of the query. -/
theorem fault_offset_exceeds_query :
    compile .standard (.ofUser "octocat") "@me )" = .error ⟨.unexpected .closeParen, 10⟩ ∧
      ¬ ∀ (table : OperatorTable) (bindings : Variables) (source : String) (error : ParseError),
        compile table bindings source = .error error → error.offset ≤ source.length := by
  have lexed : (tokensOf (expand (.ofUser "octocat") "@me )".toList)).lexemes =
      [⟨0, 9, .text "octocat"⟩] ++ ⟨10, 11, .closeParen⟩ :: [] := by decide +kernel
  have failed : compile .standard (.ofUser "octocat") "@me )" =
      .error ⟨.unexpected .closeParen, 10⟩ := compile_error.mpr (parse_stuck lexed rfl rfl)
  refine ⟨failed, fun inside => ?_⟩
  have bound := inside _ _ _ _ failed
  revert bound
  decide +kernel

end PullQuery.Query
