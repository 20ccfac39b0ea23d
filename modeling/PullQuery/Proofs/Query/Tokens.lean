import PullQuery.Proofs.Query.Scanning

/-! The lexer as a relation. A text is read one token at a time, and blanks in front of a token
are passed over; `tokenize_iff` says that the lexer accepts a text with some tokens exactly when the
text can be taken apart like that. -/
namespace PullQuery.Query
open PullQuery.Number PullQuery.Text

namespace Lexeme

theorem scan_blank {c : Char} (blank : isBlank c = true) (rest : List Char) :
    scan c rest = .error (.unexpected c, 0) := by
  have apart : symbolStarts.all (fun c => !isBlank c) = true := by decide
  have symbol : c ∉ symbolStarts := by
    intro start
    have other := List.all_eq_true.mp apart c start
    simp [blank] at other
  have quote : isQuote c = false := by
    by_contra quoted
    simp only [Bool.not_eq_false, isQuote, Bool.or_eq_true, beq_iff_eq] at quoted
    rcases quoted with rfl | rfl <;> revert blank <;> decide
  have digit : c.isDigit = false := by
    by_contra digit
    have part := isNamePart_of_isDigit (Bool.of_not_eq_false digit)
    simp [isNamePart_of_isBlank blank] at part
  have start : isNameStart c = false := by
    have other : c ≠ '_' ∧ c ≠ '$' ∧ c ≠ '@' := by
      refine ⟨?_, ?_, ?_⟩ <;> rintro rfl <;> revert blank <;> decide
    simp [isNameStart, isAlphabetic_of_isBlank blank, other]
  unfold scan
  simp [symbols_find?_eq_none symbol, quote, digit, start]

private theorem streamFrom_skip (offset : Nat) {skip : Nat} {cs : List Char}
    (bound : skip ≤ cs.length) :
    streamFrom offset skip cs = streamFrom (offset + skip) 0 (cs.drop skip) := by
  induction skip generalizing offset cs with
  | zero => rfl
  | succ skip ih =>
    cases cs with
    | nil => simp at bound
    | cons c rest =>
      rw [streamFrom, ih _ (by simpa using bound), List.drop_succ_cons]
      congr 1
      omega

theorem streamFrom_blank (offset : Nat) {c : Char} (blank : isBlank c = true) (rest : List Char) :
    streamFrom offset 0 (c :: rest) = streamFrom (offset + 1) 0 rest := by
  rw [streamFrom, if_pos blank]

theorem streamFrom_fronts (offset : Nat) {source after : List Char} {token : Token}
    (fronts : Fronts source after token) :
    streamFrom offset 0 (source ++ after) =
      ⟨⟨offset, offset + source.length, token⟩ ::
          (streamFrom (offset + source.length) 0 after).lexemes,
        (streamFrom (offset + source.length) 0 after).ending⟩ := by
  obtain ⟨c, run, rfl, ok⟩ := fronts.scan_ok
  have notBlank : isBlank c ≠ true := by
    intro blank
    rw [scan_blank blank] at ok
    simp at ok
  have inside : run.length ≤ (run ++ after).length := by simp
  rw [List.cons_append, streamFrom, if_neg notBlank, ok]
  simp only [List.length_cons, Nat.add_sub_cancel, streamFrom_skip (offset + 1) inside,
    List.drop_left]
  rw [show offset + 1 + run.length = offset + (run.length + 1) by omega]

end Lexeme

open Lexeme

/-- A text that can be read as some tokens with blanks between them. -/
inductive Lexes : List Char → List Token → Prop
  | nil : Lexes [] []
  | blank {c : Char} {rest : List Char} {tokens : List Token} (blank : isBlank c = true)
      (lexes : Lexes rest tokens) : Lexes (c :: rest) tokens
  | token {source after : List Char} {token : Token} {tokens : List Token}
      (fronts : Fronts source after token) (lexes : Lexes after tokens) :
      Lexes (source ++ after) (token :: tokens)

theorem streamFrom_of_lexes {cs : List Char} {tokens : List Token} (lexes : Lexes cs tokens)
    (offset : Nat) :
    (streamFrom offset 0 cs).lexemes.map (·.token) = tokens ∧
      (streamFrom offset 0 cs).ending = .ok (offset + cs.length) := by
  induction lexes generalizing offset with
  | nil => exact ⟨rfl, rfl⟩
  | @blank c rest tokens blank lexes ih =>
    obtain ⟨read, ending⟩ := ih (offset + 1)
    rw [streamFrom_blank offset blank, read, ending, List.length_cons]
    exact ⟨rfl, congrArg _ (by omega)⟩
  | @token source after token tokens fronts lexes ih =>
    obtain ⟨read, ending⟩ := ih (offset + source.length)
    rw [streamFrom_fronts offset fronts, List.map_cons, read, ending, List.length_append]
    exact ⟨rfl, congrArg _ (by omega)⟩

/-- A text is read from its front: it is at its end, a blank is passed over, no token can be taken off it,
or one is. -/
theorem stream_induction {motive : Nat → List Char → Prop} (nil : ∀ offset, motive offset [])
    (blank : ∀ {offset c rest}, isBlank c = true → motive (offset + 1) rest → motive offset (c :: rest))
    (fault : ∀ {offset c rest fault distance}, scan c rest = .error (fault, distance) →
      streamFrom offset 0 (c :: rest) = ⟨[], .error ⟨fault, offset + distance⟩⟩ →
        motive offset (c :: rest))
    (token : ∀ {offset source after token}, Fronts source after token →
      motive (offset + source.length) after → motive offset (source ++ after))
    (offset : Nat) (cs : List Char) : motive offset cs := by
  induction size : cs.length using Nat.strong_induction_on generalizing cs offset with
  | _ size ih =>
    subst size
    cases cs with
    | nil => exact nil offset
    | cons c rest =>
      by_cases white : isBlank c = true
      · exact blank white (ih rest.length (by simp) (offset + 1) rest rfl)
      · cases read : scan c rest with
        | error error =>
          refine fault read ?_
          rw [streamFrom, if_neg white, read]
        | ok front =>
          obtain ⟨source, after, split, width, fronts⟩ := fronts_of_scan read
          obtain ⟨d, run, rfl, -⟩ := fronts.scan_ok
          have shorter : after.length < (c :: rest).length := by
            rw [split, List.cons_append, List.length_cons, List.length_append]
            omega
          rw [split]
          exact token fronts (ih after.length shorter _ after rfl)

theorem lexes_of_streamFrom {cs : List Char} {offset stop : Nat}
    (ok : (streamFrom offset 0 cs).ending = .ok stop) :
    Lexes cs ((streamFrom offset 0 cs).lexemes.map (·.token)) := by
  induction offset, cs using stream_induction with
  | nil => exact .nil
  | @blank offset c rest blank ih =>
    rw [streamFrom_blank offset blank] at ok ⊢
    exact .blank blank (ih ok)
  | fault scanned failed => simp [failed] at ok
  | @token offset source after token fronts ih =>
    rw [streamFrom_fronts offset fronts] at ok ⊢
    exact .token fronts (ih ok)

/-- The lexer accepts a text as some tokens exactly when it can be read as them. -/
theorem tokenize_iff {cs : List Char} {tokens : List Token} :
    tokenize cs = .ok tokens ↔ Lexes cs tokens := by
  constructor
  · intro ok
    unfold tokenize tokensOf at ok
    cases ending : (streamFrom 0 0 cs).ending with
    | error error => simp [ending, Except.map] at ok
    | ok stop =>
      simp only [ending, Except.map, Except.ok.injEq] at ok
      exact ok ▸ lexes_of_streamFrom ending
  · intro lexes
    obtain ⟨read, ending⟩ := streamFrom_of_lexes lexes 0
    simp [tokenize, tokensOf, read, ending, Except.map]

structure IsName (name : List Char) : Prop where
  exists_cons : ∃ c run, name = c :: run ∧ isNameStart c = true ∧ ∀ d ∈ run, isNamePart d = true
  keyword : keyword? name = none

theorem IsName.fronts {name after : List Char} (isName : IsName name)
    (stops : StopsRun isNamePart after) : Fronts name after (.name (String.ofList name)) := by
  have keyword := isName.keyword
  obtain ⟨c, run, rfl, start, all⟩ := isName.exists_cons
  exact .name start all stops keyword

theorem Lexeme.Fronts.of_name {source after : List Char} {s : String}
    (fronts : Fronts source after (.name s)) :
    source = s.toList ∧ IsName source ∧ StopsRun isNamePart after := by
  generalize named : Token.name s = token at fronts
  cases fronts with
  | symbol found =>
    have member := List.mem_of_find?_eq_some found
    simp [Token.symbols, ← named] at member
  | keyword start all stops keyword lone =>
    obtain ⟨⟨word, meant⟩, found, rfl⟩ := Option.map_eq_some_iff.mp keyword
    have listed := List.mem_of_find?_eq_some found
    simp only at named
    simp [Token.keywords, ← named] at listed
  | name start all stops keyword =>
    obtain rfl := Token.name.inj named
    exact ⟨by simp, ⟨⟨_, _, rfl, start, all⟩, keyword⟩, stops⟩
  | literal | integer | float | notIn => simp at named

private theorem Lexes.length_of_name {cs : List Char} {tokens : List Token}
    (lexes : Lexes cs tokens)
    {s : String} (member : .name s ∈ tokens) : s.toList.length ≤ cs.length := by
  induction lexes with
  | nil => simp at member
  | blank blank lexes ih =>
    have short := ih member
    rw [List.length_cons]
    omega
  | token fronts lexes ih =>
    rw [List.length_append]
    rcases List.mem_cons.mp member with rfl | later
    · rw [← fronts.of_name.1]
      omega
    · have short := ih later
      omega

theorem isName_of_single {s : String} (single : tokenize s.toList = .ok [.name s]) :
    IsName s.toList := by
  have lexes := tokenize_iff.mp single
  generalize text : s.toList = cs at lexes
  generalize read : [Token.name s] = tokens at lexes
  cases lexes with
  | nil => simp at read
  | blank blank lexes =>
    have short := lexes.length_of_name (s := s) (by simp [← read])
    rw [text, List.length_cons] at short
    omega
  | token fronts lexes =>
    obtain ⟨rfl, rfl⟩ := List.cons.inj read
    obtain ⟨rfl, isName, -⟩ := fronts.of_name
    rwa [← text]

end PullQuery.Query
