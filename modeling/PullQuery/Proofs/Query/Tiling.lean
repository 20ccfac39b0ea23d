import PullQuery.Proofs.Query.Spellings

/-! How the tokens lie in a text. They stand one behind the other, nothing but blanks is between them,
and each of them is read from its own characters alone, so that more blanks between them change
nothing. -/
namespace PullQuery.Query
open PullQuery.Text Lexeme

inductive Tiles : Nat → List Char → List Lexeme → Prop
  | nil (offset : Nat) : Tiles offset [] []
  | blank {offset : Nat} {c : Char} {rest : List Char} {lexemes : List Lexeme}
      (blank : isBlank c = true) (behind : Tiles (offset + 1) rest lexemes) :
      Tiles offset (c :: rest) lexemes
  | token {offset : Nat} {source after : List Char} {token : Token} {lexemes : List Lexeme}
      (fronts : Fronts source after token) (behind : Tiles (offset + source.length) after lexemes) :
      Tiles offset (source ++ after) (⟨offset, offset + source.length, token⟩ :: lexemes)

theorem Lexeme.Fronts.length_pos {source after : List Char} {token : Token}
    (fronts : Fronts source after token) : 0 < source.length := by
  obtain ⟨c, run, rfl, -⟩ := fronts.exists_cons
  simp

theorem streamFrom_advances (offset : Nat) (cs : List Char) :
    ∀ lexeme ∈ (streamFrom offset 0 cs).lexemes, lexeme.start < lexeme.stop := by
  induction offset, cs using stream_induction with
  | nil => simp [streamFrom]
  | @blank offset c rest blank ih =>
    rw [streamFrom_blank offset blank]
    exact ih
  | fault scanned failed => simp [failed]
  | @token offset source after token fronts ih =>
    have some := fronts.length_pos
    rw [streamFrom_fronts offset fronts]
    exact List.forall_mem_cons.mpr ⟨by simpa using some, ih⟩

private theorem tiles_of_streamFrom {offset stop : Nat} {cs : List Char}
    (ok : (streamFrom offset 0 cs).ending = .ok stop) :
    Tiles offset cs (streamFrom offset 0 cs).lexemes := by
  induction offset, cs using stream_induction with
  | nil offset => exact .nil offset
  | @blank offset c rest blank ih =>
    rw [streamFrom_blank offset blank] at ok ⊢
    exact .blank blank (ih ok)
  | fault scanned failed => simp [failed] at ok
  | @token offset source after token fronts ih =>
    rw [streamFrom_fronts offset fronts] at ok ⊢
    exact .token fronts (ih ok)

namespace Tiles
variable {offset : Nat} {cs : List Char} {lexemes : List Lexeme}

private theorem lexes (tiles : Tiles offset cs lexemes) : Lexes cs (lexemes.map (·.token)) := by
  induction tiles with
  | nil => exact .nil
  | blank blank behind ih => exact .blank blank ih
  | token fronts behind ih => exact .token fronts ih

private theorem within (tiles : Tiles offset cs lexemes) :
    ∀ lexeme ∈ lexemes, offset ≤ lexeme.start ∧ lexeme.start < lexeme.stop ∧
      lexeme.stop ≤ offset + cs.length := by
  induction tiles with
  | nil => simp
  | blank blank behind ih =>
    intro lexeme member
    have inside := ih lexeme member
    rw [List.length_cons]
    omega
  | token fronts behind ih =>
    have some := fronts.length_pos
    rw [List.length_append]
    refine List.forall_mem_cons.mpr ⟨⟨le_rfl, by simpa using some, by simp⟩, ?_⟩
    intro lexeme member
    have inside := ih lexeme member
    omega

private theorem apart (tiles : Tiles offset cs lexemes) :
    lexemes.Pairwise fun lexeme next => lexeme.stop ≤ next.start := by
  induction tiles with
  | nil => exact .nil
  | blank blank behind ih => exact ih
  | token fronts behind ih => exact .cons (fun next member => (behind.within next member).1) ih

private theorem length_le (tiles : Tiles offset cs lexemes) : lexemes.length ≤ cs.length := by
  induction tiles with
  | nil => simp
  | blank blank behind ih => exact Nat.le_succ_of_le ih
  | token fronts behind ih =>
    have some := fronts.length_pos
    rw [List.length_cons, List.length_append]
    omega

private theorem increasing (tiles : Tiles offset cs lexemes) :
    (lexemes.map (·.start) ++ [offset + cs.length]).Pairwise (· < ·) := by
  have starts : (lexemes.map (·.start)).Pairwise (· < ·) := by
    refine List.pairwise_map.mpr (tiles.apart.imp_of_mem fun first _ behind => ?_)
    exact (tiles.within _ first).2.1.trans_le behind
  refine List.pairwise_append.mpr ⟨starts, List.pairwise_singleton _ _, ?_⟩
  intro start listed stop last
  obtain ⟨lexeme, member, rfl⟩ := List.mem_map.mp listed
  obtain rfl := List.mem_singleton.mp last
  have inside := tiles.within lexeme member
  omega

/-- What no token takes is blank. -/
theorem isBlank_between (tiles : Tiles offset cs lexemes) {k : Nat} {c : Char}
    (found : cs[k]? = some c)
    (between : ∀ lexeme ∈ lexemes, offset + k < lexeme.start ∨ lexeme.stop ≤ offset + k) :
    isBlank c = true := by
  induction tiles generalizing k with
  | nil => simp at found
  | @blank offset d rest lexemes blank behind ih =>
    cases k with
    | zero =>
      obtain rfl : d = c := by simpa using found
      exact blank
    | succ k =>
      refine ih (by simpa using found) fun lexeme member => ?_
      have outside := between lexeme member
      omega
  | @token offset source after token lexemes fronts behind ih =>
    obtain ⟨first, later⟩ := List.forall_mem_cons.mp between
    have beyond : source.length ≤ k := by
      simp only at first
      omega
    rw [List.getElem?_append_right beyond] at found
    refine ih found fun lexeme member => ?_
    have outside := later lexeme member
    omega

end Tiles

/-- A token ends where it did if blanks are put in somewhere behind it. -/
theorem endsAlike_insert {after blanks : List Char} {tokens : List Token} (lexes : Lexes after tokens)
    (blank : ∀ c ∈ blanks, isBlank c = true) (k : Nat) :
    EndsAlike after (after.take k ++ (blanks ++ after.drop k)) := by
  cases after with
  | nil =>
    cases blanks with
    | nil => exact .inr (by simp)
    | cons c blanks =>
      have breaks : Breaks ((c :: blanks) ++ []) := breaks_blanks (by simp) blank
      exact .inl (by simpa using breaks)
  | cons d rest =>
    have point : d ≠ '.' := by
      rintro rfl
      exact not_lexes_point lexes
    cases k with
    | succ k => exact .inr ⟨rfl, by simp [point]⟩
    | zero =>
      rw [List.take_zero, List.nil_append, List.drop_zero]
      cases blanks with
      | nil => exact .inr ⟨rfl, by simp [point]⟩
      | cons c blanks => exact .inl (breaks_blanks (by simp) blank)

/-- Blanks put in where no token is cut in two leave all tokens as they are. -/
theorem Tiles.insert {offset : Nat} {cs blanks : List Char} {lexemes : List Lexeme}
    (tiles : Tiles offset cs lexemes) (blank : ∀ c ∈ blanks, isBlank c = true) {k : Nat}
    (between : ∀ lexeme ∈ lexemes, offset + k ≤ lexeme.start ∨ lexeme.stop ≤ offset + k) :
    Lexes (cs.take k ++ (blanks ++ cs.drop k)) (lexemes.map (·.token)) := by
  induction tiles generalizing k with
  | nil offset => simpa using lexes_blanks blank .nil
  | @blank offset d rest lexemes white behind ih =>
    cases k with
    | zero =>
      rw [List.take_zero, List.nil_append, List.drop_zero]
      exact lexes_blanks blank (Tiles.blank white behind).lexes
    | succ k =>
      refine .blank white (ih fun lexeme member => ?_)
      have outside := between lexeme member
      omega
  | @token offset source after token lexemes fronts behind ih =>
    cases k with
    | zero =>
      rw [List.take_zero, List.nil_append, List.drop_zero]
      exact lexes_blanks blank (Tiles.token fronts behind).lexes
    | succ k =>
      obtain ⟨first, later⟩ := List.forall_mem_cons.mp between
      obtain ⟨more, size⟩ : ∃ more, k + 1 = source.length + more := by
        simp only at first
        exact Nat.exists_eq_add_of_le (by omega)
      have lexes := @ih more fun lexeme member => by
        have outside := later lexeme member
        omega
      have alike := endsAlike_insert behind.lexes blank more
      have lone : token = .not →
          membershipAfter? (after.take more ++ (blanks ++ after.drop more)) = none := by
        rintro rfl
        have same := lexes.isSome_membershipAfter?.trans behind.lexes.isSome_membershipAfter?.symm
        simpa [fronts.lone] using same
      rw [size, List.take_length_add_append, List.drop_length_add_append, List.append_assoc]
      exact .token (fronts.stable alike lone) lexes

theorem Lexeme.Fronts.alone {source after : List Char} {token : Token}
    (fronts : Fronts source after token) : tokenize source = .ok [token] := by
  have breaks : Breaks [] := by simp [Breaks]
  have lexes := Lexes.token (fronts.stable (.inl breaks) fun _ => rfl) .nil
  rw [List.append_nil] at lexes
  exact tokenize_iff.mpr lexes

private theorem Cuts.alone {cs : List Char} {cuts : List Cut} (read : Cuts cs cuts) :
    ∀ cut ∈ cuts, tokenize cut.source = .ok [cut.token] := by
  induction read with
  | nil => simp
  | blank blank behind ih => exact ih
  | token fronts behind ih => exact List.forall_mem_cons.mpr ⟨fronts.alone, ih⟩

/-- The tokens of a text stand one behind the other with nothing but blanks around them, from the first
of them up to the end of the text, and each is the token that its own characters are read as. -/
structure IsTiling (cs : List Char) (lexemes : List Lexeme) : Prop where
  increasing : (lexemes.map (·.start) ++ [cs.length]).Pairwise (· < ·)
  apart : lexemes.Pairwise fun lexeme next => lexeme.stop ≤ next.start
  within : ∀ lexeme ∈ lexemes, lexeme.start < lexeme.stop ∧ lexeme.stop ≤ cs.length
  between : ∀ (k : Nat) (c : Char), cs[k]? = some c →
    (∀ lexeme ∈ lexemes, k < lexeme.start ∨ lexeme.stop ≤ k) → isBlank c = true
  alone : ∀ lexeme ∈ lexemes,
    tokenize ((cs.drop lexeme.start).take (lexeme.stop - lexeme.start)) = .ok [lexeme.token]

private theorem ending_of_tokenize {cs : List Char} {tokens : List Token}
    (read : tokenize cs = .ok tokens) :
    (tokensOf cs).ending = .ok cs.length := by
  have ends := (streamFrom_of_lexes (tokenize_iff.mp read) 0).2
  rwa [Nat.zero_add] at ends

private theorem tiles_tokensOf {cs : List Char} {tokens : List Token}
    (read : tokenize cs = .ok tokens) :
    Tiles 0 cs (tokensOf cs).lexemes := tiles_of_streamFrom (ending_of_tokenize read)

private theorem isTiling_of_tokenize {cs : List Char} {tokens : List Token}
    (read : tokenize cs = .ok tokens) : IsTiling cs (tokensOf cs).lexemes := by
  have tiles := tiles_tokensOf read
  have cuts := cuts_cutsOf read
  refine ⟨by simpa using tiles.increasing, tiles.apart, fun lexeme member => ?_,
    fun k c found outside => tiles.isBlank_between found (by simpa using outside), fun lexeme member => ?_⟩
  · simpa using (tiles.within lexeme member).2
  · exact cuts.alone _ (List.mem_map_of_mem member)

/-- Every token takes characters of its text, even if the lexer stops behind it. The tokens of a text that
is read to its end tile it, so that there is at most one for each character, and they stay the same if
blanks are put in where no token is cut in two. -/
theorem tokens_tile (cs : List Char) :
    (∀ lexeme ∈ (tokensOf cs).lexemes, lexeme.start < lexeme.stop) ∧
      ∀ tokens, tokenize cs = .ok tokens →
        (tokensOf cs).lexemes.map (·.token) = tokens ∧ (tokensOf cs).ending = .ok cs.length ∧
        IsTiling cs (tokensOf cs).lexemes ∧ tokens.length ≤ cs.length ∧
        ∀ (place : Nat) (blanks : List Char), (∀ c ∈ blanks, isBlank c = true) →
          (∀ lexeme ∈ (tokensOf cs).lexemes, place ≤ lexeme.start ∨ lexeme.stop ≤ place) →
            tokenize (cs.take place ++ (blanks ++ cs.drop place)) = .ok tokens := by
  refine ⟨streamFrom_advances 0 cs, fun tokens read => ?_⟩
  have tiles := tiles_tokensOf read
  obtain rfl : (tokensOf cs).lexemes.map (·.token) = tokens :=
    Except.ok.inj ((tokenize_iff.mpr tiles.lexes).symm.trans read)
  refine ⟨rfl, ending_of_tokenize read, isTiling_of_tokenize read, by simpa using tiles.length_le, ?_⟩
  intro place blanks blank outside
  exact tokenize_iff.mpr (tiles.insert blank (by simpa using outside))

theorem tokens_tile_lone_not :
    let cs := "x NOT INx not\tIN('a')".toList
    let tokens : List Token := [.name "x", .not, .name "INx", .notIn, .openParen, .text "a", .closeParen]
    let blanks := ['\n', '\u00a0']
    (tokenize cs = .ok tokens ∧ (∀ c ∈ blanks, isBlank c = true) ∧
        ∀ lexeme ∈ (tokensOf cs).lexemes, 5 ≤ lexeme.start ∨ lexeme.stop ≤ 5) ∧
      (∀ lexeme ∈ (tokensOf cs).lexemes, lexeme.start < lexeme.stop) ∧
        IsTiling cs (tokensOf cs).lexemes ∧ tokens.length ≤ cs.length ∧
          tokenize "x NOT\n\u00a0 INx not\tIN('a')".toList = .ok tokens := by
  intro cs tokens blanks
  have read : tokenize cs = .ok tokens := by decide +kernel
  have blank : ∀ c ∈ blanks, isBlank c = true := List.all_eq_true.mp (by decide)
  have outside : ∀ lexeme ∈ (tokensOf cs).lexemes, 5 ≤ lexeme.start ∨ lexeme.stop ≤ 5 := by
    decide +kernel
  obtain ⟨advances, whole⟩ := tokens_tile cs
  obtain ⟨-, -, tiling, few, inserted⟩ := whole tokens read
  exact ⟨⟨read, blank, outside⟩, advances, tiling, few, inserted 5 blanks blank outside⟩

end PullQuery.Query
