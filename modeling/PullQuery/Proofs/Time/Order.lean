import PullQuery.Time.Instant
import Mathlib.Data.Prod.Lex

/-! Instants in their order. They are ordered by their second, and within it by their nanoseconds, so
that of several instants one is the latest and one the earliest. -/
namespace PullQuery.Time.Instant

def key (t : Instant) : Lex (Int × Nat) := toLex (t.seconds, t.nanos)

theorem lt_iff_key {a b : Instant} : a < b ↔ a.key < b.key := by
  rw [key, key, Prod.Lex.toLex_lt_toLex]
  rfl

theorem le_iff_key {a b : Instant} : a ≤ b ↔ a.key ≤ b.key := by
  rw [key, key, Prod.Lex.toLex_le_toLex]
  rfl

theorem key_inj {a b : Instant} : a.key = b.key ↔ a = b := by
  refine ⟨fun same => ?_, congrArg key⟩
  obtain ⟨seconds, nanos⟩ := Prod.mk.inj (toLex.injective same)
  cases a
  cases b
  simp_all

theorem eq_of_le {a b : Instant} (first : a ≤ b) (second : b ≤ a) : a = b :=
  key_inj.mp (le_antisymm (le_iff_key.mp first) (le_iff_key.mp second))

/-- An element that is replaced by each better one ends as the best of all. -/
theorem foldl_best {α κ : Type} [LinearOrder κ] {key : α → κ} {better : α → α → Prop}
    [DecidableRel better] (order : ∀ a b, better a b ↔ key a < key b) (first : α) (rest : List α) :
    let best := rest.foldl (fun a b => if better a b then b else a) first
    best ∈ first :: rest ∧ ∀ a ∈ first :: rest, key a ≤ key best := by
  induction rest generalizing first with
  | nil => simp
  | cons second rest ih =>
    simp only [List.foldl_cons, List.forall_mem_cons]
    split
    · rename_i above
      obtain ⟨member, greatest⟩ := ih second
      obtain ⟨atSecond, behind⟩ := List.forall_mem_cons.mp greatest
      exact ⟨.tail _ member, (((order _ _).mp above).le.trans atSecond), atSecond, behind⟩
    · rename_i below
      obtain ⟨member, greatest⟩ := ih first
      obtain ⟨atFirst, behind⟩ := List.forall_mem_cons.mp greatest
      have notAbove : key second ≤ key first := not_lt.mp fun above => below ((order _ _).mpr above)
      refine ⟨?_, atFirst, notAbove.trans atFirst, behind⟩
      rcases List.mem_cons.mp member with same | later
      · exact List.mem_cons.mpr (.inl same)
      · exact .tail _ (.tail _ later)

theorem latest?_eq_some_iff {dates : List Instant} {t : Instant} :
    latest? dates = some t ↔ t ∈ dates ∧ ∀ other ∈ dates, other ≤ t := by
  cases dates with
  | nil => simp [latest?]
  | cons first rest =>
    obtain ⟨member, greatest⟩ := foldl_best (fun a b => @lt_iff_key a b) first rest
    simp only [← le_iff_key] at greatest
    rw [latest?, Option.some.injEq]
    constructor
    · rintro rfl
      exact ⟨member, greatest⟩
    · rintro ⟨listed, above⟩
      exact eq_of_le (above _ member) (greatest t listed)

theorem earliest?_eq_some_iff {dates : List Instant} {t : Instant} :
    earliest? dates = some t ↔ t ∈ dates ∧ ∀ other ∈ dates, t ≤ other := by
  cases dates with
  | nil => simp [earliest?]
  | cons first rest =>
    have order (a b : Instant) : b < a ↔ OrderDual.toDual a.key < OrderDual.toDual b.key := lt_iff_key
    obtain ⟨member, least⟩ := foldl_best order first rest
    simp only [OrderDual.toDual_le_toDual, ← le_iff_key] at least
    rw [earliest?, Option.some.injEq]
    constructor
    · rintro rfl
      exact ⟨member, least⟩
    · rintro ⟨listed, below⟩
      exact eq_of_le (least t listed) (below _ member)

theorem latest?_eq_none_iff {dates : List Instant} : latest? dates = none ↔ dates = [] := by
  cases dates <;> simp [latest?]

theorem earliest?_eq_none_iff {dates : List Instant} : earliest? dates = none ↔ dates = [] := by
  cases dates <;> simp [earliest?]

end PullQuery.Time.Instant
