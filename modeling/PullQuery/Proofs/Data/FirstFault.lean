import Mathlib.Data.List.Basic

/-! Items gone through in order, some of them with a fault. The fault of the first such item is the one
that is met. -/
namespace PullQuery.Data
variable {α β ε : Type}

/-- The first item that has a fault has this one. -/
def FailsFirst (fault : α → ε → Prop) (items : List α) (err : ε) : Prop :=
  ∃ before item behind, items = before ++ item :: behind ∧
    (∀ earlier ∈ before, ∀ other, ¬ fault earlier other) ∧ fault item err

private theorem not_failsFirst_nil {fault : α → ε → Prop} {err : ε} :
    ¬ FailsFirst fault [] err := by
  intro failing
  obtain ⟨before, item, behind, split, -, -⟩ := failing
  simp at split

private theorem failsFirst_cons {fault : α → ε → Prop} {item : α} {rest : List α} {err : ε} :
    FailsFirst fault (item :: rest) err ↔
      fault item err ∨ (∀ other, ¬ fault item other) ∧ FailsFirst fault rest err := by
  constructor
  · intro failing
    obtain ⟨before, faulty, behind, split, sound, fails⟩ := failing
    cases before with
    | nil =>
      obtain ⟨rfl, rfl⟩ := List.cons.inj split
      exact .inl fails
    | cons first before =>
      obtain ⟨rfl, rfl⟩ := List.cons.inj split
      refine .inr ⟨sound item (.head _), before, faulty, behind, rfl, ?_, fails⟩
      exact fun earlier member => sound earlier (.tail _ member)
  · intro failing
    obtain fails | ⟨sound, before, faulty, behind, rfl, others, fails⟩ := failing
    · exact ⟨[], item, rest, rfl, by simp, fails⟩
    · refine ⟨item :: before, faulty, behind, rfl, ?_, fails⟩
      intro earlier member
      obtain rfl | member := List.mem_cons.mp member
      · exact sound
      · exact others earlier member

theorem failsFirst_append {fault : α → ε → Prop} {items others : List α} {err : ε} :
    FailsFirst fault (items ++ others) err ↔
      FailsFirst fault items err ∨
        (∀ item ∈ items, ∀ other, ¬ fault item other) ∧ FailsFirst fault others err := by
  induction items with
  | nil => simp [not_failsFirst_nil]
  | cons item rest ih =>
    rw [List.cons_append, failsFirst_cons, failsFirst_cons, ih, List.forall_mem_cons]
    tauto

theorem exists_failsFirst {fault : α → ε → Prop} {items : List α} :
    (∃ err, FailsFirst fault items err) ↔ ∃ item ∈ items, ∃ err, fault item err := by
  constructor
  · intro failing
    obtain ⟨err, before, item, behind, rfl, -, fails⟩ := failing
    exact ⟨item, by simp, err, fails⟩
  · intro faulty
    induction items with
    | nil => simp at faulty
    | cons item rest ih =>
      simp only [failsFirst_cons]
      by_cases fails : ∃ err, fault item err
      · obtain ⟨err, fails⟩ := fails
        exact ⟨err, .inl fails⟩
      · have sound : ∀ other, ¬ fault item other := not_exists.mp fails
        obtain ⟨faulty, member, err, others⟩ := faulty
        obtain rfl | member := List.mem_cons.mp member
        · exact absurd others (sound err)
        · obtain ⟨err, later⟩ := ih ⟨faulty, member, err, others⟩
          exact ⟨err, .inr ⟨sound, later⟩⟩

theorem FailsFirst.unique {fault : α → ε → Prop} {items : List α} {err other : ε}
    (functional : ∀ item err other, fault item err → fault item other → err = other)
    (first : FailsFirst fault items err) (second : FailsFirst fault items other) : err = other := by
  induction items with
  | nil => exact absurd first not_failsFirst_nil
  | cons item rest ih =>
    rw [failsFirst_cons] at first second
    obtain here | ⟨sound, first⟩ := first <;> obtain there | ⟨clean, second⟩ := second
    · exact functional item err other here there
    · exact absurd here (clean err)
    · exact absurd there (sound other)
    · exact ih first second

/-- The items tell what a result is stopped by: it fails as the first of them that has a fault. -/
def Decides (fault : α → ε → Prop) (items : List α) (result : Except ε β) : Prop :=
  ∀ err, result = .error err ↔ FailsFirst fault items err

namespace Decides
variable {γ : Type} {fault : α → ε → Prop} {items others : List α} {result : Except ε β}

theorem ok (value : β) : Decides fault [] (.ok value) := by
  intro err
  simp [not_failsFirst_nil]

theorem single {item : α} (told : ∀ err, result = .error err ↔ fault item err) :
    Decides fault [item] result := by
  intro err
  rw [failsFirst_cons, told err]
  simp [not_failsFirst_nil]

theorem fails_iff (decides : Decides fault items result) :
    (∃ err, result = .error err) ↔ ∃ item ∈ items, ∃ err, fault item err := by
  rw [← exists_failsFirst]
  exact exists_congr decides

private theorem sound (decides : Decides fault items result) {value : β}
    (there : result = .ok value) :
    ∀ item ∈ items, ∀ err, ¬ fault item err := by
  intro item member err fails
  obtain ⟨other, failed⟩ := decides.fails_iff.mpr ⟨item, member, err, fails⟩
  simp [there] at failed

theorem bind {next : β → Except ε γ} (decides : Decides fault items result)
    (later : ∀ value, result = .ok value → Decides fault others (next value)) :
    Decides fault (items ++ others) (result >>= next) := by
  intro err
  rw [failsFirst_append]
  cases stopped : result with
  | error stop =>
    change (.error stop : Except ε γ) = .error err ↔ _
    have failing := (decides stop).mp stopped
    rw [Except.error.injEq, ← decides err, stopped, Except.error.injEq]
    constructor
    · exact .inl
    · intro told
      obtain same | ⟨sound, -⟩ := told
      · exact same
      · obtain ⟨item, member, other, fails⟩ := exists_failsFirst.mp ⟨stop, failing⟩
        exact absurd fails (sound item member other)
  | ok value =>
    change next value = .error err ↔ _
    have sound := decides.sound stopped
    have none : ¬ FailsFirst fault items err := by
      rw [← decides err, stopped]
      simp
    rw [later value stopped err]
    tauto

theorem map {f : β → γ} (decides : Decides fault items result) :
    Decides fault items (result >>= fun value => .ok (f value)) := by
  have after := decides.bind fun value _ => Decides.ok (f value)
  rwa [List.append_nil] at after

end Decides
end PullQuery.Data
