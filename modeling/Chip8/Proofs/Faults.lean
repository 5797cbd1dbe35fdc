import Chip8.FaultM

/-!
How computations run that may break off with a fault, and what they leave behind then.

A computation that looks at the state before it changes anything is atomic: a fault leaves the state
as it was (`Looks.bind_atomic`). Nothing in `FaultM` makes it so; it has to be shown of each
computation, from the order in which it looks and writes.
-/

namespace Chip8

/-- A sequence that goes well consists of two computations that do. -/
theorem exists_of_run_bind {ε σ α β : Type} {first : EStateM ε σ α} {next : α → EStateM ε σ β}
    {s s' : σ} {b : β} (ends : (first >>= next).run s = .ok b s') :
    ∃ a between, first.run s = .ok a between ∧ (next a).run between = .ok b s' := by
  rw [EStateM.run_bind] at ends
  cases result : first.run s with
  | ok a between =>
      rw [result] at ends
      exact ⟨a, between, rfl, ends⟩
  | error stop between =>
      rw [result] at ends
      cases ends

namespace FaultM

variable {σ ρ α β : Type} {s s' : σ} {a : α} {fault : Fault}

/-! ### Running -/

theorem run_bind_of_ok {first : FaultM σ α} (ends : first.run s = .ok a s') (next : α → FaultM σ β) :
    (first >>= next).run s = (next a).run s' := by
  rw [EStateM.run_bind, ends]

theorem run_bind_of_error {first : FaultM σ α} (fails : first.run s = .error fault s')
    (next : α → FaultM σ β) : (first >>= next).run s = .error fault s' := by
  rw [EStateM.run_bind, fails]

/-- A handler goes on from where the fault came up. -/
theorem run_tryCatch (computation : FaultM σ α) (handler : Fault → FaultM σ α) (s : σ) :
    (tryCatch computation handler).run s = match computation.run s with
      | .ok a s => .ok a s
      | .error fault s => (handler fault).run s := by
  change EStateM.tryCatch computation handler s = match computation s with
    | .ok a s => .ok a s
    | .error fault s => handler fault s
  unfold EStateM.tryCatch
  cases computation s <;> rfl

theorem run_onPart (part : σ → ρ) (put : σ → ρ → σ) (computation : FaultM ρ α) (s : σ) :
    (onPart part put computation).run s = match computation.run (part s) with
      | .ok a r => .ok a (put s r)
      | .error fault r => .error fault (put s r) := rfl

theorem run_ofExcept_eq_ok_iff {result : Except Fault α} :
    (ofExcept result : FaultM σ α).run s = .ok a s' ↔ result = .ok a ∧ s' = s := by
  cases result <;> simp [eq_comm]

/-- The end of a computation says all about one that does not fail. -/
theorem final_eq_ok_iff {computation : FaultM σ Unit} :
    computation.final s = .ok s' ↔ computation.run s = .ok () s' := by
  unfold final
  split <;> simp [*]

theorem result_eq_ok_iff {computation : FaultM σ α} :
    computation.result s = .ok (a, s') ↔ computation.run s = .ok a s' := by
  unfold result
  split <;> simp [*]

theorem final_eq_error_iff {computation : FaultM σ Unit} :
    computation.final s = .error fault ↔ ∃ s', computation.run s = .error fault s' := by
  unfold final
  split <;> simp [*]

theorem final_of_error {computation : FaultM σ Unit} (fails : computation.run s = .error fault s') :
    computation.final s = .error fault :=
  final_eq_error_iff.mpr ⟨s', fails⟩

/-! ### Looking before writing -/

/-- The state stays, whether the computation answers or fails. -/
def Looks (computation : FaultM σ α) : Prop :=
  ∀ s, (∃ a, computation.run s = .ok a s) ∨ ∃ fault, computation.run s = .error fault s

/-- A fault leaves the state as it was. -/
def Atomic (computation : FaultM σ α) : Prop :=
  ∀ s fault s', computation.run s = .error fault s' → s' = s

theorem looks_get : Looks (get : FaultM σ σ) := fun s => .inl ⟨s, rfl⟩

theorem looks_ofExcept (result : Except Fault α) : Looks (ofExcept result : FaultM σ α) := by
  intro s
  cases result with
  | ok a => exact .inl ⟨a, rfl⟩
  | error fault => exact .inr ⟨fault, rfl⟩

/-- Looks, one after the other, are a look. -/
theorem Looks.bind {first : FaultM σ α} {next : α → FaultM σ β} (looks : Looks first)
    (later : ∀ a, Looks (next a)) : Looks (first >>= next) := by
  intro s
  rcases looks s with ⟨a, ends⟩ | ⟨fault, fails⟩
  · rw [run_bind_of_ok ends]
    exact later a s
  · exact .inr ⟨fault, run_bind_of_error fails next⟩

theorem Looks.exists_of_run_bind {first : FaultM σ α} {next : α → FaultM σ β} (looks : Looks first)
    {b : β} (ends : (first >>= next).run s = .ok b s') :
    ∃ a, first.run s = .ok a s ∧ (next a).run s = .ok b s' := by
  obtain ⟨a, between, looked, later⟩ := Chip8.exists_of_run_bind ends
  rcases looks s with ⟨a', answers⟩ | ⟨fault, fails⟩
  · rw [answers] at looked
    cases looked
    exact ⟨a, answers, later⟩
  · rw [fails] at looked
    cases looked

/-- What comes after a look may fail, as long as it is atomic itself. -/
theorem Looks.bind_atomic {first : FaultM σ α} {next : α → FaultM σ β} (looks : Looks first)
    (atomic : ∀ a, Atomic (next a)) : Atomic (first >>= next) := by
  intro s fault s' failed
  rcases looks s with ⟨a, ends⟩ | ⟨fault', fails⟩
  · rw [run_bind_of_ok ends] at failed
    exact atomic a s fault s' failed
  · rw [run_bind_of_error fails] at failed
    cases failed
    rfl

theorem Looks.atomic {computation : FaultM σ α} (looks : Looks computation) :
    Atomic computation := by
  intro s fault s' failed
  rcases looks s with ⟨a, ends⟩ | ⟨fault', fails⟩
  · rw [ends] at failed
    cases failed
  · rw [fails] at failed
    cases failed
    rfl

theorem atomic_set (s : σ) : Atomic (set s : FaultM σ PUnit) := fun _ _ _ failed => by cases failed

/-- An answer can be made of another. -/
theorem Atomic.bind_pure {computation : FaultM σ α} (atomic : Atomic computation) (f : α → β) :
    Atomic (computation >>= fun a => pure (f a)) := by
  intro s fault s' failed
  cases inner : computation.run s with
  | ok a between =>
      rw [run_bind_of_ok inner] at failed
      cases failed
  | error fault' between =>
      rw [run_bind_of_error inner] at failed
      cases failed
      exact atomic s fault s' inner

/-- A part that is left as it was leaves the whole as it was. -/
theorem Atomic.onPart {part : σ → ρ} {put : σ → ρ → σ} {computation : FaultM ρ α}
    (atomic : Atomic computation) (same : ∀ s, put s (part s) = s) :
    Atomic (onPart part put computation) := by
  intro s fault s' failed
  rw [run_onPart] at failed
  cases inner : computation.run (part s) with
  | ok a r =>
      rw [inner] at failed
      cases failed
  | error fault' r =>
      rw [inner] at failed
      cases failed
      rw [atomic _ _ _ inner, same]

end FaultM

end Chip8
