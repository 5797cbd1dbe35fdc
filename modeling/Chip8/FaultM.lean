import Chip8.Fault

/-!
Computations that change a state and may break off with a fault. Nothing is taken back then: the
state is left as it was when the fault came up. So what a failed operation changes depends on
whether it looks before it writes.
-/

namespace Chip8

/-- A computation on a state, which keeps what was done before a fault. -/
abbrev FaultM (σ : Type) := EStateM Fault σ

namespace FaultM

variable {σ ρ α : Type}

/-- Runs a computation on a part of the state, which is put back however the computation ends. -/
def onPart (part : σ → ρ) (put : σ → ρ → σ) (computation : FaultM ρ α) : FaultM σ α := fun s =>
  match computation.run (part s) with
  | .ok a r => .ok a (put s r)
  | .error fault r => .error fault (put s r)

@[simp] theorem run_throw (fault : Fault) (s : σ) :
    (throw fault : FaultM σ α).run s = .error fault s := rfl

@[simp] theorem run_ofExcept_ok (a : α) (s : σ) :
    (ofExcept (.ok a : Except Fault α) : FaultM σ α).run s = .ok a s := rfl

@[simp] theorem run_ofExcept_error (fault : Fault) (s : σ) :
    (ofExcept (.error fault : Except Fault α) : FaultM σ α).run s = .error fault s := rfl

/-- The answer and the state in the end, or the fault. -/
def result (computation : FaultM σ α) (s : σ) : Except Fault (α × σ) :=
  match computation.run s with
  | .ok a s => .ok (a, s)
  | .error fault _ => .error fault

/-- The state in the end, or the fault. -/
def final (computation : FaultM σ Unit) (s : σ) : Except Fault σ :=
  match computation.run s with
  | .ok _ s => .ok s
  | .error fault _ => .error fault

end FaultM

end Chip8
