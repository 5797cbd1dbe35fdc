import Chip8.Proofs.Drawing

/-!
Saving registers to memory and restoring them from there.

Both instructions go through the same addresses, one for each register, from the index register on.
These wrap around at the end of memory, but there are sixteen of them at most, so no two meet. Hence
what was saved is there to be restored, whatever the registers were used for in between, and what was
restored can be saved where it came from without any change (`Machine.saving_keeps_registers`).
-/

namespace Chip8.Machine

variable {m : Machine} {x : Digit}

/-! ### Executing an instruction -/

/-- An instruction is executed: it is the current word, which is run, or the word that the next step
fetches. -/
inductive Executes (m : Machine) (i : Instruction) : Outcome → Prop
  | run (encoded : i.EncodedAs m.word) : Executes m i m.run
  | step (encoded : i.EncodedAs m.nextWord) : Executes m i m.step

/-- Fetching takes nothing but the place in the program and the word to be run. -/
theorem Executes.eq_effect {i : Instruction} {outcome : Outcome} (formed : m.WellFormed)
    (executes : m.Executes i outcome) (goes : ¬ m.Refuses i) :
    ∃ origin word pc console,
      outcome = ⟨(effect { m with origin, word, pc } i).withConsole console, none⟩ := by
  cases executes with
  | run encoded => exact ⟨m.origin, m.word, m.pc, _, run_eq_effect formed encoded goes⟩
  | step encoded =>
      refine ⟨m.pc, m.nextWord, (m.pc + 2) % 0x1000, m.fetched.announced i.mnemonic, ?_⟩
      rw [step_eq_run formed]
      exact run_eq_effect (fetched_wellFormed formed) encoded goes

/-- It does not matter that a machine is spelled out with the word and the place that it has. -/
theorem Executes.in_place {i : Instruction} {outcome : Outcome} (executes : m.Executes i outcome)
    {word pc : Int} (sameWord : word = m.word) (samePlace : pc = m.pc) :
    Executes { m with word, pc } i outcome := by
  subst sameWord samePlace
  exact executes

theorem Executes.wellFormed {i : Instruction} {outcome : Outcome} (formed : m.WellFormed)
    (executes : m.Executes i outcome) (goes : ¬ m.Refuses i) : outcome.machine.WellFormed := by
  cases executes with
  | run encoded =>
      rw [run_eq_effect formed encoded goes]
      exact (effect_wellFormed formed encoded goes).withConsole _
  | step encoded => exact step_wellFormed formed

/-! ### Saving -/

/-- The cell that a register is saved to. -/
def savedAt (m : Machine) (k : Digit) : Int := (m.index + k.val) % 0x1000

theorem memory_emod (m : Machine) (a : Int) : m.memory (a % 0x1000) = m.memory a := by
  rw [Machine.memory, Int.emod_emod, ← Machine.memory]

/-- There are fewer registers than cells. -/
theorem savedAt_inj {k k' : Digit} (same : m.savedAt k = m.savedAt k') : k = k' := by
  unfold savedAt at same
  exact Fin.ext (by omega)

/-- What saving the registers up to `x` makes of a machine. -/
structure Saved (m : Machine) (x : Digit) (after : Machine) : Prop where
  stored : ∀ k ≤ x, (after.memory (m.savedAt k)).toNat = m.value k
  /-- No other cell changes. -/
  others : ∀ a, (∀ k ≤ x, m.savedAt k ≠ a % 0x1000) → after.memory a = m.memory a
  /-- Only cells of memory, the place in the program and the trace differ. -/
  frame : after = { m with
    ram := { m.ram with cells := after.ram.cells }
    origin := after.origin, word := after.word, pc := after.pc, console := after.console }

/-- The register that goes to a cell. -/
theorem find?_savedAt {a : Int} {k : Digit} (below : k ≤ x) (there : m.savedAt k = a) :
    ((List.finRange 16).find? fun k => k ≤ x && (m.index + k.val) % 0x1000 = a) = some k := by
  cases found : (List.finRange 16).find? fun k => k ≤ x && (m.index + k.val) % 0x1000 = a with
  | none =>
      have absent := List.find?_eq_none.mp found k (List.mem_finRange k)
      exact absurd there (by simpa [below, savedAt] using absent)
  | some k' =>
      have held := List.find?_some found
      simp only [Bool.and_eq_true, decide_eq_true_eq] at held
      exact congrArg some (savedAt_inj (held.2.trans there.symm))

theorem find?_unsaved {a : Int} (unsaved : ∀ k ≤ x, m.savedAt k ≠ a) :
    ((List.finRange 16).find? fun k => k ≤ x && (m.index + k.val) % 0x1000 = a) = none := by
  refine List.find?_eq_none.mpr fun k _ held => ?_
  simp only [Bool.and_eq_true, decide_eq_true_eq] at held
  exact unsaved k held.1 held.2

theorem saved_effect (sized : m.ram.Sized 0x1000) (x : Digit) : m.Saved x (m.effect (.save x)) where
  stored k below := by
    have cell : m.savedAt k % 0x1000 = m.savedAt k := Int.emod_emod _ _
    rw [effect, memory_withMemory sized, cell, find?_savedAt below rfl]
    exact UInt8.toNat_ofNat_of_lt' (m.value_lt k)
  others a unsaved := by
    rw [effect, memory_withMemory sized, find?_unsaved unsaved, memory_emod]
    exact UInt8.ofNat_toNat
  frame := rfl

/-- Saving what memory holds already leaves it as it is. -/
theorem effect_save_eq (sized : m.ram.Sized 0x1000)
    (held : ∀ k ≤ x, m.value k = (m.memory (m.savedAt k)).toNat) : m.effect (.save x) = m := by
  rw [effect]
  -- Cell by cell, the new contents are the old ones.
  refine Eq.trans (withMemory_congr sized fun a _ _ => ?_) (withMemory_memory sized)
  by_cases saved : ∃ k ≤ x, m.savedAt k = a
  · obtain ⟨k, below, rfl⟩ := saved
    rw [find?_savedAt below rfl]
    exact held k below
  · rw [find?_unsaved fun k below there => saved ⟨k, below, there⟩]

theorem Executes.saved {outcome : Outcome} (formed : m.WellFormed)
    (executes : m.Executes (.save x) outcome) : outcome.fault = none ∧ m.Saved x outcome.machine := by
  obtain ⟨origin, word, pc, console, rfl⟩ := executes.eq_effect formed id
  have saved := saved_effect formed.ram x
  exact ⟨rfl, saved.stored, saved.others, rfl⟩

/-! ### Restoring -/

/-- What restoring the registers up to `x` makes of a machine. -/
structure Restored (m : Machine) (x : Digit) (after : Machine) : Prop where
  loaded : ∀ k ≤ x, after.value k = (m.memory (m.savedAt k)).toNat
  others : ∀ k, x < k → after.value k = m.value k
  /-- Only registers, the place in the program and the trace differ. -/
  frame : after = { m with
    registers := after.registers
    origin := after.origin, word := after.word, pc := after.pc, console := after.console }

theorem restored_effect (m : Machine) (x : Digit) : m.Restored x (m.effect (.restore x)) where
  loaded k below := by
    rw [effect, value_withValues, if_pos below, savedAt, memory_emod]
    exact Nat.mod_eq_of_lt (UInt8.toNat_lt _)
  others k above := by
    rw [effect, value_withValues, if_neg (Fin.not_le.mpr above)]
    exact Nat.mod_eq_of_lt (m.value_lt k)
  frame := rfl

theorem Executes.restored {outcome : Outcome} (formed : m.WellFormed)
    (executes : m.Executes (.restore x) outcome) :
    outcome.fault = none ∧ m.Restored x outcome.machine := by
  obtain ⟨origin, word, pc, console, rfl⟩ := executes.eq_effect formed id
  have restored := restored_effect m x
  exact ⟨rfl, restored.loaded, restored.others, rfl⟩

/-! ### Both, one after the other -/

/-- What becomes of a machine whose registers up to `x` are saved, overwritten together with all the
others by `registers`, and restored. -/
structure Kept (m : Machine) (x : Digit) (registers : Vector UInt8 16) (after : Machine) : Prop where
  restored : ∀ k ≤ x, after.value k = m.value k
  overwritten : ∀ k, x < k → after.value k = (registers.get k).toNat
  index : after.index = m.index
  /-- Only the cells that registers were saved to can have changed. -/
  memory : ∀ a, (∀ k ≤ x, m.savedAt k ≠ a % 0x1000) → after.memory a = m.memory a
  frame : after = { m with
    registers := after.registers
    ram := { m.ram with cells := after.ram.cells }
    origin := after.origin, word := after.word, pc := after.pc, console := after.console }

variable {between after : Machine} {registers : Vector UInt8 16} {word pc : Int}

theorem Saved.kept (saved : m.Saved x between)
    (restored : Restored { between with registers, word, pc } x after) :
    m.Kept x registers after := by
  have index : between.index = m.index := (congrArg Machine.index saved.frame).trans rfl
  have ram : after.ram = between.ram := (congrArg Machine.ram restored.frame).trans rfl
  refine ⟨fun k below => ?_, restored.others, ?_, fun a unsaved => ?_, ?_⟩
  · have place : between.savedAt k = m.savedAt k := by rw [savedAt, savedAt, index]
    have loaded : after.value k = (between.memory (between.savedAt k)).toNat :=
      restored.loaded k below
    rw [loaded, place]
    exact saved.stored k below
  · exact ((congrArg Machine.index restored.frame).trans rfl).trans index
  · rw [Machine.memory, ram]
    exact saved.others a unsaved
  · refine restored.frame.trans ?_
    rw [ram, saved.frame]

/-- What was restored is what memory holds. -/
theorem Restored.effect_save (sized : m.ram.Sized 0x1000) (restored : m.Restored x between)
    (origin word pc : Int) : (effect { between with origin, word, pc } (.save x)).ram = m.ram := by
  have index : between.index = m.index := (congrArg Machine.index restored.frame).trans rfl
  have ram : between.ram = m.ram := (congrArg Machine.ram restored.frame).trans rfl
  have sized' : Ram.Sized (Machine.ram { between with origin, word, pc }) 0x1000 := ram ▸ sized
  rw [effect_save_eq sized' fun k below => ?_]
  · exact ram
  · have place : between.savedAt k = m.savedAt k := by rw [savedAt, savedAt, index]
    have cell : between.memory (between.savedAt k) = m.memory (m.savedAt k) := by
      rw [Machine.memory, Machine.memory, ram, place]
    exact (restored.loaded k below).trans (congrArg UInt8.toNat cell.symm)

/-- **Registers that are saved can be restored.** On a well-formed machine the registers up to `x` are
saved, all registers are overwritten, and those up to `x` are restored, wherever in memory the two
words are and however they come to be executed. Neither fails, the registers up to `x` are as they
were, the others as overwritten, and apart from the place in the program nothing else has changed but
the cells saved to. If registers are restored first and saved then, no cell has changed either. -/
theorem saving_keeps_registers (formed : m.WellFormed) (x : Digit) :
    (∀ saved, m.Executes (.save x) saved → ∀ registers word pc, 0 ≤ pc → pc < 0x1000 → ∀ restored,
      Executes { saved.machine with registers, word, pc } (.restore x) restored →
      saved.fault = none ∧ restored.fault = none ∧ m.Kept x registers restored.machine) ∧
    (∀ restored, m.Executes (.restore x) restored → ∀ word pc, 0 ≤ pc → pc < 0x1000 → ∀ saved,
      Executes { restored.machine with word, pc } (.save x) saved →
      restored.fault = none ∧ saved.fault = none ∧ saved.machine.ram = m.ram) := by
  constructor
  · intro saved saves registers word pc nonneg below restored restores
    have formed' : WellFormed { saved.machine with registers, word, pc } :=
      { saves.wellFormed formed id with pc := ⟨nonneg, below⟩ }
    obtain ⟨went, stored⟩ := saves.saved formed
    obtain ⟨went', back⟩ := restores.restored formed'
    exact ⟨went, went', stored.kept back⟩
  · intro restored restores word pc nonneg below saved saves
    have formed' : WellFormed { restored.machine with word, pc } :=
      { restores.wellFormed formed id with pc := ⟨nonneg, below⟩ }
    obtain ⟨went, loaded⟩ := restores.restored formed
    obtain ⟨origin, word', pc', console, rfl⟩ := saves.eq_effect formed' id
    have same := loaded.effect_save formed.ram origin word' pc'
    exact ⟨went, rfl, same⟩

/-- Four registers are saved across the end of memory, with the index register close to its own end,
and restored by the next word after all registers were cleared. Saving them once more changes
nothing. -/
theorem saving_keeps_registers_wrapped :
    let program := [0xF3, 0x55, 0xF3, 0x65, 0xF3, 0x55]
    let ram := { bootRam with cells := Bytes.splice bootRam.cells 0x200 program }
    let booted : Machine := { create false false (.cycle #[]) with
      registers := Vector.replicate 16 7
      index := 0xFFFE }
    let m : Machine := { booted with ram }
    let cleared : Machine := { m.step.machine with registers := Vector.replicate 16 0 }
    m.WellFormed ∧ m.Executes (.save 3) m.step ∧ cleared.Executes (.restore 3) cleared.step ∧
      cleared.step.machine.value 3 = 7 ∧ cleared.step.machine.value 4 = 0 ∧
      cleared.step.machine.memory 2 = m.memory 2 ∧
      cleared.step.machine.step.machine.ram = cleared.ram := by
  intro program ram booted m cleared
  have formed : m.WellFormed := by
    have formedBooted : booted.WellFormed :=
      { create_wellFormed false false (.cycle #[]) with index := by decide }
    exact formedBooted.withRam
      (bootRam_sized.of_cells ((Bytes.size_splice _ _ _).trans bootRam_sized.cells))
  obtain ⟨word, word', word'', full, apart⟩ : m.nextWord = 0xF355 ∧ cleared.nextWord = 0xF365 ∧
      cleared.step.machine.nextWord = 0xF355 ∧ m.value 3 = 7 ∧
      ∀ k ≤ (3 : Digit), m.savedAt k ≠ 2 := by decide +kernel
  -- From here on only these facts count, not what the machine is.
  clear_value m
  have stepped := step_wellFormed formed
  have formed' : cleared.WellFormed := stepped.withRegisters _
  have inMemory := (step_wellFormed formed').pc
  have saves : m.Executes (.save 3) m.step := .step (by rw [word]; rfl)
  have restores : cleared.Executes (.restore 3) cleared.step := .step (by rw [word']; rfl)
  have again : cleared.step.machine.Executes (.save 3) cleared.step.machine.step :=
    .step (by rw [word'']; rfl)
  obtain ⟨_, _, kept⟩ := (saving_keeps_registers formed 3).1 m.step saves (Vector.replicate 16 0)
    m.step.machine.word m.step.machine.pc stepped.pc.1 stepped.pc.2 cleared.step restores
  obtain ⟨_, _, same⟩ := (saving_keeps_registers formed' 3).2 cleared.step restores
    cleared.step.machine.word cleared.step.machine.pc inMemory.1 inMemory.2 _
    (again.in_place rfl rfl)
  exact ⟨formed, saves, restores, (kept.restored 3 (by decide)).trans full,
    kept.overwritten 4 (by decide), kept.memory 2 apart, same⟩

end Chip8.Machine
