import Chip8.Proofs.Run

/-!
Waiting for a key.

The instruction that waits for a key does not stop the machine: as long as no key is down it goes back
to where it was fetched from, so the next step runs it again. Going back undoes the step forward at
every address, the last ones of memory included, so a wait of any length leaves the machine as it was,
but for the place of the current word, the keypad and the timers (`Machine.waited`). The first step
that finds a key down ends the wait with the lowest of them (`Machine.waits_for_key`). A key that was
released before that step is as if it had never been pressed.
-/

namespace Chip8

namespace Operation

def isStep : Operation → Bool
  | .step => true
  | _ => false

def isTick : Operation → Bool
  | .tick => true
  | _ => false

end Operation

namespace Machine

variable {m : Machine} {x : Digit} {keypad : Vector Bool 16} {operations : List Operation}

/-! ### Waiting machines -/

/-- What the steps of a wait print, one line each. -/
def waitLines (m : Machine) (x : Digit) (steps : Nat) : List String :=
  if m.trace then List.replicate steps (m.fetched.traceLine (Instruction.waitKey x).mnemonic) else []

theorem waitLines_succ (m : Machine) (x : Digit) (steps : Nat) :
    m.waitLines x (steps + 1) =
      (if m.trace then [m.fetched.traceLine (Instruction.waitKey x).mnemonic] else []) ++
        m.waitLines x steps := by
  unfold waitLines
  split <;> rfl

/-- The machine after it has waited for so many steps and ticks. -/
def waited (m : Machine) (x : Digit) (steps ticks : Nat) (keypad : Vector Bool 16) : Machine :=
  { m with
    origin := if steps = 0 then m.origin else m.pc
    word := if steps = 0 then m.word else m.nextWord
    keypad
    delay := max 0 (m.delay - ticks)
    sound := max 0 (m.sound - ticks)
    console := { m.console with printed := m.waitLines x steps ++ m.console.printed } }

theorem waited_zero (formed : m.WellFormed) (x : Digit) : m.waited x 0 0 m.keypad = m := by
  have delay : max 0 (m.delay - (0 : Nat)) = m.delay := by
    have := formed.delay
    omega
  have sound : max 0 (m.sound - (0 : Nat)) = m.sound := by
    have := formed.sound
    omega
  have printed : m.waitLines x 0 ++ m.console.printed = m.console.printed := by
    rw [waitLines, List.replicate_zero, ite_self, List.nil_append]
  rw [waited, delay, sound, printed]
  rfl

/-- The line of the next step. -/
theorem announced_waited (m : Machine) (x : Digit) (steps ticks : Nat) (keypad : Vector Bool 16) :
    (m.waited x steps ticks keypad).fetched.announced (Instruction.waitKey x).mnemonic =
      { m.console with printed := m.waitLines x (steps + 1) ++ m.console.printed } := by
  have announced : (m.waited x steps ticks keypad).fetched.announced (Instruction.waitKey x).mnemonic =
      if m.trace then
        (m.waited x steps ticks keypad).console.print
          (m.fetched.traceLine (Instruction.waitKey x).mnemonic)
      else (m.waited x steps ticks keypad).console := rfl
  rw [announced, waitLines_succ]
  split <;> rfl

/-! ### The next step -/

/-- Going back undoes the step forward. -/
theorem rewind_eq {pc : Int} (inMemory : 0 ≤ pc ∧ pc < 0x1000) :
    ((pc + 2) % 0x1000 - 2) % 0x1000 = pc := by omega

/-- A step with no key down waits on. -/
theorem step_waited {steps ticks : Nat} (formed : m.WellFormed)
    (waiting : (Instruction.waitKey x).EncodedAs m.nextWord)
    (formed' : (m.waited x steps ticks keypad).WellFormed)
    (unheld : ∀ key : Digit, keypad.get key = false) :
    (m.waited x steps ticks keypad).step = ⟨m.waited x (steps + 1) ticks keypad, none⟩ := by
  have encoded : (Instruction.waitKey x).EncodedAs (m.waited x steps ticks keypad).nextWord := waiting
  have nothing : ((List.finRange 16).find? fun key => keypad[key]) = none :=
    List.find?_eq_none.mpr fun key _ down => Bool.eq_false_iff.mp (unheld key) down
  have back : (m.waited x steps ticks keypad).fetched.effect (.waitKey x) =
      { (m.waited x steps ticks keypad).fetched with
        pc := ((m.pc + 2) % 0x1000 - 2) % 0x1000 } := by
    have unchanged : (m.waited x steps ticks keypad).fetched.keypad = keypad := rfl
    simp only [effect, unchanged, nothing]
    rfl
  rw [(step_stepsTo formed').unique (.runs encoded id), back, rewind_eq formed.pc, announced_waited]
  rfl

/-- The lowest key that is down. -/
structure Lowest (keypad : Vector Bool 16) (key : Digit) : Prop where
  down : keypad.get key = true
  above : ∀ lower < key, keypad.get lower = false

/-- A key that is down comes with a lowest one. -/
theorem exists_lowest {held : Digit} (down : keypad.get held = true) :
    ∃ key, ((List.finRange 16).find? keypad.get) = some key ∧ Lowest keypad key := by
  cases found : (List.finRange 16).find? keypad.get with
  | none => exact absurd down (List.find?_eq_none.mp found held (List.mem_finRange held))
  | some key =>
      obtain ⟨pressed, i, inside, there, earlier⟩ := List.find?_eq_some_iff_getElem.mp found
      rw [List.getElem_finRange] at there
      refine ⟨key, rfl, pressed, fun lower below => ?_⟩
      have first := earlier lower.val (by rw [← there] at below; exact below)
      simpa using first

/-- A step that finds a key down takes the lowest and goes on. -/
theorem step_takes_key (formed : m.WellFormed)
    (waiting : (Instruction.waitKey x).EncodedAs m.nextWord) {key : Digit}
    (found : ((List.finRange 16).find? m.keypad.get) = some key) :
    m.step = ⟨(m.fetched.assign x key.val).withConsole
      (m.fetched.announced (Instruction.waitKey x).mnemonic), none⟩ := by
  have first : ((List.finRange 16).find? fun key => m.fetched.keypad[key]) = some key := found
  have taken : m.fetched.effect (.waitKey x) = m.fetched.assign x key.val := by
    simp only [effect, first]
  rw [(step_stepsTo formed).unique (.runs waiting id), taken]

/-! ### Waits of any length -/

/-- No key is down at any step among the operations. -/
def Unheld (m : Machine) : List Operation → Prop
  | [] => True
  | operation :: rest =>
      (operation.isStep = true → ∀ key : Digit, m.keypad.get key = false) ∧
        (m.perform operation).machine.Unheld rest

/-- Keys go to the keypad, if there are as many as it has; nothing else changes. -/
theorem exists_perform_setKeys (m : Machine) (keys : List Bool) :
    ∃ keypad, (m.perform (.setKeys keys)).machine = { m with keypad } := by
  rw [perform_setKeys]
  split
  · exact ⟨_, rfl⟩
  · exact ⟨m.keypad, rfl⟩

/-- Whatever is done to a waiting machine, it goes on waiting. -/
theorem perform_waited {steps ticks : Nat} {operation : Operation} (formed : m.WellFormed)
    (waiting : (Instruction.waitKey x).EncodedAs m.nextWord)
    (formed' : (m.waited x steps ticks keypad).WellFormed)
    (notLoad : ∀ program, operation ≠ .load program)
    (unheld : operation.isStep = true → ∀ key : Digit, keypad.get key = false) :
    ∃ keypad', ((m.waited x steps ticks keypad).perform operation).machine =
      m.waited x (steps + if operation.isStep then 1 else 0)
        (ticks + if operation.isTick then 1 else 0) keypad' := by
  cases operation with
  | load program => exact absurd rfl (notLoad program)
  | setKeys keys =>
      obtain ⟨keypad', set⟩ := exists_perform_setKeys (m.waited x steps ticks keypad) keys
      exact ⟨keypad', set⟩
  | step =>
      have went := step_waited formed waiting formed' (unheld rfl)
      exact ⟨keypad, congrArg Outcome.machine went⟩
  | tick =>
      have less (count : Int) : (if 0 < max 0 (count - ticks) then max 0 (count - ticks) - 1
          else max 0 (count - ticks)) = max 0 (count - ((ticks + 1 : Nat) : Int)) := by
        split <;> omega
      refine ⟨keypad, ?_⟩
      have ticked : ((m.waited x steps ticks keypad).perform .tick).machine =
          { m.waited x steps ticks keypad with
            delay := if 0 < max 0 (m.delay - ticks) then max 0 (m.delay - ticks) - 1
              else max 0 (m.delay - ticks)
            sound := if 0 < max 0 (m.sound - ticks) then max 0 (m.sound - ticks) - 1
              else max 0 (m.sound - ticks) } := by
        rw [perform, advanceTimers_eq]
        rfl
      rw [ticked, less, less]
      rfl

theorem performAll_waited {steps ticks : Nat} (formed : m.WellFormed)
    (waiting : (Instruction.waitKey x).EncodedAs m.nextWord)
    (formed' : (m.waited x steps ticks keypad).WellFormed)
    (noLoad : ∀ program, .load program ∉ operations)
    (unheld : (m.waited x steps ticks keypad).Unheld operations) :
    (∃ keypad', (m.waited x steps ticks keypad).performAll operations =
      m.waited x (steps + operations.countP Operation.isStep)
        (ticks + operations.countP Operation.isTick) keypad') ∧
    (m.waited x steps ticks keypad).steps operations =
      List.replicate (operations.countP Operation.isStep) (m.nextWord, none) := by
  -- What is left after the first operation waits too, with other counts and another keypad.
  induction operations generalizing steps ticks keypad with
  | nil => exact ⟨⟨keypad, rfl⟩, rfl⟩
  | cons operation rest ih =>
      obtain ⟨keypad', left⟩ := perform_waited formed waiting formed'
        (fun program load => noLoad program (load ▸ List.mem_cons_self)) unheld.1
      obtain ⟨⟨keypad'', done⟩, fetched⟩ := ih (left ▸ perform_wellFormed formed' operation)
        (fun program member => noLoad program (List.mem_cons_of_mem _ member)) (left ▸ unheld.2)
      rw [List.countP_cons, List.countP_cons]
      refine ⟨⟨keypad'', ?_⟩, ?_⟩
      · rw [performAll_cons, left, done, Nat.add_assoc, Nat.add_assoc, Nat.add_comm (ite _ _ _),
          Nat.add_comm (ite _ _ _)]
      · by_cases stepped : operation = .step
        · subst stepped
          have went := step_waited formed waiting formed' (unheld.1 rfl)
          have machine : (m.waited x steps ticks keypad).step.machine = _ := left
          rw [steps_cons_step, machine, fetched, went]
          rfl
        · have other : operation.isStep = false := by
            cases operation with
            | step => exact absurd rfl stepped
            | _ => rfl
          rw [steps_cons_of_ne stepped, left, fetched, other]
          rfl

/-! ### Keys between two steps -/

/-- Between two steps only the ticks and the last state of the keypad count. -/
theorem performAll_unseen (between : List Operation)
    (noStep : ∀ operation ∈ between, operation.isStep = false)
    (noLoad : ∀ program, .load program ∉ between) (m : Machine) (keypad : Vector Bool 16) :
    ∃ keypad', performAll { m with keypad } between =
      { m.performAll (between.filter Operation.isTick) with keypad := keypad' } := by
  induction between generalizing m keypad with
  | nil => exact ⟨keypad, rfl⟩
  | cons operation rest ih =>
      have later := ih (fun _ member => noStep _ (List.mem_cons_of_mem _ member))
        fun program member => noLoad program (List.mem_cons_of_mem _ member)
      cases operation with
      | load program => exact absurd List.mem_cons_self (noLoad program)
      | step => exact absurd (noStep .step List.mem_cons_self) (by decide)
      | setKeys keys =>
          obtain ⟨keypad', set⟩ := exists_perform_setKeys { m with keypad } keys
          rw [performAll_cons, set]
          exact later m keypad'
      | tick =>
          have ticked : (perform { m with keypad } .tick).machine =
              { (m.perform .tick).machine with keypad } := by
            rw [perform, perform, advanceTimers_eq, advanceTimers_eq]
          rw [performAll_cons, ticked]
          exact later (m.perform .tick).machine keypad

/-- **A wait for a key leaves the machine alone.** The word at the program counter, wherever in memory
that is, waits for a key. Whatever is done to the machine as long as no step finds a key down, each of
those steps runs the same word, and the machine stays as it was but for the place of the current word,
the keypad, and the timers, which count down with the ticks. The first step that finds a key down puts
the lowest such key into the register and goes on to the next word. Keys that are pressed and released
between two steps do not matter. -/
theorem waits_for_key (formed : m.WellFormed)
    (waiting : (Instruction.waitKey x).EncodedAs m.nextWord)
    (noLoad : ∀ program, .load program ∉ operations) (unheld : m.Unheld operations) :
    let m' := m.performAll operations
    m' = m.waited x (operations.countP Operation.isStep) (operations.countP Operation.isTick)
      m'.keypad ∧
    m.steps operations = List.replicate (operations.countP Operation.isStep) (m.nextWord, none) ∧
    (∀ held : Digit, m'.keypad.get held = true → ∃ key, Lowest m'.keypad key ∧
      m'.step = ⟨{ m'.assign x key.val with
        origin := m.pc
        word := m.nextWord
        pc := (m.pc + 2) % 0x1000
        console := m'.fetched.announced (Instruction.waitKey x).mnemonic }, none⟩) ∧
    ∀ between, (∀ operation ∈ between, operation.isStep = false) →
      (∀ program, .load program ∉ between) → ∀ released : List Bool, released.length = 16 →
      m'.performAll (between ++ [.setKeys released]) =
        m'.performAll (between.filter Operation.isTick ++ [.setKeys released]) := by
  intro m'
  have start := waited_zero formed x
  -- A machine that has not waited yet is one that has waited for no steps and no ticks.
  obtain ⟨⟨keypad, done⟩, fetched⟩ := performAll_waited formed waiting
    (start.symm ▸ formed) noLoad (start.symm ▸ unheld)
  rw [start, Nat.zero_add, Nat.zero_add] at done
  rw [start] at fetched
  have formed' : m'.WellFormed := performAll_wellFormed formed operations
  have held : m'.keypad = keypad := (congrArg Machine.keypad done).trans rfl
  have pc : m'.pc = m.pc := (congrArg Machine.pc done).trans rfl
  have word : m'.nextWord = m.nextWord := (congrArg Machine.nextWord done).trans rfl
  refine ⟨held.symm ▸ done, fetched, fun key down => ?_,
    fun between noStep noLoad' released full => ?_⟩
  · obtain ⟨key, found, lowest⟩ := exists_lowest down
    refine ⟨key, lowest, ?_⟩
    rw [step_takes_key formed' (word.symm ▸ waiting) found, ← pc, ← word]
    rfl
  · obtain ⟨keypad', unseen⟩ := performAll_unseen between noStep noLoad' m' m'.keypad
    have unseen' : m'.performAll between =
        { m'.performAll (between.filter Operation.isTick) with keypad := keypad' } := unseen
    have append (operations : List Operation) : m'.performAll (operations ++ [.setKeys released]) =
        ((m'.performAll operations).perform (.setKeys released)).machine := List.foldl_append
    rw [append, append, unseen', perform_setKeys, perform_setKeys, dif_pos full, dif_pos full]

/-- A machine waits in the last byte of memory and the first. Through two steps and a tick it waits, with
a key pressed and released in between; the third step finds two keys down and takes the lower. -/
theorem waits_for_key_around :
    let ram := { bootRam with
      cells := Bytes.splice (Bytes.splice bootRam.cells 0xFFF [0xF3]) 0 [0x0A] }
    let booted : Machine := { create false false (.cycle #[]) with delay := 5, pc := 0xFFF }
    let m : Machine := { booted with ram }
    let keys := fun down : List Nat => (List.range 16).map fun key => decide (key ∈ down)
    let operations : List Operation :=
      [.step, .setKeys (keys [7]), .tick, .setKeys (keys []), .step, .setKeys (keys [5, 9])]
    let m' := m.performAll operations
    m.WellFormed ∧ (Instruction.waitKey 3).EncodedAs m.nextWord ∧ m.Unheld operations ∧
      m'.pc = 0xFFF ∧ m'.delay = 4 ∧
      m'.step.machine.value 3 = 5 ∧ m'.step.machine.pc = 1 := by
  intro ram booted m keys operations
  have formed : m.WellFormed := by
    have formedBooted : booted.WellFormed :=
      { create_wellFormed false false (.cycle #[]) with delay := by decide, pc := by decide }
    exact formedBooted.withRam (bootRam_sized.of_cells
      (((Bytes.size_splice _ _ _).trans (Bytes.size_splice _ _ _)).trans bootRam_sized.cells))
  have word : m.nextWord = 0xF30A := by decide +kernel
  have waiting : (Instruction.waitKey 3).EncodedAs m.nextWord := by
    rw [word]
    rfl
  have unheld : m.Unheld operations :=
    ⟨fun _ => by decide +kernel, nofun, nofun, nofun, fun _ => by decide +kernel, nofun, trivial⟩
  have keypad : (m.performAll operations).keypad =
      Vector.ofFn fun key : Digit => decide (key = 5 ∨ key = 9) := by decide +kernel
  have pc : m.pc = 0xFFF := rfl
  have delay : m.delay = 5 := rfl
  -- From here on only these facts count, not what the machine is.
  clear_value m
  obtain ⟨waited, _, taken, _⟩ := waits_for_key formed waiting (by simp [operations]) unheld
  generalize m.performAll operations = m' at keypad waited taken ⊢
  have pc' : m'.pc = m.pc := (congrArg Machine.pc waited).trans rfl
  have delay' : m'.delay = max 0 (m.delay - (1 : Nat)) := (congrArg Machine.delay waited).trans rfl
  rw [keypad] at taken
  obtain ⟨key, ⟨pressed, below⟩, took⟩ := taken 5 (by decide)
  obtain rfl : key = 5 := by
    clear took
    revert key
    decide
  have value : m'.step.machine.value 3 = (m'.assign 3 5).value 3 :=
    congrArg (fun outcome : Outcome => outcome.machine.value 3) took
  have next : m'.step.machine.pc = (m.pc + 2) % 0x1000 :=
    congrArg (fun outcome : Outcome => outcome.machine.pc) took
  refine ⟨formed, waiting, unheld, pc'.trans pc, ?_, ?_, ?_⟩
  · rw [delay', delay]
    decide
  · rw [value, assign, value_withValues, if_pos rfl]
  · rw [next, pc]
    decide

end Machine

end Chip8
