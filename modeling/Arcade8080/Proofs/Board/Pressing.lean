import Arcade8080.Proofs.Board.Controls
import Arcade8080.Proofs.Board.Tick
import Arcade8080.Proofs.Board.Transcript
import Arcade8080.Proofs.Computer.Run

/-!
# When a control is used

A host may use the controls between any two steps of the computer. The two input ports alone show
it, and only `IN 1` and `IN 2` look at these, so any other step can be exchanged with the use of a
control, even if it fails. A read of an input port sees the control in one order and not in the
other; the accumulator takes what it has seen, and nothing else is different. A host that ticks the
board has the choice between before and after a tick only, and it makes no difference to a tick
without such a read.
-/

namespace Arcade8080

namespace Ports

variable (p : Ports) (control : Control) (on : Bool)

/-- The other ports read the same. -/
theorem read_press_of_ne {number : UInt8} (h : ∀ port : InputPort, number ≠ port.number) :
    (p.press control on).read number = p.read number := by
  have h1 : number.toNat ≠ 1 := fun he => h .one (UInt8.toNat_inj.mp he)
  have h2 : number.toNat ≠ 2 := fun he => h .two (UInt8.toNat_inj.mp he)
  unfold press
  cases control.port with
  | one =>
    unfold read
    split
    next he => rfl
    next he => exact absurd he h1
    all_goals rfl
  | two =>
    unfold read
    split
    next he => rfl
    next he => rfl
    next he => exact absurd he h2
    all_goals rfl

/-- No program writes to what the controls change. -/
theorem write_press (port value : UInt8) :
    (p.press control on).write port value = (p.write port value).press control on := by
  unfold press
  cases control.port with
  | one => unfold write; split <;> rfl
  | two => unfold write; split <;> rfl

end Ports

/-- Only `IN` reads a port, and it is the one that the instruction names. -/
theorem Instruction.effect_eq_input {i : Instruction} {p : Processor} {view : View}
    {number : UInt8} (h : i.effect p view = .input number) :
    i = .input ∧ number = p.immediate view := by
  by_cases hi : i = .input
  · subst hi
    exact ⟨rfl, (Effect.input.inj h).symm⟩
  by_cases hh : i = .hlt
  · subst hh
    cases h
  by_cases ho : i = .output
  · subst ho
    cases h
  obtain ⟨after, flow, he⟩ := effect_eq_change hh hi ho p view
  rw [he] at h
  cases h

namespace Computer

/-- The computer at whose ports a control is used. -/
def press (c : Computer Ports) (control : Control) (on : Bool) : Computer Ports :=
  c.attach (c.bus.press control on)

/-- The next instruction is an `IN` from this input port. -/
def ReadsInput (c : Computer Ports) (port : InputPort) : Prop :=
  c.instruction? = some .input ∧ c.processor.immediate c.memory.read = port.number

variable (c : Computer Ports) (control : Control) (on : Bool)

theorem commit_press (i : Instruction) (effect : Effect)
    (h : ∀ number, effect = .input number →
      (c.bus.press control on).read number = c.bus.read number) :
    commit i effect (c.press control on) =
      ((commit i effect c).1, (commit i effect c).2.press control on) := by
  rcases c with ⟨p, memory, ports⟩
  cases effect with
  | change stores after flow =>
    simp only [press, attach, commit]
    rcases memory.storeAll stores with ⟨_, _ | _⟩ <;> rfl
  | input number =>
    have hread : (ports.press control on).read number = ports.read number := h number rfl
    show (Except.ok _, Computer.mk { p with
        regs.a := (ports.press control on).read number, pc := p.pc + i.length } memory
      (ports.press control on)) = _
    rw [hread]
    rfl
  | output number value =>
    show (Except.ok _, Computer.mk { p with pc := p.pc + i.length } memory
      ((ports.press control on).write number value)) = _
    rw [Ports.write_press]
    rfl
  | unsupported => rfl

/-- An instruction that reads none of the input ports can be exchanged with the use of a control. -/
theorem execute_press (h : ∀ port, ¬ c.ReadsInput port) :
    (c.press control on).execute = (c.execute.1, c.execute.2.press control on) := by
  have hstep : (c.press control on).step = (c.step.1, c.step.2.press control on) := by
    cases hi : c.instruction? with
    | none =>
      have hi' : (c.press control on).instruction? = none := hi
      simp only [step, hi, hi']
      rfl
    | some i =>
      have hi' : (c.press control on).instruction? = some i := hi
      rw [step_of_instruction? hi, step_of_instruction? hi']
      refine c.commit_press control on i _ fun number he => ?_
      obtain ⟨rfl, rfl⟩ := Instruction.effect_eq_input he
      exact c.bus.read_press_of_ne control on fun port hp => h port ⟨hi, hp⟩
  rw [Prod.ext_iff, execute_fst, execute_snd, execute_fst, execute_snd, hstep]
  exact ⟨rfl, rfl⟩

theorem interrupt_press (vector : UInt8) :
    (c.press control on).interrupt vector =
      ((c.interrupt vector).1, (c.interrupt vector).2.press control on) := by
  rcases c with ⟨p, memory, ports⟩
  cases hl : p.interruptEnable with
  | false => simp only [press, attach, interrupt, hl, Bool.false_eq_true, if_false]
  | true =>
    simp only [press, attach, interrupt, hl, if_true]
    rcases memory.storeAll _ with ⟨_, _ | _⟩ <;> rfl

variable {c}

theorem execute_input (h : c.instruction? = some .input) :
    c.execute = (.ok Instruction.input.cycles, { c with
      processor := { c.processor with
        regs.a := c.bus.read (c.processor.immediate c.memory.read)
        pc := c.processor.pc + Instruction.input.length } }) :=
  execute_of_step (step_of_instruction? h)

/-- A read of an input port sees a control that is used before it. -/
theorem execute_press_of_readsInput {port : InputPort} (h : c.ReadsInput port) :
    (c.press control on).execute = (c.execute.1,
      { c.execute.2.press control on with
        processor.regs.a := (c.bus.press control on).read port.number }) := by
  obtain ⟨hi, hport⟩ := h
  have hi' : (c.press control on).instruction? = some .input := hi
  rw [execute_input hi, execute_input hi', ← hport]
  rfl

/-- A slice that reads none of the input ports can be exchanged with the use of a control. -/
theorem slice_press {budget spent : UInt32}
    (h : ∀ d ∈ c.sliceVisits budget spent, ∀ port, ¬ d.ReadsInput port) :
    (c.press control on).slice budget spent =
      ((c.slice budget spent).1, (c.slice budget spent).2.press control on) := by
  fun_induction slice budget spent c with
  | case1 spent c hlt cycles next he ih =>
    rw [sliceVisits_eq, if_pos hlt, he] at h
    obtain ⟨hfirst, hrest⟩ := List.forall_mem_cons.mp h
    rw [slice_eq, if_pos hlt, c.execute_press control on hfirst, he]
    exact ih hrest
  | case2 spent c hlt fault next he =>
    rw [sliceVisits_eq, if_pos hlt, he] at h
    rw [slice_eq, if_pos hlt, c.execute_press control on (h c List.mem_cons_self), he]
  | case3 spent c hge => exact slice_spent hge _

end Computer

namespace Pacer

variable (p : Pacer) (now : Float) {request : Option UInt8} {c : Computer Ports}
  (control : Control) (on : Bool)

theorem work_press (h : request = none →
      ∀ d ∈ c.sliceVisits (p.budget (p.elapsed now)) 0, ∀ port, ¬ d.ReadsInput port) :
    p.work now request (c.press control on) =
      ((p.work now request c).1, (p.work now request c).2.press control on) := by
  cases request with
  | none => exact Computer.slice_press control on (h rfl)
  | some vector =>
    simp only [work, Computer.interrupt_press]
    rcases c.interrupt vector with ⟨fault | taken, d⟩
    · rfl
    · rfl

theorem tick_press (h : request = none →
      ∀ d ∈ c.sliceVisits (p.budget (p.elapsed now)) 0, ∀ port, ¬ d.ReadsInput port) :
    p.tick now request (c.press control on) = ((p.tick now request c).1,
      (p.tick now request c).2.1, (p.tick now request c).2.2.press control on) := by
  simp only [tick, p.work_press now control on h]
  rcases p.work now request c with ⟨fault | cycles, d⟩
  · rfl
  · rfl

end Pacer

namespace Board

/-- It makes no difference whether a control is used before a command or after it. -/
def EitherWay (b : Board) (control : Control) (on : Bool) (command : Command) : Prop :=
  (b.press control on).obey command =
    ((b.obey command).1, (b.obey command).2.press control on)

theorem obey_execute_press (b : Board) (control : Control) (on : Bool) :
    (b.press control on).obey .execute =
      (.executed (b.computer.press control on).execute.1,
        { b with computer := (b.computer.press control on).execute.2 }) := rfl

theorem obey_interrupt_press (b : Board) (control : Control) (on : Bool) (vector : UInt8) :
    (b.press control on).obey (.interrupt vector) =
      (.interrupted ((b.computer.press control on).interrupt vector).1,
        { b with computer := ((b.computer.press control on).interrupt vector).2 }) := rfl

/-- **The use of a control can be exchanged with a step.** It makes no difference to an interrupt,
nor to an instruction other than `IN 1` and `IN 2`: answer and board are the same, also after a
fault. For these two the orders differ in the accumulator at most, which takes what the port reads
then, and only if using the control changes what it reads. -/
theorem press_exchanges (b : Board) (control : Control) (on : Bool) :
    (∀ vector, b.EitherWay control on (.interrupt vector)) ∧
      ((∀ port, ¬ b.computer.ReadsInput port) → b.EitherWay control on .execute) ∧
      ∀ port, b.computer.ReadsInput port →
        (b.press control on).obey .execute = ((b.obey .execute).1,
          { (b.obey .execute).2.press control on with
            computer.processor.regs.a :=
              (b.press control on).computer.bus.read port.number }) ∧
        (b.EitherWay control on .execute ↔
          (b.press control on).computer.bus.read port.number =
            b.computer.bus.read port.number) := by
  refine ⟨fun vector => ?_, fun h => ?_, fun port h => ?_⟩
  · rw [EitherWay, obey_interrupt_press, Computer.interrupt_press]
    rfl
  · rw [EitherWay, obey_execute_press, Computer.execute_press _ _ _ h]
    rfl
  · have hpress : (b.press control on).obey .execute = ((b.obey .execute).1,
        { (b.obey .execute).2.press control on with
          computer.processor.regs.a := (b.press control on).computer.bus.read port.number }) := by
      rw [obey_execute_press, Computer.execute_press_of_readsInput control on h]
      rfl
    refine ⟨hpress, ?_⟩
    have ha : (b.obey .execute).2.computer.processor.regs.a =
        b.computer.bus.read port.number := by
      show b.computer.execute.2.processor.regs.a = _
      rw [Computer.execute_input h.1, h.2]
    rw [EitherWay, hpress, ← ha]
    constructor
    · intro he
      exact congrArg (fun r : Answer × Board => r.2.computer.processor.regs.a) he
    · intro he
      rw [he]
      rfl

/-! ## A coin before a read -/

/-- A save of a board at an `IN 1`. -/
def polling : SavedBoard where
  computer :=
    { bytes := (((Memory.blank 0x2000).put ⟨0, 0xDB⟩).put ⟨1, 1⟩).bytes
      processor := {} }
  shifter := {}
  in1 := Ports.wired
  in2 := 0

theorem readsInput_polling : ((build {}).restore polling).computer.ReadsInput .one := by
  have hread (address : UInt16) : ((build {}).restore polling).computer.memory.read address =
      if 1 = address then 1 else if 0 = address then 0xDB else 0 := by
    show (((Memory.blank 0x2000).put ⟨0, 0xDB⟩).put ⟨1, 1⟩).read address = _
    simp only [Memory.read_put, Memory.read_blank]
  refine ⟨?_, hread 1⟩
  rw [Computer.instruction?_eq_some_iff _ (by decide)]
  exact hread 0

/-- A read of the first input port tells a coin before it from a coin after it; for a tilt, which
is in the second port, the order does not matter. Nor does it matter for a coin on a new board,
where the next instruction is no read. -/
theorem coin_before_read :
    ¬ ((build {}).restore polling).EitherWay .coin true .execute ∧
      ((build {}).restore polling).EitherWay .tilt true .execute ∧
      (build {}).EitherWay .coin true .execute := by
  obtain ⟨-, -, hcoin⟩ := press_exchanges ((build {}).restore polling) .coin true
  obtain ⟨-, -, htilt⟩ := press_exchanges ((build {}).restore polling) .tilt true
  obtain ⟨-, hnew, -⟩ := press_exchanges (build {}) .coin true
  refine ⟨?_, ?_, hnew ?_⟩
  · rw [(hcoin .one readsInput_polling).2]
    show ¬ setBit (Ports.wired ||| Ports.wired) 0 true = Ports.wired ||| Ports.wired
    decide
  · rw [(htilt .one readsInput_polling).2]
    rfl
  · rintro port ⟨hi, -⟩
    rw [Computer.instruction?_eq_some_iff _ (by decide)] at hi
    have hread : (build {}).computer.opcode = 0 := Memory.read_blank _ 0
    rw [hread] at hi
    exact absurd hi (by decide)

/-! ## Whole ticks -/

theorem press_latchSounds (b : Board) (control : Control) (on : Bool) :
    (b.press control on).latchSounds = b.latchSounds.press control on := by
  simp only [press, Ports.press]
  cases control.port <;> rfl

/-- **The use of a control can be exchanged with a tick.** It makes no difference to a tick that
executes no `IN 1` and no `IN 2` whether a control is used before it or after it, whatever the tick
requests. The cycles or the fault are the same, and so is the board; if the tick crashes, what it
saves shows the control. -/
theorem tick_press (b : Board) (control : Control) (on : Bool) (now : Float)
    (h : ∀ c ∈ b.executed now, ∀ port, ¬ c.ReadsInput port) :
    (b.press control on).tick now =
      ((b.tick now).1.mapError fun crash =>
          { crash with saved := ((b.tick now).2.press control on).save },
        (b.tick now).2.press control on) := by
  rcases b with ⟨computer, pacer, timer, latch, pending, settings⟩
  have hpress : (Board.mk computer pacer timer latch pending settings).press control on =
      ⟨computer.press control on, pacer, timer, latch, pending, settings⟩ := rfl
  have hpacer := pacer.tick_press now control on fun hv : (timer.poll now).1 = none => by
    simpa only [executed, hv] using h
  simp only [hpress, tick, hpacer]
  rcases pacer.tick now (timer.poll now).1 computer with ⟨fault | cycles, pacer', computer'⟩
  · rfl
  · have hsounds := press_latchSounds
      ⟨computer', pacer', (timer.poll now).2, latch, pending, settings⟩ control on
    exact congrArg (Prod.mk (Except.ok cycles)) hsounds

end Board

end Arcade8080
