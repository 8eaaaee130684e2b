import Arcade8080.Proofs.Board.Tick
import Arcade8080.Proofs.Computer.Subroutine
import Arcade8080.Proofs.Computer.TornStore

/-!
# What a crash reports

A tick that fails reports the fault together with a save of the board. There are two ways
to fail. A request that is due finds the stack in the ROM: then no instruction has run, and
of the processor only the latch has changed. Or the slice comes to an instruction that
fails: then the processor is as it was before that instruction, so that the save points at
it. Nothing is assumed of how the board came to be in the state it is in.
-/

namespace Arcade8080

/-- The byte of the saved memory that is at the saved program counter. -/
def SavedComputer.opcode (s : SavedComputer) : UInt8 :=
  s.bytes.get ⟨s.processor.pc.toNat, s.processor.pc.toNat_lt⟩

theorem Computer.opcode_save {β : Type} (c : Computer β) : c.save.opcode = c.opcode := rfl

namespace Board

/-! ## The two ways to crash -/

/-- The request that was due could not push the program counter. -/
structure RequestRefused (b : Board) (now : Float) (crash : Crash) (b' : Board) : Prop where
  request : ∃ vector, (b.timer.poll now).1 = some vector ∧
    b.computer.interrupt vector = (.error crash.fault, b'.computer)
  fault : crash.fault = .romWrite (b.computer.processor.sp - 1) ∨
    crash.fault = .romWrite (b.computer.processor.sp - 2)
  processor : crash.saved.computer.processor =
    { b.computer.processor with interruptEnable := false }

/-- No request was due. Instructions were carried out, at these costs, and the next one failed. -/
structure InstructionFailed (b : Board) (now : Float) (crash : Crash) (b' : Board) : Prop where
  noRequest : (b.timer.poll now).1 = none
  failed : ∃ costs d, History Computer.Spends costs b.computer d ∧
    d.execute = (.error crash.fault, b'.computer) ∧
    crash.saved.computer.processor = d.processor
  undefinedByte : ∀ byte, crash.fault = .undefinedByte byte →
    byte ∈ Instruction.undefinedBytes ∧ crash.saved.computer.opcode = byte
  unsupported : ∀ i, crash.fault = .unsupported i →
    i = .hlt ∧ crash.saved.computer.opcode = 0x76

/-! ## Taking a crash apart -/

variable {b b' : Board} {now : Float} {crash : Crash}

theorem requestRefused_of_tick (h : b.tick now = (.error crash, b')) {vector : UInt8}
    (hv : (b.timer.poll now).1 = some vector) : RequestRefused b now crash b' := by
  obtain ⟨hf, hc, hs, -, -⟩ := tick_error h
  obtain ⟨hr, hd⟩ := b.pacer.tick_some now vector b.computer
  rw [hv, hr] at hf
  rw [hv, hd] at hc
  have hi : b.computer.interrupt vector = (.error crash.fault, b'.computer) := by
    rcases hx : b.computer.interrupt vector with ⟨fault | taken, d⟩
    · rw [hx] at hf hc
      cases hf
      cases hc
      rfl
    · rw [hx] at hf
      cases hf
  obtain ⟨-, address, n, ha, hpush, he⟩ := Computer.interrupt_error hi
  refine ⟨⟨vector, hv, hi⟩, ?_, ?_⟩
  · have hrefused := Memory.storeAll_refused b.computer.memory
      (b.computer.processor.push b.computer.processor.pc).1
    rw [hpush] at hrefused
    have hm : address ∈ [b.computer.processor.sp - 1, b.computer.processor.sp - 2] :=
      List.mem_of_find?_eq_some hrefused.symm
    rw [List.mem_cons, List.mem_singleton] at hm
    rw [ha]
    rcases hm with rfl | rfl
    · exact Or.inl rfl
    · exact Or.inr rfl
  · rw [hs]
    show b'.computer.processor = _
    rw [he]

/-- The byte of an instruction that is none, or is not carried out, is found in the save. -/
theorem opcode_of_fault {d d' : Computer Ports} {fault : Fault}
    (hx : d.execute = (.error fault, d')) (hf : ∀ address, fault ≠ .romWrite address) :
    d'.save.opcode = d.opcode := by
  rcases Computer.execute_error hx with ⟨-, rfl⟩ | ⟨address, n, ha, -, -⟩
  · exact d'.opcode_save
  · exact absurd ha (hf address)

theorem instructionFailed_of_tick (h : b.tick now = (.error crash, b'))
    (hv : (b.timer.poll now).1 = none) : InstructionFailed b now crash b' := by
  obtain ⟨hf, hc, hs, -, -⟩ := tick_error h
  have hslice := b.pacer.tick_none now b.computer
  rw [hv] at hf hc
  rw [hf, hc] at hslice
  have hends := Computer.sliceEnds_slice
    (b.pacer.room_above_budget (b.pacer.budget_le_cap (b.pacer.elapsed now))) b.computer
  rw [← hslice] at hends
  obtain ⟨costs, d, hh, -, -, hx⟩ := hends
  have hstop := Computer.stopsWith_of_execute (congrArg Prod.fst hx)
  have hsave : crash.saved.computer = b'.computer.save := congrArg SavedBoard.computer hs
  refine ⟨hv, ⟨costs, d, hh, hx, ?_⟩, ?_, ?_⟩
  · rw [hsave]
    exact (Computer.execute_error_keeps hx).1
  · intro byte hb
    rw [hb] at hstop hx
    rw [hsave, opcode_of_fault hx fun _ => Fault.noConfusion]
    exact ⟨hstop.2, hstop.1.symm⟩
  · intro i hi
    rw [hi] at hstop hx
    rw [hsave, opcode_of_fault hx fun _ => Fault.noConfusion]
    exact hstop

/-! ## Crashes -/

/-- What no crash reports: ports are always attached, and a tick neither ends a run nor loads. -/
theorem fault_of_execute {d : Computer Ports} {fault : Fault} (hx : d.execute.1 = .error fault) :
    fault ≠ .noBus ∧ fault ≠ .pastEnd ∧ ∀ length, fault ≠ .oversized length := by
  have hstop := Computer.stopsWith_of_execute hx
  refine ⟨?_, ?_, ?_⟩
  · rintro rfl
    exact Bool.noConfusion (show true = false from hstop.2)
  · rintro rfl
    exact hstop
  · rintro length rfl
    exact hstop

/-- **A crash reports the board as the fault left it.** The save is that of the board after the
tick, and no sounds have been latched. Either the request that was due was refused, and no
instruction has run; or instructions were carried out, and the save is of the processor before
the one that failed. A crash always comes from the program, never from ports that are missing
or from the end of the image. -/
theorem crash_is_faithful (h : b.tick now = (.error crash, b')) :
    crash.saved = b'.save ∧ b'.latch = b.latch ∧ b'.pending = b.pending ∧
      (RequestRefused b now crash b' ∨ InstructionFailed b now crash b') ∧
      crash.fault ≠ .noBus ∧ crash.fault ≠ .pastEnd ∧
      ∀ length, crash.fault ≠ .oversized length := by
  obtain ⟨-, -, hs, hl, hp⟩ := tick_error h
  refine ⟨hs, hl, hp, ?_⟩
  cases hv : (b.timer.poll now).1 with
  | some vector =>
    have hr := requestRefused_of_tick h hv
    refine ⟨Or.inl hr, ?_⟩
    rcases hr.fault with hf | hf
    · rw [hf]
      exact ⟨Fault.noConfusion, Fault.noConfusion, fun _ => Fault.noConfusion⟩
    · rw [hf]
      exact ⟨Fault.noConfusion, Fault.noConfusion, fun _ => Fault.noConfusion⟩
  | none =>
    have hi := instructionFailed_of_tick h hv
    obtain ⟨costs, d, -, hx, -⟩ := hi.failed
    exact ⟨Or.inr hi, fault_of_execute (congrArg Prod.fst hx)⟩

/-! ## Two crashes -/

/-- A board whose first request is due at once, with the stack in the ROM. -/
def unstacked : Board :=
  { build { firstDelay := -1 } with
    computer :=
      { processor := { sp := 0x0100, pc := 0x2400, interruptEnable := true }
        memory := Memory.blank 0x2000
        bus := Ports.idle {} } }

/-- A board about to execute a `NOP` and an `HLT`. -/
def halting : Board :=
  { build {} with
    computer :=
      { processor := { pc := 0x2400 }
        memory := (Memory.blank 0x2000).put ⟨0x2401, 0x76⟩
        bus := Ports.idle {} }
    pacer := { Pacer.start 10000 1 with lastReading := some 0 } }

theorem poll_unstacked : (unstacked.timer.poll 0).1 = some 1 := by decide +kernel

theorem tick_unstacked : ∃ crash b', unstacked.tick 0 = (.error crash, b') ∧
    crash.fault = .romWrite 0x00FF := by
  apply tick_of_error
  rw [poll_unstacked, (unstacked.pacer.tick_some 0 1 unstacked.computer).1]
  rfl

theorem slice_halting : (halting.computer.slice 100 0).1 = .error (.unsupported .hlt) := by
  have hread (address : UInt16) : halting.computer.memory.read address =
      if 0x2401 = address then 0x76 else 0 := by
    simp only [halting, Memory.read_put, Memory.read_blank]
  have hi : halting.computer.instruction? = some .nop := by
    rw [Computer.instruction?_eq_some_iff _ (by decide)]
    exact hread 0x2400
  obtain ⟨d, hx, hd⟩ := Computer.execute_nop hi
  have hid : d.instruction? = some .hlt := by
    rw [Computer.instruction?_eq_some_iff _ (by decide), Computer.opcode, hd.programCounter rfl,
      hd.memory _ List.not_mem_nil]
    exact hread 0x2401
  rw [Computer.slice_eq, if_pos (by decide), hx]
  show (d.slice 100 (saturatingAdd 0 4)).1 = _
  rw [Computer.slice_eq, if_pos (by decide), Computer.execute_hlt hid]

theorem budget_halting : halting.pacer.budget (halting.pacer.elapsed 100) = 100 := by
  decide +kernel

theorem tick_halting : ∃ crash b', halting.tick 100 = (.error crash, b') ∧
    crash.fault = .unsupported .hlt := by
  have hv : (halting.timer.poll 100).1 = none := by decide +kernel
  apply tick_of_error
  rw [hv, Pacer.tick_none_result, budget_halting, slice_halting]

/-- The stack in the ROM is reported with the latch clear and the program counter where it was,
and the `HLT` with the program counter at it, after the `NOP` has been carried out. -/
theorem crashes_point_at_fault :
    (∃ crash b', unstacked.tick 0 = (.error crash, b') ∧ crash.fault = .romWrite 0x00FF ∧
      crash.saved.computer.processor = { sp := 0x0100, pc := 0x2400 }) ∧
    ∃ crash b', halting.tick 100 = (.error crash, b') ∧ crash.fault = .unsupported .hlt ∧
      crash.saved.computer.opcode = 0x76 := by
  constructor
  · obtain ⟨crash, b', h, hf⟩ := tick_unstacked
    obtain ⟨-, -, -, hr | hi, -⟩ := crash_is_faithful h
    · exact ⟨crash, b', h, hf, hr.processor⟩
    · cases hi.noRequest.symm.trans poll_unstacked
  · obtain ⟨crash, b', h, hf⟩ := tick_halting
    obtain ⟨-, -, -, hr | hi, -⟩ := crash_is_faithful h
    · rcases hr.fault with hrefused | hrefused
      · cases hf.symm.trans hrefused
      · cases hf.symm.trans hrefused
    · exact ⟨crash, b', h, hf, (hi.unsupported .hlt hf).2⟩

end Board

end Arcade8080
