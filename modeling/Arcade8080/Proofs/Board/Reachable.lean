import Arcade8080.Proofs.Computer.Invariant
import Arcade8080.Proofs.Operation

/-!
# Boards that a host can come by

A board is built from its settings and led on by operations, in any order and
whether they succeed or not. The ports on its bus are then built idle and used
as ports are: pressed, written to, restored. In all such ports bit 3 of port 1
is one, because no control is wired to it and restoring forces it.
-/

namespace Arcade8080

/-- Ports that were idle once and have been used since. -/
inductive Ports.Obtainable : Ports → Prop
  | idle (dip : DipSwitches) : Obtainable (idle dip)
  | press {p : Ports} (control : Control) (on : Bool) :
      Obtainable p → Obtainable (p.press control on)
  | write {p : Ports} (port value : UInt8) : Obtainable p → Obtainable (p.write port value)
  | restore {p : Ports} (shifter : Shifter) (in1 in2 : UInt8) :
      Obtainable p → Obtainable (p.restore shifter in1 in2)

/-- Other ports that an operation hangs on the bus are obtainable. -/
def Computer.Operation.Genuine : Operation Ports → Prop
  | .attach ports => ports.Obtainable
  | _ => True

def Board.Operation.Genuine : Operation → Prop
  | .computer operation => operation.Genuine
  | _ => True

/-- A board that some operations have led to from a newly built one. -/
def Board.Reachable (b : Board) : Prop :=
  ∃ settings operations, (∀ o ∈ operations, o.Genuine) ∧
    History Operation.Leads operations (build settings) b

/-! ## The wired bit -/

theorem or_and_distrib (u v w : UInt8) : (u ||| v) &&& w = u &&& w ||| v &&& w := by
  apply UInt8.toBitVec_inj.mp
  exact BitVec.and_or_distrib_right

theorem setBit_or {v w : UInt8} {k : Nat} (on : Bool)
    (h : w &&& ~~~UInt8.ofNat (1 <<< k) = w) : setBit (v ||| w) k on = setBit v k on ||| w := by
  cases on with
  | true =>
    show v ||| w ||| UInt8.ofNat (1 <<< k) = v ||| UInt8.ofNat (1 <<< k) ||| w
    rw [UInt8.or_assoc, UInt8.or_comm w, UInt8.or_assoc]
  | false =>
    show (v ||| w) &&& ~~~UInt8.ofNat (1 <<< k) = v &&& ~~~UInt8.ofNat (1 <<< k) ||| w
    rw [or_and_distrib, h]

/-- No control is wired to bit 3. -/
theorem Control.wired_and_not_line (control : Control) :
    Ports.wired &&& ~~~UInt8.ofNat (1 <<< control.line) = Ports.wired := by
  cases control <;> decide

theorem Ports.in1_write (p : Ports) (port value : UInt8) : (p.write port value).in1 = p.in1 := by
  unfold write
  split <;> rfl

theorem Ports.Obtainable.wired {p : Ports} (h : p.Obtainable) : p.in1 ||| Ports.wired = p.in1 := by
  induction h with
  | idle dip => exact UInt8.or_self
  | @press p control on _ ih =>
    have hs := setBit_or (v := p.in1) on control.wired_and_not_line
    rw [ih] at hs
    unfold Ports.press
    split
    · exact hs.symm
    · exact ih
  | @write p port value _ ih => rw [in1_write, ih]
  | @restore p shifter in1 in2 _ _ =>
    show in1 ||| Ports.wired ||| Ports.wired = in1 ||| Ports.wired
    rw [UInt8.or_assoc, UInt8.or_self]

/-! ## Every operation keeps ports obtainable -/

namespace Computer

theorem obtainable_execute {c : Computer Ports} (h : c.bus.Obtainable) :
    c.execute.2.bus.Obtainable := by
  rcases c.execute_bus with he | ⟨port, he⟩ | ⟨port, value, he⟩
  · rwa [he]
  · rwa [he]
  · rw [he]
    exact .write port value h

theorem obtainable_interrupt (vector : UInt8) {c : Computer Ports} (h : c.bus.Obtainable) :
    (c.interrupt vector).2.bus.Obtainable := by
  rwa [interrupt_bus]

theorem Operation.obtainable (operation : Operation Ports) {c c' : Computer Ports}
    (h : operation.Leads c c') (hg : operation.Genuine) (hc : c.bus.Obtainable) :
    c'.bus.Obtainable := by
  cases operation with
  | execute =>
    cases h
    exact obtainable_execute hc
  | run =>
    obtain ⟨fuel, fault, h⟩ := h
    exact run_keeps (P := fun d => d.bus.Obtainable) (fun _ => obtainable_execute) h hc
  | interrupt vector =>
    cases h
    exact obtainable_interrupt vector hc
  | tick pacer now request =>
    cases h
    exact tick_keeps (P := fun d => d.bus.Obtainable) (fun _ => obtainable_execute)
      (fun vector _ => obtainable_interrupt vector) pacer now request c hc
  | store s =>
    cases h
    rwa [bus_store]
  | reset =>
    cases h
    exact hc
  | attach ports =>
    cases h
    exact hg
  | load image =>
    cases h
    rwa [bus_load]
  | restore saved =>
    cases h
    exact hc

end Computer

namespace Board

theorem Operation.obtainable (operation : Operation) {b b' : Board} (h : operation.Leads b b')
    (hg : operation.Genuine) (hb : b.computer.bus.Obtainable) : b'.computer.bus.Obtainable := by
  cases operation with
  | computer operation => exact operation.obtainable h.1 hg hb
  | loadRom image =>
    cases h
    rwa [(b.computer_loadRom image).2, Computer.bus_load]
  | tick now =>
    cases h
    rw [computer_tick]
    exact Computer.Operation.obtainable (.tick b.pacer now (b.timer.poll now).1) rfl trivial hb
  | press control on =>
    cases h
    exact .press control on hb
  | reset =>
    cases h
    exact .idle b.computer.bus.dip
  | restore saved =>
    cases h
    exact .restore saved.shifter saved.in1 saved.in2 hb
  | drain =>
    cases h
    exact hb

theorem Reachable.obtainable {b : Board} (h : b.Reachable) : b.computer.bus.Obtainable := by
  obtain ⟨settings, operations, hg, hh⟩ := h
  exact hh.keeps (P := fun b => b.computer.bus.Obtainable)
    (fun o ho _ _ hl => o.obtainable hl (hg o ho)) (.idle settings.dip)

end Board

end Arcade8080
