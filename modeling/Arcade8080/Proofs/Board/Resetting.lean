import Arcade8080.Proofs.Board.Controls
import Arcade8080.Proofs.Board.Requests
import Arcade8080.Proofs.Board.Transcript
import Arcade8080.Proofs.Pacing.Elapsed
import Arcade8080.Proofs.RomIntegrity

/-!
# What a reset forgets

The ports reset themselves to the switches that they hold, and the timer to the settings that the
board holds. Neither of the two changes in any history, and the switches in the ports remain those
of the settings: restoring a save file replaces the bits that show the switches, but not the
switches. So a reset leads back to the board as it was built, with the memory and the pacer that
there are now.

Hanging ports with other switches on the bus is left out.
-/

namespace Arcade8080

/-- Whether the switches are still set like this after an operation. Other ports that are hung on
the bus bring their own. -/
def Computer.Operation.KeepsSwitches (dip : DipSwitches) : Operation Ports → Prop
  | .attach ports => ports.dip = dip
  | _ => True

def Board.Operation.KeepsSwitches (dip : DipSwitches) : Operation → Prop
  | .computer operation => operation.KeepsSwitches dip
  | _ => True

theorem Ports.dip_press (p : Ports) (control : Control) (on : Bool) :
    (p.press control on).dip = p.dip := by
  unfold press
  split <;> rfl

theorem Computer.Operation.dip {operation : Operation Ports} {c c' : Computer Ports}
    {dip : DipSwitches} (h : operation.Leads c c') (hs : operation.KeepsSwitches dip)
    (hc : c.bus.dip = dip) : c'.bus.dip = dip := by
  by_cases ha : operation.Attaches
  · cases operation with
    | attach ports =>
      cases h
      exact hs
    | _ => exact ha.elim
  · exact (operation.sameInputs h ha).dip.trans hc

namespace Board

/-- What the settings that a board was built with still tell of it later. -/
structure BuiltFrom (settings : Settings) (b : Board) : Prop where
  settings_eq : b.settings = settings
  dip_eq : b.computer.bus.dip = settings.dip
  boundary_eq : b.computer.memory.romBoundary = settings.romBoundary

variable {settings : Settings} {os os' : List Operation} {b b' : Board}

theorem builtFrom_build (settings : Settings) : BuiltFrom settings (build settings) :=
  ⟨rfl, rfl, rfl⟩

theorem Operation.dip {operation : Operation} {dip : DipSwitches} (h : operation.Leads b b')
    (hs : operation.KeepsSwitches dip) (hb : b.computer.bus.dip = dip) :
    b'.computer.bus.dip = dip := by
  cases operation with
  | computer operation => exact operation.dip h.1 hs hb
  | loadRom image =>
    cases h
    rwa [(b.computer_loadRom image).2, Computer.bus_load]
  | tick now =>
    cases h
    rw [computer_tick]
    exact Computer.Operation.dip
      (show (Computer.Operation.tick b.pacer now (b.timer.poll now).1).Leads b.computer _ from rfl)
      trivial hb
  | press control on =>
    cases h
    exact (b.computer.bus.dip_press control on).trans hb
  | _ =>
    cases h
    exact hb

theorem BuiltFrom.next (hb : BuiltFrom settings b) {operation : Operation}
    (h : operation.Leads b b') (hs : operation.KeepsSwitches settings.dip) :
    BuiltFrom settings b' where
  settings_eq := (Operation.settings_eq h).trans hb.settings_eq
  dip_eq := Operation.dip h hs hb.dip_eq
  boundary_eq := (operation.romBoundary h).trans hb.boundary_eq

theorem builtFrom_of_history (hh : History Operation.Leads os (build settings) b)
    (hs : ∀ o ∈ os, o.KeepsSwitches settings.dip) : BuiltFrom settings b :=
  hh.keeps (fun o ho _ _ hl hb => hb.next hl (hs o ho)) (builtFrom_build settings)

/-- A board as it was built, but for this memory and this pacer. -/
def rebuilt (settings : Settings) (memory : Memory) (pacer : Pacer) : Board :=
  let b := build settings
  { b with computer.memory := memory, pacer := pacer }

theorem BuiltFrom.reset (hb : BuiltFrom settings b) :
    b.reset = rebuilt settings b.computer.memory b.pacer := by
  rw [Board.reset, Ports.reset, hb.dip_eq, hb.settings_eq]
  rfl

/-- Boards with the same settings and the same bytes are alike after a reset. -/
theorem BuiltFrom.alike_reset (hb : BuiltFrom settings b) (hb' : BuiltFrom settings b')
    (hm : b.computer.memory.bytes = b'.computer.memory.bytes) : Alike b.reset b'.reset := by
  rw [hb.reset, hb'.reset]
  exact ⟨rfl, ⟨hm, hb.boundary_eq.trans hb'.boundary_eq.symm⟩, ⟨rfl, rfl, rfl⟩⟩

/-- **A reset forgets everything but memory and time.** Whatever has been done to a board since it
was built, short of hanging ports with other switches on its bus, a reset makes it the board that
was built, with the memory and the pacer that it has now: processor, ports, timer, latch and pending
sounds are new. The settings and the boundary of the ROM are still those it was built with. Hence
two boards that were built from the same settings and have the same bytes in memory cannot be told
apart after a reset: they save the same, and they answer any commands with the same results and
save the same after each of them. -/
theorem reset_forgets_history (settings : Settings) :
    (∀ os b, History Operation.Leads os (build settings) b →
      (∀ o ∈ os, o.KeepsSwitches settings.dip) →
      b.reset = rebuilt settings b.computer.memory b.pacer ∧ b.settings = settings ∧
        b.computer.memory.romBoundary = settings.romBoundary) ∧
    ∀ os b os' b', History Operation.Leads os (build settings) b →
      History Operation.Leads os' (build settings) b' →
      (∀ o ∈ os ++ os', o.KeepsSwitches settings.dip) →
      b.computer.memory.bytes = b'.computer.memory.bytes →
      b.reset.save = b'.reset.save ∧
        ∀ commands, transcript commands b.reset = transcript commands b'.reset := by
  constructor
  · intro os b hh hs
    have hb := builtFrom_of_history hh hs
    exact ⟨hb.reset, hb.settings_eq, hb.boundary_eq⟩
  · intro os b os' b' hh hh' hs hm
    have hb := builtFrom_of_history hh fun o ho => hs o (List.mem_append_left os' ho)
    have hb' := builtFrom_of_history hh' fun o ho => hs o (List.mem_append_right os ho)
    have halike := hb.alike_reset hb' hm
    exact ⟨halike.save, halike.transcript⟩

/-- A save of a board with a program at work on it, whose ports show all switches as set. -/
def foreign : SavedBoard where
  computer :=
    { bytes := (Memory.blank 0x2000).bytes
      processor := { sp := 0x2400, pc := 0x1234, interruptEnable := true } }
  shifter := { x := 0xAA, y := 0x55 }
  in1 := 0xFF
  in2 := 0xFF

/-- Restoring it and ticking a board whose switches are set in another way leaves no trace after a
reset, compared with a board that has only had a coin. -/
theorem foreign_save_forgotten :
    ∃ b, History Operation.Leads [.restore foreign, .tick 0, .drain] (build {}) b ∧
      b.computer.bus.in2 = 0xFF ∧ b.pacer.lastReading = some 0 ∧
      b.reset.computer.bus.in2 = 0 ∧ b.reset.pacer.lastReading = some 0 ∧
      ∀ commands, transcript commands b.reset =
        transcript commands ((build {}).press .coin true).reset := by
  obtain ⟨c, hc⟩ : ∃ c, (build {}).restore foreign = c := ⟨_, rfl⟩
  have hv : (c.timer.poll 0).1 = none := by
    rw [← hc]
    decide +kernel
  have hz : c.pacer.budget (c.pacer.elapsed 0) = 0 := by
    rw [← hc]
    exact Pacer.budget_start 10000 1 0
  have htick := tick_unspent hv hz
  obtain ⟨b, hb⟩ : ∃ b, (c.tick 0).2.drain.2 = b := ⟨_, rfl⟩
  have hh : History Operation.Leads [.restore foreign, .tick 0, .drain] (build {}) b :=
    .cons hc (.cons rfl (.cons hb (.nil b)))
  have hh' : History Operation.Leads [.press .coin true] (build {}) ((build {}).press .coin true) :=
    .cons rfl (.nil _)
  obtain ⟨hreset, hpair⟩ := reset_forgets_history {}
  obtain ⟨hr, -, -⟩ := hreset _ b hh (by simp [Operation.KeepsSwitches])
  have hbytes : b.computer.memory.bytes = (Memory.blank 0x2000).bytes := by
    rw [← hb, htick, ← hc]
    rfl
  obtain ⟨-, htranscript⟩ := hpair _ b _ _ hh hh' (by simp [Operation.KeepsSwitches]) hbytes
  have hlast : b.pacer.lastReading = some 0 := by
    rw [← hb, htick]
    rfl
  refine ⟨b, hh, ?_, hlast, ?_, ?_, htranscript⟩
  · rw [← hb, htick, ← hc]
    rfl
  · rw [hr]
    rfl
  · rw [hr]
    exact hlast

end Board

end Arcade8080
