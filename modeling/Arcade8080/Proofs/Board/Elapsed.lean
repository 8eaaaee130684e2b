import Arcade8080.Proofs.Board.Tick
import Arcade8080.Proofs.Pacing.Elapsed

/-!
# The time that a board accounts for

The pacer of a board ticks when the board does, and is left alone otherwise; resetting and
restoring do not reach it. The budget of every tick follows from the readings of the ticks before
it and from which of them succeeded.
-/

namespace Arcade8080.Board

/-- The reading of a tick, with its result. -/
def reading (b : Board) : Operation → Option Pacer.TickReading
  | .tick now => some ⟨now, (b.tick now).1.mapError Crash.fault⟩
  | _ => none

/-- The operation leads from the first board to the second, with this reading if it is a tick. -/
def Operation.Reads (o : Operation × Option Pacer.TickReading) (b b' : Board) : Prop :=
  o.1.Leads b b' ∧ o.2 = b.reading o.1

/-- The readings of the ticks, the first one first. -/
def readings (os : List (Operation × Option Pacer.TickReading)) : List Pacer.TickReading :=
  os.filterMap Prod.snd

variable {os : List (Operation × Option Pacer.TickReading)} {b b' : Board}

/-- A board's tick without a request is a slice of its pacer's budget. -/
theorem tick_slice {now : Float} (hv : (b.timer.poll now).1 = none) :
    ((b.tick now).1.mapError Crash.fault, (b.tick now).2.computer) =
      b.computer.slice (b.pacer.budget (b.pacer.elapsed now)) 0 := by
  have ht := b.tick_pacer now
  rw [hv] at ht
  rw [← Pacer.tick_none, ← ht]

/-- Operations that are no ticks leave the pacer alone. -/
theorem Operation.leaves_pacer {operation : Operation} (h : operation.Leads b b')
    (hr : b.reading operation = none) : b'.pacer = b.pacer := by
  cases operation with
  | computer operation => rw [h.2]
  | loadRom image =>
    cases h
    simp only [Board.loadRom]
    split <;> rfl
  | tick now => cases hr
  | _ =>
    cases h
    rfl

/-- So the ticks of a board are those of its pacer. -/
theorem ticks_of_history (hh : History Operation.Reads os b b') :
    History (Pacer.Ticks Ports) (readings os) b.pacer b'.pacer := by
  induction hh with
  | nil b => exact .nil _
  | @cons o os b c d ho _ ih =>
    obtain ⟨operation, r⟩ := o
    obtain ⟨hl, hr⟩ := ho
    replace hl : operation.Leads b c := hl
    replace hr : r = b.reading operation := hr
    cases operation with
    | tick now =>
      subst hr
      cases hl
      obtain ⟨hresult, hrest⟩ := Prod.mk.inj (b.tick_pacer now)
      obtain ⟨hpacer, -⟩ := Prod.mk.inj hrest
      exact .cons ⟨_, b.computer, hresult.symm, hpacer.symm⟩ ih
    | _ =>
      subst hr
      rw [Operation.leaves_pacer hl rfl] at ih
      exact ih

/-- **Time is counted from the last tick that succeeded.** After any ticks of a pacer, its budget is
that for the time since the last reading at which one succeeded, or since the first reading if none
has. A tick without a request spends it, and a tick that fails leaves the pacer counting from where
the tick itself did. The first tick of all has no budget, and can fail only by its request. On a
board the same holds of its ticks, whatever else is done in between. -/
theorem time_accounted (settings : Settings) {β : Type} [Bus β] :
    (∀ rs p, History (Pacer.Ticks β) rs settings.pacer p → ∀ now,
      let elapsed := now - Pacer.reference rs now
      p.elapsed now = elapsed ∧ p.budget (p.elapsed now) = settings.pacer.budget elapsed ∧
      ∀ c : Computer β,
        ((p.tick now none c).1, (p.tick now none c).2.2) =
          c.slice (settings.pacer.budget elapsed) 0 ∧
        ∀ request fault, (p.tick now request c).1 = .error fault → ∀ later,
          (p.tick now request c).2.1.elapsed later = later - Pacer.reference rs now) ∧
    (∀ now, settings.pacer.budget (settings.pacer.elapsed now) = 0 ∧
      ∀ c : Computer β, (settings.pacer.tick now none c).1 = .ok 0 ∧
        (settings.pacer.tick now none c).2.2 = c ∧
        ∀ request fault, (settings.pacer.tick now request c).1 = .error fault →
          ∃ vector, request = some vector ∧ (c.interrupt vector).1 = .error fault) ∧
    ∀ os b, History Operation.Reads os (build settings) b → ∀ now,
      let elapsed := now - Pacer.reference (readings os) now
      b.pacer.elapsed now = elapsed ∧
      b.pacer.budget (b.pacer.elapsed now) = settings.pacer.budget elapsed ∧
      ((b.timer.poll now).1 = none →
        ((b.tick now).1.mapError Crash.fault, (b.tick now).2.computer) =
          b.computer.slice (settings.pacer.budget elapsed) 0) := by
  refine ⟨fun rs p hh now => ?_, fun now => ⟨?_, ?_⟩, fun os b hh now => ?_⟩
  · have hp := Pacer.counts_of_history hh
    have hbudget := hp.budget now
    refine ⟨hp.elapsed now, hbudget, fun c => ⟨?_, fun request fault hf later => ?_⟩⟩
    · rw [Pacer.tick_none, hbudget]
      rfl
    · have ht : Pacer.Ticks β ⟨now, .error fault⟩ p (p.tick now request c).2.1 :=
        ⟨request, c, hf, rfl⟩
      rw [(hp.tick ht).elapsed, Pacer.reference_append_error]
  · exact Pacer.budget_start settings.cap settings.rate now
  · exact fun c => Pacer.first_tick settings.cap settings.rate now c
  · have hb := Pacer.counts_of_history (ticks_of_history hh)
    refine ⟨hb.elapsed now, hb.budget now, fun hv => ?_⟩
    rw [tick_slice hv, hb.budget now]
    rfl

/-- A save of a board that would take an interrupt, with the stack in the ROM. -/
def unstackable : SavedBoard where
  computer :=
    { bytes := (Memory.blank 0x2000).bytes
      processor := { sp := 0x0100, pc := 0x2400, interruptEnable := true } }
  shifter := {}
  in1 := Ports.wired
  in2 := 0

/-- The very first tick, at 10, crashes. The time from 10 on is left to the next one, though the
board has been reset. -/
theorem first_crash_keeps_time :
    ∃ b, History Operation.Reads
        [(.restore unstackable, none), (.tick 10, some ⟨10, .error (.romWrite 0x00FF)⟩),
          (.reset, none)]
        (build { firstDelay := -1 }) b ∧
      b.pacer.elapsed 50 = 40 ∧ b.pacer.budget (b.pacer.elapsed 50) = 40 := by
  obtain ⟨c, hc⟩ : ∃ c, (build { firstDelay := -1 }).restore unstackable = c := ⟨_, rfl⟩
  have hv : (c.timer.poll 10).1 = some 1 := by
    rw [← hc]
    decide +kernel
  have hresult : (c.tick 10).1.mapError Crash.fault = .error (.romWrite 0x00FF) := by
    have ht := congrArg Prod.fst (c.tick_pacer 10)
    rw [hv] at ht
    rw [show (c.tick 10).1.mapError Crash.fault = _ from ht, (c.pacer.tick_some 10 1 c.computer).1,
      ← hc]
    rfl
  have hh : History Operation.Reads
      [(.restore unstackable, none), (.tick 10, some ⟨10, .error (.romWrite 0x00FF)⟩),
        (.reset, none)]
      (build { firstDelay := -1 }) (c.tick 10).2.reset := by
    refine .cons ⟨hc, rfl⟩ (.cons ⟨rfl, ?_⟩ (.cons ⟨rfl, rfl⟩ (.nil _)))
    rw [← hresult]
    rfl
  obtain ⟨-, -, hboard⟩ := @time_accounted { firstDelay := -1 } Ports _
  obtain ⟨helapsed, hbudget, -⟩ := hboard _ _ hh 50
  refine ⟨_, hh, helapsed.trans ?_, hbudget.trans ?_⟩
  · decide +kernel
  · decide +kernel

end Arcade8080.Board
