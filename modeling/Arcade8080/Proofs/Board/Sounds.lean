import Arcade8080.Proofs.Board.SoundEdges
import Arcade8080.Proofs.Board.Tick
import Arcade8080.Proofs.Computer.Footprint
import Arcade8080.Proofs.Operation

/-!
# Sound events are neither lost nor doubled

Four things have to fit together: the outputs, the latch, the events that are pending and those
that have been fetched. Between two resets, what has been fetched and what is pending are the
edges from one successful tick to the next, in order. When the host fetches does not matter.
Ticks that crash, restoring, and whatever is done to the computer directly, report nothing; what
they change of the outputs shows at the next tick that succeeds.
-/

namespace Arcade8080.Board

/-- The outputs of a board as a latch would keep them. -/
def outputs (b : Board) : SoundLatch := ⟨b.computer.bus.out3, b.computer.bus.out5⟩

/-- What an operation has to do with sounds: the events it hands out, and the outputs that it
brings the latch up to date with. -/
structure SoundReport where
  fetched : List SoundEvent := []
  latched : Option SoundLatch := none

def soundReport (b : Board) : Operation → SoundReport
  | .drain => { fetched := b.drain.1 }
  | .tick now =>
    match b.tick now with
    | (.ok _, b') => { latched := some b'.outputs }
    | (.error _, _) => {}
  | _ => {}

/-- The operation leads from the first board to the second, with this report. -/
def Operation.Reports (o : Operation × SoundReport) (b b' : Board) : Prop :=
  o.1.Leads b b' ∧ o.2 = b.soundReport o.1

/-- All events that were fetched, in the order in which they were. -/
def fetched (os : List (Operation × SoundReport)) : List SoundEvent :=
  os.flatMap fun o => o.2.fetched

/-- The outputs at the successful ticks, the first one first. -/
def latched (os : List (Operation × SoundReport)) : List SoundLatch :=
  os.filterMap fun o => o.2.latched

/-- A board that is new, or has just been reset. -/
def Fresh (b : Board) : Prop := (∃ settings, b = build settings) ∨ ∃ a : Board, b = a.reset

def Operation.isDrain : Operation → Bool
  | .drain => true
  | _ => false

/-- The board with other events in front of those that are pending. -/
def withUnfetched (b : Board) (events : List SoundEvent) : Board :=
  { b with pending := events ++ b.pending }

/-! ## One operation -/

theorem soundReport_tick_ok {b b' : Board} {now : Float} {cycles : UInt32}
    (h : b.tick now = (.ok cycles, b')) :
    b.soundReport (.tick now) = { latched := some b'.outputs } := by
  simp only [soundReport, h]

theorem soundReport_tick_error {b b' : Board} {now : Float} {crash : Crash}
    (h : b.tick now = (.error crash, b')) : b.soundReport (.tick now) = {} := by
  simp only [soundReport, h]

/-- Operations that report nothing leave latch and pending events as they are. -/
theorem Operation.leaves_sounds {operation : Operation} {b b' : Board}
    (h : operation.Leads b b') (hr : operation ≠ .reset) (hd : operation ≠ .drain)
    (hl : (b.soundReport operation).latched = none) :
    b'.latch = b.latch ∧ b'.pending = b.pending := by
  cases operation with
  | computer operation =>
    rw [h.2]
    exact ⟨rfl, rfl⟩
  | loadRom image =>
    cases h
    simp only [Board.loadRom]
    split <;> exact ⟨rfl, rfl⟩
  | tick now =>
    rcases ht : b.tick now with ⟨crash | cycles, d⟩
    · obtain ⟨-, -, -, hk⟩ := tick_error ht
      cases h
      rwa [ht]
    · rw [soundReport_tick_ok ht] at hl
      cases hl
  | press control on =>
    cases h
    exact ⟨rfl, rfl⟩
  | reset => exact absurd rfl hr
  | restore saved =>
    cases h
    exact ⟨rfl, rfl⟩
  | drain => exact absurd rfl hd

/-- What an operation fetches and leaves pending is what was pending, and the edges to the outputs
that it has latched. -/
theorem Operation.Reports.accounts {o : Operation × SoundReport} {b b' : Board}
    (h : Operation.Reports o b b') (hr : o.1 ≠ .reset) :
    o.2.fetched ++ b'.pending = b.pending ++ b.latch.edges o.2.latched.toList ∧
      b'.latch = o.2.latched.getD b.latch := by
  obtain ⟨operation, report⟩ := o
  obtain ⟨hl, hs⟩ := h
  replace hl : operation.Leads b b' := hl
  replace hs : report = b.soundReport operation := hs
  subst hs
  by_cases hd : operation = .drain
  · subst hd
    cases hl
    exact ⟨rfl, rfl⟩
  by_cases hk : b.soundReport operation = {}
  · obtain ⟨hlatch, hpending⟩ := Operation.leaves_sounds hl hr hd
      (congrArg SoundReport.latched hk)
    show (b.soundReport operation).fetched ++ _ = _ ++ b.latch.edges
      (b.soundReport operation).latched.toList ∧ _ = (b.soundReport operation).latched.getD _
    rw [hk, hpending]
    exact ⟨(List.append_nil b.pending).symm, hlatch⟩
  cases operation with
  | tick now =>
    rcases ht : b.tick now with ⟨crash | cycles, d⟩
    · exact absurd (soundReport_tick_error ht) hk
    · obtain ⟨hlatch, hpending⟩ := tick_ok ht
      have hb : d = b' := (congrArg Prod.snd ht).symm.trans hl
      subst hb
      rw [soundReport_tick_ok ht]
      refine ⟨?_, hlatch⟩
      show d.pending = b.pending ++ (b.latch.events d.outputs.out3 d.outputs.out5 ++ [])
      rw [List.append_nil]
      exact hpending
  | drain => exact absurd rfl hd
  | _ => exact absurd rfl hk

/-! ## Whole histories -/

variable {os : List (Operation × SoundReport)} {b b' : Board}

/-- The account of a history, from any board on. -/
theorem accounts_of_history (hh : History Operation.Reports os b b')
    (hr : ∀ o ∈ os, o.1 ≠ .reset) :
    fetched os ++ b'.pending = b.pending ++ b.latch.edges (latched os) ∧
      b'.latch = (latched os).getLastD b.latch := by
  induction hh with
  | nil b => exact ⟨(List.append_nil b.pending).symm, rfl⟩
  | @cons o os b c d ho _ ih =>
    obtain ⟨hf, hl⟩ := ho.accounts (hr o List.mem_cons_self)
    obtain ⟨hfs, hls⟩ := ih fun o hm => hr o (List.mem_cons_of_mem _ hm)
    have hfetched : fetched (o :: os) = o.2.fetched ++ fetched os := rfl
    rw [hfetched, List.append_assoc, hfs, ← List.append_assoc, hf, List.append_assoc]
    rw [hls, hl]
    cases hk : o.2.latched with
    | none =>
      have hlatched : latched (o :: os) = latched os := List.filterMap_cons_none hk
      rw [hlatched]
      exact ⟨rfl, rfl⟩
    | some outputs =>
      have hlatched : latched (o :: os) = outputs :: latched os := List.filterMap_cons_some hk
      rw [hlatched, List.getLastD_cons]
      refine ⟨?_, rfl⟩
      show b.pending ++ ((b.latch.events outputs.out3 outputs.out5 ++ []) ++ _) = _
      rw [List.append_nil]
      rfl

/-! ## Leaving out the fetching -/

theorem fetched_soundReport {operation : Operation} (hd : operation ≠ .drain) (b : Board) :
    (b.soundReport operation).fetched = [] := by
  cases operation with
  | drain => exact absurd rfl hd
  | tick now =>
    simp only [soundReport]
    split <;> rfl
  | _ => rfl

/-- A tick does not look at the events that are pending. -/
theorem tick_withUnfetched (b : Board) (events : List SoundEvent) (now : Float) :
    (b.withUnfetched events).tick now =
      ((b.tick now).1, (b.tick now).2.withUnfetched events) := by
  rcases b with ⟨computer, pacer, timer, latch, pending, settings⟩
  simp only [withUnfetched, tick]
  rcases pacer.tick now (timer.poll now).1 computer with ⟨fault | cycles, pacer', computer'⟩
  · rfl
  · simp only [latchSounds, List.append_assoc]

theorem Operation.Reports.withUnfetched {o : Operation × SoundReport} (h : Operation.Reports o b b')
    (hr : o.1 ≠ .reset) (hd : o.1 ≠ .drain) (events : List SoundEvent) :
    Operation.Reports o (b.withUnfetched events) (b'.withUnfetched events) := by
  obtain ⟨operation, report⟩ := o
  obtain ⟨hl, hs⟩ := h
  replace hl : operation.Leads b b' := hl
  replace hs : report = b.soundReport operation := hs
  subst hs
  cases operation with
  | computer operation =>
    refine ⟨⟨hl.1, ?_⟩, rfl⟩
    rw [hl.2]
    rfl
  | loadRom image =>
    cases hl
    refine ⟨?_, rfl⟩
    show ((b.withUnfetched events).loadRom image).2 = (b.loadRom image).2.withUnfetched events
    simp only [Board.loadRom, Board.withUnfetched]
    rcases b.computer.load image with ⟨_ | _, _⟩ <;> rfl
  | tick now =>
    have ht := b.tick_withUnfetched events now
    replace hl : (b.tick now).2 = b' := hl
    refine ⟨(congrArg Prod.snd ht).trans (congrArg (·.withUnfetched events) hl), ?_⟩
    show b.soundReport (.tick now) = (b.withUnfetched events).soundReport (.tick now)
    simp only [soundReport, ht]
    rcases b.tick now with ⟨_ | _, _⟩ <;> rfl
  | press control on =>
    cases hl
    exact ⟨rfl, rfl⟩
  | reset => exact absurd rfl hr
  | restore saved =>
    cases hl
    exact ⟨rfl, rfl⟩
  | drain => exact absurd rfl hd

/-- Had nothing been fetched, all of it would be pending. -/
theorem history_without_drains (hh : History Operation.Reports os b b')
    (hr : ∀ o ∈ os, o.1 ≠ .reset) (events : List SoundEvent) :
    History Operation.Reports (os.filter fun o => !o.1.isDrain) (b.withUnfetched events)
      (b'.withUnfetched (events ++ fetched os)) := by
  induction hh generalizing events with
  | nil b =>
    rw [show events ++ fetched [] = events from List.append_nil events]
    exact .nil _
  | @cons o os b c d ho _ ih =>
    have hrest := ih fun o hm => hr o (List.mem_cons_of_mem _ hm)
    have hfetched : fetched (o :: os) = o.2.fetched ++ fetched os := rfl
    by_cases hd : o.1 = .drain
    · obtain ⟨operation, report⟩ := o
      replace hd : operation = .drain := hd
      subst hd
      obtain ⟨hl, hs⟩ := ho
      cases hl
      cases hs
      have hb : b.withUnfetched events = b.drain.2.withUnfetched (events ++ b.pending) := by
        simp only [withUnfetched, drain, List.append_nil]
      rw [hfetched, ← List.append_assoc, hb]
      exact hrest (events ++ b.pending)
    · have hn : o.1.isDrain = false := by
        cases ho' : o.1 with
        | drain => exact absurd ho' hd
        | _ => rfl
      have hf : o.2.fetched = [] := by
        rw [ho.2]
        exact fetched_soundReport hd b
      rw [hfetched, hf, List.filter_cons_of_pos (by rw [hn]; rfl)]
      exact .cons (ho.withUnfetched (hr o List.mem_cons_self) hd events) (hrest events)

/-! ## The account -/

/-- **Sound events are neither lost nor doubled.** In any history without a reset from a new board
on, or from one just reset, the events fetched and then those pending are the edges between the
outputs at successful ticks. If nothing is fetched on the way, just these are pending in the end.
A successful tick adds the edges from the outputs at the one before, whatever has changed them
since; then the events tell for each sound whether its output is on. Nothing else adds events. -/
theorem sounds_accounted (hb : b.Fresh) (hh : History Operation.Reports os b b')
    (hr : ∀ o ∈ os, o.1 ≠ .reset) :
    fetched os ++ b'.pending = SoundLatch.edges {} (latched os) ∧
      History Operation.Reports (os.filter fun o => !o.1.isDrain) b
        (b'.withUnfetched (fetched os)) ∧
      (∀ now cycles b'', b'.tick now = (.ok cycles, b'') →
        b''.pending = b'.pending ++ ((latched os).getLastD {}).events b''.computer.bus.out3
          b''.computer.bus.out5 ∧
        ∀ s : Sound, SoundEvent.playing (fetched os ++ b''.pending) s =
          s.isOn b''.computer.bus.out3 b''.computer.bus.out5) ∧
      ∀ o b'', Operation.Reports o b' b'' → o.1 ≠ .reset → o.2.latched = none →
        o.2.fetched ++ b''.pending = b'.pending := by
  have hempty : b.latch = {} ∧ b.pending = [] := by
    rcases hb with ⟨settings, rfl⟩ | ⟨a, rfl⟩
    · exact ⟨rfl, rfl⟩
    · exact ⟨rfl, rfl⟩
  obtain ⟨hf, hl⟩ := accounts_of_history hh hr
  rw [hempty.1] at hf hl
  rw [hempty.2, List.nil_append] at hf
  refine ⟨hf, history_without_drains hh hr [], ?_, ?_⟩
  · intro now cycles b'' ht
    obtain ⟨-, hp⟩ := tick_ok ht
    rw [hl] at hp
    refine ⟨hp, fun s => ?_⟩
    -- The tick is one more update at the end of the history.
    have hplaying := SoundLatch.foldl_events ((latched os).getLastD {}) b''.outputs
    rw [← SoundLatch.playing_edges, ← hf] at hplaying
    rw [hp, ← List.append_assoc, SoundEvent.playing, List.foldl_append]
    exact congrFun hplaying s
  · intro o b'' ho hn hk
    obtain ⟨ha, -⟩ := ho.accounts hn
    rw [ha, hk]
    exact List.append_nil _

/-! ## A shot -/

/-- A save of a board at an `OUT 3` that switches the sound of a shot on. -/
def trigger : SavedBoard where
  computer :=
    { bytes := (((Memory.blank 0x2000).put ⟨0, 0xD3⟩).put ⟨1, 3⟩).bytes
      processor := { regs := { a := 2 } } }
  shifter := {}
  in1 := Ports.wired
  in2 := 0

/-- The board after the `OUT 3`. -/
def firing : Board :=
  let b := (build {}).restore trigger
  { b with computer := b.computer.execute.2 }

theorem outputs_firing : firing.outputs = ⟨2, 0⟩ := by
  have hread (address : UInt16) : ((build {}).restore trigger).computer.memory.read address =
      if 1 = address then 3 else if 0 = address then 0xD3 else 0 := by
    show (((Memory.blank 0x2000).put ⟨0, 0xD3⟩).put ⟨1, 3⟩).read address = _
    simp only [Memory.read_put, Memory.read_blank]
  have hi : ((build {}).restore trigger).computer.instruction? = some .output := by
    rw [Computer.instruction?_eq_some_iff _ (by decide)]
    exact hread 0
  have hx : ((build {}).restore trigger).computer.execute =
      (.ok 10, ((build {}).restore trigger).computer.execute.2) :=
    Prod.ext (Computer.execute_port hi (Or.inl rfl)) rfl
  obtain ⟨completion, hs, -⟩ := Computer.step_of_execute hx
  have hbus := (Computer.step_footprint hi hs).2.bus
  have hport : ((build {}).restore trigger).computer.processor.immediate
      ((build {}).restore trigger).computer.memory.read = 3 := hread 1
  show SoundLatch.mk firing.computer.bus.out3 firing.computer.bus.out5 = _
  simp only [firing, hbus, Instruction.busAfter, hport]
  rfl

theorem tick_firing : ∃ b, firing.tick 0 = (.ok 0, b) ∧ b.outputs = ⟨2, 0⟩ ∧
    b.pending = [⟨.fire, true⟩] ∧ b.latch = ⟨2, 0⟩ ∧ b.timer = (FrameTimer.poll {} 0).2 ∧
    b.pacer = { Pacer.start 10000 1 with lastReading := some 0 } := by
  have hv : (firing.timer.poll 0).1 = none := by decide +kernel
  have hz : firing.pacer.budget (firing.pacer.elapsed 0) = 0 := by decide +kernel
  have ht := tick_unspent hv hz
  obtain ⟨hl, hp⟩ := tick_ok ht
  have ho : SoundLatch.mk firing.computer.bus.out3 firing.computer.bus.out5 = ⟨2, 0⟩ :=
    outputs_firing
  obtain ⟨h3, h5⟩ := SoundLatch.mk.inj ho
  refine ⟨_, ht, outputs_firing, ?_, hl.trans ho, rfl, rfl⟩
  show [] ++ SoundLatch.events {} firing.computer.bus.out3 firing.computer.bus.out5 = _
  rw [h3, h5]
  decide

/-- The shot is heard after the first tick, and over after the next one: meanwhile the host has
hung idle ports on the bus. -/
theorem shot_heard_once :
    ∃ b b', History Operation.Reports
        [(.restore trigger, {}), (.computer .execute, {}), (.tick 0, { latched := some ⟨2, 0⟩ }),
          (.drain, { fetched := [⟨.fire, true⟩] }), (.computer (.attach (Ports.idle {})), {})]
        (build {}) b ∧
      b.tick 0 = (.ok 0, b') ∧ b'.pending = [⟨.fire, false⟩] ∧
      SoundEvent.playing ([⟨.fire, true⟩] ++ b'.pending) .fire = false := by
  obtain ⟨c, hc, ho, hp, hl, htimer, hpacer⟩ := tick_firing
  obtain ⟨d, hd⟩ : ∃ d : Board,
      d = { c with pending := [], computer := c.computer.attach (Ports.idle {}) } := ⟨_, rfl⟩
  have hv : (d.timer.poll 0).1 = none := by
    rw [hd, htimer]
    decide +kernel
  have hz : d.pacer.budget (d.pacer.elapsed 0) = 0 := by
    rw [hd, hpacer]
    decide +kernel
  have hh : History Operation.Reports
      [(.restore trigger, {}), (.computer .execute, {}), (.tick 0, { latched := some ⟨2, 0⟩ }),
        (.drain, { fetched := [⟨.fire, true⟩] }), (.computer (.attach (Ports.idle {})), {})]
      (build {}) d := by
    refine .cons ⟨rfl, rfl⟩ (.cons (t := firing) ⟨⟨rfl, rfl⟩, rfl⟩ (.cons (t := c)
      ⟨congrArg Prod.snd hc, ?_⟩ (.cons (t := c.drain.2) ⟨rfl, ?_⟩ (.cons ?_ (.nil _)))))
    · exact (ho ▸ soundReport_tick_ok hc).symm
    · exact (congrArg (SoundReport.mk · none) hp).symm
    · subst hd
      exact ⟨⟨rfl, rfl⟩, rfl⟩
  have ht := tick_unspent hv hz
  obtain ⟨-, -, hnext, -⟩ := sounds_accounted (Or.inl ⟨{}, rfl⟩) hh (by simp)
  obtain ⟨hpending, hplaying⟩ := hnext _ _ _ ht
  have hfire := hplaying .fire
  have hbus : d.computer.bus = Ports.idle {} := by rw [hd]; rfl
  have hnone : d.pending = [] := by rw [hd]
  refine ⟨d, _, hh, ht, hpending.trans ?_, hfire.trans ?_⟩
  · show d.pending ++ SoundLatch.events ⟨2, 0⟩ d.computer.bus.out3 d.computer.bus.out5 = _
    rw [hnone, hbus]
    decide
  · show Sound.isOn .fire d.computer.bus.out3 d.computer.bus.out5 = _
    rw [hbus]
    decide

end Arcade8080.Board
