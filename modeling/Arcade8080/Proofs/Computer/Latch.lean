import Arcade8080.Proofs.Computer.Stack
import Arcade8080.Proofs.Pacing.Tick

/-!
# Interrupts do not nest

A request that gets past the latch clears it, whether the program counter can be pushed or
not. Only an `EI` sets it again: no other instruction does, none that fails, and no request.
So there are never more requests past the latch than the latch, as it was, and the `EI`s
executed account for, and there is an `EI` between any two of them. This holds at every
point of what a host does, also in the middle of a run or a tick.
-/

namespace Arcade8080

/-- What there is to count: an `EI` executed, or a request that has got past the latch. -/
inductive LatchEvent
  | enable
  | accept
deriving DecidableEq

/-! ## A latch as a guard -/

/-- A latch, beginning in this position, lets these events happen: each request finds it set
and clears it. It may be cleared at any time in between. -/
def Guarded : Bool → List LatchEvent → Prop
  | _, [] => True
  | _, .enable :: events => Guarded true events
  | latch, .accept :: events => latch = true ∧ Guarded false events

/-- A latch that is set lets happen what one that is clear does. -/
theorem Guarded.mono {latch latch' : Bool} {events : List LatchEvent}
    (h : Guarded latch events) (hl : latch = true → latch' = true) : Guarded latch' events := by
  cases events with
  | nil => trivial
  | cons event rest =>
    cases event with
    | enable => exact h
    | accept => exact ⟨hl h.1, h.2⟩

theorem Guarded.of_append {latch : Bool} {before after : List LatchEvent}
    (h : Guarded latch (before ++ after)) : Guarded latch before := by
  induction before generalizing latch with
  | nil => trivial
  | cons event rest ih =>
    cases event with
    | enable => exact @ih true h
    | accept => exact ⟨h.1, ih h.2⟩

theorem Guarded.drop {latch : Bool} {before after : List LatchEvent}
    (h : Guarded latch (before ++ after)) : ∃ latch', Guarded latch' after := by
  induction before generalizing latch with
  | nil => exact ⟨latch, h⟩
  | cons event rest ih =>
    cases event with
    | enable => exact @ih true h
    | accept => exact ih h.2

/-- Each request uses up an `EI`, or the latch as it was in the beginning. -/
theorem Guarded.count_le {latch : Bool} {events : List LatchEvent} (h : Guarded latch events) :
    events.count .accept ≤ latch.toNat + events.count .enable := by
  induction events generalizing latch with
  | nil => exact Nat.zero_le _
  | cons event rest ih =>
    cases event with
    | enable =>
      have hr := @ih true h
      rw [Bool.toNat_true] at hr
      rw [List.count_cons_of_ne (by decide), List.count_cons_self]
      omega
    | accept =>
      have hr := ih h.2
      rw [Bool.toNat_false] at hr
      rw [h.1, Bool.toNat_true, List.count_cons_self, List.count_cons_of_ne (by decide)]
      omega

theorem Guarded.enable_mem {latch : Bool} {before between rest : List LatchEvent}
    (h : Guarded latch (before ++ .accept :: (between ++ .accept :: rest))) :
    .enable ∈ between := by
  obtain ⟨latch', h'⟩ := h.drop
  -- The latch is clear after the first of the two requests, so the second needs an `EI`.
  have hsplit : between ++ .accept :: rest = (between ++ [.accept]) ++ rest := by simp
  have hbetween := h'.2
  rw [hsplit] at hbetween
  have hcount := hbetween.of_append.count_le
  have ha : [LatchEvent.accept].count .accept = 1 := rfl
  have he : [LatchEvent.accept].count .enable = 0 := rfl
  rw [List.count_append, List.count_append, ha, he, Bool.toNat_false] at hcount
  apply List.count_pos_iff.mp
  omega

namespace Computer

variable {β : Type}

/-! ## Events -/

/-- The latch of the processor. -/
def latch (c : Computer β) : Bool := c.processor.interruptEnable

def interruptEvents (vector : UInt8) (c : Computer β) : List LatchEvent :=
  match (c.interrupt vector).1 with
  | .ok false => []
  | .ok true | .error _ => [.accept]

/-- A request while the latch is clear is answered so, and nothing happens. -/
theorem interrupt_ignored {c : Computer β} (h : c.latch = false) (vector : UInt8) :
    c.interrupt vector = (.ok false, c) := by
  rw [interrupt_eq_pushWord, if_neg]
  rw [Bool.not_eq_true]
  exact h

theorem latch_interrupt (vector : UInt8) (c : Computer β) :
    (c.interrupt vector).2.latch = false := by
  rcases c with ⟨p, memory, bus⟩
  simp only [interrupt]
  split
  · split <;> rfl
  next hl => exact Bool.of_not_eq_true hl

theorem interruptEvents_eq (vector : UInt8) (c : Computer β) :
    c.interruptEvents vector = if c.latch then [.accept] else [] := by
  rw [interruptEvents, interrupt_eq_pushWord, latch]
  by_cases hl : c.processor.interruptEnable = true
  · rw [if_pos hl, if_pos hl]
    rcases pushWord c.processor.pc { c with processor.interruptEnable := false } with ⟨_ | _, d⟩
    · rfl
    · rfl
  · rw [if_neg hl, if_neg hl]

theorem latch_store (stores : List Store) (c : Computer β) :
    (c.store stores).2.latch = c.latch := by
  rcases c with ⟨p, memory, bus⟩
  simp only [store]
  split <;> rfl

variable [Bus β]

def executeEvents (c : Computer β) : List LatchEvent :=
  if c.instruction? = some .ei then [.enable] else []

/-- The events of the instructions that a run executes, as far as the fuel goes. -/
def runEvents (fuel : Nat) (c : Computer β) : List LatchEvent :=
  (c.visits fuel).flatMap executeEvents

def sliceEvents (budget : UInt32) (c : Computer β) : List LatchEvent :=
  (c.sliceVisits budget 0).flatMap executeEvents

/-- The operation leads from the first computer to the second, with these events. -/
def Operation.Shows (o : Operation β × List LatchEvent) (c c' : Computer β) : Prop :=
  o.1.Leads c c' ∧
    match o.1 with
    | .execute => o.2 = c.executeEvents
    | .run => ∃ fuel fault, c.run fuel = some (fault, c') ∧ o.2 = c.runEvents fuel
    | .interrupt vector | .tick _ _ (some vector) => o.2 = c.interruptEvents vector
    | .tick pacer now none => o.2 = c.sliceEvents (pacer.budget (pacer.elapsed now))
    | .store _ | .reset | .attach _ | .load _ | .restore _ => o.2 = []

/-! ## Instructions and requests -/

/-- Only an `EI` sets the latch. -/
theorem latch_execute {c : Computer β} (hi : c.instruction? ≠ some .ei)
    (h : c.execute.2.latch = true) : c.latch = true := by
  rcases he : c.execute with ⟨fault | cycles, d⟩
  · rw [he] at h
    rcases execute_error he with ⟨-, rfl⟩ | ⟨address, n, -, -, rfl⟩
    · exact h
    · exact h
  · rw [he] at h
    obtain ⟨completion, hs, -⟩ := step_of_execute he
    cases hc : c.instruction? with
    | none =>
      rw [execute_undefined hc] at he
      cases he
    | some i =>
      have hei : i ≠ .ei := by
        rintro rfl
        exact hi hc
      by_cases hdi : i = .di
      · subst hdi
        rw [step_of_instruction? hc] at hs
        cases hs
        cases h
      · exact ((step_footprint hc hs).2.processor.latch hei hdi).symm.trans h

variable {rest : List LatchEvent}

/-- What the latch lets happen after an instruction, it lets happen after the events of that
instruction. The events that follow are arbitrary, so that one instruction can be put before
another, and one operation before another. -/
theorem guarded_execute {c : Computer β} (h : Guarded c.execute.2.latch rest) :
    Guarded c.latch (c.executeEvents ++ rest) := by
  unfold executeEvents
  split
  · exact h.mono fun _ => rfl
  next hi => exact h.mono (latch_execute hi)

theorem guarded_after {n : Nat} {c : Computer β} (h : Guarded (c.after n).latch rest) :
    Guarded c.latch (((List.range n).map c.after).flatMap executeEvents ++ rest) := by
  induction n generalizing c with
  | zero => exact h
  | succ n ih =>
    rw [List.range_succ_eq_map, List.map_cons, List.map_map, List.flatMap_cons, List.append_assoc]
    exact guarded_execute (ih h)

omit [Bus β] in
theorem guarded_interrupt {vector : UInt8} {c : Computer β}
    (h : Guarded (c.interrupt vector).2.latch rest) :
    Guarded c.latch (c.interruptEvents vector ++ rest) := by
  rw [interruptEvents_eq]
  split
  next hl =>
    rw [latch_interrupt] at h
    exact ⟨hl, h⟩
  next hl =>
    rw [interrupt_ignored (Bool.of_not_eq_true hl)] at h
    exact h

/-! ## Operations -/

theorem guarded_run {fuel : Nat} {fault : Fault} {c c' : Computer β}
    (hr : c.run fuel = some (fault, c')) (h : Guarded c'.latch rest) :
    Guarded c.latch (c.runEvents fuel ++ rest) := by
  rw [eq_after_of_run hr] at h
  rw [runEvents, visits_eq_map_after]
  exact guarded_after h

theorem guarded_slice {budget : UInt32} {c : Computer β}
    (h : Guarded (c.slice budget 0).2.latch rest) :
    Guarded c.latch (c.sliceEvents budget ++ rest) := by
  obtain ⟨hv, hs⟩ := sliceVisits_eq_map_after budget 0 c
  rw [hs] at h
  rw [sliceEvents, hv]
  exact guarded_after h

/-- A run that has not ended yet is guarded too. -/
theorem guarded_runEvents (fuel : Nat) (c : Computer β) : Guarded c.latch (c.runEvents fuel) := by
  rw [runEvents, visits_eq_map_after, ← List.append_nil (List.flatMap _ _)]
  exact guarded_after trivial

theorem Operation.Shows.guarded {o : Operation β × List LatchEvent} {c c' : Computer β}
    (hs : Operation.Shows o c c') (ho : ∀ saved, o.1 ≠ .restore saved)
    (h : Guarded c'.latch rest) : Guarded c.latch (o.2 ++ rest) := by
  obtain ⟨operation, events⟩ := o
  obtain ⟨hl, he⟩ := hs
  cases operation with
  | execute =>
    cases hl
    cases he
    exact guarded_execute h
  | run =>
    obtain ⟨fuel, fault, hr, rfl⟩ := he
    exact guarded_run hr h
  | interrupt vector =>
    cases hl
    cases he
    exact guarded_interrupt h
  | tick pacer now request =>
    cases hl
    cases request with
    | none =>
      cases he
      rw [Pacer.tick_none_computer] at h
      exact guarded_slice h
    | some vector =>
      cases he
      rw [(pacer.tick_some now vector c).2] at h
      exact guarded_interrupt h
  | store s =>
    cases hl
    cases he
    exact latch_store [s] c ▸ h
  | reset =>
    cases hl
    cases he
    exact h.mono fun hf => absurd hf Bool.false_ne_true
  | attach bus =>
    cases hl
    cases he
    exact h
  | load image =>
    cases hl
    cases he
    rw [latch, processor_load] at h
    exact h
  | restore saved => exact absurd rfl (ho saved)

theorem guarded_history {os : List (Operation β × List LatchEvent)} {c c' : Computer β}
    (hh : History Operation.Shows os c c') (ho : ∀ o ∈ os, ∀ saved, o.1 ≠ .restore saved)
    (h : Guarded c'.latch rest) : Guarded c.latch (os.flatMap Prod.snd ++ rest) := by
  induction hh with
  | nil c => exact h
  | cons hs _ ih =>
    rw [List.flatMap_cons, List.append_assoc]
    apply hs.guarded (ho _ List.mem_cons_self)
    exact ih (fun o hm => ho o (List.mem_cons_of_mem _ hm)) h

/-- **Interrupts do not nest.** Over any history that does not restore a saved state, and in a
run that follows it, however far that has come, the requests past the latch are never more than
the latch at the beginning and the `EI`s executed by then. Between any two of them there is an
`EI`. A request that finds the latch clear is answered so, and changes nothing. -/
theorem interrupts_do_not_nest {os : List (Operation β × List LatchEvent)} {c c' : Computer β}
    (hh : History Operation.Shows os c c') (ho : ∀ o ∈ os, ∀ saved, o.1 ≠ .restore saved)
    (fuel : Nat) :
    let events := os.flatMap Prod.snd ++ c'.runEvents fuel
    (∀ before, before <+: events →
      before.count .accept ≤ c.latch.toNat + before.count .enable) ∧
    (∀ before between rest, events = before ++ .accept :: (between ++ .accept :: rest) →
      .enable ∈ between) ∧
    ∀ (d : Computer β) vector, d.latch = false →
      d.interrupt vector = (.ok false, d) ∧
        ∀ (pacer : Pacer) now, (pacer.tick now (some vector) d).1 = .ok 0 ∧
          (pacer.tick now (some vector) d).2.2 = d := by
  intro events
  have hg : Guarded c.latch events := guarded_history hh ho (guarded_runEvents fuel c')
  refine ⟨?_, ?_, fun d vector hl => ?_⟩
  · rintro before ⟨rest, hsplit⟩
    rw [← hsplit] at hg
    exact hg.of_append.count_le
  · intro before between rest hsplit
    rw [hsplit] at hg
    exact hg.enable_mem
  · have hi := interrupt_ignored hl vector
    refine ⟨hi, fun pacer now => ?_⟩
    obtain ⟨hr, hd⟩ := pacer.tick_some now vector d
    rw [hi] at hr hd
    exact ⟨hr, hd⟩

/-! ## Two requests with an `EI` between them -/

/-- A computer with its latch set, and an `EI` where the first vector is served. -/
def enabling : Computer Ports :=
  { processor := { pc := 0x2400, interruptEnable := true }
    memory := (Memory.blank 0).put ⟨8, 0xFB⟩
    bus := Ports.idle {} }

theorem instruction?_enabling : (enabling.interrupt 1).2.instruction? = some .ei := by
  have hs : enabling.memory.storeAll (enabling.processor.push enabling.processor.pc).1 =
      ((enabling.memory.put ⟨0xFFFF, 0x24⟩).put ⟨0xFFFE, 0⟩, none) := rfl
  rw [interrupt_taken 1 rfl hs, instruction?_eq_some_iff _ (by decide)]
  show ((enabling.memory.put ⟨0xFFFF, 0x24⟩).put ⟨0xFFFE, 0⟩).read 8 = 0xFB
  simp only [enabling, Memory.read_put]
  rfl

/-- The first request is accepted, the second one ignored, and the third accepted after the `EI`
of the first one's service. -/
theorem enabling_accepts_twice :
    ∃ c', History Operation.Shows
        [(.interrupt 1, [.accept]), (.interrupt 2, []), (.execute, [.enable]),
          (.tick (Pacer.start 1000 1) 0 (some 2), [.accept])] enabling c' ∧
      (∀ before, before <+: [LatchEvent.accept, .enable, .accept] →
        before.count .accept ≤ 1 + before.count .enable) ∧
      c'.interrupt 1 = (.ok false, c') := by
  have hei := instruction?_enabling
  have hclear := latch_interrupt 1 enabling
  generalize hc : (enabling.interrupt 1).2 = c at hei hclear
  have hset : c.execute.2.latch = true := by
    rw [execute_of_step (step_of_instruction? hei)]
    rfl
  have hh : History Operation.Shows
      [(.interrupt 1, [.accept]), (.interrupt 2, []), (.execute, [.enable]),
        (.tick (Pacer.start 1000 1) 0 (some 2), [.accept])] enabling
      ((Pacer.start 1000 1).tick 0 (some 2) c.execute.2).2.2 := by
    refine .cons (t := c) ⟨hc, ?_⟩ (.cons (t := c) ⟨?_, ?_⟩ (.cons ⟨rfl, ?_⟩
      (.cons ⟨rfl, ?_⟩ (.nil _))))
    · show _ = enabling.interruptEvents 1
      rw [interruptEvents_eq]
      rfl
    · show (c.interrupt 2).2 = c
      rw [interrupt_ignored hclear]
    · show _ = c.interruptEvents 2
      rw [interruptEvents_eq, hclear]
      rfl
    · show _ = c.executeEvents
      rw [executeEvents, if_pos hei]
    · show _ = c.execute.2.interruptEvents 2
      rw [interruptEvents_eq, hset]
      rfl
  obtain ⟨hcount, -, hignored⟩ := interrupts_do_not_nest hh (by simp) 0
  refine ⟨_, hh, hcount, (hignored _ 1 ?_).1⟩
  rw [(Pacer.tick_some _ 0 2 c.execute.2).2]
  exact latch_interrupt 2 _

end Computer

end Arcade8080
