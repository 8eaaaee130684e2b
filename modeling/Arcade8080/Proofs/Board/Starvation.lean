import Arcade8080.Proofs.Board.Elapsed
import Arcade8080.Proofs.Board.Requests
import Arcade8080.Proofs.Computer.Latch
import Arcade8080.Proofs.Pacing.Budget
import Arcade8080.Proofs.Pacing.Slicing

/-!
# Ticks that execute nothing

A tick with a request executes nothing, and the time up to it is not made up later. A tick that is
worth a cycle executes an instruction otherwise. The next request is due an interval after the poll
that made the last one, so a host whose ticks are further apart than that makes a request at every
one of them, and the processor stands still. No two ticks in a row execute nothing in any other
case.
-/

namespace Arcade8080

theorem Computer.sliceVisits_eq_nil_iff {β : Type} [Bus β] {budget spent : UInt32}
    {c : Computer β} : c.sliceVisits budget spent = [] ↔ ¬ spent < budget := by
  rw [sliceVisits_eq]
  split
  next hlt =>
    refine iff_of_false ?_ (not_not_intro hlt)
    rcases c.execute with ⟨fault | cycles, next⟩
    · exact List.cons_ne_nil _ _
    · exact List.cons_ne_nil _ _
  next hge => exact iff_of_true rfl hge

namespace Pacer

/-- Every tick succeeds, and every one after the first comes late enough to be worth a cycle. -/
structure Paced (rate : UInt32) (rs : List TickReading) : Prop where
  succeeds : ∀ r ∈ rs, r.result.isOk
  worth : rs.IsChain fun r s => 1 ≤ (s.now - r.now) * rate.toFloat

end Pacer

namespace Board

open Pacer (TickReading Paced)

variable {settings : Settings} {os os' : List (Operation × Option TickReading)}
  {b b₁ b₂ b₃ : Board} {now : Float}

/-- With a budget, only a request keeps a tick from executing. -/
theorem executed_eq_nil_iff (hb : 0 < b.pacer.budget (b.pacer.elapsed now)) :
    b.executed now = [] ↔ (b.timer.poll now).1.isSome := by
  rw [executed]
  cases (b.timer.poll now).1 with
  | some vector => exact iff_of_true rfl rfl
  | none => exact iff_of_false (fun h => Computer.sliceVisits_eq_nil_iff.mp h hb) Bool.false_ne_true

/-- A tick that succeeds reports no cycles just if it executes nothing. -/
theorem reports_zero_iff {cycles : UInt32}
    (h : (b.tick now).1.mapError Crash.fault = .ok cycles) :
    cycles = 0 ↔ b.executed now = [] := by
  rw [executed]
  cases hv : (b.timer.poll now).1 with
  | some vector =>
    refine iff_of_true ?_ rfl
    have hresult := congrArg Prod.fst (b.tick_pacer now)
    rw [hv, h, (b.pacer.tick_some now vector b.computer).1] at hresult
    cases hi : (b.computer.interrupt vector).1 with
    | error fault => rw [hi] at hresult; cases hresult
    | ok taken => rw [hi] at hresult; exact Except.ok.inj hresult
  | none =>
    have hslice := (tick_slice hv).symm
    rw [h] at hslice
    rw [Computer.sliceVisits_eq_nil_iff]
    constructor
    · rintro rfl
      exact UInt32.not_lt.mpr (Computer.budget_le_of_slice hslice)
    · intro hspent
      rw [Computer.slice_spent hspent] at hslice
      exact (Except.ok.inj (Prod.mk.inj hslice).1).symm

/-- After a tick that succeeded, time that is worth a cycle gives the next one a budget. -/
theorem budget_pos_of_history (hh : History Operation.Reads os (build settings) b)
    (hcap : 1 ≤ settings.cap) {last : TickReading} (hlast : last ∈ (readings os).getLast?)
    (hok : last.result.isOk) (hworth : 1 ≤ (now - last.now) * settings.rate.toFloat) :
    0 < b.pacer.budget (b.pacer.elapsed now) := by
  have hcounts : b.pacer.Counts settings.cap settings.rate (readings os) :=
    Pacer.counts_of_history (ticks_of_history hh)
  obtain ⟨earlier, hreadings⟩ := List.getLast?_eq_some_iff.mp hlast
  obtain ⟨time, result⟩ := last
  cases result with
  | error fault => cases hok
  | ok cycles =>
    rw [hcounts.budget, hreadings, Pacer.reference_append_ok]
    apply Pacer.budget_pos
    · rw [UInt32.le_iff_toNat_le] at hcap ⊢
      rw [Pacer.toNat_cap_start]
      exact le_min hcap (by decide)
    · exact hworth

/-! ## Requests -/

theorem isSome_requestAfter (firstDelay interval : Float) (polls : List Poll) (now : Float) :
    (requestAfter firstDelay interval polls now).isSome ↔
      ¬ now ≤ dueAfter firstDelay interval polls now := by
  rw [requestAfter]
  split
  next h => exact iff_of_false Bool.false_ne_true (not_not_intro h)
  next h => exact iff_of_true rfl h

theorem dueAfter_append_some (firstDelay interval : Float) (polls : List Poll) (vector : UInt8)
    (time now : Float) :
    dueAfter firstDelay interval (polls ++ [⟨time, some vector⟩]) now = time + interval := by
  rw [dueAfter, requestTimes_append_some, List.getLast?_concat]

theorem timer_of_readings (hh : History Operation.Reads os (build settings) b) :
    b.timer = settings.timer.after (ticksSinceReset (os.map Prod.fst)) :=
  have hl : History Operation.Leads (os.map Prod.fst) (build settings) b :=
    hh.relabel Prod.fst fun _ _ _ h => h.1
  timer_of_history hl (show (build settings).timer = settings.timer.after [] from rfl)

theorem request_of_readings (hh : History Operation.Reads os (build settings) b) (now : Float) :
    (b.timer.poll now).1 = requestAfter settings.firstDelay settings.interval
      (settings.timer.polls (ticksSinceReset (os.map Prod.fst))) now := by
  rw [timer_of_readings hh]
  exact (settings.unpolled_timer.keeps_after _).poll now

/-- Without a tick, only a reset touches the polls. -/
theorem polled_of_readings_nil (hh : History Operation.Reads os b b') (hn : readings os = [])
    (times : List Float) :
    (.reset ∉ os.map Prod.fst → (os.map Prod.fst).foldl Operation.polled times = times) ∧
      (.reset ∈ os.map Prod.fst → (os.map Prod.fst).foldl Operation.polled times = []) := by
  induction hh generalizing times with
  | nil b => exact ⟨fun _ => rfl, fun h => nomatch h⟩
  | @cons o os b c d ho _ ih =>
    obtain ⟨operation, r⟩ := o
    obtain rfl : r = b.reading operation := ho.2
    cases operation with
    | tick now => cases hn
    | reset =>
      obtain ⟨hkept, hreset⟩ := ih hn []
      refine ⟨fun h => absurd List.mem_cons_self h, fun _ => ?_⟩
      by_cases hlater : .reset ∈ os.map Prod.fst
      · exact hreset hlater
      · exact hkept hlater
    | _ =>
      obtain ⟨hkept, hreset⟩ := ih hn times
      refine ⟨fun h => hkept fun hlater => h (List.mem_cons_of_mem _ hlater), fun h => hreset ?_⟩
      exact (List.mem_cons.mp h).resolve_left nofun

/-- The request of a tick after one that made a request, with no tick in between. -/
theorem next_request (before : History Operation.Reads os (build settings) b)
    {r : TickReading} (first : Operation.Reads (.tick r.now, some r) b b₁)
    (between : History Operation.Reads os' b₁ b₂) (hbetween : readings os' = [])
    (hrequest : (b.timer.poll r.now).1.isSome) (now : Float) :
    (.reset ∉ os'.map Prod.fst →
        ((b₂.timer.poll now).1.isSome ↔ ¬ now ≤ r.now + settings.interval)) ∧
      (.reset ∈ os'.map Prod.fst →
        ((b₂.timer.poll now).1.isSome ↔ ¬ now ≤ now + settings.firstDelay)) := by
  have hh := before.append (.cons first between)
  -- The timer has been polled by the ticks before, by the first of the two, and by nothing since.
  have hticks : ticksSinceReset ((os ++ (.tick r.now, some r) :: os').map Prod.fst) =
      (os'.map Prod.fst).foldl Operation.polled
        (ticksSinceReset (os.map Prod.fst) ++ [r.now]) := by
    rw [ticksSinceReset, List.map_append, List.foldl_append]
    rfl
  obtain ⟨hkept, hreset⟩ := polled_of_readings_nil between hbetween
    (ticksSinceReset (os.map Prod.fst) ++ [r.now])
  rw [request_of_readings hh, isSome_requestAfter, hticks]
  constructor
  · intro hno
    obtain ⟨vector, hvector⟩ := Option.isSome_iff_exists.mp hrequest
    rw [timer_of_readings before] at hvector
    rw [hkept hno, FrameTimer.polls_append, hvector, dueAfter_append_some]
  · intro hyes
    rw [hreset hyes]
    rfl

/-- A request that the processor does not take only takes down the time and the sounds. -/
theorem tick_ignored {vector : UInt8} (hv : (b.timer.poll now).1 = some vector)
    (hl : b.computer.latch = false) :
    b.tick now = (.ok 0, latchSounds { b with
      pacer := { b.pacer with lastReading := some now }, timer := (b.timer.poll now).2 }) := by
  rcases b with ⟨computer, pacer, timer, latch, pending, settings⟩
  replace hv : (timer.poll now).1 = some vector := hv
  have hi := Computer.interrupt_ignored hl vector
  simp only [tick, hv, Pacer.tick, Pacer.work, hi]

/-! ## Two ticks in a row -/

theorem result_eq_zero_iff {r : TickReading} (h : Operation.Reads (.tick r.now, some r) b b')
    (hok : r.result.isOk) : r.result = .ok 0 ↔ b.executed r.now = [] := by
  have hresult : (b.tick r.now).1.mapError Crash.fault = r.result :=
    (congrArg ClockReading.result (Option.some.inj h.2)).symm
  cases hr : r.result with
  | error fault => rw [hr] at hok; cases hok
  | ok cycles =>
    rw [hr] at hresult
    rw [Except.ok.injEq]
    exact reports_zero_iff hresult

/-- **Late ticks starve the processor, and nothing else does.** In a run whose ticks all succeed,
each of them late enough to be worth a cycle, a tick after the first executes nothing just if it
makes a request. Two ticks in a row, after the first, both execute nothing just if the first one
makes a request and the second comes later than an interval after it, as floating point adds and
compares them. If there is a reset between them, it is the delay after the second one itself that
counts. -/
theorem late_ticks_starve (settings : Settings) (hcap : 1 ≤ settings.cap) {r s : TickReading}
    (before : History Operation.Reads os (build settings) b)
    (first : Operation.Reads (.tick r.now, some r) b b₁)
    (between : History Operation.Reads os' b₁ b₂)
    (second : Operation.Reads (.tick s.now, some s) b₂ b₃)
    (hbefore : readings os ≠ []) (hbetween : readings os' = [])
    (hpaced : Paced settings.rate (readings os ++ [r, s])) :
    let request := requestAfter settings.firstDelay settings.interval
      (settings.timer.polls (ticksSinceReset (os.map Prod.fst))) r.now
    (r.result = .ok 0 ↔ b.executed r.now = []) ∧ (s.result = .ok 0 ↔ b₂.executed s.now = []) ∧
    (b.executed r.now = [] ↔ request.isSome) ∧
    (.reset ∉ os'.map Prod.fst →
      (b.executed r.now = [] ∧ b₂.executed s.now = [] ↔
        request.isSome ∧ ¬ s.now ≤ r.now + settings.interval)) ∧
    (.reset ∈ os'.map Prod.fst →
      (b.executed r.now = [] ∧ b₂.executed s.now = [] ↔
        request.isSome ∧ ¬ s.now ≤ s.now + settings.firstDelay)) := by
  intro request
  obtain ⟨-, hpair, hjoin⟩ := List.isChain_append.mp hpaced.worth
  have hlast := List.getLast?_eq_some_getLast hbefore
  generalize (readings os).getLast hbefore = last at hlast
  have hok : ∀ x ∈ [r, s], x.result.isOk := fun x hx =>
    hpaced.succeeds x (List.mem_append_right _ hx)
  have hr := hok r List.mem_cons_self
  have hs := hok s (List.mem_cons_of_mem r List.mem_cons_self)
  -- The tick before the first of the two succeeded, so all the time since is in its budget.
  have hidle : b.executed r.now = [] ↔ (b.timer.poll r.now).1.isSome := by
    apply executed_eq_nil_iff
    refine budget_pos_of_history before hcap hlast ?_ (hjoin last hlast r rfl)
    exact hpaced.succeeds last (List.mem_append_left _ (List.mem_of_getLast? hlast))
  -- What is done in between reads no clock, so the second one counts from the first.
  have hidle' : b₂.executed s.now = [] ↔ (b₂.timer.poll s.now).1.isSome := by
    apply executed_eq_nil_iff
    have hreadings : readings (os ++ (.tick r.now, some r) :: os') = readings os ++ [r] := by
      rw [readings, List.filterMap_append]
      exact congrArg (readings os ++ r :: ·) hbetween
    refine budget_pos_of_history (before.append (.cons first between)) hcap ?_ hr
      (List.isChain_cons_cons.mp hpair).1
    rw [hreadings, List.getLast?_concat]
    rfl
  have hrequest : request = (b.timer.poll r.now).1 := (request_of_readings before r.now).symm
  have hnext := next_request before first between hbetween
  rw [hidle, hidle', hrequest]
  refine ⟨(result_eq_zero_iff first hr).trans hidle, (result_eq_zero_iff second hs).trans hidle',
    Iff.rfl, fun hno => and_congr_right fun hsome => (hnext hsome s.now).1 hno,
    fun hyes => and_congr_right fun hsome => (hnext hsome s.now).2 hyes⟩

theorem reads_of_tick {cycles : UInt32} (h : b.tick now = (.ok cycles, b')) :
    Operation.Reads (.tick now, some ⟨now, .ok cycles⟩) b b' := by
  refine ⟨congrArg Prod.snd h, ?_⟩
  rw [reading, h]
  rfl

/-- The first tick of a new board is at zero, so there is a request at 20 ms. A tick at 30 ms is
later than an interval after that: there is a request again, and no instruction in 30 ms. -/
theorem ten_milliseconds_apart_starve :
    let settings : Settings := {}
    0 < settings.interval ∧ 1 ≤ settings.cap ∧
      Paced settings.rate [⟨0, .ok 0⟩, ⟨20000, .ok 0⟩, ⟨30000, .ok 0⟩] ∧
      ∃ b b₁ b₂, (build settings).tick 0 = (.ok 0, b) ∧ b.tick 20000 = (.ok 0, b₁) ∧
        b₁.tick 30000 = (.ok 0, b₂) ∧ b.executed 20000 = [] ∧ b₁.executed 30000 = [] := by
  intro settings
  have hpaced : Paced settings.rate [⟨0, .ok 0⟩, ⟨20000, .ok 0⟩, ⟨30000, .ok 0⟩] := by
    refine ⟨?_, .cons_cons ?_ (.cons_cons ?_ (.singleton _))⟩
    · simp [Except.isOk, Except.toBool]
    · decide +kernel
    · decide +kernel
  refine ⟨by decide +kernel, by decide, hpaced, ?_⟩
  have h : (build settings).tick 0 = _ :=
    tick_unspent (by decide +kernel) (Pacer.budget_start 10000 1 0)
  generalize hb : latchSounds _ = b at h
  have hv₁ : (b.timer.poll 20000).1 = some 1 := by
    rw [← hb]
    decide +kernel
  have h₁ := tick_ignored hv₁ (by rw [← hb]; rfl)
  generalize hb₁ : latchSounds _ = b₁ at h₁
  have hv₂ : (b₁.timer.poll 30000).1 = some 2 := by
    rw [← hb₁, ← hb]
    decide +kernel
  have h₂ := tick_ignored hv₂ (by rw [← hb₁, ← hb]; rfl)
  refine ⟨b, b₁, _, h, h₁, h₂, ?_, ?_⟩
  · rw [executed, hv₁]
  · rw [executed, hv₂]

/-- After the request at 20 ms, a tick at 28 ms comes an interval later and not more. It executes an
instruction. -/
theorem tick_in_time_executes :
    ∃ b b₁ b₂,
      (build { cap := 1 }).tick 0 = (.ok 0, b) ∧ b.tick 20000 = (.ok 0, b₁) ∧
        b₁.tick 28000 = (.ok 4, b₂) ∧ b.executed 20000 = [] ∧ b₁.executed 28000 ≠ [] := by
  have h : (build { cap := 1 }).tick 0 = _ :=
    tick_unspent (by decide +kernel) (Pacer.budget_start 1 1 0)
  generalize hb : latchSounds _ = b at h
  have hv₁ : (b.timer.poll 20000).1 = some 1 := by
    rw [← hb]
    decide +kernel
  have h₁ := tick_ignored hv₁ (by rw [← hb]; rfl)
  generalize hb₁ : latchSounds _ = b₁ at h₁
  have hv₂ : (b₁.timer.poll 28000).1 = none := by
    rw [← hb₁, ← hb]
    decide +kernel
  have hbudget : b₁.pacer.budget (b₁.pacer.elapsed 28000) = 1 := by
    rw [← hb₁, ← hb]
    decide +kernel
  have hnop : b₁.computer.instruction? = some .nop := by
    rw [Computer.instruction?_eq_some_iff _ (by decide), ← hb₁, ← hb]
    exact Memory.read_blank _ _
  obtain ⟨d, hexecute, -⟩ := Computer.execute_nop hnop
  obtain ⟨b₂, h₂⟩ : ∃ b₂, b₁.tick 28000 = (.ok 4, b₂) := by
    have hslice := tick_slice hv₂
    rw [hbudget, Computer.slice_eq, if_pos (by decide), hexecute] at hslice
    replace hslice := hslice.trans (Computer.slice_spent (by decide) d)
    rcases ht : b₁.tick 28000 with ⟨crash | cycles, b₂⟩
    · rw [ht] at hslice
      cases hslice
    · rw [ht] at hslice
      exact ⟨b₂, congrArg (·, b₂) (congrArg Except.ok (Except.ok.inj (Prod.mk.inj hslice).1))⟩
  have hpaced : Paced 1 [⟨0, .ok 0⟩, ⟨20000, .ok 0⟩, ⟨28000, .ok 4⟩] := by
    refine ⟨?_, .cons_cons ?_ (.cons_cons ?_ (.singleton _))⟩
    · simp [Except.isOk, Except.toBool]
    · decide +kernel
    · decide +kernel
  obtain ⟨-, -, hidle, hlate, -⟩ := late_ticks_starve { cap := 1 } (by decide)
    (r := ⟨20000, .ok 0⟩) (s := ⟨28000, .ok 4⟩) (.cons (reads_of_tick h) (.nil b))
    (reads_of_tick h₁) (.nil b₁) (reads_of_tick h₂) nofun rfl hpaced
  have hfirst : b.executed 20000 = [] := hidle.mpr (by decide +kernel)
  refine ⟨b, b₁, b₂, h, h₁, h₂, hfirst, fun hsecond => ?_⟩
  exact absurd ((hlate List.not_mem_nil).mp ⟨hfirst, hsecond⟩).2 (by decide +kernel)

end Board

end Arcade8080
