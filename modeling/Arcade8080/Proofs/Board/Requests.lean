import Arcade8080.Proofs.Board.Tick
import Arcade8080.Proofs.Operation
import Arcade8080.Proofs.Pacing.Requests

/-!
# When the video circuit interrupts

Each tick of a board is one poll of its timer. Whether the tick succeeds is not known to the timer,
nor whether the processor takes the interrupt, and nothing but ticks and resets touches it. So the
times of the ticks since the last reset are all it depends on.
-/

namespace Arcade8080

theorem Settings.unpolled_timer (s : Settings) : s.timer.Unpolled := ⟨rfl, rfl⟩

namespace Board

/-- The times of the ticks since the last reset, after one more operation. -/
def Operation.polled (times : List Float) : Operation → List Float
  | .tick now => times ++ [now]
  | .reset => []
  | _ => times

def ticksSinceReset (os : List Operation) : List Float := os.foldl Operation.polled []

variable {os : List Operation} {b b' : Board}

theorem Operation.settings_eq {operation : Operation} (h : operation.Leads b b') :
    b'.settings = b.settings := by
  cases operation with
  | computer operation => rw [h.2]
  | loadRom image =>
    cases h
    simp only [Board.loadRom]
    split <;> rfl
  | tick now =>
    cases h
    exact (b.tick_timer now).2
  | _ =>
    cases h
    rfl

theorem Operation.Leads.polled {operation : Operation} (h : operation.Leads b b')
    {times : List Float} (ht : b.timer = b.settings.timer.after times) :
    b'.timer = b.settings.timer.after (operation.polled times) := by
  cases operation with
  | computer operation =>
    rw [h.2]
    exact ht
  | loadRom image =>
    cases h
    simp only [Board.loadRom]
    split <;> exact ht
  | tick now =>
    cases h
    show (b.tick now).2.timer = b.settings.timer.after (times ++ [now])
    rw [(b.tick_timer now).1, ht, FrameTimer.after_append]
  | reset =>
    cases h
    rfl
  | _ =>
    cases h
    exact ht

theorem timer_of_history {times : List Float} (hh : History Operation.Leads os b b')
    (ht : b.timer = b.settings.timer.after times) :
    b'.timer = b.settings.timer.after (os.foldl Operation.polled times) := by
  induction hh generalizing times with
  | nil b => exact ht
  | @cons o os b c d hl _ ih =>
    have htimer := hl.polled ht
    rw [← Operation.settings_eq hl] at htimer ⊢
    exact ih htimer

/-- **The times of the polls tell the requests.** A new timer requests nothing at times up to the
time due, as floating point compares them, and makes one request at any other; this time is an
interval after the last request or the delay after the first poll. Every poll has one answer. The
vectors are 1 and 2 in turn, and none comes up to an interval after the one before it. On a board,
the polls are the ticks since the last reset, and a tick does with its request, or without one, what
the pacer does. -/
theorem requests_follow_polls (settings : Settings) :
    let polls := settings.timer.polls
    let request := requestAfter settings.firstDelay settings.interval
    (∀ times now, polls (times ++ [now]) =
      polls times ++ [⟨now, request (polls times) now⟩]) ∧
    (∀ times, (polls times).map ClockReading.now = times ∧
      requests (polls times) =
        (List.range (requestTimes (polls times)).length).map vectorAt ∧
      (requestTimes (polls times)).IsChain fun s t => ¬ t ≤ s + settings.interval) ∧
    ∀ os b, History Operation.Leads os (build settings) b → ∀ now,
      (b.timer.poll now).1 = request (polls (ticksSinceReset os)) now ∧
      ((b.tick now).1.mapError Crash.fault, (b.tick now).2.pacer, (b.tick now).2.computer) =
        b.pacer.tick now (request (polls (ticksSinceReset os)) now) b.computer := by
  have hnew := settings.unpolled_timer
  refine ⟨hnew.polls_append, fun times => ⟨?_, ?_, ?_⟩, fun os b hh now => ?_⟩
  · exact settings.timer.now_polls times
  · exact hnew.requests_polls times
  · exact hnew.spaced times
  · have htimer : b.timer = settings.timer.after (ticksSinceReset os) :=
      timer_of_history hh (show (build settings).timer = settings.timer.after [] from rfl)
    have hpoll := (hnew.keeps_after (ticksSinceReset os)).poll now
    rw [← htimer] at hpoll
    refine ⟨hpoll, ?_⟩
    rw [tick_pacer, hpoll]
    rfl

/-- After a reset and a tick at 1 ms, one at 60 ms is late by more than five intervals. It makes one
request, and the next one is not due before 68 ms. -/
theorem late_tick_requests_once :
    ∃ b, History Operation.Leads [.tick 0, .reset, .tick 1000, .tick 60000] (build {}) b ∧
      (b.timer.poll 68000).1 = none ∧ (b.timer.poll 68001).1 = some 2 := by
  obtain ⟨b, hh⟩ : ∃ b, History Operation.Leads [.tick 0, .reset, .tick 1000, .tick 60000]
      (build {}) b := ⟨_, .cons rfl (.cons rfl (.cons rfl (.cons rfl (.nil _))))⟩
  obtain ⟨-, -, hboard⟩ := requests_follow_polls {}
  refine ⟨b, hh, ((hboard _ b hh 68000).1).trans ?_, ((hboard _ b hh 68001).1).trans ?_⟩
  · decide +kernel
  · decide +kernel

end Board

end Arcade8080
