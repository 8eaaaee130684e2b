import Arcade8080.Pacing.FrameTimer
import Arcade8080.Proofs.Pacing.Readings
import Mathlib.Data.List.Chain
import Mathlib.Data.List.Induction

/-!
# The requests of a timer

What a timer answers to a poll depends on the polls before it: on the time of the first one, on
the time of the last one that made a request, and on how many did. The timer keeps the time due
and the phase instead; the two go together, at every poll.
-/

namespace Arcade8080

/-- A poll, with what was requested at it. -/
abbrev Poll := ClockReading (Option UInt8)

/-- The requests that were made, the first one first. -/
def requests (polls : List Poll) : List UInt8 := polls.filterMap ClockReading.result

/-- The times at which they were. -/
def requestTimes (polls : List Poll) : List Float :=
  ClockReading.counted Option.isSome polls

/-- The vector of a request, by the number of those before it. -/
def vectorAt (earlier : Nat) : UInt8 := if earlier % 2 = 0 then 1 else 2

/-- The time due after these polls, for a poll at `now`: an interval after the last request, or
the delay after the first poll if there was no request yet. -/
def dueAfter (firstDelay interval : Float) (polls : List Poll) (now : Float) : Float :=
  match (requestTimes polls).getLast? with
  | some last => last + interval
  | none => ClockReading.first polls now + firstDelay

/-- What a poll at `now` requests after these polls. -/
def requestAfter (firstDelay interval : Float) (polls : List Poll) (now : Float) : Option UInt8 :=
  if now ≤ dueAfter firstDelay interval polls now then none
  else some (vectorAt (requestTimes polls).length)

@[simp] theorem requestTimes_append_none (polls : List Poll) (now : Float) :
    requestTimes (polls ++ [⟨now, none⟩]) = requestTimes polls :=
  ClockReading.counted_append_of_not_counts polls rfl

@[simp] theorem requestTimes_append_some (polls : List Poll) (now : Float) (vector : UInt8) :
    requestTimes (polls ++ [⟨now, some vector⟩]) = requestTimes polls ++ [now] :=
  ClockReading.counted_append_of_counts polls rfl

namespace FrameTimer

/-- Polls at these times, one after the other. -/
def polls (t : FrameTimer) : List Float → List Poll
  | [] => []
  | now :: times => ⟨now, (t.poll now).1⟩ :: (t.poll now).2.polls times

/-- The timer after these polls. -/
def after (t : FrameTimer) (times : List Float) : FrameTimer :=
  times.foldl (fun t now => (t.poll now).2) t

theorem after_append (t : FrameTimer) (times : List Float) (now : Float) :
    t.after (times ++ [now]) = ((t.after times).poll now).2 :=
  List.foldl_append

theorem polls_append (t : FrameTimer) (times : List Float) (now : Float) :
    t.polls (times ++ [now]) = t.polls times ++ [⟨now, ((t.after times).poll now).1⟩] := by
  induction times generalizing t with
  | nil => rfl
  | cons first times ih => exact congrArg (_ :: ·) (ih (t.poll first).2)

theorem dueAt_of_due {t : FrameTimer} {due : Float} (h : t.due = some due) (now : Float) :
    t.dueAt now = due := by
  rw [dueAt, h, Option.getD_some]

/-- A new timer. -/
structure Unpolled (t : FrameTimer) : Prop where
  due : t.due = none
  phase : t.phase = .middle

/-- A timer keeps what these polls have to do with the next one. -/
structure Keeps (t : FrameTimer) (firstDelay interval : Float) (polls : List Poll) : Prop where
  delay_eq : t.firstDelay = firstDelay
  interval_eq : t.interval = interval
  dueAt (now : Float) : t.dueAt now = dueAfter firstDelay interval polls now
  vector : t.phase.vector = vectorAt (requestTimes polls).length

variable {t : FrameTimer} {firstDelay interval : Float} {polls : List Poll}

theorem Unpolled.keeps (h : t.Unpolled) : t.Keeps t.firstDelay t.interval [] where
  delay_eq := rfl
  interval_eq := rfl
  dueAt now := by rw [FrameTimer.dueAt, h.due]; rfl
  vector := by rw [h.phase]; rfl

/-- Then the polls tell what it answers. -/
theorem Keeps.poll (h : t.Keeps firstDelay interval polls) (now : Float) :
    (t.poll now).1 = requestAfter firstDelay interval polls now := by
  rw [requestAfter, ← h.dueAt, ← h.vector, FrameTimer.poll]
  split <;> rfl

theorem vector_next {phase : Phase} {earlier : Nat} (h : phase.vector = vectorAt earlier) :
    phase.next.vector = vectorAt (earlier + 1) := by
  unfold vectorAt at h ⊢
  cases phase with
  | middle =>
    have he : earlier % 2 = 0 := by
      by_contra hne
      rw [if_neg hne] at h
      exact absurd h (by decide)
    rw [if_neg (by omega)]
    rfl
  | bottom =>
    have he : earlier % 2 ≠ 0 := by
      intro he
      rw [if_pos he] at h
      exact absurd h (by decide)
    rw [if_pos (by omega)]
    rfl

/-- One more poll: a request moves the time due and the phase on together, and without one neither
changes. -/
theorem Keeps.next (h : t.Keeps firstDelay interval polls) (now : Float) :
    (t.poll now).2.Keeps firstDelay interval (polls ++ [⟨now, (t.poll now).1⟩]) := by
  by_cases hdue : now ≤ t.dueAt now
  · have hpoll : t.poll now = (none, { t with due := some (t.dueAt now) }) := if_pos hdue
    rw [hpoll]
    refine ⟨h.delay_eq, h.interval_eq, fun later => ?_, ?_⟩
    · rw [dueAt_of_due rfl, h.dueAt, dueAfter, dueAfter, requestTimes_append_none,
        ClockReading.first_append]
    · rw [requestTimes_append_none]
      exact h.vector
  · have hpoll : t.poll now = (some t.phase.vector,
        { t with due := some (now + t.interval), phase := t.phase.next }) := if_neg hdue
    rw [hpoll]
    refine ⟨h.delay_eq, h.interval_eq, fun later => ?_, ?_⟩
    · rw [dueAt_of_due rfl, dueAfter, requestTimes_append_some, List.getLast?_concat, h.interval_eq]
    · rw [requestTimes_append_some, List.length_append]
      exact vector_next h.vector

/-- Hence it does after any polls. -/
theorem Unpolled.keeps_after (h : t.Unpolled) (times : List Float) :
    (t.after times).Keeps t.firstDelay t.interval (t.polls times) := by
  induction times using List.reverseRecOn with
  | nil => exact h.keeps
  | append_singleton times now ih =>
    rw [after_append, polls_append]
    exact ih.next now

theorem Unpolled.polls_append (h : t.Unpolled) (times : List Float) (now : Float) :
    t.polls (times ++ [now]) =
      t.polls times ++ [⟨now, requestAfter t.firstDelay t.interval (t.polls times) now⟩] := by
  rw [FrameTimer.polls_append, (h.keeps_after times).poll]

/-! ## What follows for the requests -/

theorem now_polls (t : FrameTimer) (times : List Float) :
    (t.polls times).map ClockReading.now = times := by
  induction times generalizing t with
  | nil => rfl
  | cons now times ih => exact congrArg (now :: ·) (ih (t.poll now).2)

/-- The vectors alternate. -/
theorem Unpolled.requests_polls (h : t.Unpolled) (times : List Float) :
    requests (t.polls times) =
      (List.range (requestTimes (t.polls times)).length).map vectorAt := by
  induction times using List.reverseRecOn with
  | nil => rfl
  | append_singleton times now ih =>
    rw [h.polls_append, requestAfter]
    split
    · rw [requestTimes_append_none, ← ih]
      simp [requests]
    · rw [requestTimes_append_some, List.length_append, List.length_singleton, List.range_succ,
        List.map_append, ← ih]
      simp [requests]

/-- No request comes at a time up to an interval after the one before it. -/
theorem Unpolled.spaced (h : t.Unpolled) (times : List Float) :
    (requestTimes (t.polls times)).IsChain fun s u => ¬ u ≤ s + t.interval := by
  induction times using List.reverseRecOn with
  | nil => exact .nil
  | append_singleton times now ih =>
    rw [h.polls_append, requestAfter]
    split
    · rwa [requestTimes_append_none]
    next hdue =>
      rw [requestTimes_append_some]
      refine List.isChain_append.mpr ⟨ih, List.isChain_singleton _, ?_⟩
      intro last hlast u hu
      cases hu
      rwa [dueAfter, Option.mem_def.mp hlast] at hdue

end FrameTimer

end Arcade8080
