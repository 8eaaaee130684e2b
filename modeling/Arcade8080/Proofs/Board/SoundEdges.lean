import Arcade8080.Board.Sound

/-!
# Edges of the sound outputs

The latch reports the switches that have moved. From the reports alone a host can tell at any
time which sounds are on: it begins in silence and switches as it is told. Then it hears what
the outputs said when the latch was looked at last.
-/

namespace Arcade8080

/-- The sounds that are on after one more event. -/
def SoundEvent.switch (playing : Sound → Bool) (e : SoundEvent) : Sound → Bool :=
  fun s => if s = e.sound then e.on else playing s

/-- The sounds that are on after these events, from silence. -/
def SoundEvent.playing (events : List SoundEvent) : Sound → Bool :=
  events.foldl switch fun _ => false

theorem Sound.mem_all (s : Sound) : s ∈ all := by
  cases s <;> decide

namespace SoundLatch

/-- The sounds that latched outputs have switched on. -/
def sounds (latch : SoundLatch) (s : Sound) : Bool := s.isOn latch.out3 latch.out5

/-- The events of a latch that is brought up to date with each of these outputs in turn. -/
def edges : SoundLatch → List SoundLatch → List SoundEvent
  | _, [] => []
  | latch, outputs :: rest => latch.events outputs.out3 outputs.out5 ++ edges outputs rest

theorem sounds_reset : sounds {} = fun _ => false := by
  funext s
  cases s <;> rfl

/-- Switching the sounds that differ, one after the other. Sounds that still have their turn may
be as they were before; the others are as they will be. -/
theorem foldl_switch (before after : Sound → Bool) (l : List Sound) {playing : Sound → Bool}
    (h : ∀ s, playing s = before s ∨ playing s = after s) {s : Sound}
    (hs : s ∈ l ∨ playing s = after s) :
    (l.filterMap fun t => if after t = before t then none else some ⟨t, after t⟩).foldl
      SoundEvent.switch playing s = after s := by
  induction l generalizing playing with
  | nil => exact hs.resolve_left List.not_mem_nil
  | cons t rest ih =>
    by_cases ht : after t = before t
    · simp only [List.filterMap_cons, if_pos ht]
      refine ih h ?_
      rcases hs with hs | hs
      · rcases List.mem_cons.mp hs with rfl | hs
        · exact Or.inr ((h s).elim (·.trans ht.symm) id)
        · exact Or.inl hs
      · exact Or.inr hs
    · simp only [List.filterMap_cons, if_neg ht, List.foldl_cons]
      have hswitch (u : Sound) :
          SoundEvent.switch playing ⟨t, after t⟩ u = if u = t then after t else playing u := rfl
      apply ih
      · intro u
        rw [hswitch]
        split
        next hu => exact Or.inr (congrArg after hu.symm)
        · exact h u
      · rw [hswitch]
        by_cases hst : s = t
        · exact Or.inr (by rw [if_pos hst, hst])
        · rw [if_neg hst]
          exact hs.imp_left fun hm => (List.mem_cons.mp hm).resolve_left hst

/-- The events of an update lead from the sounds before it to the sounds after it. -/
theorem foldl_events (latch outputs : SoundLatch) :
    (latch.events outputs.out3 outputs.out5).foldl SoundEvent.switch latch.sounds =
      outputs.sounds := by
  funext s
  exact foldl_switch latch.sounds outputs.sounds Sound.all (fun _ => Or.inl rfl)
    (Or.inl s.mem_all)

theorem foldl_edges (latch : SoundLatch) (updates : List SoundLatch) :
    (latch.edges updates).foldl SoundEvent.switch latch.sounds =
      (updates.getLastD latch).sounds := by
  induction updates generalizing latch with
  | nil => rfl
  | cons outputs rest ih =>
    rw [edges, List.foldl_append, foldl_events, ih, List.getLastD_cons]

/-- From a new latch on, the reports tell what is on. -/
theorem playing_edges (updates : List SoundLatch) :
    SoundEvent.playing (edges {} updates) = (updates.getLastD {}).sounds := by
  rw [SoundEvent.playing, ← sounds_reset, foldl_edges]

end SoundLatch

end Arcade8080
