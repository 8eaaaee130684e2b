import Arcade8080.Proofs.Arithmetic.Bits
import Arcade8080.Proofs.Board.SoundEdges
import Mathlib.Data.List.Induction

/-!
# The reports of the sound latch

Each update of the latch makes a report, which may be empty. A report goes through the sounds in
their order and names those that differ from the update before. Hence a sound is reported on and
off in turn, and what is wired to no sound is never seen in a report.
-/

namespace Arcade8080

/-- What these events tell about one sound, in their order. -/
def SoundEvent.switches (s : Sound) (events : List SoundEvent) : List Bool :=
  (events.filter fun e => e.sound = s).map SoundEvent.on

/-- On and off in turn, `n` times, first on. -/
def alternating (n : Nat) : List Bool := (List.range n).map fun k => k % 2 == 0

namespace SoundLatch

/-- The reports of a latch that is updated with each of these outputs in turn. -/
def reports : SoundLatch → List SoundLatch → List (List SoundEvent)
  | _, [] => []
  | latch, outputs :: rest =>
    let (events, latch) := latch.update outputs.out3 outputs.out5
    events :: reports latch rest

/-- What the bits that are wired to sounds write: four of the first port, five of the second. -/
def wired (outputs : SoundLatch) : Nat × Nat :=
  (outputs.out3.toNat % 16, outputs.out5.toNat % 32)

variable {latch outputs : SoundLatch} {updates : List SoundLatch}

theorem reports_cons (latch outputs : SoundLatch) (rest : List SoundLatch) :
    reports latch (outputs :: rest) =
      latch.events outputs.out3 outputs.out5 :: reports outputs rest := rfl

theorem reports_append (latch : SoundLatch) (updates later : List SoundLatch) :
    reports latch (updates ++ later) =
      reports latch updates ++ reports (updates.getLastD latch) later := by
  induction updates generalizing latch with
  | nil => rfl
  | cons outputs rest ih =>
    rw [List.cons_append, reports_cons, reports_cons, ih, List.getLastD_cons, List.cons_append]

theorem length_reports (latch : SoundLatch) (updates : List SoundLatch) :
    (reports latch updates).length = updates.length := by
  induction updates generalizing latch with
  | nil => rfl
  | cons outputs rest ih => exact congrArg (· + 1) (ih outputs)

theorem flatten_reports (latch : SoundLatch) (updates : List SoundLatch) :
    (reports latch updates).flatten = edges latch updates := by
  induction updates generalizing latch with
  | nil => rfl
  | cons outputs rest ih => rw [reports_cons, List.flatten_cons, ih, edges]

/-! ## One report -/

/-- Outputs switch the same sounds on if they agree in the bits that are wired. -/
theorem sounds_eq_iff : outputs.sounds = latch.sounds ↔ outputs.wired = latch.wired := by
  have h3 := toNat_mod_eq_iff (v := outputs.out3) (w := latch.out3) 4
  have h5 := toNat_mod_eq_iff (v := outputs.out5) (w := latch.out5) 5
  rw [wired, wired, Prod.mk.injEq]
  constructor
  · intro h
    have hs (s : Sound) : s.isOn outputs.out3 outputs.out5 = s.isOn latch.out3 latch.out5 :=
      congrFun h s
    refine ⟨h3.mpr fun k hk => ?_, h5.mpr fun k hk => ?_⟩
    · match k, hk with
      | 0, _ => exact hs .ufo
      | 1, _ => exact hs .fire
      | 2, _ => exact hs .playerDies
      | 3, _ => exact hs .invaderDies
    · match k, hk with
      | 0, _ => exact hs .invader1
      | 1, _ => exact hs .invader2
      | 2, _ => exact hs .invader3
      | 3, _ => exact hs .invader4
      | 4, _ => exact hs .ufoHit
  · rintro ⟨he3, he5⟩
    funext s
    cases s with
    | ufo | fire | playerDies | invaderDies => exact h3.mp he3 _ (by decide)
    | invader1 | invader2 | invader3 | invader4 | ufoHit => exact h5.mp he5 _ (by decide)

/-- A report tells about a sound at most once. -/
theorem switches_events (latch outputs : SoundLatch) (s : Sound) :
    SoundEvent.switches s (latch.events outputs.out3 outputs.out5) =
      if outputs.sounds s = latch.sounds s then [] else [outputs.sounds s] := by
  have honce (told : Option Bool) :
      (Sound.all.filterMap fun t => if t = s then told else none) = told.toList := by
    cases s <;> cases told <;> rfl
  have htold : SoundEvent.switches s (latch.events outputs.out3 outputs.out5) =
      Sound.all.filterMap fun t => if t = s then
        if outputs.sounds s = latch.sounds s then none else some (outputs.sounds s)
      else none := by
    rw [SoundEvent.switches, events, List.filter_filterMap, List.map_filterMap]
    congr 1
    funext t
    by_cases ht : t = s
    · subst ht
      by_cases hs : t.isOn outputs.out3 outputs.out5 = t.isOn latch.out3 latch.out5
      · simp [sounds, hs]
      · simp [sounds, hs]
    · by_cases hs : t.isOn outputs.out3 outputs.out5 = t.isOn latch.out3 latch.out5
      · simp [hs, ht]
      · simp [hs, ht]
  rw [htold, honce]
  split <;> rfl

theorem events_eq_nil_iff :
    latch.events outputs.out3 outputs.out5 = [] ↔ outputs.wired = latch.wired := by
  rw [← sounds_eq_iff, funext_iff, events, List.filterMap_eq_nil_iff]
  constructor
  · intro h s
    by_contra hne
    have hnone := h s s.mem_all
    replace hne : ¬ s.isOn outputs.out3 outputs.out5 = s.isOn latch.out3 latch.out5 := hne
    rw [if_neg hne] at hnone
    cases hnone
  · intro h s _
    exact if_pos (h s)

/-- A report keeps to the order of the sounds. -/
theorem sublist_events (latch : SoundLatch) (out3 out5 : UInt8) :
    ((latch.events out3 out5).map SoundEvent.sound).Sublist Sound.all := by
  have hsounds : (latch.events out3 out5).map SoundEvent.sound =
      Sound.all.filter fun s => s.isOn out3 out5 != s.isOn latch.out3 latch.out5 := by
    rw [events, List.map_filterMap, ← List.filterMap_eq_filter]
    congr 1
    funext s
    by_cases hs : s.isOn out3 out5 = s.isOn latch.out3 latch.out5
    · simp [hs, Option.guard]
    · simp [hs, Option.guard]
  rw [hsounds]
  exact List.filter_sublist

/-- Only what is wired counts, in the latch as in the outputs. -/
theorem events_congr {latch' outputs' : SoundLatch} (hl : latch.sounds = latch'.sounds)
    (ho : outputs.sounds = outputs'.sounds) :
    latch.events outputs.out3 outputs.out5 = latch'.events outputs'.out3 outputs'.out5 := by
  show (Sound.all.filterMap fun s =>
      if outputs.sounds s = latch.sounds s then none
      else some (SoundEvent.mk s (outputs.sounds s))) =
    Sound.all.filterMap fun s =>
      if outputs'.sounds s = latch'.sounds s then none
      else some (SoundEvent.mk s (outputs'.sounds s))
  rw [hl, ho]

/-! ## All reports -/

theorem take_reports (latch : SoundLatch) (updates : List SoundLatch) (k : Nat) :
    (reports latch updates).take k = reports latch (updates.take k) := by
  induction updates generalizing latch k with
  | nil => cases k <;> rfl
  | cons outputs rest ih =>
    cases k with
    | zero => rfl
    | succ k => rw [reports_cons, List.take_succ_cons, List.take_succ_cons, reports_cons, ih]

theorem getElem?_reports (latch : SoundLatch) (updates : List SoundLatch) (k : Nat) :
    (reports latch updates)[k]? = updates[k]?.map fun outputs =>
      ((updates.take k).getLastD latch).events outputs.out3 outputs.out5 := by
  induction updates generalizing latch k with
  | nil => rfl
  | cons outputs rest ih =>
    cases k with
    | zero => rfl
    | succ k =>
      rw [reports_cons, List.getElem?_cons_succ, List.getElem?_cons_succ, List.take_succ_cons,
        List.getLastD_cons]
      exact ih outputs k

theorem switches_append (s : Sound) (events later : List SoundEvent) :
    SoundEvent.switches s (events ++ later) =
      SoundEvent.switches s events ++ SoundEvent.switches s later := by
  rw [SoundEvent.switches, List.filter_append, List.map_append]
  rfl

/-- A sound is on in the end if it has been reported an odd number of times. -/
theorem switches_reports (updates : List SoundLatch) (s : Sound) :
    ∃ n, SoundEvent.switches s (reports {} updates).flatten = alternating n ∧
      (updates.getLastD {}).sounds s = (n % 2 == 1) := by
  induction updates using List.reverseRecOn with
  | nil => exact ⟨0, rfl, congrFun sounds_reset s⟩
  | append_singleton updates outputs ih =>
    obtain ⟨n, hn, hs⟩ := ih
    have hlast : (updates ++ [outputs]).getLastD {} = outputs := by simp
    rw [reports_append, List.flatten_append, switches_append, hn, hlast, reports_cons]
    show ∃ m, _ ++ SoundEvent.switches s (_ ++ []) = _ ∧ _
    rw [List.append_nil, switches_events]
    split
    next he => exact ⟨n, List.append_nil _, he.trans hs⟩
    next he =>
      have hon : outputs.sounds s = (n % 2 == 0) := by
        rw [hs] at he
        rcases Nat.mod_two_eq_zero_or_one n with h | h <;> simpa [h] using he
      refine ⟨n + 1, ?_, ?_⟩
      · rw [alternating, alternating, List.range_succ, List.map_append, hon]
        rfl
      · rw [hon]
        rcases Nat.mod_two_eq_zero_or_one n with h | h <;> simp [Nat.add_mod, h]

/-- Reports show what is wired, and nothing else. -/
theorem reports_eq_iff {latch' : SoundLatch} {others : List SoundLatch}
    (hl : latch.sounds = latch'.sounds) :
    reports latch others = reports latch' updates ↔ others.map wired = updates.map wired := by
  induction others generalizing latch latch' updates with
  | nil => cases updates <;> simp [reports]
  | cons outputs others ih =>
    cases updates with
    | nil => simp [reports]
    | cons outputs' updates =>
      rw [reports_cons, reports_cons, List.cons.injEq, List.map_cons, List.map_cons,
        List.cons.injEq, ← sounds_eq_iff]
      constructor
      · rintro ⟨he, hr⟩
        have ho : outputs.sounds = outputs'.sounds := by
          rw [← foldl_events latch outputs, he, hl, foldl_events]
        exact ⟨ho, (ih ho).mp hr⟩
      · rintro ⟨ho, hr⟩
        exact ⟨events_congr hl ho, (ih ho).mpr hr⟩

/-- **The reports follow the updates.** Each update of a new latch makes one report. Switching as
told by the reports so far, a host has on just those sounds that the last update has on. A report
is empty if what is wired has not changed since the update before (at first, since all was off).
A sound is told on and off in turn, first on, at most once in a report; a report goes through the
sounds in their order. Other updates make the same reports just if they write the same to what is
wired. -/
theorem reports_follow_updates (updates : List SoundLatch) :
    (reports {} updates).length = updates.length ∧
      (∀ k outputs, updates[k]? = some outputs →
        (∀ s : Sound, SoundEvent.playing ((reports {} updates).take (k + 1)).flatten s =
          s.isOn outputs.out3 outputs.out5) ∧
        ((reports {} updates)[k]? = some [] ↔
          outputs.wired = ((updates.take k).getLastD {}).wired)) ∧
      (∀ s, ∃ n, SoundEvent.switches s (reports {} updates).flatten = alternating n) ∧
      (∀ events ∈ reports {} updates, (events.map SoundEvent.sound).Sublist Sound.all ∧
        (events.map SoundEvent.sound).Nodup) ∧
      ∀ others, reports {} others = reports {} updates ↔
        others.map wired = updates.map wired := by
  refine ⟨length_reports {} updates, fun k outputs hk => ⟨fun s => ?_, ?_⟩, fun s => ?_, ?_,
    fun others => reports_eq_iff rfl⟩
  · have hlast : (updates.take (k + 1)).getLastD {} = outputs := by
      rw [List.take_add_one, hk]
      simp
    rw [take_reports, flatten_reports, playing_edges, hlast]
    rfl
  · rw [getElem?_reports, hk, Option.map_some, Option.some.injEq]
    exact events_eq_nil_iff
  · obtain ⟨n, hn, -⟩ := switches_reports updates s
    exact ⟨n, hn⟩
  · intro events hm
    obtain ⟨k, hk⟩ := List.mem_iff_getElem?.mp hm
    rw [getElem?_reports, Option.map_eq_some_iff] at hk
    obtain ⟨outputs, -, rfl⟩ := hk
    have hsub := sublist_events ((updates.take k).getLastD {}) outputs.out3 outputs.out5
    exact ⟨hsub, hsub.nodup (by decide)⟩

/-- Between a shot and its end, an update that moves nothing but unwired bits is not reported. -/
theorem unwired_bits_unreported :
    SoundEvent.playing ((reports {} [⟨2, 0⟩, ⟨0xF2, 0xE0⟩, ⟨0, 0x10⟩]).take 2).flatten .fire =
        true ∧
      (reports {} [⟨2, 0⟩, ⟨0xF2, 0xE0⟩, ⟨0, 0x10⟩])[1]? = some [] ∧
      reports {} [⟨0x12, 0x20⟩, ⟨2, 0⟩, ⟨0x80, 0x30⟩] =
        reports {} [⟨2, 0⟩, ⟨0xF2, 0xE0⟩, ⟨0, 0x10⟩] := by
  obtain ⟨-, hstep, -, -, hsame⟩ := reports_follow_updates [⟨2, 0⟩, ⟨0xF2, 0xE0⟩, ⟨0, 0x10⟩]
  obtain ⟨hplaying, hempty⟩ := hstep 1 ⟨0xF2, 0xE0⟩ rfl
  exact ⟨hplaying .fire, hempty.mpr (by decide), (hsame _).mpr (by decide)⟩

end SoundLatch

end Arcade8080
