import Arcade8080.Computer.Run
import Arcade8080.Pacing.Pacer
import Arcade8080.Proofs.Computer.Outcome

/-!
# Invariants of execution

A property of computers that every executed instruction keeps is kept by whole
slices and runs, and if interrupts keep it too, by ticks of any pacer. The last
instruction counts also when it fails.
-/

namespace Arcade8080.Computer

variable {β : Type} [Bus β] {P : Computer β → Prop}

theorem slice_keeps (hx : ∀ c, P c → P c.execute.2) (budget spent : UInt32) (c : Computer β)
    (hp : P c) : P (c.slice budget spent).2 := by
  fun_induction slice budget spent c with
  | case1 spent c hlt cycles next he ih =>
    apply ih
    have h := hx c hp
    rwa [he] at h
  | case2 spent c hlt fault next he =>
    have h := hx c hp
    rwa [he] at h
  | case3 spent c hge => exact hp

theorem run_keeps (hx : ∀ c, P c → P c.execute.2) {fuel : Nat} {c c' : Computer β}
    {fault : Fault} (h : run fuel c = some (fault, c')) (hp : P c) : P c' := by
  induction fuel generalizing c with
  | zero => cases h
  | succ fuel ih =>
    have hs := hx c hp
    rw [execute_snd] at hs
    rw [run] at h
    split at h
    · cases h
      exact hp
    · split at h
      next completion next he =>
        rw [he] at hs
        split at h
        · cases h
          exact hs
        · exact ih h hs
      next fault next he =>
        cases h
        rwa [he] at hs

theorem tick_keeps (hx : ∀ c, P c → P c.execute.2)
    (hi : ∀ vector c, P c → P (c.interrupt vector).2) (pacer : Pacer) (now : Float)
    (request : Option UInt8) (c : Computer β) (hp : P c) :
    P (pacer.tick now request c).2.2 := by
  have hw : P (pacer.work now request c).2 := by
    cases request with
    | none => exact slice_keeps hx _ _ c hp
    | some vector =>
      have h := hi vector c hp
      simp only [Pacer.work]
      split
      next he => rwa [he] at h
      next he => rwa [he] at h
  simp only [Pacer.tick]
  split
  next he => rwa [he] at hw
  next he => rwa [he] at hw

end Arcade8080.Computer
