import Arcade8080.Computer.Execute

/-!
# Time slices

A slice executes until the cycles spent reach a budget. The last instruction may
overshoot it. Cycles are added up without overflow, at the largest count at
most.
-/

namespace Arcade8080

/-- The sum, or the largest count if the sum is out of range. -/
def saturatingAdd (a b : UInt32) : UInt32 :=
  UInt32.ofNat (min (a.toNat + b.toNat) 4294967295)

theorem toNat_saturatingAdd (a b : UInt32) :
    (saturatingAdd a b).toNat = min (a.toNat + b.toNat) 4294967295 := by
  simp only [saturatingAdd, UInt32.toNat_ofNat']
  omega

namespace Computer

variable {β : Type} [Bus β]

/-- Executes until `spent` reaches `budget`, and reports the cycles spent. -/
def slice (budget spent : UInt32) (c : Computer β) : Except Fault UInt32 × Computer β :=
  if spent < budget then
    match _h : c.execute with
    | (.ok cycles, next) => slice budget (saturatingAdd spent cycles) next
    | (.error fault, next) => (.error fault, next)
  else (.ok spent, c)
termination_by budget.toNat - spent.toNat
decreasing_by
  have hc := execute_cycles _h
  have hb := budget.toNat_lt
  have hs : spent.toNat < budget.toNat := UInt32.lt_iff_toNat_lt.mp (by assumption)
  rw [toNat_saturatingAdd]
  omega

end Computer

end Arcade8080
