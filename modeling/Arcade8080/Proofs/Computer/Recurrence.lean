import Arcade8080.Proofs.Computer.Locality
import Arcade8080.Proofs.Computer.TornStore

/-!
# A fault recurs

An instruction that has failed fails again. The processor still points at it, and all that may
have changed is the byte torn off a word that was stored. The instruction stores that word in
the same place with the same value, since both come from the processor and from the bytes of
the instruction. Only a torn byte that fell on those bytes could make a difference.
-/

namespace Arcade8080

theorem Memory.put_put (m : Memory) (s : Store) : (m.put s).put s = m.put s := by
  refine Memory.ext (fun address => ?_) rfl rfl
  rw [read_put, read_put]
  split <;> rfl

namespace Instruction

variable {i : Instruction} {p : Processor} {v w : View}

theorem wordAddress?_congr (h : ∀ a ∈ i.fetchAddresses p, v a = w a) :
    i.wordAddress? p v = i.wordAddress? p w := by
  cases i with
  | shld => exact congrArg some (immediateWord_congr h rfl)
  | _ => rfl

/-- A word that can be torn is the same whatever there is in memory outside the instruction. -/
theorem stores_congr_of_tornStore? {boundary : UInt16} {s : Store}
    (ht : i.tornStore? p v boundary = some s) (h : ∀ a ∈ i.fetchAddresses p, v a = w a) :
    i.stores p w = i.stores p v := by
  rw [tornStore?] at ht
  cases hp : i.pushedWord? p with
  | some word => rw [stores_of_pushedWord? hp, stores_of_pushedWord? hp]
  | none =>
    cases hw : i.wordAddress? p v with
    | some a =>
      have hw' := wordAddress?_congr h ▸ hw
      rw [stores_of_wordAddress? hw, stores_of_wordAddress? hw']
    | none =>
      rw [hp, hw] at ht
      cases ht

end Instruction

namespace Computer

variable {β : Type} {c : Computer β}

/-- What the next instruction stores, up to the first refused store, misses its own bytes. -/
def SparesItself (c : Computer β) : Prop :=
  ∀ i, c.instruction? = some i → ∀ a ∈ c.writtenAddresses, a ∉ i.fetchAddresses c.processor

/-- The first of two stores, if it is accepted, is among the stores that reach memory. -/
theorem mem_writtenAddresses {s t : Store} (hs : c.stores = [s, t])
    (h : ¬ s.address < c.memory.romBoundary) : s.address ∈ c.writtenAddresses := by
  have ha : decide (c.memory.romBoundary ≤ s.address) = true := by
    simpa using h
  rw [writtenAddresses, ← address_stores, hs, List.map_cons, List.takeWhile_cons, ha]
  exact List.mem_cons_self

/-- With the torn byte in memory, the stores that are asked for are the same. -/
theorem stores_put_of_tornStore? {s : Store} (ht : c.tornStore? = some s)
    (hs : ∀ i, c.instruction? = some i → s.address ∉ i.fetchAddresses c.processor) :
    ({ c with memory := c.memory.put s } : Computer β).stores = c.stores := by
  unfold tornStore? at ht
  cases hi : c.instruction? with
  | none =>
    rw [hi] at ht
    cases ht
  | some i =>
    rw [hi] at ht
    have hread : ∀ a ∈ i.fetchAddresses c.processor, c.memory.read a = (c.memory.put s).read a := by
      intro a ha
      rw [Memory.read_put, if_neg]
      rintro rfl
      exact hs i hi ha
    have hpc := hread _ (i.mem_fetchAddresses_pc c.processor)
    have hi' : ({ c with memory := c.memory.put s } : Computer β).instruction? = some i := by
      rw [instruction?, ← hpc]
      exact hi
    rw [stores_of_instruction? hi, stores_of_instruction? hi']
    exact Instruction.stores_congr_of_tornStore? ht hread

variable [Bus β]

/-- A faulting instruction that spares itself fails again with the same fault, and then
changes nothing. -/
theorem execute_again {c' : Computer β} {fault : Fault} (h : c.execute = (.error fault, c'))
    (hc : c.SparesItself) : c'.execute = (.error fault, c') := by
  rcases execute_error h with ⟨-, rfl⟩ | ⟨address, n, rfl, hr, rfl⟩
  · exact h
  have hn := storeAll_stores_refused hr
  cases ht : c.tornStore? with
  | none =>
    rw [ht] at hn
    subst hn
    exact h
  | some s =>
    rw [ht] at hn
    obtain ⟨t, hst, -⟩ := stores_of_tornStore? ht
    rw [hst] at hr
    rcases Memory.storeAll_pair_refused hr with ⟨-, rfl⟩ | ⟨ha, hb, rfl⟩
    · exact h
    have hmem := mem_writtenAddresses hst ha
    have hst' := stores_put_of_tornStore? ht fun i hi => hc i hi _ hmem
    rw [hst] at hst'
    replace hb : t.address < (c.memory.put s).romBoundary := hb
    rw [Memory.storeAll_cons_accepted _ ha, Memory.storeAll_cons_refused _ hb] at hr
    cases hr
    apply execute_of_stores_refused
    replace ha : ¬ s.address < (c.memory.put s).romBoundary := ha
    rw [hst', Memory.storeAll_cons_accepted _ ha, Memory.put_put,
      Memory.storeAll_cons_refused _ hb]

end Computer

end Arcade8080
