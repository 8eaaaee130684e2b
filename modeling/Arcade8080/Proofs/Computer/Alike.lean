import Arcade8080.Computer.Interrupt
import Arcade8080.Proofs.Computer.Outcome

/-!
# Computers that execution cannot tell apart

Execution reads the processor, the bytes of memory and the boundary, and what
the bus answers. Two computers that agree in these do the same when they execute
or are interrupted, whatever the end of the image and whatever kinds of devices
they have, as long as no access tells the devices apart.
-/

namespace Arcade8080

/-- Memories with the same bytes under the same boundary. -/
structure Memory.Alike (m n : Memory) : Prop where
  bytes : m.bytes = n.bytes
  romBoundary : m.romBoundary = n.romBoundary

namespace Memory

theorem Alike.put {m n : Memory} (h : Alike m n) (s : Store) : Alike (m.put s) (n.put s) := by
  constructor
  · simp only [Memory.put, h.bytes]
  · exact h.romBoundary

/-- The same store is refused in both, or none is. -/
theorem Alike.storeAll {m n : Memory} (h : Alike m n) (stores : List Store) :
    ∃ m' n' refused, m.storeAll stores = (m', refused) ∧ n.storeAll stores = (n', refused) ∧
      Alike m' n' := by
  induction stores generalizing m n with
  | nil => exact ⟨m, n, none, rfl, rfl, h⟩
  | cons s rest ih =>
    by_cases hs : s.address < m.romBoundary
    · have hs' : s.address < n.romBoundary := by rwa [← h.romBoundary]
      exact ⟨m, n, some s.address, storeAll_cons_refused rest hs,
        storeAll_cons_refused rest hs', h⟩
    · have hs' : ¬ s.address < n.romBoundary := by rwa [← h.romBoundary]
      rw [storeAll_cons_accepted rest hs, storeAll_cons_accepted rest hs']
      exact ih (h.put s)

end Memory

variable {α β : Type}

/-- A relation between devices that is kept by every access and shows in none. -/
structure Bus.Indistinct [Bus α] [Bus β] (R : α → β → Prop) : Prop where
  attached : ∀ {a b}, R a b → Bus.attached a = Bus.attached b
  input : ∀ {a b}, R a b → ∀ port, (Bus.input a port).1 = (Bus.input b port).1 ∧
    R (Bus.input a port).2 (Bus.input b port).2
  output : ∀ {a b}, R a b → ∀ port value, R (Bus.output a port value) (Bus.output b port value)

namespace Computer

/-- Computers that agree in what execution can see, their buses being related. -/
structure Alike (R : α → β → Prop) (c : Computer α) (d : Computer β) : Prop where
  processor : c.processor = d.processor
  memory : Memory.Alike c.memory d.memory
  bus : R c.bus d.bus

variable {R : α → β → Prop} {c : Computer α} {d : Computer β}

theorem Alike.interrupt (h : Alike R c d) (vector : UInt8) :
    (c.interrupt vector).1 = (d.interrupt vector).1 ∧
      Alike R (c.interrupt vector).2 (d.interrupt vector).2 := by
  rcases c with ⟨p, m, a⟩
  rcases d with ⟨q, n, b⟩
  obtain ⟨hp, hm, hr⟩ := h
  replace hp : p = q := hp
  replace hm : Memory.Alike m n := hm
  subst hp
  cases hl : p.interruptEnable with
  | false =>
    simp only [Computer.interrupt, hl]
    exact ⟨rfl, rfl, hm, hr⟩
  | true =>
    obtain ⟨m', n', refused, hm', hn', h'⟩ := hm.storeAll (p.push p.pc).1
    -- The latch is cleared before the push, which does not look at it.
    replace hm' : m.storeAll (({ p with interruptEnable := false }).push p.pc).1 = _ := hm'
    replace hn' : n.storeAll (({ p with interruptEnable := false }).push p.pc).1 = _ := hn'
    simp only [Computer.interrupt, hl, if_true, hm', hn']
    cases refused with
    | none => exact ⟨rfl, rfl, h', hr⟩
    | some address => exact ⟨rfl, rfl, h', hr⟩

/-- Alike computers are at the same instruction. -/
theorem Alike.instruction? (h : Alike R c d) : c.instruction? = d.instruction? := by
  unfold Computer.instruction?
  rw [Memory.read_congr h.memory.bytes, h.processor]

theorem Alike.storeAddresses (h : Alike R c d) : c.storeAddresses = d.storeAddresses := by
  unfold Computer.storeAddresses
  rw [h.instruction?, Memory.read_congr h.memory.bytes, h.processor]

variable [Bus α] [Bus β]

theorem Alike.commit (hR : Bus.Indistinct R) (h : Alike R c d) (i : Instruction)
    (effect : Effect) :
    (commit i effect c).1 = (commit i effect d).1 ∧
      Alike R (commit i effect c).2 (commit i effect d).2 := by
  rcases c with ⟨p, m, a⟩
  rcases d with ⟨q, n, b⟩
  obtain ⟨hp, hm, hr⟩ := h
  replace hp : p = q := hp
  replace hm : Memory.Alike m n := hm
  subst hp
  have ha : Bus.attached a = Bus.attached b := hR.attached hr
  cases effect with
  | change stores after flow =>
    obtain ⟨m', n', refused, hm', hn', h'⟩ := hm.storeAll stores
    simp only [Computer.commit, hm', hn']
    cases refused with
    | none => exact ⟨rfl, rfl, h', hr⟩
    | some address => exact ⟨rfl, rfl, h', hr⟩
  | input port =>
    obtain ⟨hv, hr'⟩ := hR.input hr port
    simp only [Computer.commit, ha, hv]
    split
    · exact ⟨rfl, rfl, hm, hr'⟩
    · exact ⟨rfl, rfl, hm, hr⟩
  | output port value =>
    simp only [Computer.commit, ha]
    split
    · exact ⟨rfl, rfl, hm, hR.output hr port value⟩
    · exact ⟨rfl, rfl, hm, hr⟩
  | unsupported => exact ⟨rfl, rfl, hm, hr⟩

theorem Alike.step (hR : Bus.Indistinct R) (h : Alike R c d) :
    c.step.1 = d.step.1 ∧ Alike R c.step.2 d.step.2 := by
  unfold Computer.step
  rw [h.instruction?, Memory.read_congr h.memory.bytes, h.processor]
  cases d.instruction? with
  | none => exact ⟨rfl, h⟩
  | some i => exact h.commit hR i _

/-- Alike computers execute with the same outcome and are alike afterwards. -/
theorem Alike.execute (hR : Bus.Indistinct R) (h : Alike R c d) :
    c.execute.1 = d.execute.1 ∧ Alike R c.execute.2 d.execute.2 := by
  obtain ⟨hr, h'⟩ := h.step hR
  rw [execute_fst, execute_fst, execute_snd, execute_snd, hr]
  exact ⟨rfl, h'⟩

end Computer

end Arcade8080
