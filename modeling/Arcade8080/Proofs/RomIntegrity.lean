import Arcade8080.Proofs.Computer.Invariant
import Arcade8080.Proofs.Operation

/-!
# ROM integrity

A program cannot change the ROM, and neither can anything else that goes through
the protection: executing, running, interrupting, ticking, storing, pressing
controls, resetting and changing the bus. Only loading and restoring reach the
bytes below the boundary. The boundary itself never moves.
-/

namespace Arcade8080

open Memory (SameRom)

namespace Computer

variable {β : Type}

theorem sameRom_execute [Bus β] (c : Computer β) : SameRom c.memory c.execute.2.memory := by
  rw [execute_memory]
  exact Memory.sameRom_storeAll c.memory c.stores

theorem sameRom_interrupt (vector : UInt8) (c : Computer β) :
    SameRom c.memory (c.interrupt vector).2.memory := by
  obtain ⟨stores, h⟩ := interrupt_memory vector c
  rw [h]
  exact Memory.sameRom_storeAll c.memory stores

theorem sameRom_store (stores : List Store) (c : Computer β) :
    SameRom c.memory (c.store stores).2.memory := by
  have h := Memory.sameRom_storeAll c.memory stores
  rcases c with ⟨p, memory, bus⟩
  simp only [store]
  split
  next he => rwa [he] at h
  next he => rwa [he] at h

variable [Bus β]

/-- What goes through the protection keeps the ROM. -/
theorem Operation.sameRom (operation : Operation β) {c c' : Computer β}
    (h : operation.Leads c c') (ho : ¬ operation.Overwrites) : SameRom c.memory c'.memory := by
  -- Slices and runs make many steps; what is kept is the relation to their first computer.
  have hx : ∀ d : Computer β, SameRom c.memory d.memory → SameRom c.memory d.execute.2.memory :=
    fun d hd => hd.trans (sameRom_execute d)
  have hi : ∀ vector (d : Computer β), SameRom c.memory d.memory →
      SameRom c.memory (d.interrupt vector).2.memory :=
    fun vector d hd => hd.trans (sameRom_interrupt vector d)
  cases operation with
  | execute =>
    cases h
    exact sameRom_execute c
  | run =>
    obtain ⟨fuel, fault, h⟩ := h
    exact run_keeps (P := fun d => SameRom c.memory d.memory) hx h (SameRom.refl c.memory)
  | interrupt vector =>
    cases h
    exact sameRom_interrupt vector c
  | tick pacer now request =>
    cases h
    exact tick_keeps (P := fun d => SameRom c.memory d.memory) hx hi pacer now request c
      (SameRom.refl c.memory)
  | store s =>
    cases h
    exact sameRom_store [s] c
  | reset =>
    cases h
    exact SameRom.refl c.memory
  | attach bus =>
    cases h
    exact SameRom.refl c.memory
  | load image => exact absurd trivial ho
  | restore saved => exact absurd trivial ho

theorem Operation.romBoundary (operation : Operation β) {c c' : Computer β}
    (h : operation.Leads c c') : c'.memory.romBoundary = c.memory.romBoundary := by
  by_cases ho : operation.Overwrites
  · cases operation with
    | load image =>
      cases h
      exact romBoundary_load image c
    | restore saved =>
      cases h
      rfl
    | _ => exact ho.elim
  · exact (operation.sameRom h ho).boundary

end Computer

namespace Board

theorem Operation.sameRom (operation : Operation) {b b' : Board}
    (h : operation.Leads b b') (ho : ¬ operation.Overwrites) :
    SameRom b.computer.memory b'.computer.memory := by
  cases operation with
  | computer operation => exact operation.sameRom h.1 ho
  | loadRom image => exact absurd trivial ho
  | tick now =>
    cases h
    rw [computer_tick]
    exact Computer.Operation.sameRom (.tick b.pacer now (b.timer.poll now).1) rfl id
  | press control on =>
    cases h
    exact SameRom.refl b.computer.memory
  | reset =>
    cases h
    exact SameRom.refl b.computer.memory
  | restore saved => exact absurd trivial ho
  | drain =>
    cases h
    exact SameRom.refl b.computer.memory

theorem Operation.romBoundary (operation : Operation) {b b' : Board}
    (h : operation.Leads b b') :
    b'.computer.memory.romBoundary = b.computer.memory.romBoundary := by
  by_cases ho : operation.Overwrites
  · cases operation with
    | computer operation => exact operation.romBoundary h.1
    | loadRom image =>
      cases h
      rw [(b.computer_loadRom image).1]
      exact Computer.romBoundary_load image b.computer
    | restore saved =>
      cases h
      rfl
    | _ => exact ho.elim
  · exact (operation.sameRom h ho).boundary

end Board

/-- Steps that keep the boundary, and the ROM unless they are exempt, do so in any history. -/
theorem History.rom_kept {ω σ : Type} {leads : ω → σ → σ → Prop} (memory : σ → Memory)
    (exempt : ω → Prop)
    (hb : ∀ o s t, leads o s t → (memory t).romBoundary = (memory s).romBoundary)
    (hr : ∀ o s t, leads o s t → ¬ exempt o → SameRom (memory s) (memory t))
    {os : List ω} {s t : σ} (h : History leads os s t) :
    (memory t).romBoundary = (memory s).romBoundary ∧
      ((∀ o ∈ os, ¬ exempt o) → SameRom (memory s) (memory t)) := by
  constructor
  · exact h.keeps (P := fun u => (memory u).romBoundary = (memory s).romBoundary)
      (fun o _ u v hl hu => (hb o u v hl).trans hu) rfl
  · intro ho
    exact h.keeps (P := fun u => SameRom (memory s) (memory u))
      (fun o hm u v hl hu => hu.trans (hr o u v hl (ho o hm))) (SameRom.refl (memory s))

/-- **The ROM outlives every history.** The boundary stays where it is whatever a
host does to a computer or a board, and the bytes below it stay what they are as
long as nothing is loaded or restored. Operations may fail or succeed in any mix. -/
theorem rom_kept_by_history :
    (∀ (β : Type) [Bus β] (operations : List (Computer.Operation β)) (c c' : Computer β),
      History Computer.Operation.Leads operations c c' →
      c'.memory.romBoundary = c.memory.romBoundary ∧
        ((∀ o ∈ operations, ¬ o.Overwrites) →
          ∀ address, address < c.memory.romBoundary →
            c'.memory.read address = c.memory.read address)) ∧
    ∀ (operations : List Board.Operation) (b b' : Board),
      History Board.Operation.Leads operations b b' →
      b'.computer.memory.romBoundary = b.computer.memory.romBoundary ∧
        ((∀ o ∈ operations, ¬ o.Overwrites) →
          ∀ address, address < b.computer.memory.romBoundary →
            b'.computer.memory.read address = b.computer.memory.read address) := by
  constructor
  · intro β _ operations c c' h
    obtain ⟨hb, hr⟩ := h.rom_kept Computer.memory Computer.Operation.Overwrites
      (fun o _ _ hl => o.romBoundary hl) (fun o _ _ hl ho => o.sameRom hl ho)
    exact ⟨hb, fun ho => (hr ho).byte⟩
  · intro operations b b' h
    obtain ⟨hb, hr⟩ := h.rom_kept (fun b => b.computer.memory) Board.Operation.Overwrites
      (fun o _ _ hl => o.romBoundary hl) (fun o _ _ hl ho => o.sameRom hl ho)
    exact ⟨hb, fun ho => (hr ho).byte⟩

/-- Two stores, one of which the ROM refuses, and a tick of a board with a control held. -/
theorem rom_kept_by_short_histories :
    (let c : Computer Ports := { memory := Memory.blank 0x2000, bus := Ports.idle {} }
      ∃ c', History Computer.Operation.Leads
          [.run, .store ⟨0x0010, 7⟩, .store ⟨0x2400, 7⟩, .execute, .interrupt 1] c c' ∧
        (c.store [⟨0x0010, 7⟩]).1 = .error (.romWrite 0x0010) ∧
        c'.memory.romBoundary = 0x2000 ∧ c'.memory.read 0x0010 = 0) ∧
    ∃ b', History Board.Operation.Leads [.press .coin true, .tick 0, .reset] (Board.build {}) b' ∧
      b'.computer.memory.romBoundary = 0x2000 ∧ b'.computer.memory.read 0x0010 = 0 := by
  constructor
  · intro c
    obtain ⟨c', h⟩ : ∃ c', History Computer.Operation.Leads
        [.run, .store ⟨0x0010, 7⟩, .store ⟨0x2400, 7⟩, .execute, .interrupt 1] c c' :=
      ⟨_, .cons ⟨1, .pastEnd, rfl⟩ (.cons rfl (.cons rfl (.cons rfl (.cons rfl (.nil _)))))⟩
    obtain ⟨hb, hr⟩ := rom_kept_by_history.1 Ports _ c c' h
    refine ⟨c', h, rfl, hb, (hr ?_ 0x0010 (by decide)).trans (Memory.read_blank 0x2000 0x0010)⟩
    simp [Computer.Operation.Overwrites]
  · obtain ⟨b', h⟩ : ∃ b', History Board.Operation.Leads [.press .coin true, .tick 0, .reset]
        (Board.build {}) b' := ⟨_, .cons rfl (.cons rfl (.cons rfl (.nil _)))⟩
    obtain ⟨hb, hr⟩ := rom_kept_by_history.2 _ (Board.build {}) b' h
    refine ⟨b', h, hb, (hr ?_ 0x0010 (by decide)).trans (Memory.read_blank 0x2000 0x0010)⟩
    simp [Board.Operation.Overwrites]

end Arcade8080
