import Arcade8080.Board.Basic
import Arcade8080.Computer.Run

/-!
# Histories

What a host can do to a computer, to a board and to its ports, as labelled steps
between states, and sequences of them. A step leads on whether the operation
succeeds or not. Only a run may fail to lead anywhere, as it need not end.
-/

namespace Arcade8080

/-- Steps one after the other, under their labels. -/
inductive History {ω σ : Type} (leads : ω → σ → σ → Prop) : List ω → σ → σ → Prop
  | nil (s : σ) : History leads [] s s
  | cons {o : ω} {os : List ω} {s t u : σ} :
      leads o s t → History leads os t u → History leads (o :: os) s u

/-- What every step keeps is kept by a history. -/
theorem History.keeps {ω σ : Type} {leads : ω → σ → σ → Prop} {P : σ → Prop} {os : List ω}
    {s t : σ} (h : History leads os s t)
    (step : ∀ o ∈ os, ∀ s t, leads o s t → P s → P t) (hp : P s) : P t := by
  induction h with
  | nil s => exact hp
  | cons hl _ ih =>
    apply ih
    · intro o ho
      exact step o (List.mem_cons_of_mem _ ho)
    · exact step _ List.mem_cons_self _ _ hl hp

/-- What the labels so far tell about a state, if every step keeps it so, they tell in the end. -/
theorem History.tells {ω σ : Type} {leads : ω → σ → σ → Prop} {P : List ω → σ → Prop}
    {os : List ω} {s t : σ} (h : History leads os s t) (past : List ω)
    (step : ∀ past, ∀ o ∈ os, ∀ s t, leads o s t → P past s → P (past ++ [o]) t)
    (hp : P past s) : P (past ++ os) t := by
  induction h generalizing past with
  | nil s => rwa [List.append_nil]
  | @cons o os s t u hl _ ih =>
    have hstep : P (past ++ [o]) t := step past o List.mem_cons_self s t hl hp
    have hrest := ih (past ++ [o]) (fun past o ho => step past o (List.mem_cons_of_mem _ ho)) hstep
    rwa [List.append_assoc] at hrest

/-- A history by one kind of step is one by any wider kind. -/
theorem History.mono {ω σ : Type} {leads leads' : ω → σ → σ → Prop} {os : List ω} {s t : σ}
    (h : History leads os s t) (step : ∀ o s t, leads o s t → leads' o s t) :
    History leads' os s t := by
  induction h with
  | nil s => exact .nil s
  | cons hl _ ih => exact .cons (step _ _ _ hl) ih

/-- A history under other labels. -/
theorem History.relabel {ω ω' σ : Type} {leads : ω → σ → σ → Prop} {leads' : ω' → σ → σ → Prop}
    {os : List ω} {s t : σ} (h : History leads os s t) (label : ω → ω')
    (step : ∀ o s t, leads o s t → leads' (label o) s t) : History leads' (os.map label) s t := by
  induction h with
  | nil s => exact .nil s
  | cons hl _ ih => exact .cons (step _ _ _ hl) ih

theorem History.append {ω σ : Type} {leads : ω → σ → σ → Prop} {os os' : List ω} {s t u : σ}
    (h : History leads os s t) (h' : History leads os' t u) : History leads (os ++ os') s u := by
  induction h with
  | nil s => exact h'
  | cons hl _ ih => exact .cons hl (ih h')

/-- What can be done to a computer. A tick may be that of any pacer. -/
inductive Computer.Operation (β : Type)
  | execute
  | run
  | interrupt (vector : UInt8)
  | tick (pacer : Pacer) (now : Float) (request : Option UInt8)
  | store (s : Store)
  | reset
  | attach (bus : β)
  | load (image : List UInt8)
  | restore (saved : SavedComputer)

/-- The operation, begun in the first computer, ends in the second. -/
def Computer.Operation.Leads {β : Type} [Bus β] (operation : Operation β)
    (c c' : Computer β) : Prop :=
  match operation with
  | .execute => c.execute.2 = c'
  | .run => ∃ fuel fault, c.run fuel = some (fault, c')
  | .interrupt vector => (c.interrupt vector).2 = c'
  | .tick pacer now request => (pacer.tick now request c).2.2 = c'
  | .store s => (c.store [s]).2 = c'
  | .reset => c.reset = c'
  | .attach bus => c.attach bus = c'
  | .load image => (c.load image).2 = c'
  | .restore saved => c.restore saved = c'

/-- Whether an operation is exempt from the protection of the ROM. -/
def Computer.Operation.Overwrites {β : Type} : Operation β → Prop
  | .load _ | .restore _ => True
  | _ => False

/-- What can be done to a board, its computer included. -/
inductive Board.Operation
  | computer (operation : Computer.Operation Ports)
  | loadRom (image : List UInt8)
  | tick (now : Float)
  | press (control : Control) (on : Bool)
  | reset
  | restore (saved : SavedBoard)
  | drain

def Board.Operation.Leads (operation : Operation) (b b' : Board) : Prop :=
  match operation with
  | .computer operation =>
    operation.Leads b.computer b'.computer ∧ b' = { b with computer := b'.computer }
  | .loadRom image => (b.loadRom image).2 = b'
  | .tick now => (b.tick now).2 = b'
  | .press control on => b.press control on = b'
  | .reset => b.reset = b'
  | .restore saved => b.restore saved = b'
  | .drain => b.drain.2 = b'

def Board.Operation.Overwrites : Operation → Prop
  | .computer operation => operation.Overwrites
  | .loadRom _ | .restore _ => True
  | _ => False

/-- What can be done to ports. They are restored from the bytes of a save file. -/
inductive Ports.Operation
  | press (control : Control) (on : Bool)
  | read (port : UInt8)
  | write (port value : UInt8)
  | reset
  | restore (x y offset in1 in2 : UInt8)

def Ports.Operation.Leads (operation : Operation) (p p' : Ports) : Prop :=
  match operation with
  | .press control on => p.press control on = p'
  | .read port => (Bus.input p port).2 = p'
  | .write port value => Bus.output p port value = p'
  | .reset => p.reset = p'
  | .restore x y offset in1 in2 => p.restore (Shifter.ofBytes x y offset) in1 in2 = p'

/-- A program is copied to the board as to any computer; the program counter aside. -/
theorem Board.computer_loadRom (b : Board) (image : List UInt8) :
    (b.loadRom image).2.computer.memory = (b.computer.load image).2.memory ∧
      (b.loadRom image).2.computer.bus = (b.computer.load image).2.bus := by
  simp only [loadRom]
  rcases b.computer.load image with ⟨_ | _, _⟩
  · exact ⟨rfl, rfl⟩
  · exact ⟨rfl, rfl⟩

/-- A tick of a board does to its computer what the tick of its pacer does. -/
theorem Board.computer_tick (b : Board) (now : Float) :
    (b.tick now).2.computer =
      (b.pacer.tick now (b.timer.poll now).1 b.computer).2.2 := by
  rcases b with ⟨computer, pacer, timer, latch, pending, settings⟩
  simp only [tick]
  rcases pacer.tick now (timer.poll now).1 computer with ⟨_ | _, _, _⟩ <;> rfl

end Arcade8080
