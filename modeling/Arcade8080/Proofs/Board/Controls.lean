import Arcade8080.Proofs.Arithmetic.Bits
import Arcade8080.Proofs.Computer.Invariant
import Arcade8080.Proofs.Operation

/-!
# What the input ports show

The two input ports show the controls and the switches of the cabinet, each in bits of its own.
The switches are those that the ports were built with, and a control is as it was left by the one
who used it last; a reset releases all of them. Nothing that a program does shows in these ports.

Restoring a save file and hanging other devices on the bus do replace the inputs. They are left
out here.
-/

namespace Arcade8080

/-- What can happen to the controls: one is pressed or let go, or all are released. -/
inductive ControlEvent
  | press (control : Control) (on : Bool)
  | release
deriving DecidableEq

/-- How a control was left by the one who used it last since all were released, if anyone did. -/
def Control.lastUse? (control : Control) (events : List ControlEvent) : Option Bool :=
  (events.reverse.takeWhile (· ≠ .release)).findSome? fun
    | .press other on => if other = control then some on else none
    | .release => none

/-- Whether a control is held after these events. -/
def Control.held (control : Control) (events : List ControlEvent) : Bool :=
  (control.lastUse? events).getD false

/-- The number under which a program reads an input port. -/
def InputPort.number : InputPort → UInt8
  | .one => 1
  | .two => 2

def Ports.Operation.controlEvent? : Operation → Option ControlEvent
  | .press control on => some (.press control on)
  | .reset => some .release
  | _ => none

def Board.Operation.controlEvent? : Operation → Option ControlEvent
  | .press control on => some (.press control on)
  | .reset => some .release
  | _ => none

/-- Whether an operation replaces the inputs by saved ones. -/
def Ports.Operation.Restores : Operation → Prop
  | .restore .. => True
  | _ => False

/-- Whether an operation hangs other ports on the bus. -/
def Computer.Operation.Attaches {β : Type} : Operation β → Prop
  | .attach _ => True
  | _ => False

/-- Whether an operation replaces the inputs by saved ones, or by those of other ports. -/
def Board.Operation.ReplacesInputs : Operation → Prop
  | .restore _ => True
  | .computer operation => operation.Attaches
  | _ => False

namespace Ports

/-- What a program reads at the two input ports, by the switches and by what has happened to the
controls. -/
structure Shows (p : Ports) (dip : DipSwitches) (events : List ControlEvent) : Prop where
  dip_eq : p.dip = dip
  control (control : Control) : bit (p.read control.port.number) control.line = control.held events
  wired : bit (p.read 1) 3 = true
  unwired : bit (p.read 1) 7 = false
  ships : (p.read 2).toNat % 4 = min (max dip.shipsPerCredit.toNat 3) 6 - 3
  bonusShip : bit (p.read 2) 3 = dip.bonusShipEarly
  coinInfo : bit (p.read 2) 7 = !dip.showCoinInfo

/-- Ports with the same controls in use and the same switches. -/
structure SameInputs (p q : Ports) : Prop where
  in1 : q.in1 = p.in1
  in2 : q.in2 = p.in2
  dip : q.dip = p.dip

variable {p q r : Ports} {dip : DipSwitches} {events : List ControlEvent}

theorem SameInputs.refl (p : Ports) : SameInputs p p := ⟨rfl, rfl, rfl⟩

theorem SameInputs.trans (h : SameInputs p q) (h' : SameInputs q r) : SameInputs p r :=
  ⟨h'.in1.trans h.in1, h'.in2.trans h.in2, h'.dip.trans h.dip⟩

theorem SameInputs.read (h : SameInputs p q) (port : InputPort) :
    q.read port.number = p.read port.number := by
  cases port with
  | one => exact h.in1
  | two => exact h.in2

theorem sameInputs_write (p : Ports) (port value : UInt8) : SameInputs p (p.write port value) := by
  unfold write
  split <;> exact ⟨rfl, rfl, rfl⟩

theorem Shows.of_sameInputs (h : p.Shows dip events) (hs : SameInputs p q) :
    q.Shows dip events where
  dip_eq := hs.dip.trans h.dip_eq
  control c := by rw [hs.read, h.control c]
  wired := (congrArg (bit · 3) hs.in1).trans h.wired
  unwired := (congrArg (bit · 7) hs.in1).trans h.unwired
  ships := (congrArg (·.toNat % 4) hs.in2).trans h.ships
  bonusShip := (congrArg (bit · 3) hs.in2).trans h.bonusShip
  coinInfo := (congrArg (bit · 7) hs.in2).trans h.coinInfo

end Ports

/-! ## Pressing -/

namespace Control

theorem held_press (control other : Control) (on : Bool) (events : List ControlEvent) :
    control.held (events ++ [.press other on]) =
      if control = other then on else control.held events := by
  simp only [held, lastUse?, List.reverse_append, List.reverse_cons, List.reverse_nil,
    List.nil_append, List.cons_append]
  rw [List.takeWhile_cons_of_pos (by simp), List.findSome?_cons]
  by_cases h : control = other
  · simp [h]
  · simp [h, Ne.symm h]

theorem held_release (control : Control) (events : List ControlEvent) :
    control.held (events ++ [.release]) = false := by
  simp [held, lastUse?]

theorem line_lt (control : Control) : control.line < 8 := by
  cases control <;> decide

/-- No two controls share a bit. -/
theorem line_inj {c d : Control} (hp : c.port = d.port) (hl : c.line = d.line) : c = d := by
  cases c <;> cases d <;> first | rfl | exact absurd hp (by decide) | exact absurd hl (by decide)

/-- The bits in which the switches and the wired bit are shown belong to no control. -/
theorem line_ne (control : Control) :
    control.line ≠ 3 ∧ control.line ≠ 7 ∧
      (control.port = .two → control.line ≠ 0 ∧ control.line ≠ 1) := by
  cases control <;> decide

end Control

namespace Ports

variable {p : Ports} {dip : DipSwitches} {events : List ControlEvent}

theorem read_press (p : Ports) (control : Control) (on : Bool) (port : InputPort) :
    (p.press control on).read port.number =
      if port = control.port then setBit (p.read port.number) control.line on
      else p.read port.number := by
  unfold press
  cases port <;> cases control.port <;> rfl

/-- A bit that is not the one of the control is not changed by using it. -/
theorem bit_read_press (p : Ports) (control : Control) (on : Bool) (port : InputPort) {k : Nat}
    (hk : k < 8) :
    bit ((p.press control on).read port.number) k =
      if port = control.port ∧ k = control.line then on else bit (p.read port.number) k := by
  rw [read_press]
  by_cases h : port = control.port
  · rw [if_pos h, bit_setBit _ _ _ hk]
    simp [h]
  · rw [if_neg h]
    simp [h]

theorem bit_read_press_of_ne (p : Ports) {control : Control} (on : Bool) (port : InputPort)
    {k : Nat} (hk : k < 8) (h : port = control.port → control.line ≠ k) :
    bit ((p.press control on).read port.number) k = bit (p.read port.number) k := by
  rw [bit_read_press _ _ _ _ hk, if_neg]
  rintro ⟨hp, rfl⟩
  exact h hp rfl

theorem Shows.press (h : p.Shows dip events) (control : Control) (on : Bool) :
    (p.press control on).Shows dip (events ++ [.press control on]) := by
  obtain ⟨h3, h7, h2⟩ := control.line_ne
  have keeps1 {k : Nat} (hk : k < 8) (hl : control.line ≠ k) :
      bit ((p.press control on).read 1) k = bit (p.read 1) k :=
    p.bit_read_press_of_ne on .one hk fun _ => hl
  have keeps2 {k : Nat} (hk : k < 8) (hl : control.port = .two → control.line ≠ k) :
      bit ((p.press control on).read 2) k = bit (p.read 2) k :=
    p.bit_read_press_of_ne on .two hk fun hp => hl hp.symm
  refine ⟨?_, fun other => ?_, ?_, ?_, ?_, ?_, ?_⟩
  · rw [← h.dip_eq]
    unfold Ports.press
    split <;> rfl
  · rw [bit_read_press _ _ _ _ other.line_lt, Control.held_press, h.control other]
    by_cases ho : other = control
    · rw [if_pos ⟨congrArg _ ho, congrArg _ ho⟩, if_pos ho]
    · rw [if_neg fun hb => ho (Control.line_inj hb.1 hb.2), if_neg ho]
  · rw [keeps1 (by decide) h3, h.wired]
  · rw [keeps1 (by decide) h7, h.unwired]
  · rw [← h.ships]
    refine (toNat_mod_eq_iff 2).mpr fun k hk => keeps2 (by omega) fun hp => ?_
    have hlines := h2 hp
    omega
  · rw [keeps2 (by decide) fun _ => h3, h.bonusShip]
  · rw [keeps2 (by decide) fun _ => h7, h.coinInfo]

/-! ## Releasing -/

/-- The bits of the switches. The ones of the controls are clear. -/
theorem bits_switches (dip : DipSwitches) :
    dip.bits.toNat % 4 = min (max dip.shipsPerCredit.toNat 3) 6 - 3 ∧
      bit dip.bits 3 = dip.bonusShipEarly ∧ bit dip.bits 7 = (!dip.showCoinInfo) ∧
      ∀ k ∈ [2, 4, 5, 6], bit dip.bits k = false := by
  have hbits : ∀ (n : Fin 4) (bonus info : Bool),
      let v := UInt8.ofNat (n + 8 * bonus.toNat + 128 * (!info).toNat)
      v.toNat % 4 = n ∧ bit v 3 = bonus ∧ bit v 7 = (!info) ∧
        ∀ k ∈ [2, 4, 5, 6], bit v k = false := by decide
  exact hbits ⟨min (max dip.shipsPerCredit.toNat 3) 6 - 3, by omega⟩ dip.bonusShipEarly
    dip.showCoinInfo

/-- Ports without a control in use show the switches. -/
theorem shows_idle (dip : DipSwitches) (h : ∀ control : Control, control.held events = false) :
    (idle dip).Shows dip events := by
  obtain ⟨hships, hbonus, hinfo, hclear⟩ := bits_switches dip
  have hwired : bit wired 3 = true ∧ bit wired 7 = false := by decide
  refine ⟨rfl, fun control => ?_, hwired.1, hwired.2, hships, hbonus, hinfo⟩
  rw [h control]
  cases control with
  | coin | p1Start | p2Start | p1Fire | p1Left | p1Right => show bit wired _ = false; decide
  | tilt | p2Fire | p2Left | p2Right => exact hclear _ (by decide)

theorem Shows.reset (h : p.Shows dip events) : p.reset.Shows dip (events ++ [.release]) := by
  rw [Ports.reset, h.dip_eq]
  exact shows_idle dip fun control => control.held_release events

end Ports

/-! ## Histories -/

/-- What an operation makes of the inputs, by what it has to do with the controls. -/
def Ports.Follows (event? : Option ControlEvent) (p q : Ports) : Prop :=
  match event? with
  | some (.press control on) => q = p.press control on
  | some .release => q = p.reset
  | none => p.SameInputs q

theorem Ports.Shows.next {p q : Ports} {dip : DipSwitches} {events : List ControlEvent}
    (h : p.Shows dip events) {event? : Option ControlEvent} (hf : Follows event? p q) :
    q.Shows dip (events ++ event?.toList) := by
  cases event? with
  | none =>
    rw [Option.toList_none, List.append_nil]
    exact h.of_sameInputs hf
  | some event =>
    cases event with
    | press control on =>
      replace hf : q = p.press control on := hf
      rw [hf]
      exact h.press control on
    | release =>
      replace hf : q = p.reset := hf
      rw [hf]
      exact h.reset

/-- Ports that show what has happened to the controls do so in every history of operations that
have to do with the inputs no more than they tell. -/
theorem Ports.shows_of_history {ω σ : Type} {leads : ω → σ → σ → Prop} (ports : σ → Ports)
    (event? : ω → Option ControlEvent) {os : List ω} {s t : σ} (h : History leads os s t)
    (step : ∀ o ∈ os, ∀ s t, leads o s t → Follows (event? o) (ports s) (ports t))
    {dip : DipSwitches} (hs : (ports s).Shows dip []) :
    (ports t).Shows dip (os.filterMap event?) := by
  have htells := h.tells []
    (P := fun past s => (ports s).Shows dip (past.filterMap event?)) ?_ hs
  · exact htells
  · intro past o ho s t hl hp
    rw [List.filterMap_append]
    have hnext := hp.next (step o ho s t hl)
    cases he : event? o <;> simpa [he] using hnext

theorem Ports.Operation.follows {operation : Operation} {p q : Ports}
    (h : operation.Leads p q) (hr : ¬ operation.Restores) :
    Follows operation.controlEvent? p q := by
  cases operation with
  | press control on => exact h.symm
  | read port =>
    cases h
    exact SameInputs.refl p
  | write port value =>
    cases h
    exact p.sameInputs_write port value
  | reset => exact h.symm
  | restore x y offset in1 in2 => exact absurd trivial hr

namespace Computer

theorem sameInputs_execute (c : Computer Ports) : c.bus.SameInputs c.execute.2.bus := by
  rcases c.execute_bus with he | ⟨port, he⟩ | ⟨port, value, he⟩
  · rw [he]
    exact .refl c.bus
  · rw [he]
    exact .refl c.bus
  · rw [he]
    exact c.bus.sameInputs_write port value

/-- Nothing done to a computer changes the inputs, other ports aside. -/
theorem Operation.sameInputs {operation : Operation Ports} {c c' : Computer Ports}
    (h : operation.Leads c c') (ha : ¬ operation.Attaches) : c.bus.SameInputs c'.bus := by
  have hx : ∀ d : Computer Ports, c.bus.SameInputs d.bus → c.bus.SameInputs d.execute.2.bus :=
    fun d hd => hd.trans d.sameInputs_execute
  have hi : ∀ vector (d : Computer Ports), c.bus.SameInputs d.bus →
      c.bus.SameInputs (d.interrupt vector).2.bus := by
    intro vector d hd
    rwa [interrupt_bus]
  cases operation with
  | execute =>
    cases h
    exact c.sameInputs_execute
  | run =>
    obtain ⟨fuel, fault, h⟩ := h
    exact run_keeps (P := fun d => c.bus.SameInputs d.bus) hx h (.refl c.bus)
  | interrupt vector =>
    cases h
    exact hi vector c (.refl c.bus)
  | tick pacer now request =>
    cases h
    exact tick_keeps (P := fun d => c.bus.SameInputs d.bus) hx hi pacer now request c
      (.refl c.bus)
  | store s =>
    cases h
    rw [bus_store]
    exact .refl c.bus
  | attach ports => exact absurd trivial ha
  | load image =>
    cases h
    rw [bus_load]
    exact .refl c.bus
  | _ =>
    cases h
    exact .refl c.bus

end Computer

theorem Board.Operation.follows {operation : Operation} {b b' : Board}
    (h : operation.Leads b b') (hr : ¬ operation.ReplacesInputs) :
    Ports.Follows operation.controlEvent? b.computer.bus b'.computer.bus := by
  cases operation with
  | computer operation => exact operation.sameInputs h.1 hr
  | loadRom image =>
    cases h
    rw [(b.computer_loadRom image).2, Computer.bus_load]
    exact Ports.SameInputs.refl b.computer.bus
  | tick now =>
    cases h
    rw [computer_tick]
    exact Computer.Operation.sameInputs
      (show (Computer.Operation.tick b.pacer now (b.timer.poll now).1).Leads b.computer _ from rfl)
      id
  | press control on =>
    cases h
    rfl
  | reset =>
    cases h
    rfl
  | restore saved => exact absurd trivial hr
  | drain =>
    cases h
    exact Ports.SameInputs.refl b.computer.bus

/-! ## Two presses -/

namespace Ports

/-- What was done to a control before it is used does not show any more. -/
theorem press_press (p : Ports) (control : Control) (earlier on : Bool) :
    (p.press control earlier).press control on = p.press control on := by
  unfold press
  cases control.port with
  | one => exact congrArg (fun v => { p with in1 := v }) (setBit_setBit _ _ _ _)
  | two => exact congrArg (fun v => { p with in2 := v }) (setBit_setBit _ _ _ _)

/-- Different controls are used in either order. -/
theorem press_comm (p : Ports) {c d : Control} (h : c ≠ d) (on on' : Bool) :
    (p.press c on).press d on' = (p.press d on').press c on := by
  have hline : c.port = d.port → c.line ≠ d.line := fun hp hl => h (Control.line_inj hp hl)
  unfold press
  cases hc : c.port <;> cases hd : d.port
  · exact congrArg (fun v => { p with in1 := v })
      (setBit_comm _ (hline (hc.trans hd.symm)) on on')
  · rfl
  · rfl
  · exact congrArg (fun v => { p with in2 := v })
      (setBit_comm _ (hline (hc.trans hd.symm)) on on')

end Ports

/-- **The inputs follow the presses.** Whatever is done to new ports but restoring them, and
whatever a host and a program do on a new board but replacing its inputs, each control shows as it
was left last since the last reset, and as let go if it was not used; the switches show as they were
set, the number of ships as the nearest that there is; one bit is always set, and one never. So two
presses of different controls come to the same in either order, a press counts once however often
it is repeated, no program changes the inputs and reading a port changes nothing. -/
theorem inputs_follow_presses :
    (∀ (dip : DipSwitches) (os : List Ports.Operation) (p : Ports),
      History Ports.Operation.Leads os (Ports.idle dip) p → (∀ o ∈ os, ¬ o.Restores) →
      p.Shows dip (os.filterMap Ports.Operation.controlEvent?)) ∧
    (∀ (settings : Settings) (os : List Board.Operation) (b : Board),
      History Board.Operation.Leads os (Board.build settings) b →
      (∀ o ∈ os, ¬ o.ReplacesInputs) →
      b.computer.bus.Shows settings.dip (os.filterMap Board.Operation.controlEvent?)) ∧
    (∀ (p : Ports) (c d : Control) (on on' : Bool), c ≠ d →
      (p.press c on).press d on' = (p.press d on').press c on) ∧
    (∀ (p : Ports) (control : Control) (earlier on : Bool),
      (p.press control earlier).press control on = p.press control on) ∧
    (∀ (operation : Computer.Operation Ports) (c c' : Computer Ports), operation.Leads c c' →
      ¬ operation.Attaches → ∀ port : InputPort,
        c'.bus.read port.number = c.bus.read port.number) ∧
    ∀ (p : Ports) (port : UInt8), Bus.input p port = (p.read port, p) := by
  have hnew (dip : DipSwitches) : (Ports.idle dip).Shows dip [] :=
    Ports.shows_idle dip fun _ => rfl
  refine ⟨fun dip os p hh hr => ?_, fun settings os b hh hr => ?_,
    fun p c d on on' h => p.press_comm h on on', fun p => p.press_press,
    fun operation c c' h ha => (operation.sameInputs h ha).read, fun p port => rfl⟩
  · exact Ports.shows_of_history id Ports.Operation.controlEvent? hh
      (fun o ho p q hl => o.follows hl (hr o ho)) (hnew dip)
  · exact Ports.shows_of_history (fun b => b.computer.bus) Board.Operation.controlEvent? hh
      (fun o ho b c hl => o.follows hl (hr o ho)) (hnew settings.dip)

/-- A coin that is pressed, a reset, and a tilt that is pressed twice, with a program that writes
to the ports and a number of ships that there is not; and a start on a board that is pressed and
let go between a tick and an instruction. -/
theorem tilt_shows_after_reset :
    (∃ p, History Ports.Operation.Leads
        [.press .coin true, .reset, .press .tilt true, .write 2 0xFF, .read 2, .press .tilt true]
        (Ports.idle { shipsPerCredit := 255 }) p ∧
      bit (p.read 1) 0 = false ∧ bit (p.read 2) 2 = true ∧ (p.read 2).toNat % 4 = 3) ∧
    (∃ b, History Board.Operation.Leads
        [.press .p1Start true, .tick 0, .press .p1Start false, .computer .execute]
        (Board.build {}) b ∧
      bit (b.computer.bus.read 1) 2 = false) ∧
    ∀ c c' : Computer Ports, Computer.Operation.run.Leads c c' →
      c'.bus.read 1 = c.bus.read 1 ∧ (c.bus.press .coin true).press .tilt true =
        (c.bus.press .tilt true).press .coin true := by
  obtain ⟨hports, hboard, hcomm, -, hprogram, -⟩ := inputs_follow_presses
  obtain ⟨p, hp⟩ : ∃ p, History Ports.Operation.Leads
      [.press .coin true, .reset, .press .tilt true, .write 2 0xFF, .read 2, .press .tilt true]
      (Ports.idle { shipsPerCredit := 255 }) p :=
    ⟨_, .cons rfl (.cons rfl (.cons rfl (.cons rfl (.cons rfl (.cons rfl (.nil _))))))⟩
  obtain ⟨a, ha⟩ : ∃ a : Board,
      (((Board.build {}).press .p1Start true).tick 0).2.press .p1Start false = a := ⟨_, rfl⟩
  have hexecute : (Board.Operation.computer .execute).Leads a
      { a with computer := a.computer.execute.2 } := ⟨rfl, rfl⟩
  obtain ⟨b, hb⟩ : ∃ b, History Board.Operation.Leads
      [.press .p1Start true, .tick 0, .press .p1Start false, .computer .execute]
      (Board.build {}) b :=
    ⟨_, .cons rfl (.cons rfl (.cons ha (.cons hexecute (.nil _))))⟩
  have hshows := hports _ _ p hp (by simp [Ports.Operation.Restores])
  have hstart := hboard _ _ b hb
    (by simp [Board.Operation.ReplacesInputs, Computer.Operation.Attaches])
  refine ⟨⟨p, hp, ?_, ?_, ?_⟩, ⟨b, hb, ?_⟩, fun c c' h => ⟨?_, ?_⟩⟩
  · exact (hshows.control .coin).trans (by decide)
  · exact (hshows.control .tilt).trans (by decide)
  · exact hshows.ships.trans (by decide)
  · exact (hstart.control .p1Start).trans (by decide)
  · exact hprogram .run c c' h id .one
  · exact hcomm c.bus .coin .tilt true true (by decide)

end Arcade8080
