import Arcade8080.Proofs.Computer.Run

/-!
# Straight-line programs

A program without transfers of control is a list of instructions with their operand
bytes. Loaded at address zero, it is executed as it is written: one instruction
after the other, each with its own operands, up to the end of the image. What a
line of such a program does is said without looking for it in memory. That the
computer does find it there takes the encoding, the lengths and the loop together,
and stores that stay clear of the image.
-/

namespace Arcade8080

/-- Whether execution goes on after an instruction at the next one, whatever the flags. -/
def Instruction.straight : Instruction → Bool
  | .jmp | .jmpIf _ | .call | .callIf _ | .ret | .retIf _ | .rst _ | .pchl | .hlt => false
  | _ => true

theorem Instruction.transfers_of_straight {i : Instruction} (h : i.straight = true) (f : Flags) :
    i.transfers f = false := by
  cases i <;> first | rfl | cases h

/-- A line of straight-line code: an instruction that some byte stands for, with its operand
bytes. -/
structure CodeLine where
  instruction : Instruction
  operands : List UInt8
  decodable : ∃ byte, Instruction.decode? byte = some instruction
  straight : instruction.straight = true
  length_eq : 1 + operands.length = instruction.length.toNat

/-- The view with bytes laid over it from an address on. -/
def View.overlay (view : View) (address : UInt16) (bytes : List UInt8) : View :=
  fun a => (bytes[(a - address).toNat]?).getD (view a)

namespace CodeLine

variable {β : Type} [Bus β]

def bytes (line : CodeLine) : List UInt8 := line.instruction.encode :: line.operands

/-- What a line does, whatever there is in memory at the program counter. -/
def perform (line : CodeLine) (c : Computer β) : Except Fault Completion × Computer β :=
  Computer.commit line.instruction
    (line.instruction.effect c.processor (View.overlay c.memory.read c.processor.pc line.bytes)) c

/-- What the lines of a program do one after the other. -/
def performAll (lines : List CodeLine) (c : Computer β) : Computer β :=
  lines.foldl (fun d line => (line.perform d).2) c

/-- The lines as they are loaded. -/
def image (lines : List CodeLine) : List UInt8 := lines.flatMap bytes

theorem decode?_encode (line : CodeLine) :
    Instruction.decode? line.instruction.encode = some line.instruction := by
  obtain ⟨byte, h⟩ := line.decodable
  rwa [Instruction.encode_of_decode? h]

theorem length_bytes (line : CodeLine) :
    line.bytes.length = line.instruction.length.toNat := by
  rw [bytes, List.length_cons, Nat.add_comm, line.length_eq]

theorem image_cons (line : CodeLine) (rest : List CodeLine) :
    image (line :: rest) = line.bytes ++ image rest := List.flatMap_cons

theorem length_image_cons (line : CodeLine) (rest : List CodeLine) :
    (image (line :: rest)).length = line.instruction.length.toNat + (image rest).length := by
  rw [image_cons, List.length_append, length_bytes]

theorem eq_nil_of_image {lines : List CodeLine} (h : (image lines).length = 0) : lines = [] := by
  cases lines with
  | nil => rfl
  | cons line rest =>
    have hpos := line.instruction.length_bounds
    rw [length_image_cons] at h
    omega

end CodeLine

/-! ## Devices that stay -/

/-- A bus that no access takes devices from or hangs devices on. -/
class Bus.Lasting (β : Type) [Bus β] : Prop where
  attached_input : ∀ (bus : β) (port : UInt8),
    Bus.attached (Bus.input bus port).2 = Bus.attached bus
  attached_output : ∀ (bus : β) (port value : UInt8),
    Bus.attached (Bus.output bus port value) = Bus.attached bus

instance : Bus.Lasting Ports where
  attached_input _ _ := rfl
  attached_output _ _ _ := rfl

instance : Bus.Lasting Tape where
  attached_input _ _ := rfl
  attached_output _ _ _ := rfl

instance {β : Type} [Bus β] [Bus.Lasting β] : Bus.Lasting (Monitored β) where
  attached_input bus port := Bus.Lasting.attached_input bus.device port
  attached_output bus port value := Bus.Lasting.attached_output bus.device port value

instance {β : Type} [Bus β] [Bus.Lasting β] : Bus.Lasting (Option β) where
  attached_input bus port := by
    cases bus with
    | none => rfl
    | some device => exact Bus.Lasting.attached_input device port
  attached_output bus port value := by
    cases bus with
    | none => rfl
    | some device => exact Bus.Lasting.attached_output device port value

instance {α β : Type} [Bus α] [Bus β] [Bus.Lasting α] [Bus.Lasting β] :
    Bus.Lasting (α ⊕ β) where
  attached_input bus port := by
    cases bus with
    | inl device => exact Bus.Lasting.attached_input device port
    | inr device => exact Bus.Lasting.attached_input device port
  attached_output bus port value := by
    cases bus with
    | inl device => exact Bus.Lasting.attached_output device port value
    | inr device => exact Bus.Lasting.attached_output device port value

theorem Instruction.attached_busAfter {β : Type} [Bus β] [Bus.Lasting β] (i : Instruction)
    (c : Computer β) : Bus.attached (i.busAfter c) = Bus.attached c.bus := by
  cases i with
  | input => exact Bus.Lasting.attached_input _ _
  | output => exact Bus.Lasting.attached_output _ _ _
  | _ => rfl

/-! ## One line -/

theorem View.overlay_eq_self {view : View} {address : UInt16} {bytes : List UInt8}
    (h : ∀ k byte, bytes[k]? = some byte → view (address + UInt16.ofNat k) = byte) :
    view.overlay address bytes = view := by
  funext a
  rw [overlay]
  cases hb : bytes[(a - address).toNat]? with
  | none => rfl
  | some byte =>
    have ha : address + UInt16.ofNat (a - address).toNat = a := by
      rw [UInt16.ofNat_toNat]
      grind
    have hv := h _ byte hb
    rw [ha] at hv
    exact hv.symm

namespace Computer

variable {β : Type} [Bus β] {c : Computer β} {line : CodeLine}

/-- The bytes of a line at the program counter are executed as that line. -/
theorem step_eq_perform (h : ∀ k byte, line.bytes[k]? = some byte →
      c.memory.read (c.processor.pc + UInt16.ofNat k) = byte) :
    c.instruction? = some line.instruction ∧ c.step = line.perform c := by
  have hz : c.processor.pc + UInt16.ofNat 0 = c.processor.pc := UInt16.add_zero _
  have h0 := h 0 line.instruction.encode rfl
  rw [hz] at h0
  have hi : c.instruction? = some line.instruction := by
    rw [instruction?, h0, line.decode?_encode]
  refine ⟨hi, ?_⟩
  rw [step_of_instruction? hi, CodeLine.perform, View.overlay_eq_self h]

/-- With a bus attached and no store refused, an instruction that is not `HLT` is carried out. -/
theorem execute_straight {i : Instruction} (hi : c.instruction? = some i)
    (hst : i.straight = true) (hb : Bus.attached c.bus = true)
    (hs : ∀ a ∈ c.storeAddresses, c.memory.romBoundary ≤ a) : c.execute.1 = .ok i.cycles := by
  by_cases hp : i = .output ∨ i = .input
  · rw [execute_port hi hp, if_pos hb]
  · apply execute_accepted hi ?_ hp
    · rw [List.find?_eq_none]
      intro a ha
      simpa using hs a ha
    · rintro rfl
      cases hst

/-! ## The invariant -/

/-- The program counter is at the first of `lines`, which are the rest of the image, and none
of them is going to store below the boundary or into the image. -/
structure Ready (lines : List CodeLine) (c : Computer β) : Prop where
  fits : c.processor.pc.toNat + (CodeLine.image lines).length = c.memory.programEnd
  programEnd_le : c.memory.programEnd ≤ 65536
  bytes : ∀ k byte, (CodeLine.image lines)[k]? = some byte →
    c.memory.read (c.processor.pc + UInt16.ofNat k) = byte
  attached : Bus.attached c.bus = true
  stores : ∀ k < lines.length, ∀ a ∈ (c.after k).storeAddresses,
    c.memory.romBoundary ≤ a ∧ c.memory.programEnd ≤ a.toNat

variable {rest : List CodeLine}

theorem Ready.line_bytes (h : Ready (line :: rest) c) :
    ∀ k byte, line.bytes[k]? = some byte →
      c.memory.read (c.processor.pc + UInt16.ofNat k) = byte := by
  intro k byte hk
  apply h.bytes k byte
  rw [CodeLine.image_cons, List.getElem?_append_left (List.getElem?_eq_some_iff.mp hk).1, hk]

/-- A line that is ready is carried out, with its own footprint. -/
theorem Ready.execute (h : Ready (line :: rest) c) :
    c.instruction? = some line.instruction ∧
      c.execute = (.ok line.instruction.cycles, (line.perform c).2) ∧
      line.instruction.Footprint c (line.perform c).2 := by
  obtain ⟨hi, hs⟩ := step_eq_perform h.line_bytes
  have hok : c.execute.1 = .ok line.instruction.cycles :=
    execute_straight hi line.straight h.attached
      fun a ha => (h.stores 0 (Nat.zero_lt_succ _) a ha).1
  have he : c.execute = (.ok line.instruction.cycles, (line.perform c).2) :=
    Prod.ext hok (by rw [execute_snd, hs])
  obtain ⟨completion, hst, -⟩ := step_of_execute he
  exact ⟨hi, he, (step_footprint hi hst).2⟩

/-- Either the last line has ended at the top of memory, or the next line is ready. -/
theorem Ready.next (h : Ready (line :: rest) c)
    (hlt : c.processor.pc.toNat + line.instruction.length.toNat < 65536) [Bus.Lasting β] :
    Ready rest (line.perform c).2 := by
  obtain ⟨hi, he, hf⟩ := h.execute
  have hpc := hf.programCounter (Instruction.transfers_of_straight line.straight _)
  have hn : (line.perform c).2.processor.pc.toNat =
      c.processor.pc.toNat + line.instruction.length.toNat := by
    rw [hpc, UInt16.toNat_add]
    omega
  have hfits := h.fits
  have hlen := line.length_bytes
  rw [CodeLine.length_image_cons] at hfits
  have hafter (k : Nat) : (line.perform c).2.after k = c.after (k + 1) := by
    rw [after_succ, he]
  constructor
  · rw [hn, hf.programEnd]
    omega
  · rw [hf.programEnd]
    exact h.programEnd_le
  · intro k byte hk
    have hkl := (List.getElem?_eq_some_iff.mp hk).1
    have hend := h.programEnd_le
    have haddr : (line.perform c).2.processor.pc + UInt16.ofNat k =
        c.processor.pc + UInt16.ofNat (line.bytes.length + k) := by
      rw [hpc, UInt16.add_assoc, hlen, UInt16.ofNat_add, UInt16.ofNat_toNat]
    have hm := h.bytes (line.bytes.length + k) byte (by
      rw [CodeLine.image_cons, List.getElem?_append_right (Nat.le_add_right _ _),
        Nat.add_sub_cancel_left, hk])
    rw [haddr, hf.memory, hm]
    -- The byte is in the image, and no store is.
    rw [← storeAddresses_of_instruction? hi]
    intro ha
    have hge := (h.stores 0 (Nat.zero_lt_succ _) _ ha).2
    rw [UInt16.toNat_add, UInt16.toNat_ofNat'] at hge
    omega
  · rw [hf.bus, Instruction.attached_busAfter]
    exact h.attached
  · intro k hk a ha
    rw [hafter] at ha
    rw [hf.romBoundary, hf.programEnd]
    exact h.stores (k + 1) (Nat.succ_lt_succ hk) a ha

theorem Ready.pc_lt (h : Ready (line :: rest) c) :
    c.processor.pc.toNat + line.instruction.length.toNat ≤ c.memory.programEnd ∧
      ¬ c.memory.programEnd ≤ c.processor.pc.toNat := by
  have hfits := h.fits
  have hpos := line.instruction.length_bounds
  rw [CodeLine.length_image_cons] at hfits
  omega

/-- An image whose line ends at the top of memory is full, so that this line is the last. -/
theorem Ready.eq_nil_of_top (h : Ready (line :: rest) c)
    (ht : 65536 ≤ c.processor.pc.toNat + line.instruction.length.toNat) : rest = [] := by
  have hfits := h.fits
  have hend := h.programEnd_le
  rw [CodeLine.length_image_cons] at hfits
  apply CodeLine.eq_nil_of_image
  omega

/-- A run is stopped by a line only if the line ends at the top of memory. -/
theorem Ready.stop? (h : Ready (line :: rest) c) :
    c.stop? = if 65536 ≤ c.processor.pc.toNat + line.instruction.length.toNat then
      some (.pastEnd, (line.perform c).2) else none := by
  obtain ⟨hi, he, -⟩ := h.execute
  have hover : c.runsOver =
      decide (65536 ≤ c.processor.pc.toNat + line.instruction.length.toNat) := by
    rw [runsOver_of_instruction? hi, Instruction.runsOver,
      Instruction.transfers_of_straight line.straight]
    rfl
  rw [Computer.stop?, if_neg h.pc_lt.2, he, hover]
  simp only [decide_eq_true_eq]

/-! ## The program -/

/-- The rest of a program runs as it is written. -/
theorem Ready.run [Bus.Lasting β] {lines : List CodeLine} {c : Computer β}
    (h : Ready lines c) :
    c.run (lines.length + 1) = some (.pastEnd, CodeLine.performAll lines c) ∧
      c.visits (lines.length + 1) =
        (List.range lines.length).map (fun k => CodeLine.performAll (lines.take k) c) ∧
      (c.visits (lines.length + 1)).map instruction? =
        lines.map (fun line => some line.instruction) ∧
      (CodeLine.performAll lines c).processor.pc =
        c.processor.pc + UInt16.ofNat (CodeLine.image lines).length := by
  induction lines generalizing c with
  | nil =>
    have hend : c.memory.programEnd ≤ c.processor.pc.toNat := Nat.le_of_eq h.fits.symm
    rw [run_succ, Computer.stop?, if_pos hend, visits_succ, if_pos hend]
    exact ⟨rfl, rfl, rfl, (UInt16.add_zero _).symm⟩
  | cons line rest ih =>
    obtain ⟨hi, he, hf⟩ := h.execute
    have hpc := hf.programCounter (Instruction.transfers_of_straight line.straight _)
    rw [List.length_cons, run_succ, visits_succ, if_neg h.pc_lt.2, h.stop?, he]
    by_cases hover : 65536 ≤ c.processor.pc.toNat + line.instruction.length.toNat
    · have hr := h.eq_nil_of_top hover
      subst hr
      rw [if_pos hover, List.map_cons, hi, CodeLine.length_image_cons]
      refine ⟨rfl, rfl, rfl, hpc.trans ?_⟩
      rw [show CodeLine.image [] = [] from rfl, List.length_nil, Nat.add_zero,
        UInt16.ofNat_toNat]
    · obtain ⟨hrun, hvisits, hlines, hlast⟩ := ih (h.next (Nat.lt_of_not_le hover))
      rw [if_neg hover, List.range_succ_eq_map]
      refine ⟨hrun, ?_, ?_, ?_⟩
      · rw [List.map_cons, List.map_map]
        exact congrArg (c :: ·) hvisits
      · rw [List.map_cons, List.map_cons, hi]
        exact congrArg (some line.instruction :: ·) hlines
      · rw [CodeLine.length_image_cons, UInt16.ofNat_add, UInt16.ofNat_toNat, ← UInt16.add_assoc,
          ← hpc]
        exact hlast

/-! ## Loading -/

theorem load_ready [Bus.Lasting β] {lines : List CodeLine} {c : Computer β}
    (hl : (CodeLine.image lines).length ≤ 65536) (hpc : c.processor.pc = 0)
    (hb : Bus.attached c.bus = true)
    (hs : ∀ k < lines.length,
      ∀ a ∈ ((c.load (CodeLine.image lines)).2.after k).storeAddresses,
        c.memory.romBoundary ≤ a ∧ (CodeLine.image lines).length ≤ a.toNat) :
    Ready lines (c.load (CodeLine.image lines)).2 := by
  constructor
  · rw [processor_load, hpc, programEnd_load c hl]
    exact Nat.zero_add _
  · rw [programEnd_load c hl]
    exact hl
  · intro k byte hk
    have hkl := (List.getElem?_eq_some_iff.mp hk).1
    have hn : (UInt16.ofNat k).toNat = k := by
      rw [UInt16.toNat_ofNat']
      omega
    rw [processor_load, hpc, UInt16.zero_add, read_load c hl, hn, hk]
    rfl
  · rw [bus_load]
    exact hb
  · rw [romBoundary_load, programEnd_load c hl]
    exact hs

/-- A monitor on the bus does not get in the way. -/
theorem Ready.monitored {lines : List CodeLine} {c : Computer β} (h : Ready lines c) :
    Ready lines c.monitored := by
  constructor
  · exact h.fits
  · exact h.programEnd_le
  · exact h.bytes
  · exact h.attached
  · intro k hk a ha
    rw [(c.alike_monitored.after Monitored.indistinct k).storeAddresses] at ha
    exact h.stores k hk a ha

/-- **A straight-line program runs exactly as written.** Loaded where the program counter
is, it comes to the end of the image after each of its instructions has been executed once
and in order, as long as no store on the way is refused or falls on the image. What is left
then is what the lines do one after the other, and the same goes for the accesses to the
bus. -/
theorem run_straight_line [Bus.Lasting β] (lines : List CodeLine) (c : Computer β)
    (hl : (CodeLine.image lines).length ≤ 65536) (hpc : c.processor.pc = 0)
    (hb : Bus.attached c.bus = true)
    (hs : ∀ k < lines.length,
      ∀ a ∈ ((c.load (CodeLine.image lines)).2.after k).storeAddresses,
        c.memory.romBoundary ≤ a ∧ (CodeLine.image lines).length ≤ a.toNat) :
    let loaded := (c.load (CodeLine.image lines)).2
    (c.load (CodeLine.image lines)).1 = .ok () ∧
      loaded.run (lines.length + 1) = some (.pastEnd, CodeLine.performAll lines loaded) ∧
      loaded.visits (lines.length + 1) =
        (List.range lines.length).map (fun k => CodeLine.performAll (lines.take k) loaded) ∧
      (loaded.visits (lines.length + 1)).map instruction? =
        lines.map (fun line => some line.instruction) ∧
      (CodeLine.performAll lines loaded).processor.pc =
        UInt16.ofNat (CodeLine.image lines).length ∧
      loaded.monitored.run (lines.length + 1) =
        some (.pastEnd, CodeLine.performAll lines loaded.monitored) := by
  intro loaded
  have hready : Ready lines loaded := load_ready hl hpc hb hs
  have hzero : loaded.processor.pc = 0 := by
    rw [← hpc, ← processor_load (CodeLine.image lines) c]
  obtain ⟨memory, -, -, hload⟩ := c.load_accepted hl
  obtain ⟨hrun, hvisits, hlines, hlast⟩ := hready.run
  rw [hzero, UInt16.zero_add] at hlast
  exact ⟨congrArg Prod.fst hload, hrun, hvisits, hlines, hlast, hready.monitored.run.1⟩

/-! ## A short program -/

/-- `MVI A` and `STA`, with the byte 0x42 and the address 0x2400. -/
def patching : List CodeLine :=
  [⟨.mvi .a, [0x42], ⟨0x3E, by decide⟩, rfl, rfl⟩,
    ⟨.sta, [0x00, 0x24], ⟨0x32, by decide⟩, rfl, rfl⟩]

theorem image_patching : CodeLine.image patching = [0x3E, 0x42, 0x32, 0x00, 0x24] := by decide

/-- Wherever it is loaded, the program stores to the address in its last line only. -/
theorem eq_of_mem_storeAddresses_patching {k : Nat} {a : UInt16}
    (hm : ∀ address, c.memory.read address =
      ((CodeLine.image patching)[address.toNat]?).getD 0)
    (hpc : c.processor.pc = 0) (hk : k < patching.length)
    (ha : a ∈ (c.after k).storeAddresses) : a = 0x2400 := by
  rw [image_patching] at hm
  have hi : c.instruction? = some (.mvi .a) := by
    rw [instruction?_eq_some_iff _ (by decide), opcode, hpc, hm]
    rfl
  have hn : c.storeAddresses = [] := storeAddresses_of_instruction? hi
  have hk' : k = 0 ∨ k = 1 := Nat.le_one_iff_eq_zero_or_eq_one.mp (Nat.le_of_lt_succ hk)
  rcases hk' with rfl | rfl
  · have h0 : c.after 0 = c := rfl
    rw [h0, hn] at ha
    cases ha
  · have hok : c.execute.1 = .ok 7 := by
      apply execute_accepted hi (by decide) (by decide)
      rw [hn]
      rfl
    rcases he : c.execute with ⟨r, d⟩
    rw [he] at hok
    subst hok
    obtain ⟨completion, hs, -⟩ := step_of_execute he
    obtain ⟨-, hf⟩ := step_footprint hi hs
    have hmd (address : UInt16) : d.memory.read address =
        ([0x3E, 0x42, 0x32, 0x00, 0x24][address.toNat]?).getD 0 := by
      rw [hf.memory address List.not_mem_nil, hm]
    have hpcd : d.processor.pc = 2 := by
      rw [hf.programCounter rfl, hpc]
      rfl
    have hid : d.instruction? = some .sta := by
      rw [instruction?_eq_some_iff _ (by decide), opcode, hpcd, hmd]
      rfl
    have hd : c.after 1 = d := by
      rw [after_succ, he]
      rfl
    rw [hd, storeAddresses_of_instruction? hid, Instruction.storeAddresses,
      Processor.immediateWord, View.word, hpcd, hmd, hmd, List.mem_singleton] at ha
    exact ha.trans (by decide)

/-- A computer with the ports of the board and empty memory. -/
def fresh : Computer Ports := { memory := Memory.blank 0x2000, bus := Ports.idle {} }

/-- The program ends after its two instructions, with its store in RAM. -/
theorem patching_ends_at_five :
    let loaded := (fresh.load (CodeLine.image patching)).2
    ∃ d, loaded.run 3 = some (.pastEnd, d) ∧ d.processor.pc = 5 := by
  intro loaded
  have hl : (CodeLine.image patching).length ≤ 65536 := by decide
  have hm (address : UInt16) : loaded.memory.read address =
      ((CodeLine.image patching)[address.toNat]?).getD 0 := by
    rw [read_load fresh hl]
    exact congrArg (Option.getD _) (Memory.read_blank 0x2000 address)
  have hpc : loaded.processor.pc = 0 := congrArg Processor.pc (fresh.processor_load _)
  obtain ⟨-, hrun, -, -, hend, -⟩ := run_straight_line patching fresh hl rfl rfl (by
    intro k hk a ha
    rw [eq_of_mem_storeAddresses_patching hm hpc hk ha]
    exact ⟨show (0x2000 : UInt16) ≤ 0x2400 by decide, by decide⟩)
  exact ⟨_, hrun, hend⟩

end Computer

end Arcade8080
