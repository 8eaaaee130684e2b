import Arcade8080.Proofs.Operation
import Mathlib.Algebra.Group.Nat.Defs

/-!
# What stands in the window of the shifter

The shifter keeps two bytes and an offset. They are the last two bytes written to port 4 and what
was written last to port 2, as far as anything was written there since the ports were reset or
restored; before that, what these put in. Port 3 is read through the window, and no other use of
the ports has to do with it.
-/

namespace Arcade8080

/-- The bytes of a shifter in a save file. -/
structure ShifterBytes where
  x : UInt8 := 0
  y : UInt8 := 0
  offset : UInt8 := 0

namespace Ports

/-- The bytes that an operation puts into the shifter all at once. -/
def Operation.sets? : Operation → Option ShifterBytes
  | .reset => some {}
  | .restore x y offset _ _ => some ⟨x, y, offset⟩
  | _ => none

def Operation.written? (port : UInt8) : Operation → Option UInt8
  | .write other value => if other = port then some value else none
  | _ => none

/-- The bytes that were put in all at once last. -/
def lastSet (os : List Operation) : ShifterBytes :=
  (os.reverse.findSome? Operation.sets?).getD {}

/-- What a port was given, the newest byte first: what was written there since bytes were put in
all at once, and then those of them that are meant for it. -/
def given (port : UInt8) (meant : ShifterBytes → List UInt8) (os : List Operation) : List UInt8 :=
  (os.reverse.takeWhile fun o => o.sets?.isNone).filterMap (Operation.written? port) ++
    meant (lastSet os)

/-- The bytes pushed through the shifter, the newest one first. -/
def pushed (os : List Operation) : List UInt8 := given 4 (fun s => [s.x, s.y]) os

/-- The bytes given for the offset, the newest one first. -/
def offsets (os : List Operation) : List UInt8 := given 2 (fun s => [s.offset]) os

/-- The shifter keeps of these bytes what it needs. -/
structure Keeps (p : Ports) (os : List Operation) : Prop where
  window : ∃ older, pushed os = p.shifter.x :: p.shifter.y :: older
  offset : ∃ value older, offsets os = value :: older ∧ p.shifter.offset = threeBits value.toNat

section Given

variable {o : Operation} {port : UInt8} {meant : ShifterBytes → List UInt8} {os : List Operation}

theorem given_append_of_sets {s : ShifterBytes} (h : o.sets? = some s) :
    given port meant (os ++ [o]) = meant s := by
  simp [given, lastSet, h]

theorem given_append (h : o.sets? = none) :
    given port meant (os ++ [o]) = (o.written? port).toList ++ given port meant os := by
  have hlast : lastSet (os ++ [o]) = lastSet os := by simp [lastSet, h]
  rw [given, given, hlast, List.reverse_append, List.reverse_singleton, List.singleton_append,
    List.takeWhile_cons_of_pos (by rw [h]; rfl), List.filterMap_cons]
  cases o.written? port <;> rfl

end Given

/-! ## One operation -/

variable {p q : Ports} {os : List Operation}

theorem shifter_press (p : Ports) (control : Control) (on : Bool) :
    (p.press control on).shifter = p.shifter := by
  unfold press
  split <;> rfl

/-- Ports 2 and 4 are those of the shifter. -/
theorem shifter_write (p : Ports) {port : UInt8} (value : UInt8) (h2 : port ≠ 2) (h4 : port ≠ 4) :
    (p.write port value).shifter = p.shifter := by
  unfold write
  split
  next h => exact absurd (UInt8.toNat_inj.mp h) h2
  · rfl
  next h => exact absurd (UInt8.toNat_inj.mp h) h4
  · rfl
  · rfl

theorem Keeps.set {o : Operation} {s : ShifterBytes} (h : o.sets? = some s)
    (hq : q.shifter = Shifter.ofBytes s.x s.y s.offset) : q.Keeps (os ++ [o]) := by
  refine ⟨⟨[], ?_⟩, s.offset, [], ?_, ?_⟩
  · rw [pushed, given_append_of_sets h, hq]
    rfl
  · exact given_append_of_sets h
  · rw [hq]
    rfl

/-- An operation that has not to do with the shifter. -/
theorem Keeps.silent (hp : p.Keeps os) {o : Operation} (h : o.sets? = none)
    (h4 : o.written? 4 = none) (h2 : o.written? 2 = none) (hq : q.shifter = p.shifter) :
    q.Keeps (os ++ [o]) := by
  obtain ⟨hwindow, hoffset⟩ := hp
  constructor
  · rw [pushed, given_append h, h4, hq]
    exact hwindow
  · rw [offsets, given_append h, h2, hq]
    exact hoffset

theorem Keeps.write (hp : p.Keeps os) (port value : UInt8) :
    (p.write port value).Keeps (os ++ [.write port value]) := by
  obtain ⟨⟨older, hwindow⟩, hoffset⟩ := hp
  by_cases h2 : port = 2
  · subst h2
    refine ⟨⟨older, ?_⟩, value, offsets os, given_append rfl, rfl⟩
    rw [pushed, given_append rfl]
    exact hwindow
  by_cases h4 : port = 4
  · subst h4
    refine ⟨⟨p.shifter.y :: older, ?_⟩, ?_⟩
    · rw [pushed, given_append rfl]
      exact congrArg (value :: ·) hwindow
    · rw [offsets, given_append rfl]
      exact hoffset
  · exact Keeps.silent ⟨⟨older, hwindow⟩, hoffset⟩ rfl (if_neg h4) (if_neg h2)
      (p.shifter_write value h2 h4)

theorem Keeps.next (hp : p.Keeps os) {o : Operation} (h : o.Leads p q) : q.Keeps (os ++ [o]) := by
  cases o with
  | press control on =>
    cases h
    exact hp.silent rfl rfl rfl (p.shifter_press control on)
  | read port =>
    cases h
    exact hp.silent rfl rfl rfl rfl
  | write port value =>
    cases h
    exact hp.write port value
  | reset =>
    cases h
    exact .set rfl rfl
  | restore x y offset in1 in2 =>
    cases h
    exact .set rfl rfl

/-- So the bytes tell what the shifter holds after any history. -/
theorem keeps_of_history {dip : DipSwitches} (h : History Operation.Leads os (idle dip) p) :
    p.Keeps os := by
  have hidle : (idle dip).Keeps [] := ⟨⟨[], rfl⟩, 0, [], rfl, rfl⟩
  have htells := h.tells (P := fun past p => p.Keeps past) []
    (fun past o _ p q hl hp => hp.next hl) hidle
  exact htells

end Ports

/-! ## The window -/

/-- A window of `a + b` bits over two numbers of that many bits, `a` bits down: the lower `a` bits
of the upper number are on the left, the upper `b` bits of the lower one on the right. -/
theorem window_eq {a b y : Nat} (x : Nat) (h : y < 2 ^ (a + b)) :
    (2 ^ (a + b) * x + y) / 2 ^ a % 2 ^ (a + b) = x % 2 ^ a * 2 ^ b + y / 2 ^ a := by
  have hb : 0 < 2 ^ b := Nat.two_pow_pos b
  have hy : y / 2 ^ a < 2 ^ b := by
    rw [Nat.div_lt_iff_lt_mul (Nat.two_pow_pos a), Nat.mul_comm, ← Nat.pow_add]
    exact h
  have hdiv : (2 ^ (a + b) * x + y) / 2 ^ a = 2 ^ b * x + y / 2 ^ a := by
    rw [Nat.pow_add, Nat.mul_assoc, Nat.mul_add_div (Nat.two_pow_pos a)]
  rw [hdiv, Nat.pow_add, Nat.mul_comm (2 ^ a), Nat.mod_mul, Nat.mul_add_mod, Nat.mod_eq_of_lt hy,
    Nat.mul_add_div hb, Nat.div_eq_of_lt hy, Nat.add_zero, Nat.add_comm, Nat.mul_comm]

theorem Shifter.toNat_result (s : Shifter) :
    s.result.toNat = (256 * s.x.toNat + s.y.toNat) / 2 ^ (8 - s.offset.val) % 256 := by
  rw [result, UInt8.toNat_ofNat', Nat.shiftRight_eq_div_pow]

/-- **The shifter follows what was written to ports 2 and 4.** After any use of new ports, restoring
them included, the last two bytes of those pushed and the lower three bits of the last offset are
what the shifter holds. Port 3 reads as the two bytes moved to the right by as many places as the
offset leaves of eight; that is the lower bits of the newer byte, followed by as many upper bits of
the older one as the offset says. Nothing else that is done with the ports touches the shifter. -/
theorem shifter_follows_writes {dip : DipSwitches} {os : List Ports.Operation} {p : Ports}
    (h : History Ports.Operation.Leads os (Ports.idle dip) p) :
    (∃ x y older value earlier, Ports.pushed os = x :: y :: older ∧
      Ports.offsets os = value :: earlier ∧
      let offset := value.toNat % 8
      p.shifter.x = x ∧ p.shifter.y = y ∧ p.shifter.offset.val = offset ∧ offset < 8 ∧
      (Bus.input p 3).1.toNat = (256 * x.toNat + y.toNat) / 2 ^ (8 - offset) % 256 ∧
      (Bus.input p 3).1.toNat =
        x.toNat % 2 ^ (8 - offset) * 2 ^ offset + y.toNat / 2 ^ (8 - offset)) ∧
    (∀ port, (Bus.input p port).2 = p) ∧
    (∀ control on, (p.press control on).shifter = p.shifter) ∧
    ∀ port value, port ≠ 2 → port ≠ 4 → (Bus.output p port value).shifter = p.shifter := by
  refine ⟨?_, fun port => rfl, p.shifter_press, fun port value h2 h4 => p.shifter_write value h2 h4⟩
  obtain ⟨⟨older, hwindow⟩, value, earlier, hoffsets, hoffset⟩ := Ports.keeps_of_history h
  have hval : p.shifter.offset.val = value.toNat % 8 := by rw [hoffset]; rfl
  have hlt : value.toNat % 8 < 8 := Nat.mod_lt _ (by decide)
  have hread : (Bus.input p 3).1.toNat = (256 * p.shifter.x.toNat + p.shifter.y.toNat) /
      2 ^ (8 - value.toNat % 8) % 256 := by
    rw [← hval]
    exact p.shifter.toNat_result
  refine ⟨_, _, older, value, earlier, hwindow, hoffsets, rfl, rfl, hval, hlt, hread, ?_⟩
  have hplaces : 8 - value.toNat % 8 + value.toNat % 8 = 8 := Nat.sub_add_cancel (Nat.le_of_lt hlt)
  have hy : p.shifter.y.toNat < 2 ^ (8 - value.toNat % 8 + value.toNat % 8) := by
    rw [hplaces]
    exact p.shifter.y.toNat_lt
  have heq := window_eq p.shifter.x.toNat hy
  rw [hplaces] at heq
  exact hread.trans heq

/-- A byte is pushed over a restored one, and the offset is then set to 15. -/
theorem restored_byte_in_window :
    ∃ p, History Ports.Operation.Leads
        [.write 4 0x55, .restore 0x12 0x34 0xFB 0 0, .write 4 0xFF, .press .coin true, .write 5 0x99,
          .write 2 0x0F, .read 3] (Ports.idle {}) p ∧
      p.shifter.x = 0xFF ∧ p.shifter.y = 0x12 ∧ p.shifter.offset.val = 7 ∧
      (Bus.input p 3).1.toNat = 0x89 := by
  obtain ⟨p, hp⟩ : ∃ p, History Ports.Operation.Leads
      [.write 4 0x55, .restore 0x12 0x34 0xFB 0 0, .write 4 0xFF, .press .coin true, .write 5 0x99,
        .write 2 0x0F, .read 3] (Ports.idle {}) p :=
    ⟨_, .cons rfl (.cons rfl (.cons rfl (.cons rfl (.cons rfl (.cons rfl (.cons rfl (.nil _)))))))⟩
  obtain ⟨⟨x, y, older, value, earlier, hpushed, hoffsets, hx, hy, hoffset, -, hread, -⟩, -⟩ :=
    shifter_follows_writes hp
  have hbytes : Ports.pushed [.write 4 0x55, .restore 0x12 0x34 0xFB 0 0, .write 4 0xFF,
      .press .coin true, .write 5 0x99, .write 2 0x0F, .read 3] = [0xFF, 0x12, 0x34] := by decide
  have hvalues : Ports.offsets [.write 4 0x55, .restore 0x12 0x34 0xFB 0 0, .write 4 0xFF,
      .press .coin true, .write 5 0x99, .write 2 0x0F, .read 3] = [0x0F, 0xFB] := by decide
  cases hpushed.symm.trans hbytes
  cases hoffsets.symm.trans hvalues
  exact ⟨p, hp, hx, hy, hoffset, hread⟩

end Arcade8080
