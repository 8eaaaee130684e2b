import Arcade8080.Proofs.Saved.RoundTrip

/-!
# Which bytes are save files

Any bytes that are enough for a save file are one, and shorter ones are refused with both
lengths. Not all of what is read is kept: three bits of the flags are fixed, the latch is
one bit, and the offset of the shifter has three. Encoding what was decoded therefore gives
the canonical form of the bytes, in which these are set to what they stand for, and nothing
else is different.
-/

namespace Arcade8080

theorem modify_append_right {before : List UInt8} {n : Nat} (h : before.length = n)
    (after : List UInt8) (k : Nat) (f : UInt8 → UInt8) :
    (before ++ after).modify (n + k) f = before ++ after.modify k f := by
  subst h
  rw [List.modify_eq_take_drop, List.take_length_add_append, List.drop_length_add_append,
    List.append_assoc, ← List.modify_eq_take_drop]

theorem modify_append_left {before : List UInt8} (after : List UInt8) {k : Nat}
    (h : k < before.length) (f : UInt8 → UInt8) :
    (before ++ after).modify k f = before.modify k f ++ after := by
  induction before generalizing k with
  | nil => exact absurd h (Nat.not_lt_zero k)
  | cons first rest ih =>
    cases k with
    | zero => rfl
    | succ k => exact congrArg (first :: ·) (ih (Nat.lt_of_succ_lt_succ h))

/-! ## Canonical bytes -/

/-- A flag byte with its fixed bits as the processor pushes them. -/
def settleFlags (byte : UInt8) : UInt8 := (byte &&& 0xd5) ||| 0x02

/-- One for a latch that is set, zero for one that is clear. -/
def settleLatch (byte : UInt8) : UInt8 := if byte = 0 then 0 else 1

/-- The bytes with the flags and the latch of a saved computer settled. -/
def SavedComputer.canonical (data : List UInt8) : List UInt8 :=
  (data.modify 65543 settleFlags).modify 65548 settleLatch

/-- The bytes with the offset of a saved shifter settled as well. -/
def SavedBoard.canonical (data : List UInt8) : List UInt8 :=
  (SavedComputer.canonical data).modify 65551 (· % 8)

theorem pack_unpack (byte : UInt8) : (Flags.unpack byte).pack = settleFlags byte := by
  revert byte
  exact forall_byte (by decide +kernel)

theorem ofNat_ne_zero (byte : UInt8) : UInt8.ofNat (byte != 0).toNat = settleLatch byte := by
  unfold settleLatch
  by_cases h : byte = 0
  · rw [h]
    rfl
  · rw [if_neg h, bne_iff_ne.mpr h]
    rfl

theorem ofNat_threeBits (byte : UInt8) :
    UInt8.ofNat (threeBits byte.toNat).val = byte % 8 := by
  apply UInt8.toNat_inj.mp
  have h := byte.toNat_lt
  show (UInt8.ofNat (byte.toNat % 8)).toNat = (byte % 8).toNat
  rw [UInt8.toNat_ofNat', UInt8.toNat_mod]
  show byte.toNat % 8 % 256 = byte.toNat % 8
  omega

/-! ## Computers -/

namespace SavedComputer

theorem length_canonical (data : List UInt8) : (canonical data).length = data.length := by
  rw [canonical, List.length_modify, List.length_modify]

/-- What lies behind the bytes of a computer is left alone. -/
theorem canonical_append {before : List UInt8} (h : before.length = 65549)
    (after : List UInt8) : canonical (before ++ after) = canonical before ++ after := by
  have hl : (before.modify 65543 settleFlags).length = 65549 := by
    rw [List.length_modify, h]
  rw [canonical, modify_append_left after (by omega), modify_append_left after (by omega)]
  rfl

theorem decodeProcessor?_short {tail : List UInt8} (h : tail.length < 13) :
    decodeProcessor? tail = none := by
  unfold decodeProcessor?
  split
  · simp only [List.length_cons] at h
    omega
  · rfl

/-- Any thirteen bytes are a processor. -/
theorem decodeProcessor?_long {tail : List UInt8} (h : 13 ≤ tail.length) :
    ∃ p, decodeProcessor? tail = some (p, tail.drop 13) ∧
      encodeProcessor p = ((tail.take 13).modify 7 settleFlags).modify 12 settleLatch := by
  rcases tail with _ | ⟨a, _ | ⟨b, _ | ⟨c, _ | ⟨d, _ | ⟨e, _ | ⟨h', _ | ⟨l, _ | ⟨flags, _ | ⟨pcLow,
    _ | ⟨pcHigh, _ | ⟨spLow, _ | ⟨spHigh, _ | ⟨latch, rest⟩⟩⟩⟩⟩⟩⟩⟩⟩⟩⟩⟩⟩
  case cons.cons.cons.cons.cons.cons.cons.cons.cons.cons.cons.cons.cons =>
    refine ⟨_, rfl, ?_⟩
    show [a, b, c, d, e, h', l, (Flags.unpack flags).pack, lowByte (wordOf pcHigh pcLow),
        highByte (wordOf pcHigh pcLow), lowByte (wordOf spHigh spLow),
        highByte (wordOf spHigh spLow), UInt8.ofNat (latch != 0).toNat] =
      [a, b, c, d, e, h', l, settleFlags flags, pcLow, pcHigh, spLow, spHigh, settleLatch latch]
    rw [pack_unpack, ofNat_ne_zero, lowByte_wordOf, highByte_wordOf, lowByte_wordOf,
      highByte_wordOf]
  all_goals
    simp only [List.length_cons, List.length_nil] at h
    omega

/-- Bytes that are enough for a memory begin with one. -/
theorem exists_memory {data : List UInt8} (h : 65536 ≤ data.length) :
    ∃ (bytes : Vector UInt8 65536) (tail : List UInt8), data = bytes.toList ++ tail := by
  have hs : (data.take 65536).toArray.size = 65536 := by
    rw [List.size_toArray, List.length_take]
    omega
  exact ⟨⟨(data.take 65536).toArray, hs⟩, data.drop 65536, (List.take_append_drop 65536 data).symm⟩

theorem decode_short {data : List UInt8} (h : data.length < 65549) :
    decode data = .error ⟨65549, data.length⟩ := by
  by_cases hm : 65536 ≤ data.length
  · obtain ⟨bytes, tail, rfl⟩ := exists_memory hm
    have ht : tail.length < 13 := by
      rw [List.length_append, Vector.length_toList] at h
      omega
    rw [decode_append, decodeProcessor?_short ht]
    rfl
  · rw [decode, dif_neg hm]
    rfl

theorem decode_long {data : List UInt8} (h : 65549 ≤ data.length) :
    ∃ s, decode data = .ok (s, data.drop 65549) ∧ s.encode = canonical (data.take 65549) := by
  obtain ⟨bytes, tail, rfl⟩ := exists_memory (Nat.le_trans (by decide) h)
  have hb : bytes.toList.length = 65536 := Vector.length_toList
  have ht : 13 ≤ tail.length := by
    rw [List.length_append, hb] at h
    omega
  obtain ⟨p, hp, he⟩ := decodeProcessor?_long ht
  have hdrop : (bytes.toList ++ tail).drop (65536 + 13) = tail.drop 13 := by
    rw [← List.drop_drop, List.drop_left' hb]
  have htake : (bytes.toList ++ tail).take (65536 + 13) = bytes.toList ++ tail.take 13 := by
    rw [List.take_add, List.take_left' hb, List.drop_left' hb]
  refine ⟨⟨bytes, p⟩, ?_, ?_⟩
  · rw [decode_append, hp]
    exact congrArg (fun rest => Except.ok (SavedComputer.mk bytes p, rest)) hdrop.symm
  · rw [htake, encode, he, canonical]
    have h7 : (bytes.toList ++ tail.take 13).modify 65543 settleFlags = _ :=
      modify_append_right hb (tail.take 13) 7 settleFlags
    rw [h7]
    exact (modify_append_right hb _ 12 settleLatch).symm

end SavedComputer

/-! ## Boards -/

namespace SavedBoard

theorem decode_short {data : List UInt8} (h : data.length < 65554) :
    decode data = .error ⟨65554, data.length⟩ := by
  by_cases hc : data.length < 65549
  · rw [decode, SavedComputer.decode_short hc]
    rfl
  · obtain ⟨s, hs, -⟩ := SavedComputer.decode_long (Nat.le_of_not_lt hc)
    have hr : (data.drop 65549).length < 5 := by
      rw [List.length_drop]
      omega
    rw [decode, hs]
    split
    next heq =>
      obtain ⟨-, hd⟩ := Prod.mk.inj (Except.ok.inj heq)
      rw [hd] at hr
      simp only [List.length_cons] at hr
      omega
    · rfl

theorem canonical_append {before : List UInt8} (h : before.length = 65549)
    (after : List UInt8) :
    canonical (before ++ after) = SavedComputer.canonical before ++ after.modify 2 (· % 8) := by
  rw [canonical, SavedComputer.canonical_append h]
  exact modify_append_right ((SavedComputer.length_canonical before).trans h) after 2 _

theorem decode_long {data : List UInt8} (h : 65554 ≤ data.length) :
    ∃ s, decode data = .ok s ∧ s.encode = canonical (data.take 65554) := by
  obtain ⟨s, hs, he⟩ := SavedComputer.decode_long (Nat.le_trans (by decide) h)
  have hl : (data.take 65549).length = 65549 := by
    rw [List.length_take]
    omega
  have hr : 5 ≤ (data.drop 65549).length := by
    rw [List.length_drop]
    omega
  have ht : data.take (65549 + 5) = data.take 65549 ++ (data.drop 65549).take 5 := List.take_add
  rw [decode, hs, ht, canonical_append hl, ← he]
  generalize data.drop 65549 = tail at hr
  rcases tail with _ | ⟨x, _ | ⟨y, _ | ⟨offset, _ | ⟨in1, _ | ⟨in2, rest⟩⟩⟩⟩⟩
  case cons.cons.cons.cons.cons =>
    refine ⟨_, rfl, ?_⟩
    show s.encode ++ [x, y, UInt8.ofNat (threeBits offset.toNat).val] ++ [in1, in2] =
      s.encode ++ [x, y, offset % 8, in1, in2]
    rw [ofNat_threeBits, List.append_assoc]
    rfl
  all_goals
    simp only [List.length_cons, List.length_nil] at hr
    omega

end SavedBoard

/-- Bytes are refused for being short only, if short ones are refused and others are not. -/
theorem refused_iff_short {α : Type} {decode : List UInt8 → Except Truncated α} {n : Nat}
    (short : ∀ data, data.length < n → decode data = .error ⟨n, data.length⟩)
    (long : ∀ data, n ≤ data.length → ∃ a, decode data = .ok a) (data : List UInt8)
    (t : Truncated) : decode data = .error t ↔ data.length < n ∧ t = ⟨n, data.length⟩ := by
  constructor
  · intro h
    by_cases hl : data.length < n
    · cases (short data hl).symm.trans h
      exact ⟨hl, rfl⟩
    · obtain ⟨a, ha⟩ := long data (Nat.le_of_not_lt hl)
      cases ha.symm.trans h
  · rintro ⟨hl, rfl⟩
    exact short data hl

/-- **Decoding accepts exactly what is long enough, and encodes back to its canonical
form.** Shorter bytes are refused with the size of what was to be read. From longer ones
the canonical form of the first bytes is encoded again, and decodes to the same. -/
theorem decode_canonical (data : List UInt8) :
    (∀ t, SavedComputer.decode data = .error t ↔
        data.length < 65549 ∧ t = ⟨65549, data.length⟩) ∧
      (65549 ≤ data.length → ∃ s, SavedComputer.decode data = .ok (s, data.drop 65549) ∧
        s.encode = SavedComputer.canonical (data.take 65549) ∧
        SavedComputer.decode s.encode = .ok (s, [])) ∧
      (∀ t, SavedBoard.decode data = .error t ↔
        data.length < 65554 ∧ t = ⟨65554, data.length⟩) ∧
      (65554 ≤ data.length → ∃ s, SavedBoard.decode data = .ok s ∧
        s.encode = SavedBoard.canonical (data.take 65554) ∧
        SavedBoard.decode s.encode = .ok s) := by
  refine ⟨?_, fun h => ?_, ?_, fun h => ?_⟩
  · apply refused_iff_short fun _ hl => SavedComputer.decode_short hl
    intro data hl
    obtain ⟨s, hs, -⟩ := SavedComputer.decode_long hl
    exact ⟨_, hs⟩
  · obtain ⟨s, hs, he⟩ := SavedComputer.decode_long h
    exact ⟨s, hs, he, s.decode_encode⟩
  · apply refused_iff_short fun _ hl => SavedBoard.decode_short hl
    intro data hl
    obtain ⟨s, hs, -⟩ := SavedBoard.decode_long hl
    exact ⟨s, hs⟩
  · obtain ⟨s, hs, he⟩ := SavedBoard.decode_long h
    exact ⟨s, hs, he, s.decode_encode⟩

/-- Bytes that are all ones are a save file of either kind. The flags, the latch and the
offset are written back as fewer ones. -/
theorem all_ones_decode :
    let data : List UInt8 := List.replicate 65554 0xff
    (65549 ≤ data.length ∧ ∃ c, SavedComputer.decode data = .ok (c, data.drop 65549) ∧
        c.encode[65543]? = some 0xd7 ∧ c.encode[65548]? = some 1 ∧
        c.encode[65547]? = some 0xff) ∧
      65554 ≤ data.length ∧ ∃ s, SavedBoard.decode data = .ok s ∧
        s.encode[65543]? = some 0xd7 ∧ s.encode[65548]? = some 1 ∧
        s.encode[65551]? = some 7 ∧ s.encode[65553]? = some 0xff := by
  intro data
  have hl : data.length = 65554 := List.length_replicate
  have hones : ∀ k, k < 65554 → data[k]? = some 0xff := fun k hk =>
    List.getElem?_replicate_of_lt hk
  have hc : 65549 ≤ data.length := by omega
  have hb : 65554 ≤ data.length := by omega
  obtain ⟨-, hcomputer, -, hboard⟩ := decode_canonical data
  obtain ⟨c, hdc, hec, -⟩ := hcomputer hc
  obtain ⟨s, hds, hes, -⟩ := hboard hb
  have hcread : ∀ k, k < 65549 → c.encode[k]? = some
      (if 65548 = k then 1 else if 65543 = k then 0xd7 else 0xff) := by
    intro k hk
    rw [hec, SavedComputer.canonical, List.getElem?_modify, List.getElem?_modify,
      List.getElem?_take_of_lt hk, hones k (by omega)]
    show some _ = some _
    split
    · split
      · omega
      · rfl
    · split <;> rfl
  have hsread : ∀ k, k < 65554 → s.encode[k]? = some
      (if 65551 = k then 7 else if 65548 = k then 1 else if 65543 = k then 0xd7 else 0xff) := by
    intro k hk
    rw [hes, SavedBoard.canonical, SavedComputer.canonical, List.getElem?_modify,
      List.getElem?_modify, List.getElem?_modify, List.getElem?_take_of_lt hk,
      hones k (by omega)]
    show some _ = some _
    split
    · split
      · omega
      · split
        · omega
        · rfl
    · split
      · split
        · omega
        · rfl
      · split <;> rfl
  exact ⟨⟨hc, c, hdc, hcread 65543 (by decide), hcread 65548 (by decide),
      hcread 65547 (by decide)⟩,
    hb, s, hds, hsread 65543 (by decide), hsread 65548 (by decide), hsread 65551 (by decide),
    hsread 65553 (by decide)⟩

end Arcade8080
