import Arcade8080.Memory

/-!
# Stores under the boundary

Stores are made in order up to the first one below the boundary. Whatever the
list, the boundary stays, and so does every byte below it. When a list of one or
two neighbouring bytes is refused, a byte has been stored before that in two
places only: just above the boundary, going down, and at the top of memory,
going up.
-/

namespace Arcade8080.Memory

theorem read_congr {m n : Memory} (h : m.bytes = n.bytes) : m.read = n.read := by
  funext address
  simp only [read, h]

theorem storeAll_cons_refused {m : Memory} {s : Store} (rest : List Store)
    (h : s.address < m.romBoundary) : m.storeAll (s :: rest) = (m, some s.address) :=
  if_pos h

theorem storeAll_cons_accepted {m : Memory} {s : Store} (rest : List Store)
    (h : ¬ s.address < m.romBoundary) : m.storeAll (s :: rest) = (m.put s).storeAll rest :=
  if_neg h

/-- The ROM of `n` is that of `m`: the boundary and each byte below it. -/
structure SameRom (m n : Memory) : Prop where
  boundary : n.romBoundary = m.romBoundary
  byte : ∀ address, address < m.romBoundary → n.read address = m.read address

theorem SameRom.refl (m : Memory) : SameRom m m := ⟨rfl, fun _ _ => rfl⟩

theorem SameRom.trans {m n k : Memory} (h : SameRom m n) (h' : SameRom n k) : SameRom m k := by
  constructor
  · exact h'.boundary.trans h.boundary
  · intro address ha
    have hn : address < n.romBoundary := by rw [h.boundary]; exact ha
    exact (h'.byte address hn).trans (h.byte address ha)

theorem sameRom_put {m : Memory} {s : Store} (h : ¬ s.address < m.romBoundary) :
    SameRom m (m.put s) := by
  constructor
  · exact romBoundary_put m s
  · intro address ha
    have hne : s.address ≠ address := by
      intro he
      exact h (he ▸ ha)
    rw [read_put, if_neg hne]

theorem sameRom_storeAll (m : Memory) (stores : List Store) :
    SameRom m (m.storeAll stores).1 := by
  induction stores generalizing m with
  | nil => exact SameRom.refl m
  | cons s rest ih =>
    by_cases h : s.address < m.romBoundary
    · rw [storeAll_cons_refused rest h]
      exact SameRom.refl m
    · rw [storeAll_cons_accepted rest h]
      exact (sameRom_put h).trans (ih (m.put s))

theorem read_storeAll_of_not_mem (m : Memory) {stores : List Store} {address : UInt16}
    (h : address ∉ stores.map Store.address) :
    (m.storeAll stores).1.read address = m.read address := by
  induction stores generalizing m with
  | nil => rfl
  | cons s rest ih =>
    rw [List.map_cons, List.mem_cons, not_or] at h
    by_cases hs : s.address < m.romBoundary
    · rw [storeAll_cons_refused rest hs]
    · rw [storeAll_cons_accepted rest hs, ih _ h.2, read_put, if_neg (Ne.symm h.1)]

theorem programEnd_storeAll (m : Memory) (stores : List Store) :
    (m.storeAll stores).1.programEnd = m.programEnd := by
  induction stores generalizing m with
  | nil => rfl
  | cons s rest ih =>
    by_cases hs : s.address < m.romBoundary
    · rw [storeAll_cons_refused rest hs]
    · rw [storeAll_cons_accepted rest hs, ih, programEnd_put]

/-- Stores that are all accepted have all been made. -/
theorem storeAll_accepted {m n : Memory} {stores : List Store}
    (h : m.storeAll stores = (n, none)) : n = stores.foldl put m := by
  induction stores generalizing m with
  | nil =>
    cases h
    rfl
  | cons s rest ih =>
    by_cases hs : s.address < m.romBoundary
    · rw [storeAll_cons_refused rest hs] at h
      cases h
    · rw [storeAll_cons_accepted rest hs] at h
      exact ih h

/-- Stores that stay out of the ROM are all made. -/
theorem storeAll_open {m : Memory} {stores : List Store}
    (h : ∀ s ∈ stores, ¬ s.address < m.romBoundary) :
    m.storeAll stores = (stores.foldl put m, none) := by
  induction stores generalizing m with
  | nil => rfl
  | cons s rest ih =>
    rw [storeAll_cons_accepted rest (h s List.mem_cons_self), List.foldl_cons]
    apply ih
    intro t ht
    rw [romBoundary_put]
    exact h t (List.mem_cons_of_mem s ht)

theorem read_foldl_put_of_not_mem (m : Memory) {stores : List Store} {address : UInt16}
    (h : address ∉ stores.map Store.address) :
    (stores.foldl put m).read address = m.read address := by
  induction stores generalizing m with
  | nil => rfl
  | cons s rest ih =>
    rw [List.map_cons, List.mem_cons, not_or] at h
    rw [List.foldl_cons, ih _ h.2, read_put, if_neg (Ne.symm h.1)]

/-- Stores to different addresses can all be read back. -/
theorem read_foldl_put_of_mem (m : Memory) {stores : List Store}
    (hn : (stores.map Store.address).Nodup) {s : Store} (h : s ∈ stores) :
    (stores.foldl put m).read s.address = s.value := by
  induction stores generalizing m with
  | nil => cases h
  | cons t rest ih =>
    rw [List.map_cons, List.nodup_cons] at hn
    rw [List.foldl_cons]
    rcases List.mem_cons.mp h with rfl | hr
    · rw [read_foldl_put_of_not_mem _ hn.1, read_put, if_pos rfl]
    · exact ih _ hn.2 hr

/-! ## Refused stores -/

/-- Of a list of stores, the first one below the boundary is refused. -/
theorem storeAll_refused (m : Memory) (stores : List Store) :
    (m.storeAll stores).2 = (stores.map Store.address).find? (· < m.romBoundary) := by
  induction stores generalizing m with
  | nil => rfl
  | cons s rest ih =>
    rw [List.map_cons, List.find?_cons]
    by_cases h : s.address < m.romBoundary
    · rw [storeAll_cons_refused rest h, decide_eq_true h]
    · rw [storeAll_cons_accepted rest h, decide_eq_false h, ih, romBoundary_put]

/-- Below the boundary, but not below its successor: only the last address is
followed by a smaller one. -/
theorem succ_lt_iff {a boundary : UInt16} (h : ¬ a < boundary) :
    a + 1 < boundary ↔ a = 0xFFFF ∧ 0 < boundary := by
  have ha := a.toNat_lt
  have hb := boundary.toNat_lt
  simp only [UInt16.lt_iff_toNat_lt, ← UInt16.toNat_inj, UInt16.toNat_add,
    UInt16.reduceToNat] at h ⊢
  omega

theorem pred_lt_iff {a boundary : UInt16} (h : ¬ a < boundary) :
    a - 1 < boundary ↔ a = boundary ∧ 0 < boundary := by
  have ha := a.toNat_lt
  have hb := boundary.toNat_lt
  simp only [UInt16.lt_iff_toNat_lt, ← UInt16.toNat_inj, UInt16.toNat_sub,
    UInt16.reduceToNat] at h ⊢
  omega

theorem storeAll_short_refused {m n : Memory} {stores : List Store} {address : UInt16}
    (hl : stores.length ≤ 1) (h : m.storeAll stores = (n, some address)) : n = m := by
  cases stores with
  | nil => cases h
  | cons s rest =>
    have hr : rest = [] := by simpa using hl
    subst rest
    by_cases hs : s.address < m.romBoundary
    · rw [storeAll_cons_refused [] hs] at h
      exact (Prod.mk.inj h).1.symm
    · rw [storeAll_cons_accepted [] hs] at h
      cases h

/-- Of two stores that are refused, the first has been made if it was not refused itself. -/
theorem storeAll_pair_refused {m n : Memory} {s t : Store} {address : UInt16}
    (h : m.storeAll [s, t] = (n, some address)) :
    (s.address < m.romBoundary ∧ n = m) ∨
      (¬ s.address < m.romBoundary ∧ t.address < m.romBoundary ∧ n = m.put s) := by
  by_cases hs : s.address < m.romBoundary
  · rw [storeAll_cons_refused [t] hs] at h
    exact Or.inl ⟨hs, (Prod.mk.inj h).1.symm⟩
  · rw [storeAll_cons_accepted [t] hs] at h
    by_cases ht : t.address < (m.put s).romBoundary
    · rw [storeAll_cons_refused [] ht] at h
      exact Or.inr ⟨hs, ht, (Prod.mk.inj h).1.symm⟩
    · rw [storeAll_cons_accepted [] ht] at h
      cases h

/-- A refused word that is stored downwards, as on the stack. -/
theorem storeAll_down_refused {m n : Memory} {a address : UInt16} {v w : UInt8}
    (h : m.storeAll [⟨a, v⟩, ⟨a - 1, w⟩] = (n, some address)) :
    n = if a = m.romBoundary ∧ 0 < m.romBoundary then m.put ⟨a, v⟩ else m := by
  rcases storeAll_pair_refused h with ⟨hs, hn⟩ | ⟨hs, ht, hn⟩
  · have hne : ¬ (a = m.romBoundary ∧ 0 < m.romBoundary) := by
      rintro ⟨rfl, -⟩
      exact UInt16.lt_irrefl _ hs
    rw [if_neg hne, hn]
  · rw [if_pos ((pred_lt_iff hs).mp ht), hn]

/-- A refused word that is stored upwards. -/
theorem storeAll_up_refused {m n : Memory} {a address : UInt16} {v w : UInt8}
    (h : m.storeAll [⟨a, v⟩, ⟨a + 1, w⟩] = (n, some address)) :
    n = if a = 0xFFFF ∧ 0 < m.romBoundary then m.put ⟨a, v⟩ else m := by
  rcases storeAll_pair_refused h with ⟨hs, hn⟩ | ⟨hs, ht, hn⟩
  · have hne : ¬ (a = 0xFFFF ∧ 0 < m.romBoundary) := by
      rintro ⟨rfl, -⟩
      have hb := m.romBoundary.toNat_lt
      simp only [UInt16.lt_iff_toNat_lt, UInt16.reduceToNat] at hs
      omega
    rw [if_neg hne, hn]
  · rw [if_pos ((succ_lt_iff hs).mp ht), hn]

/-! ## Memory without ROM -/

/-- The same bytes, all of them open to stores. -/
def unprotected (m : Memory) : Memory := { m with romBoundary := 0 }

theorem storeAll_unprotected_cons (m : Memory) (s : Store) (rest : List Store) :
    m.unprotected.storeAll (s :: rest) = (m.put s).unprotected.storeAll rest :=
  storeAll_cons_accepted rest UInt16.not_lt_zero

/-- A byte stored first stays what it is if the second store goes elsewhere. -/
theorem storeAll_unprotected_pair (m : Memory) {s t : Store} (h : t.address ≠ s.address) :
    ∃ n, m.unprotected.storeAll [s, t] = (n, none) ∧ n.read s.address = s.value := by
  refine ⟨((m.put s).put t).unprotected, ?_, ?_⟩
  · rw [storeAll_unprotected_cons, storeAll_unprotected_cons]
    rfl
  · show ((m.put s).put t).read s.address = s.value
    rw [read_put, if_neg h, read_put, if_pos rfl]

end Arcade8080.Memory
