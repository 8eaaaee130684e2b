import Arcade8080.Proofs.Computer.Faults
import Arcade8080.Proofs.Computer.Stack
import Arcade8080.Proofs.Operation

/-!
# The stack in memory is a list

Pushing and popping in memory gives the same answers as pushing and popping on a list of
words, wherever the stack begins and however it wraps around, up to the depth at which it
takes up all of memory. The relation between the two is that the words of the list lie under
the starting address, two bytes each, and that the stack pointer is at the last of them.
Besides the stack pointer, nothing changes but the bytes that the deepest stack took up.
-/

namespace Arcade8080

/-- A use of the stack. -/
inductive StackCall
  | push (high low : UInt8)
  | pushWord (word : UInt16)
  | pop
  | popWord

/-- What comes back of it. -/
inductive StackAnswer
  | done
  | bytes (high low : UInt8)
  | word (value : UInt16)
deriving DecidableEq

namespace StackCall

/-! ## Lists -/

/-- The call on a list of words, the top one first. The empty list cannot be popped. -/
def onList : StackCall → List UInt16 → Option (StackAnswer × List UInt16)
  | .push high low, stack => some (.done, wordOf high low :: stack)
  | .pushWord word, stack => some (.done, word :: stack)
  | .pop, word :: stack => some (.bytes (highByte word) (lowByte word), stack)
  | .popWord, word :: stack => some (.word word, stack)
  | .pop, [] | .popWord, [] => none

/-- Calls one after the other on a list: their answers, and the list after them. -/
def allOnList : List StackCall → List UInt16 → Option (List StackAnswer × List UInt16)
  | [], stack => some ([], stack)
  | call :: rest, stack =>
    match call.onList stack with
    | some (answer, stack) =>
      (allOnList rest stack).map fun (answers, stack) => (answer :: answers, stack)
    | none => none

def depthAfter : StackCall → Nat → Nat
  | .push _ _, depth | .pushWord _, depth => depth + 1
  | .pop, depth | .popWord, depth => depth - 1

/-- The greatest depth that calls reach from a given one. -/
def deepest : List StackCall → Nat → Nat
  | [], depth => depth
  | call :: rest, depth => max depth (deepest rest (call.depthAfter depth))

theorem le_deepest (calls : List StackCall) (depth : Nat) : depth ≤ deepest calls depth := by
  cases calls with
  | nil => exact Nat.le_refl depth
  | cons call rest => exact Nat.le_max_left _ _

theorem length_onList {call : StackCall} {answer : StackAnswer} {stack stack' : List UInt16}
    (h : call.onList stack = some (answer, stack')) :
    stack'.length = call.depthAfter stack.length := by
  cases call with
  | push high low | pushWord word =>
    cases h
    rfl
  | pop | popWord =>
    cases stack with
    | nil => cases h
    | cons word rest =>
      cases h
      rfl

variable {β : Type}

/-- The call succeeds on the first computer, with this answer, and ends in the second. -/
def Answers : StackCall × StackAnswer → Computer β → Computer β → Prop
  | (.push high low, answer), c, d => c.push high low = (.ok (), d) ∧ answer = .done
  | (.pushWord word, answer), c, d => c.pushWord word = (.ok (), d) ∧ answer = .done
  | (.pop, answer), c, d => c.pop.2 = d ∧ answer = .bytes c.pop.1.1 c.pop.1.2
  | (.popWord, answer), c, d => c.popWord.2 = d ∧ answer = .word c.popWord.1

end StackCall

/-! ## The bytes under an address -/

/-- The `n` bytes under an address, from the top down. -/
def below (s : UInt16) (n : Nat) : List UInt16 :=
  (List.range n).map fun k => s - UInt16.ofNat (k + 1)

/-- The place of an address among the bytes under `s`, counted from zero. -/
theorem place_sub (s : UInt16) (k : Nat) :
    s - 1 - (s - UInt16.ofNat (k + 1)) = UInt16.ofNat k := by
  rw [UInt16.ofNat_add]
  grind

theorem mem_below {s a : UInt16} {n : Nat} : a ∈ below s n ↔ (s - 1 - a).toNat < n := by
  rw [below, List.mem_map]
  constructor
  · rintro ⟨k, hk, rfl⟩
    rw [place_sub, UInt16.toNat_ofNat']
    exact Nat.lt_of_le_of_lt (Nat.mod_le _ _) (List.mem_range.mp hk)
  · intro h
    refine ⟨(s - 1 - a).toNat, List.mem_range.mpr h, ?_⟩
    rw [UInt16.ofNat_add, UInt16.ofNat_toNat]
    grind

theorem sub_mem_below {s : UInt16} {k n : Nat} (h : k < n) :
    s - UInt16.ofNat (k + 1) ∈ below s n :=
  List.mem_map_of_mem (List.mem_range.mpr h)

/-- Up to the size of memory, the bytes under an address are all different. -/
theorem sub_not_mem_below {s : UInt16} {k n : Nat} (h : n ≤ k) (hk : k < 65536) :
    s - UInt16.ofNat (k + 1) ∉ below s n := by
  rw [mem_below, place_sub, UInt16.toNat_ofNat']
  omega

theorem mem_below_mono {s a : UInt16} {m n : Nat} (h : m ≤ n) (ha : a ∈ below s m) :
    a ∈ below s n :=
  mem_below.mpr (Nat.lt_of_lt_of_le (mem_below.mp ha) h)

/-- A stack pointer that has gone down by `n` bytes goes down by two more. -/
theorem sub_ofNat_two (s : UInt16) (n : Nat) :
    s - UInt16.ofNat n - 1 = s - UInt16.ofNat (n + 1) ∧
      s - UInt16.ofNat n - 2 = s - UInt16.ofNat (n + 1 + 1) := by
  have h1 : UInt16.ofNat (n + 1) = UInt16.ofNat n + 1 := UInt16.ofNat_add n 1
  have h2 : UInt16.ofNat (n + 1 + 1) = UInt16.ofNat (n + 1) + 1 := UInt16.ofNat_add (n + 1) 1
  rw [h2, h1]
  constructor <;> grind

/-! ## Lists in memory -/

/-- The words of a list, the top one first, lie under `s`, the last one highest. -/
def Stacked (view : View) (s : UInt16) : List UInt16 → Prop
  | [] => True
  | word :: rest =>
    view.word (s - UInt16.ofNat (2 * (rest.length + 1))) = word ∧ Stacked view s rest

theorem Stacked.congr {v w : View} {s : UInt16} {stack : List UInt16}
    (hs : Stacked v s stack) (h : ∀ a ∈ below s (2 * stack.length), w a = v a) :
    Stacked w s stack := by
  induction stack with
  | nil => trivial
  | cons word rest ih =>
    obtain ⟨hw, hr⟩ := hs
    have hle : 2 * rest.length ≤ 2 * (rest.length + 1) := by omega
    refine ⟨?_, ih hr fun a ha => h a (mem_below_mono hle ha)⟩
    have hlow := h _ (sub_mem_below (k := 2 * rest.length + 1) (by grind))
    have hhigh := h _ (sub_mem_below (k := 2 * rest.length) (by grind))
    have hup : s - UInt16.ofNat (2 * rest.length + 1 + 1) + 1 =
        s - UInt16.ofNat (2 * rest.length + 1) := by
      rw [UInt16.ofNat_add]
      grind
    rw [View.word] at hw ⊢
    replace hw : wordOf (v (s - UInt16.ofNat (2 * rest.length + 1 + 1) + 1))
      (v (s - UInt16.ofNat (2 * rest.length + 1 + 1))) = word := hw
    show wordOf (w (s - UInt16.ofNat (2 * rest.length + 1 + 1) + 1))
      (w (s - UInt16.ofNat (2 * rest.length + 1 + 1))) = word
    rw [hup] at hw ⊢
    rw [hlow, hhigh, hw]

namespace Computer

variable {β : Type} {s : UInt16} {stack : List UInt16} {c d : Computer β}

/-- The stack of `c`, begun at `s`, holds these words. -/
structure Holds (s : UInt16) (stack : List UInt16) (c : Computer β) : Prop where
  sp : c.processor.sp = s - UInt16.ofNat (2 * stack.length)
  words : Stacked c.memory.read s stack

/-- From `c` to `d` nothing has changed but the stack pointer and the `n` bytes under `s`. -/
structure Confined (s : UInt16) (n : Nat) (c d : Computer β) : Prop where
  processor : d.processor = { c.processor with sp := d.processor.sp }
  memory : ∀ a, a ∉ below s n → d.memory.read a = c.memory.read a
  romBoundary : d.memory.romBoundary = c.memory.romBoundary
  programEnd : d.memory.programEnd = c.memory.programEnd
  bus : d.bus = c.bus

theorem holds_nil (c : Computer β) : Holds c.processor.sp [] c :=
  ⟨(UInt16.sub_zero _).symm, trivial⟩

theorem Confined.refl (s : UInt16) (n : Nat) (c : Computer β) : Confined s n c c :=
  ⟨rfl, fun _ _ => rfl, rfl, rfl, rfl⟩

theorem Confined.mono {m n : Nat} (h : Confined s m c d) (hle : m ≤ n) : Confined s n c d :=
  ⟨h.processor, fun a ha => h.memory a fun hm => ha (mem_below_mono hle hm), h.romBoundary,
    h.programEnd, h.bus⟩

theorem Confined.trans {n : Nat} {e : Computer β} (h : Confined s n c d)
    (h' : Confined s n d e) : Confined s n c e where
  processor := by rw [h'.processor, h.processor]
  memory a ha := (h'.memory a ha).trans (h.memory a ha)
  romBoundary := h'.romBoundary.trans h.romBoundary
  programEnd := h'.programEnd.trans h.programEnd
  bus := h'.bus.trans h.bus

/-! ## One call -/

/-- The two bytes of a push are the next two under the stack. -/
theorem Holds.confined_push {high low : UInt8} (h : Holds s stack c) (hp : Pushed high low c d) :
    Confined s (2 * (stack.length + 1)) c d := by
  obtain ⟨hu, hl⟩ := sub_ofNat_two s (2 * stack.length)
  rw [← h.sp] at hu hl
  refine ⟨?_, fun a ha => ?_, hp.romBoundary, hp.programEnd, hp.bus⟩
  · rw [hp.processor]
  · apply hp.elsewhere a
    · rintro rfl
      rw [hu] at ha
      exact ha (sub_mem_below (by omega))
    · rintro rfl
      rw [hl] at ha
      exact ha (sub_mem_below (by omega))

theorem Holds.push {high low : UInt8} (h : Holds s stack c) (hp : Pushed high low c d)
    (hfit : stack.length < 32768) : Holds s (wordOf high low :: stack) d := by
  obtain ⟨hu, hl⟩ := sub_ofNat_two s (2 * stack.length)
  rw [← h.sp] at hu hl
  have hsp : d.processor.sp = c.processor.sp - 2 := congrArg Processor.sp hp.processor
  refine ⟨hsp.trans hl, ?_, h.words.congr fun a ha => ?_⟩
  · have hup : c.processor.sp - 2 + 1 = c.processor.sp - 1 := by grind
    show View.word d.memory.read (s - UInt16.ofNat (2 * stack.length + 1 + 1)) = _
    rw [← hl, View.word, hup, hp.upper, hp.lower]
  · -- Up to the full depth, the new bytes are none of those in use.
    apply hp.elsewhere a
    · rintro rfl
      rw [hu] at ha
      exact sub_not_mem_below (Nat.le_refl _) (by omega) ha
    · rintro rfl
      rw [hl] at ha
      exact sub_not_mem_below (Nat.le_succ _) (by omega) ha

theorem Holds.pop {word : UInt16} (h : Holds s (word :: stack) c) :
    c.pop.1 = (highByte word, lowByte word) ∧ c.popWord.1 = word ∧ Holds s stack c.pop.2 := by
  have hw : wordOf (c.memory.read (c.processor.sp + 1)) (c.memory.read c.processor.sp) = word := by
    rw [h.sp]
    exact h.words.1
  refine ⟨?_, hw, ?_, h.words.2⟩
  · rw [← hw, highByte_wordOf, lowByte_wordOf]
    rfl
  · show c.processor.sp + 2 = s - UInt16.ofNat (2 * stack.length)
    rw [h.sp, List.length_cons, Nat.mul_succ, UInt16.ofNat_add]
    grind

theorem confined_pop (s : UInt16) (n : Nat) (c : Computer β) : Confined s n c c.pop.2 :=
  ⟨rfl, fun _ _ => rfl, rfl, rfl, rfl⟩

/-- A call that succeeds answers as on the list, and leaves what it leaves on the list. -/
theorem Holds.answers {call : StackCall} {answer answer' : StackAnswer} {stack' : List UInt16}
    (h : Holds s stack c) (ha : StackCall.Answers (call, answer) c d)
    (hl : call.onList stack = some (answer', stack'))
    (hfit : call.depthAfter stack.length ≤ 32768) :
    answer = answer' ∧ Holds s stack' d ∧
      Confined s (2 * max stack.length (call.depthAfter stack.length)) c d := by
  cases call with
  | push high low =>
    obtain ⟨hp, rfl⟩ := ha
    cases hl
    have hpushed := pushed_of_push hp
    have hmax := Nat.mul_le_mul_left 2 (Nat.le_max_right stack.length (stack.length + 1))
    exact ⟨rfl, h.push hpushed hfit, (h.confined_push hpushed).mono hmax⟩
  | pushWord word =>
    obtain ⟨hp, rfl⟩ := ha
    cases hl
    have hpushed := pushed_of_push hp
    have hmax := Nat.mul_le_mul_left 2 (Nat.le_max_right stack.length (stack.length + 1))
    have hd := h.push hpushed hfit
    rw [wordOf_bytes] at hd
    exact ⟨rfl, hd, (h.confined_push hpushed).mono hmax⟩
  | pop =>
    obtain ⟨rfl, rfl⟩ := ha
    cases stack with
    | nil => cases hl
    | cons word rest =>
      cases hl
      obtain ⟨hbytes, -, hd⟩ := h.pop
      rw [hbytes]
      exact ⟨rfl, hd, confined_pop s _ c⟩
  | popWord =>
    obtain ⟨rfl, rfl⟩ := ha
    cases stack with
    | nil => cases hl
    | cons word rest =>
      cases hl
      obtain ⟨-, hword, hd⟩ := h.pop
      rw [hword]
      exact ⟨rfl, hd, confined_pop s _ c⟩

/-! ## Any number of calls -/

theorem Holds.history {log : List (StackCall × StackAnswer)} {answers : List StackAnswer}
    {stack' : List UInt16} (hh : History StackCall.Answers log c d) (h : Holds s stack c)
    (hl : StackCall.allOnList (log.map Prod.fst) stack = some (answers, stack'))
    (hfit : StackCall.deepest (log.map Prod.fst) stack.length ≤ 32768) :
    log.map Prod.snd = answers ∧ Holds s stack' d ∧
      Confined s (2 * StackCall.deepest (log.map Prod.fst) stack.length) c d := by
  induction hh generalizing stack answers with
  | nil c =>
    cases hl
    exact ⟨rfl, h, Confined.refl _ _ _⟩
  | @cons entry rest c e d ha _ ih =>
    obtain ⟨call, answer⟩ := entry
    simp only [List.map_cons, StackCall.deepest, StackCall.allOnList] at hfit hl ⊢
    split at hl
    next answer' stack₁ hone =>
      have hlen := StackCall.length_onList hone
      have hdeep := StackCall.le_deepest (rest.map Prod.fst) (call.depthAfter stack.length)
      obtain ⟨hanswer, he, hce⟩ := h.answers ha hone (by omega)
      rw [Option.map_eq_some_iff] at hl
      obtain ⟨⟨answers', stack''⟩, hrest, hpair⟩ := hl
      cases hpair
      rw [← hlen] at hfit hdeep hce ⊢
      obtain ⟨hanswers, hd, hed⟩ := ih he hrest (by omega)
      rw [hanswers]
      exact ⟨congrArg (· :: answers') hanswer, hd,
        (hce.mono (by omega)).trans (hed.mono (by omega))⟩
    · cases hl

/-- Where stores are refused nowhere, any call can be made, and then any others. -/
theorem exists_answers_of_open (call : StackCall) {c : Computer β}
    (h : c.memory.romBoundary = 0) :
    ∃ answer d, StackCall.Answers (call, answer) c d ∧ d.memory.romBoundary = 0 := by
  have hpush (high low : UInt8) : ∃ d, c.push high low = (.ok (), d) ∧
      d.memory.romBoundary = 0 := by
    have hb (a : UInt16) : ¬ a < c.memory.romBoundary := by
      rw [h]
      exact UInt16.not_lt_zero
    obtain ⟨d, hd⟩ := push_accepted high low (hb _) (hb _)
    exact ⟨d, hd, (pushed_of_push hd).romBoundary.trans h⟩
  cases call with
  | push high low =>
    obtain ⟨d, hd, hb⟩ := hpush high low
    exact ⟨_, d, ⟨hd, rfl⟩, hb⟩
  | pushWord word =>
    obtain ⟨d, hd, hb⟩ := hpush (highByte word) (lowByte word)
    exact ⟨_, d, ⟨hd, rfl⟩, hb⟩
  | pop | popWord => exact ⟨_, _, ⟨rfl, rfl⟩, h⟩

theorem exists_history_of_open (calls : List StackCall) {c : Computer β}
    (h : c.memory.romBoundary = 0) :
    ∃ log d, log.map Prod.fst = calls ∧ History StackCall.Answers log c d := by
  induction calls generalizing c with
  | nil => exact ⟨[], c, rfl, .nil c⟩
  | cons call rest ih =>
    obtain ⟨answer, d, ha, hb⟩ := exists_answers_of_open call h
    obtain ⟨log, e, hlog, hh⟩ := ih hb
    exact ⟨(call, answer) :: log, e, by rw [List.map_cons, hlog], .cons ha hh⟩

/-! ## Pushing and popping a pair -/

/-- Bytes under an address that leave two of the memory leave those from the address on. -/
theorem not_mem_below {n : Nat} (hn : n ≤ 65534) (s : UInt16) :
    s ∉ below s n ∧ s + 1 ∉ below s n := by
  have h0 : s - 1 - s = 65535 := by grind
  have h1 : s - 1 - (s + 1) = 65534 := by grind
  rw [mem_below, mem_below, h0, h1]
  exact ⟨Nat.not_lt.mpr (Nat.le_succ_of_le hn), Nat.not_lt.mpr hn⟩

variable [Bus β]

/-- A pair that is pushed is popped unchanged at the same depth of the stack, whatever has
become of the processor by then. -/
theorem pop_of_push {pair : StackPair} {cycles : UInt32} {log : List (StackCall × StackAnswer)}
    {answers : List StackAnswer} {e f : Computer β} (hi : c.instruction? = some (.push pair))
    (hx : c.execute = (.ok cycles, d)) (hh : History StackCall.Answers log d e)
    (hl : StackCall.allOnList (log.map Prod.fst) [] = some (answers, []))
    (hfit : StackCall.deepest (log.map Prod.fst) 0 < 32768)
    (hm : f.memory = e.memory) (hsp : f.processor.sp = e.processor.sp)
    (hf : f.instruction? = some (.pop pair)) :
    f.execute = (.ok 10, { f with
      processor := { pair.write { f.processor with sp := c.processor.sp }
        (pair.read c.processor) with pc := f.processor.pc + 1 } }) := by
  have he : (Instruction.push pair).effect c.processor c.memory.read =
    .change (c.processor.push (pair.read c.processor)).1
      (c.processor.push (pair.read c.processor)).2 .next := rfl
  obtain ⟨d', hp, hd⟩ := pushed_of_execute hi he hx
  have hmd : d.memory = d'.memory := by rw [hd]
  have hspd : d.processor.sp = c.processor.sp - 2 := by
    rw [hd]
    exact congrArg Processor.sp hp.processor
  obtain ⟨-, hend, hconf⟩ := (holds_nil d).history hh hl (Nat.le_of_lt hfit)
  -- The calls in between stay under the two bytes pushed, as the stack is not yet full.
  obtain ⟨hlow, hhigh⟩ := not_mem_below (n := 2 * StackCall.deepest (log.map Prod.fst) 0)
    (by omega) d.processor.sp
  have hup : d.processor.sp + 1 = c.processor.sp - 1 := by grind
  have hspf : f.processor.sp = c.processor.sp - 2 := by
    rw [hsp, hend.sp, ← hspd]
    exact UInt16.sub_zero _
  have hu : f.memory.read (c.processor.sp - 1) = highByte (pair.read c.processor) := by
    rw [hm, ← hup, hconf.memory _ hhigh, hmd, hup, hp.upper]
  have hl : f.memory.read (c.processor.sp - 2) = lowByte (pair.read c.processor) := by
    rw [hm, ← hspd, hconf.memory _ hlow, hmd, hspd, hp.lower]
  rw [execute_pop hf, popWord_of_bytes hspf hu hl]

end Computer

/-! ## What a pair is written back as -/

theorem Flags.unpack_lowByte (a : UInt8) (f : Flags) : unpack (lowByte (wordOf a f.pack)) = f := by
  rw [lowByte_wordOf, unpack_pack]

/-- A pair written as it was read is what it was. -/
theorem StackPair.read_write (pair : StackPair) (p q : Processor) :
    pair.read (pair.write q (pair.read p)) = pair.read p := by
  cases pair with
  | bc => exact Registers.bc_setBC _ _
  | de => exact Registers.de_setDE _ _
  | hl => exact Registers.hl_setHL _ _
  | psw =>
    show wordOf (highByte (wordOf p.regs.a p.flags.pack))
      (Flags.unpack (lowByte (wordOf p.regs.a p.flags.pack))).pack = wordOf p.regs.a p.flags.pack
    rw [highByte_wordOf, Flags.unpack_lowByte]

theorem StackPair.sp_write (pair : StackPair) (p : Processor) (word : UInt16) :
    (pair.write p word).sp = p.sp := by
  cases pair <;> rfl

namespace Computer

variable {β : Type} [Bus β]

/-- **The stack in memory is a list.** Calls that succeed on `c`, and that on the empty list
never pop it, answer as they do on the list. The stack pointer is at the last word of the list,
and besides it only the bytes that the deepest stack took up have changed, as long as they are
not more than there are.

A pair that is pushed by an instruction and popped by one, at the same depth, is what it was.
If it is the accumulator with the flags, then all of them are. -/
theorem stack_refines_list (c : Computer β) :
    (∀ log d answers stack, History StackCall.Answers log c d →
      StackCall.allOnList (log.map Prod.fst) [] = some (answers, stack) →
      StackCall.deepest (log.map Prod.fst) 0 ≤ 32768 →
      log.map Prod.snd = answers ∧
        d.processor.sp = c.processor.sp - UInt16.ofNat (2 * stack.length) ∧
        Confined c.processor.sp (2 * StackCall.deepest (log.map Prod.fst) 0) c d) ∧
    ∀ pair cycles d, c.instruction? = some (.push pair) → c.execute = (.ok cycles, d) →
      ∀ log e answers, History StackCall.Answers log d e →
        StackCall.allOnList (log.map Prod.fst) [] = some (answers, []) →
        StackCall.deepest (log.map Prod.fst) 0 < 32768 →
        ∀ f : Computer β, f.memory = e.memory → f.processor.sp = e.processor.sp →
          f.instruction? = some (.pop pair) →
          ∃ cycles' g, f.execute = (.ok cycles', g) ∧
            g.processor.sp = c.processor.sp ∧
            pair.read g.processor = pair.read c.processor ∧
            (pair = .psw → g.processor.regs.a = c.processor.regs.a ∧
              g.processor.flags = c.processor.flags) := by
  constructor
  · intro log d answers stack hh hl hfit
    obtain ⟨hanswers, hd, hconf⟩ := (holds_nil c).history hh hl hfit
    exact ⟨hanswers, hd.sp, hconf⟩
  · intro pair cycles d hi hx log e answers hh hl hfit f hm hsp hf
    refine ⟨10, _, pop_of_push hi hx hh hl hfit hm hsp hf, pair.sp_write _ _, ?_, ?_⟩
    · have hr := pair.read_write c.processor { f.processor with sp := c.processor.sp }
      cases pair <;> exact hr
    · rintro rfl
      exact ⟨highByte_wordOf _ _, Flags.unpack_lowByte _ _⟩

/-! ## A stack across the end of memory -/

/-- A `PUSH PSW` and a `POP PSW`, with the stack pointer such that the first byte pushed goes
to address zero and the next ones to the end of memory. -/
def nesting : Computer Ports :=
  { processor :=
      { regs.a := 0x99, sp := 1, pc := 0x2400
        flags := { zero := true, sign := true, parity := true, carry := true, auxCarry := true } }
    memory := ((Memory.blank 0).put ⟨0x2400, 0xF5⟩).put ⟨0x2401, 0xF1⟩
    bus := Ports.idle {} }

theorem instruction?_nesting : nesting.instruction? = some (.push .psw) := by
  rw [instruction?_eq_some_iff _ (by decide)]
  show nesting.memory.read 0x2400 = 0xF5
  simp only [nesting, Memory.read_put, Memory.read_blank]
  rfl

theorem execute_nesting : ∃ d cycles, nesting.execute = (.ok cycles, d) ∧
    d.processor.sp = 0xFFFF ∧ d.memory.romBoundary = 0 ∧ d.memory.read 0x2401 = 0xF1 := by
  have he : (Instruction.push .psw).effect nesting.processor nesting.memory.read =
    .change (nesting.processor.push (StackPair.psw.read nesting.processor)).1
      (nesting.processor.push (StackPair.psw.read nesting.processor)).2 .next := rfl
  have hok : nesting.execute.1 = .ok 11 := by
    apply execute_accepted instruction?_nesting (by decide) (by decide)
    have hb : nesting.memory.romBoundary = 0 := rfl
    rw [storeAddresses_of_instruction? instruction?_nesting, hb]
    decide
  rcases hx : nesting.execute with ⟨r, d⟩
  rw [hx] at hok
  subst hok
  obtain ⟨d', hp, rfl⟩ := pushed_of_execute instruction?_nesting he hx
  refine ⟨_, 11, rfl, congrArg Processor.sp hp.processor, hp.romBoundary, ?_⟩
  show d'.memory.read 0x2401 = 0xF1
  rw [hp.elsewhere 0x2401 (by decide) (by decide)]
  simp only [nesting, Memory.read_put, Memory.read_blank]
  rfl

/-- Two words are pushed and popped across the end of memory. The accumulator and the flags are
pushed, another word is pushed over them and popped, and they are popped after they have been
overwritten. -/
theorem nesting_answers_as_list :
    (∃ log d, History StackCall.Answers log nesting d ∧
      log.map Prod.fst = [.push 0x12 0x34, .pushWord 0x5678, .popWord, .pop] ∧
      log.map Prod.snd = [.done, .done, .word 0x5678, .bytes 0x12 0x34] ∧
      d.processor.sp = 1) ∧
    ∃ f g : Computer Ports, ∃ cycles cycles' d log e, nesting.execute = (.ok cycles, d) ∧
      History StackCall.Answers log d e ∧ log.map Prod.fst = [.pushWord 0x5678, .popWord] ∧
      f.memory = e.memory ∧ f.processor.regs.a = 0 ∧ f.processor.flags = {} ∧
      f.execute = (.ok cycles', g) ∧ g.processor.sp = 1 ∧ g.processor.regs.a = 0x99 ∧
      g.processor.flags = nesting.processor.flags := by
  obtain ⟨hcalls, hpair⟩ := stack_refines_list nesting
  constructor
  · obtain ⟨log, d, hlog, hh⟩ := exists_history_of_open
      [.push 0x12 0x34, .pushWord 0x5678, .popWord, .pop] (c := nesting) rfl
    obtain ⟨hanswers, hsp, -⟩ := hcalls log d _ [] hh (by rw [hlog]; rfl) (by rw [hlog]; decide)
    exact ⟨log, d, hh, hlog, hanswers, hsp⟩
  · obtain ⟨d, cycles, hx, hspd, hb, hpop⟩ := execute_nesting
    obtain ⟨log, e, hlog, hh⟩ := exists_history_of_open [.pushWord 0x5678, .popWord] hb
    have hlist : StackCall.allOnList (log.map Prod.fst) [] =
        some ([.done, .word 0x5678], []) := by
      rw [hlog]
      rfl
    obtain ⟨-, -, hconf⟩ := (stack_refines_list d).1 log e _ _ hh hlist (by rw [hlog]; decide)
    have hpope : e.memory.read 0x2401 = 0xF1 := by
      refine (hconf.memory _ ?_).trans hpop
      rw [hlog, hspd]
      decide
    obtain ⟨f, hm, hspf, hpc, ha, hflags⟩ : ∃ f : Computer Ports, f.memory = e.memory ∧
        f.processor.sp = e.processor.sp ∧ f.processor.pc = 0x2401 ∧ f.processor.regs.a = 0 ∧
        f.processor.flags = {} :=
      ⟨{ e with processor := { e.processor with regs.a := 0, flags := {}, pc := 0x2401 } },
        rfl, rfl, rfl, rfl, rfl⟩
    have hf : f.instruction? = some (.pop .psw) := by
      rw [instruction?_eq_some_iff _ (by decide), opcode, hm, hpc]
      exact hpope
    obtain ⟨cycles', g, hxf, hspg, -, hpsw⟩ := hpair .psw cycles d instruction?_nesting hx log e _
      hh hlist (by rw [hlog]; decide) f hm hspf hf
    obtain ⟨hag, hflagsg⟩ := hpsw rfl
    exact ⟨f, g, cycles, cycles', d, log, e, hx, hh, hlog, hm, ha, hflags, hxf, hspg, hag, hflagsg⟩

end Computer

end Arcade8080
