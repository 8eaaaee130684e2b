import Arcade8080.Computer.Saved
import Arcade8080.Log.Execution
import Arcade8080.Proofs.Computer.Footprint
import Arcade8080.Proofs.Computer.Invariant
import Arcade8080.Proofs.Operation
import Mathlib.Logic.Function.Iterate

/-!
# Where a run stops

A run is the iteration of execution up to the first computer that stops it. There
are three reasons to stop, looked at in this order: the program counter is not in
the image, the instruction fails, or it goes on past the last address without
having jumped. A run that stops nowhere does not return. The end of the image is
the length of what was loaded last; a restored memory counts as an image of all of
its bytes.
-/

namespace Arcade8080.Computer

variable {β : Type}

/-! ## The end of the image -/

/-- The end of the image after an operation. -/
def Operation.imageEnd (operation : Operation β) (stop : Nat) : Nat :=
  match operation with
  | .load image => if image.length ≤ 65536 then image.length else stop
  | .restore _ => 65536
  | _ => stop

theorem programEnd_interrupt (vector : UInt8) (c : Computer β) :
    (c.interrupt vector).2.memory.programEnd = c.memory.programEnd := by
  obtain ⟨stores, h⟩ := interrupt_memory vector c
  rw [h, Memory.programEnd_storeAll]

theorem programEnd_store (stores : List Store) (c : Computer β) :
    (c.store stores).2.memory.programEnd = c.memory.programEnd := by
  have h := Memory.programEnd_storeAll c.memory stores
  rcases c with ⟨p, memory, bus⟩
  simp only [store]
  split
  next he => rwa [he] at h
  next he => rwa [he] at h

variable [Bus β]

theorem programEnd_execute (c : Computer β) :
    c.execute.2.memory.programEnd = c.memory.programEnd := by
  rw [execute_memory, Memory.programEnd_storeAll]

theorem Operation.programEnd (operation : Operation β) {c c' : Computer β}
    (h : operation.Leads c c') :
    c'.memory.programEnd = operation.imageEnd c.memory.programEnd := by
  have hx : ∀ d : Computer β, d.memory.programEnd = c.memory.programEnd →
      d.execute.2.memory.programEnd = c.memory.programEnd :=
    fun d hd => (programEnd_execute d).trans hd
  have hi : ∀ vector (d : Computer β), d.memory.programEnd = c.memory.programEnd →
      (d.interrupt vector).2.memory.programEnd = c.memory.programEnd :=
    fun vector d hd => (programEnd_interrupt vector d).trans hd
  cases operation with
  | execute =>
    cases h
    exact programEnd_execute c
  | run =>
    obtain ⟨fuel, fault, h⟩ := h
    exact run_keeps (P := fun d => d.memory.programEnd = c.memory.programEnd) hx h rfl
  | interrupt vector =>
    cases h
    exact programEnd_interrupt vector c
  | tick pacer now request =>
    cases h
    exact tick_keeps (P := fun d => d.memory.programEnd = c.memory.programEnd) hx hi pacer now
      request c rfl
  | store s =>
    cases h
    exact programEnd_store [s] c
  | load image =>
    cases h
    by_cases hl : image.length ≤ 65536
    · rw [programEnd_load c hl, imageEnd, if_pos hl]
    · rw [c.load_refused (Nat.not_le.mp hl), imageEnd, if_neg hl]
  | reset | attach bus | restore saved =>
    cases h
    rfl

/-- Over a history the end of the image follows what is loaded and restored. -/
theorem programEnd_history {operations : List (Operation β)} {b c : Computer β}
    (h : History Operation.Leads operations b c) :
    c.memory.programEnd =
      operations.foldl (fun stop o => o.imageEnd stop) b.memory.programEnd := by
  induction h with
  | nil b => rfl
  | cons hl _ ih => rw [ih, List.foldl_cons, Operation.programEnd _ hl]

/-! ## Stops -/

/-- The computer after `n` instructions, whether they succeed or fail. -/
def after (n : Nat) (c : Computer β) : Computer β := (fun d => d.execute.2)^[n] c

/-- What a run ends with at this computer, if it ends there. -/
def stop? (c : Computer β) : Option (Fault × Computer β) :=
  if c.memory.programEnd ≤ c.processor.pc.toNat then some (.pastEnd, c)
  else
    match c.execute with
    | (.error fault, next) => some (fault, next)
    | (.ok _, next) => if c.runsOver then some (.pastEnd, next) else none

/-- The first computer to stop a run is the one after `n` instructions, with result `r`. -/
structure StopsFirstAt (c : Computer β) (n : Nat) (r : Fault × Computer β) : Prop where
  stop : (c.after n).stop? = some r
  before : ∀ m < n, (c.after m).stop? = none

theorem after_succ (n : Nat) (c : Computer β) : c.after (n + 1) = c.execute.2.after n := rfl

theorem programEnd_after (n : Nat) (c : Computer β) :
    (c.after n).memory.programEnd = c.memory.programEnd := by
  induction n generalizing c with
  | zero => rfl
  | succ n ih => rw [after_succ, ih, programEnd_execute]

theorem Alike.after {α : Type} [Bus α] {R : α → β → Prop} (hR : Bus.Indistinct R)
    {c : Computer α} {d : Computer β} (h : Alike R c d) (n : Nat) :
    Alike R (c.after n) (d.after n) := by
  induction n generalizing c d with
  | zero => exact h
  | succ n ih => exact ih (h.execute hR).2

theorem stopsFirstAt_zero {c : Computer β} {r : Fault × Computer β} :
    c.StopsFirstAt 0 r ↔ c.stop? = some r :=
  ⟨fun h => h.stop, fun h => ⟨h, fun m hm => absurd hm (Nat.not_lt_zero m)⟩⟩

theorem stopsFirstAt_succ {c : Computer β} {n : Nat} {r : Fault × Computer β} :
    c.StopsFirstAt (n + 1) r ↔ c.stop? = none ∧ c.execute.2.StopsFirstAt n r := by
  constructor
  · intro h
    refine ⟨h.before 0 (Nat.zero_lt_succ n), h.stop, fun m hm => ?_⟩
    exact h.before (m + 1) (Nat.succ_lt_succ hm)
  · rintro ⟨h0, h⟩
    refine ⟨h.stop, fun m hm => ?_⟩
    cases m with
    | zero => exact h0
    | succ m => exact h.before m (Nat.lt_of_succ_lt_succ hm)

/-! ## The loop -/

theorem wrapped_eq_runsOver {c d : Computer β} {completion : Completion}
    (h : c.step = (.ok completion, d)) : completion.wrapped = c.runsOver := by
  cases hi : c.instruction? with
  | none =>
    simp only [step, hi] at h
    cases h
  | some i =>
    rw [runsOver_of_instruction? hi]
    exact congrArg Completion.wrapped (step_footprint hi h).1

/-- What stops a run, read off the step that the run makes. -/
theorem stop?_eq_step (c : Computer β) : c.stop? =
    if c.memory.programEnd ≤ c.processor.pc.toNat then some (.pastEnd, c)
    else
      match c.step with
      | (.ok completion, next) => if completion.wrapped then some (.pastEnd, next) else none
      | (.error fault, next) => some (fault, next) := by
  rw [stop?]
  rcases hs : c.step with ⟨fault | completion, d⟩
  · rw [execute_of_step_error hs]
  · rw [execute_of_step hs, ← wrapped_eq_runsOver hs]

/-- A run looks at one computer and then either ends or goes on with the next. -/
theorem run_succ (fuel : Nat) (c : Computer β) :
    c.run (fuel + 1) = match c.stop? with
      | some r => some r
      | none => c.execute.2.run fuel := by
  rw [run, stop?_eq_step, execute_snd]
  by_cases hp : c.memory.programEnd ≤ c.processor.pc.toNat
  · simp only [if_pos hp]
  · simp only [if_neg hp]
    rcases c.step with ⟨fault | completion, d⟩
    · rfl
    · cases hw : completion.wrapped <;> simp only [hw] <;> rfl

theorem run_eq_some_iff (fuel : Nat) (c : Computer β) (r : Fault × Computer β) :
    c.run fuel = some r ↔ ∃ n < fuel, c.StopsFirstAt n r := by
  induction fuel generalizing c with
  | zero =>
    constructor
    · intro h
      cases h
    · rintro ⟨n, hn, -⟩
      exact absurd hn (Nat.not_lt_zero n)
  | succ fuel ih =>
    rw [run_succ]
    cases hs : c.stop? with
    | some r' =>
      constructor
      · intro h
        exact ⟨0, Nat.zero_lt_succ fuel, stopsFirstAt_zero.mpr (hs.trans h)⟩
      · rintro ⟨n, -, h⟩
        cases n with
        | zero => exact hs.symm.trans h.stop
        | succ n => cases hs.symm.trans (stopsFirstAt_succ.mp h).1
    | none =>
      show c.execute.2.run fuel = some r ↔ _
      rw [ih]
      constructor
      · rintro ⟨n, hn, h⟩
        exact ⟨n + 1, Nat.succ_lt_succ hn, stopsFirstAt_succ.mpr ⟨hs, h⟩⟩
      · rintro ⟨n, hn, h⟩
        cases n with
        | zero => cases hs.symm.trans h.stop
        | succ n => exact ⟨n, Nat.lt_of_succ_lt_succ hn, (stopsFirstAt_succ.mp h).2⟩

/-- Where there is a stop at all, there is a first one. -/
theorem exists_stopsFirstAt {c : Computer β} {n : Nat} (h : (c.after n).stop?.isSome) :
    ∃ m r, c.StopsFirstAt m r := by
  induction n generalizing c with
  | zero =>
    obtain ⟨r, hr⟩ := Option.isSome_iff_exists.mp h
    exact ⟨0, r, stopsFirstAt_zero.mpr hr⟩
  | succ n ih =>
    cases hs : c.stop? with
    | some r => exact ⟨0, r, stopsFirstAt_zero.mpr hs⟩
    | none =>
      obtain ⟨m, r, hm⟩ := ih (c := c.execute.2) h
      exact ⟨m + 1, r, stopsFirstAt_succ.mpr ⟨hs, hm⟩⟩

/-! ## The instructions executed -/

/-- The computers at which a run executes an instruction, the first one first. -/
def visits : Nat → Computer β → List (Computer β)
  | 0, _ => []
  | fuel + 1, c =>
    if c.memory.programEnd ≤ c.processor.pc.toNat then []
    else
      match c.step with
      | (.ok completion, next) => c :: if completion.wrapped then [] else visits fuel next
      | (.error _, _) => [c]

/-- What a run writes to the log is what its instructions write. -/
theorem runLog_visits [Bus.Noted β] (kept : Level) (fuel : Nat) (c : Computer β) (log : Log) :
    c.runLog kept fuel log = log ++ (c.visits fuel).flatMap fun d => d.stepLog kept := by
  induction fuel generalizing c log with
  | zero => simp [runLog, visits]
  | succ fuel ih =>
    simp only [runLog, visits]
    split
    · simp
    · rcases c.step with ⟨fault | completion, d⟩
      · simp
      · cases hw : completion.wrapped with
        | true => simp [hw]
        | false =>
          simp only [hw, ih]
          apply Array.ext'
          simp

theorem visits_succ (fuel : Nat) (c : Computer β) :
    c.visits (fuel + 1) = if c.memory.programEnd ≤ c.processor.pc.toNat then [] else
      c :: if c.stop?.isSome then [] else c.execute.2.visits fuel := by
  rw [visits, stop?_eq_step, execute_snd]
  by_cases hp : c.memory.programEnd ≤ c.processor.pc.toNat
  · simp only [if_pos hp]
  · simp only [if_neg hp]
    rcases c.step with ⟨fault | completion, d⟩
    · rfl
    · cases hw : completion.wrapped <;> simp only [hw] <;> rfl

theorem visits_eq_map_after (fuel : Nat) (c : Computer β) :
    c.visits fuel = (List.range (c.visits fuel).length).map c.after := by
  induction fuel generalizing c with
  | zero => rfl
  | succ fuel ih =>
    rw [visits_succ]
    split
    · rfl
    · split
      · rfl
      · rw [List.length_cons, List.range_succ_eq_map, List.map_cons, List.map_map]
        exact congrArg (c :: ·) (ih c.execute.2)

theorem pc_lt_of_mem_visits {fuel : Nat} {c d : Computer β} (h : d ∈ c.visits fuel) :
    d.processor.pc.toNat < c.memory.programEnd := by
  induction fuel generalizing c with
  | zero => cases h
  | succ fuel ih =>
    rw [visits_succ] at h
    split at h
    · cases h
    next hp =>
      rcases List.mem_cons.mp h with rfl | h
      · exact Nat.lt_of_not_le hp
      · split at h
        · cases h
        · rw [← programEnd_execute]
          exact ih h

/-- A stop that has executed its instruction ends where the instruction leads. -/
theorem snd_of_stop? {c d : Computer β} {fault : Fault} (h : c.stop? = some (fault, d))
    (hp : ¬ c.memory.programEnd ≤ c.processor.pc.toNat) : d = c.execute.2 := by
  rw [stop?, if_neg hp] at h
  rcases he : c.execute with ⟨fault' | cycles, next⟩
  · rw [he] at h
    cases h
    rfl
  · simp only [he] at h
    split at h
    · cases h
      rfl
    · cases h

/-- A run ends with the computer after the instructions that it has executed. -/
theorem eq_after_of_run {fuel : Nat} {c d : Computer β} {fault : Fault}
    (h : c.run fuel = some (fault, d)) : d = c.after (c.visits fuel).length := by
  induction fuel generalizing c with
  | zero => cases h
  | succ fuel ih =>
    rw [run_succ] at h
    rw [visits_succ]
    by_cases hp : c.memory.programEnd ≤ c.processor.pc.toNat
    · rw [stop?, if_pos hp] at h
      cases h
      rw [if_pos hp]
      rfl
    · rw [if_neg hp]
      cases hs : c.stop? with
      | some r =>
        rw [hs] at h
        cases h
        exact snd_of_stop? hs hp
      | none =>
        rw [hs] at h
        exact ih h

/-! ## The run as a whole -/

/-- **A run returns at the first stop.** With enough fuel it returns exactly what the first
computer that stops it says, and it does so whenever there is one. It has executed the
instructions before that and no others, each of which begins below the end of the image. The
end of the image is where the latest load or restore has put it, and stays there while the
run goes on; a refused load changes nothing. -/
theorem run_returns_first_stop (c : Computer β) :
    (∀ fuel r, c.run fuel = some r ↔ ∃ n < fuel, c.StopsFirstAt n r) ∧
      (∀ n, (c.after n).stop?.isSome → ∃ fuel r, c.run fuel = some r) ∧
      (∀ fuel, c.visits fuel = (List.range (c.visits fuel).length).map c.after ∧
        (∀ d ∈ c.visits fuel, d.processor.pc.toNat < c.memory.programEnd) ∧
        ∀ fault d, c.run fuel = some (fault, d) → d = c.after (c.visits fuel).length) ∧
      (∀ operations b, History Operation.Leads operations b c →
        c.memory.programEnd =
          operations.foldl (fun stop o => o.imageEnd stop) b.memory.programEnd) ∧
      (∀ n, (c.after n).memory.programEnd = c.memory.programEnd) ∧
      ∀ image : List UInt8, if image.length ≤ 65536 then (c.load image).1 = .ok () else
        c.load image = (.error (.oversized image.length), c) := by
  refine ⟨fun fuel r => run_eq_some_iff fuel c r, fun n h => ?_, fun fuel => ?_,
    fun operations b h => programEnd_history h, fun n => programEnd_after n c, fun image => ?_⟩
  · obtain ⟨m, r, hm⟩ := exists_stopsFirstAt h
    exact ⟨m + 1, r, (run_eq_some_iff (m + 1) c r).mpr ⟨m, Nat.lt_succ_self m, hm⟩⟩
  · exact ⟨visits_eq_map_after fuel c, fun d h => pc_lt_of_mem_visits h,
      fun fault d h => eq_after_of_run h⟩
  · split
    next hl =>
      obtain ⟨memory, -, -, hr⟩ := c.load_accepted hl
      rw [hr]
    next hl => exact c.load_refused (Nat.not_le.mp hl)

/-! ## A jump from the top of memory -/

/-- A jump to zero in the last three bytes of memory, and an `HLT` at zero. -/
def leaping : SavedComputer :=
  { bytes := (((Memory.blank 0).put ⟨0xFFFD, 0xC3⟩).put ⟨0, 0x76⟩).bytes
    processor := { pc := 0xFFFD } }

theorem read_leaping {α : Type} (c : Computer α) (address : UInt16) :
    (c.restore leaping).memory.read address =
      if 0 = address then 0x76 else if 0xFFFD = address then 0xC3 else 0 := by
  have h : (c.restore leaping).memory.read =
      (((Memory.blank 0).put ⟨0xFFFD, 0xC3⟩).put ⟨0, 0x76⟩).read := Memory.read_congr rfl
  rw [h, Memory.read_put, Memory.read_put, Memory.read_blank]

theorem execute_leaping (c : Computer β) :
    (c.restore leaping).execute = (.ok 10, (c.restore leaping).reset) ∧
      (c.restore leaping).runsOver = false := by
  have hi : (c.restore leaping).instruction? = some .jmp := by
    rw [instruction?_eq_some_iff _ (by decide)]
    exact read_leaping c 0xFFFD
  have hw : leaping.processor.immediateWord (c.restore leaping).memory.read = 0 := by
    rw [Processor.immediateWord, View.word, read_leaping, read_leaping]
    rfl
  constructor
  · have hs := step_of_instruction? hi
    have he : Instruction.jmp.effect leaping.processor (c.restore leaping).memory.read =
        .change [] leaping.processor (.jump 0) := by
      rw [← hw]
      rfl
    replace hs := hs.trans (congrArg (commit .jmp · (c.restore leaping)) he)
    rw [commit_change (n := (c.restore leaping).memory) rfl] at hs
    exact execute_of_step hs
  · rw [runsOver_of_instruction? hi]
    rfl

/-- A jump from the top of memory to zero does not end a run. What ends it is the `HLT` at
zero, and everything restored belongs to the image. -/
theorem leaping_stops_at_halt :
    let b : Computer Ports := { memory := Memory.blank 0x2000, bus := Ports.idle {} }
    ∃ d, (b.restore leaping).run 2 = some (.unsupported .hlt, d) ∧ d.processor.pc = 0 ∧
      (b.restore leaping).memory.programEnd = 65536 := by
  intro b
  obtain ⟨hex, hover⟩ := execute_leaping b
  have hin : ¬ (b.restore leaping).memory.programEnd ≤ (b.restore leaping).processor.pc.toNat :=
    show ¬ 65536 ≤ 0xFFFD by decide
  have hin' : ¬ (b.restore leaping).reset.memory.programEnd ≤
      (b.restore leaping).reset.processor.pc.toNat := show ¬ 65536 ≤ 0 by decide
  have hi : (b.restore leaping).reset.instruction? = some .hlt := by
    rw [instruction?_eq_some_iff _ (by decide)]
    exact read_leaping b 0
  have h1 : (b.restore leaping).StopsFirstAt 1
      (.unsupported .hlt, (b.restore leaping).reset) := by
    rw [stopsFirstAt_succ, stopsFirstAt_zero, stop?, stop?, if_neg hin, hex, hover, if_neg hin',
      execute_hlt hi]
    exact ⟨rfl, rfl⟩
  obtain ⟨hrun, -, -, hend, -⟩ := run_returns_first_stop (b.restore leaping)
  exact ⟨_, (hrun 2 _).mpr ⟨1, by decide, h1⟩, rfl,
    hend [.restore leaping] b (.cons rfl (.nil _))⟩

end Arcade8080.Computer
