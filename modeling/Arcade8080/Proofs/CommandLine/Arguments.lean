import Arcade8080.CommandLine.Options
import Arcade8080.Proofs.Numeric.NearestDouble
import Mathlib.Data.List.Basic

/-!
# What becomes of the arguments

The second argument decides: as a text that is no number, as the value of a double that is no
duration, or as one that is too long to be held. The three kinds of answer are told apart here by
the arguments alone, each in both directions.
-/

namespace Arcade8080

namespace DecimalNumber

/-- The value of the double that is nearest to a number, if that one is finite. Both zeros have
the value zero. -/
def double? : DecimalNumber → Option ℚ
  | notANumber => none
  | infinite _ => none
  | finite negative mantissa exponent =>
    (nearestMagnitude mantissa exponent).map fun d => if negative then -d.value else d.value

theorem mantissa_le_of_nearestMagnitude {mantissa : Nat} {exponent : Int} {d : Dyadic}
    (h : nearestMagnitude mantissa exponent = some d) : d.mantissa ≤ 2 ^ 53 := by
  unfold nearestMagnitude at h
  split at h
  · exact Dyadic.mantissa_le_of_nearest one_ne_zero h
  · exact Dyadic.mantissa_le_of_nearest (Nat.pow_pos (by decide)).ne' h

end DecimalNumber

namespace Seconds

/-- What a number of seconds is as a duration; there is no number if it is infinite or none at
all. -/
def Measures : Seconds → Option ℚ → Prop
  | nanoseconds count, value? =>
    ∃ value, value? = some value ∧ 0 ≤ value ∧ value < 2 ^ 64 ∧
      NearestEven count (value * 1000000000)
  | notADuration, value? => ∀ value, value? = some value → value < 0
  | overflow, value? => ∃ value, value? = some value ∧ 2 ^ 64 ≤ value

theorem Measures.unique {s t : Seconds} {value? : Option ℚ} (hs : s.Measures value?)
    (ht : t.Measures value?) : s = t := by
  cases value? with
  | none => cases s <;> cases t <;> simp_all [Measures]
  | some value =>
    cases s <;> cases t <;> simp only [Measures, Option.some.injEq, exists_eq_left',
      forall_eq'] at hs ht ⊢
    case nanoseconds.nanoseconds => exact congrArg nanoseconds (hs.2.2.unique ht.2.2)
    all_goals linarith

theorem ofDouble_measures (negative : Bool) {d : Dyadic} (hd : d.mantissa ≤ 2 ^ 53) :
    (ofDouble negative d).Measures (some (if negative then -d.value else d.value)) := by
  have hnonneg := d.value_nonneg
  rw [ofDouble]
  split
  next hneg =>
    rw [Bool.and_eq_true, bne_iff_ne, ne_eq, ← d.value_eq_zero_iff] at hneg
    rintro value ⟨⟩
    rw [if_pos hneg.1, neg_lt_zero]
    exact lt_of_le_of_ne hnonneg (Ne.symm hneg.2)
  next hpos =>
    have hvalue : (if negative then -d.value else d.value) = d.value := by
      split
      next hsign =>
        have hzero : d.value = 0 := by
          rw [d.value_eq_zero_iff]
          simpa [hsign] using hpos
        rw [hzero, neg_zero]
      next => rfl
    rw [hvalue]
    dsimp only
    split
    next hlt =>
      exact ⟨d.value, rfl, hnonneg, (Dyadic.times_lt_iff hd (by decide)).mp hlt,
        d.nearestEven_times 1000000000⟩
    next hlt =>
      exact ⟨d.value, rfl, not_lt.mp fun h => hlt ((Dyadic.times_lt_iff hd (by decide)).mpr h)⟩

theorem ofNumber_measures (number : DecimalNumber) :
    (ofNumber number).Measures number.double? := by
  cases number with
  | notANumber => rintro _ ⟨⟩
  | infinite negative => rintro _ ⟨⟩
  | finite negative mantissa exponent =>
    rw [ofNumber, DecimalNumber.double?]
    cases h : DecimalNumber.nearestMagnitude mantissa exponent with
    | none => rintro _ ⟨⟩
    | some d => exact ofDouble_measures negative (DecimalNumber.mantissa_le_of_nearestMagnitude h)

/-- The arguments give a number of seconds, and it is this duration. -/
def GivenBy (s : Seconds) (args : List String) : Prop :=
  ∃ text number, args[1]? = some text ∧ DecimalNumber.ofText text = .ok number ∧
    s.Measures number.double?

end Seconds

/-- The arguments have the mistake that an error is about. -/
def ArgumentError.MadeIn (args : List String) : ArgumentError → Prop
  | .noArguments => args = []
  | .badNumber text cause => args[1]? = some text ∧ DecimalNumber.ofText text = .error cause
  | .notADuration => Seconds.notADuration.GivenBy args

namespace Options

/-- What the options are for arguments without a mistake. -/
structure GivenBy (o : Options) (args : List String) : Prop where
  romPath_eq : args[0]? = some o.romPath
  unlimited : o.runFor = none ↔ args[1]? = none
  limited : ∀ count, o.runFor = some count → (Seconds.nanoseconds count).GivenBy args
  crashPath_eq : o.crashPath = args[2]?

/-- The answer fits the arguments. -/
def Answers (args : List String) : ParsedArguments → Prop
  | .options o => o.GivenBy args
  | .refused error => error.MadeIn args
  | .overflow => Seconds.overflow.GivenBy args

theorem withSeconds_answers (romPath seconds : String) (rest : List String) :
    Answers (romPath :: seconds :: rest) (withSeconds romPath seconds rest) := by
  rw [withSeconds]
  cases htext : DecimalNumber.ofText seconds with
  | error cause => exact ⟨rfl, htext⟩
  | ok number =>
    have hgiven : (Seconds.ofNumber number).GivenBy (romPath :: seconds :: rest) :=
      ⟨seconds, number, rfl, htext, Seconds.ofNumber_measures number⟩
    dsimp only
    generalize Seconds.ofNumber number = s at hgiven
    cases s with
    | nanoseconds count =>
      refine ⟨rfl, iff_of_false nofun nofun, ?_, ?_⟩
      · rintro _ ⟨⟩
        exact hgiven
      · exact List.head?_eq_getElem?
    | notADuration => exact hgiven
    | overflow => exact hgiven

theorem parse_answers (args : List String) : Answers args (parse args) := by
  match args with
  | [] => exact rfl
  | [romPath] => exact ⟨rfl, iff_of_true rfl rfl, nofun, rfl⟩
  | romPath :: seconds :: rest => exact withSeconds_answers romPath seconds rest

end Options

theorem Seconds.GivenBy.unique {s t : Seconds} {args : List String} (hs : s.GivenBy args)
    (ht : t.GivenBy args) : s = t := by
  obtain ⟨text, number, harg, htext, hs⟩ := hs
  obtain ⟨text', number', harg', htext', ht⟩ := ht
  obtain rfl : text = text' := Option.some.inj (harg.symm.trans harg')
  obtain rfl : number = number' := Except.ok.inj (htext.symm.trans htext')
  exact hs.unique ht

theorem Seconds.GivenBy.not_badNumber {s : Seconds} {args : List String} (hs : s.GivenBy args)
    {text : String} {cause : DecimalError} : ¬ (ArgumentError.badNumber text cause).MadeIn args := by
  obtain ⟨text', number, harg, htext, -⟩ := hs
  rintro ⟨harg', htext'⟩
  obtain rfl : text' = text := Option.some.inj (harg.symm.trans harg')
  exact nomatch htext.symm.trans htext'

theorem Seconds.GivenBy.ne_nil {s : Seconds} {args : List String} (hs : s.GivenBy args) :
    args ≠ [] := by
  rintro rfl
  obtain ⟨text, number, harg, -⟩ := hs
  exact nomatch harg

theorem ArgumentError.MadeIn.unique {args : List String} {error error' : ArgumentError}
    (h : error.MadeIn args) (h' : error'.MadeIn args) : error = error' := by
  match error, error', h, h' with
  | .noArguments, .noArguments, _, _ => rfl
  | .noArguments, .badNumber _ _, h, h' => cases h; cases h'.1
  | .noArguments, .notADuration, h, h' => exact (h'.ne_nil h).elim
  | .badNumber _ _, .noArguments, h, h' => cases h'; cases h.1
  | .badNumber _ _, .badNumber _ _, h, h' =>
    obtain rfl := Option.some.inj (h.1.symm.trans h'.1)
    exact congrArg _ (Except.error.inj (h.2.symm.trans h'.2))
  | .badNumber _ _, .notADuration, h, h' => exact (h'.not_badNumber h).elim
  | .notADuration, .noArguments, h, h' => exact (h.ne_nil h').elim
  | .notADuration, .badNumber _ _, h, h' => exact (h.not_badNumber h').elim
  | .notADuration, .notADuration, _, _ => rfl

theorem ArgumentError.MadeIn.not_overflow {args : List String} {error : ArgumentError}
    (h : error.MadeIn args) : ¬ Seconds.overflow.GivenBy args := by
  intro hover
  cases error with
  | noArguments => exact hover.ne_nil h
  | badNumber text cause => exact hover.not_badNumber h
  | notADuration => exact nomatch hover.unique h

namespace Options

theorem GivenBy.seconds {o : Options} {args : List String} (h : o.GivenBy args) {text : String}
    (harg : args[1]? = some text) :
    ∃ count, o.runFor = some count ∧ (Seconds.nanoseconds count).GivenBy args := by
  cases hrun : o.runFor with
  | none => rw [h.unlimited.mp hrun] at harg; cases harg
  | some count => exact ⟨count, rfl, h.limited count hrun⟩

theorem GivenBy.unique {o o' : Options} {args : List String} (h : o.GivenBy args)
    (h' : o'.GivenBy args) : o = o' := by
  have hpath : o.romPath = o'.romPath := Option.some.inj (h.romPath_eq.symm.trans h'.romPath_eq)
  have hcrash : o.crashPath = o'.crashPath := h.crashPath_eq.trans h'.crashPath_eq.symm
  have hrun : o.runFor = o'.runFor := by
    cases harg : args[1]? with
    | none => rw [h.unlimited.mpr harg, h'.unlimited.mpr harg]
    | some text =>
      obtain ⟨count, hcount, hgiven⟩ := h.seconds harg
      obtain ⟨count', hcount', hgiven'⟩ := h'.seconds harg
      rw [hcount, hcount', Seconds.nanoseconds.inj (hgiven.unique hgiven')]
  cases o
  cases o'
  congr

/-- Options and any other duration do not go together. -/
theorem GivenBy.not_givenBy {o : Options} {args : List String} (h : o.GivenBy args) {s : Seconds}
    (hs : ∀ count, s ≠ .nanoseconds count) : ¬ s.GivenBy args := by
  intro hgiven
  obtain ⟨text, number, harg, -⟩ := id hgiven
  obtain ⟨count, -, hcount⟩ := h.seconds harg
  exact hs count (hgiven.unique hcount)

theorem GivenBy.not_madeIn {o : Options} {args : List String} (h : o.GivenBy args)
    (error : ArgumentError) : ¬ error.MadeIn args := by
  cases error with
  | noArguments =>
    rintro rfl
    exact nomatch h.romPath_eq
  | badNumber text cause =>
    intro hbad
    obtain ⟨count, -, hcount⟩ := h.seconds hbad.1
    exact hcount.not_badNumber hbad
  | notADuration => exact h.not_givenBy nofun

theorem Answers.unique {args : List String} {answer answer' : ParsedArguments}
    (h : Answers args answer) (h' : Answers args answer') : answer = answer' := by
  match answer, answer', h, h' with
  | .options _, .options _, h, h' => exact congrArg _ (GivenBy.unique h h')
  | .options _, .refused error, h, h' => exact (h.not_madeIn error h').elim
  | .options _, .overflow, h, h' => exact (h.not_givenBy (s := .overflow) nofun h').elim
  | .refused error, .options _, h, h' => exact (h'.not_madeIn error h).elim
  | .refused _, .refused _, h, h' => exact congrArg _ (ArgumentError.MadeIn.unique h h')
  | .refused _, .overflow, h, h' => exact (h.not_overflow h').elim
  | .overflow, .options _, h, h' => exact (h'.not_givenBy (s := .overflow) nofun h).elim
  | .overflow, .refused _, h, h' => exact (h'.not_overflow h).elim
  | .overflow, .overflow, _, _ => rfl

theorem parse_eq_iff (args : List String) (answer : ParsedArguments) :
    parse args = answer ↔ Answers args answer :=
  ⟨fun h => h ▸ parse_answers args, (parse_answers args).unique⟩

/-- The arguments give options, or an error about the mistake in them, unless there is a duration
that cannot be held. -/
theorem parse_decides (args : List String) :
    (∀ o, parse args = .options o ↔ o.GivenBy args) ∧
      (∀ error, parse args = .refused error ↔ error.MadeIn args) ∧
        (parse args = .overflow ↔ Seconds.overflow.GivenBy args) :=
  ⟨fun o => parse_eq_iff args (.options o), fun error => parse_eq_iff args (.refused error),
    parse_eq_iff args .overflow⟩

/-- A hundred million million million seconds are neither taken nor refused. -/
theorem long_duration_overflows : parse ["rom", "1e20"] = .overflow := by
  decide +kernel

end Options

end Arcade8080
