import Mathlib
import Scriptlet.Proofs.Truncation
import Scriptlet.Value.Cast

/-!
# Strings that denote integers

A string is converted to an integer by one of two readings: as an integer of 64 bits,
or, if it is none, as a decimal that is then truncated. The second is meant for
strings such as `4.5`, but it is also tried on an integer that is out of range. The
double nearest to that one is out of range as well, except for the `2 ^ 10` integers
just below the least of the range, which all become the least.

Results:
* `Denotes.integer?_eq`: signed digits are read as the integer they denote.
* `Denotes.decimal?_of_pos`, `Denotes.decimal?_of_neg`: as decimals they are the
  double nearest to it.
* `cast_of_inRange`, `cast_of_justBelow`, `cast_of_not_inRange`: the conversion in
  range, just below the range and everywhere else.
* `cast_string_cast_int`: the text of an integer converts back to it.
* `cast_denoted`: all of this together; `not_cast_denoted`: the integers just below the
  range are an exception.
-/

namespace Scriptlet

namespace Text

/-! ## Integers in decimal -/

/-- One or more ASCII digits. -/
def Digits (ds : List Char) : Prop := ds ≠ [] ∧ ∀ c ∈ ds, c.isDigit = true

/-- The integer that an optional sign and one or more digits denote. -/
inductive Denotes : List Char → Int → Prop
  | unsigned {ds : List Char} : Digits ds → Denotes ds (Nat.ofDigitChars 10 ds 0)
  | plus {ds : List Char} : Digits ds → Denotes ('+' :: ds) (Nat.ofDigitChars 10 ds 0)
  | minus {ds : List Char} : Digits ds → Denotes ('-' :: ds) (-(Nat.ofDigitChars 10 ds 0 : Int))

theorem digitsValue_eq (ds : List Char) : digitsValue ds = Nat.ofDigitChars 10 ds 0 := by
  unfold digitsValue Nat.ofDigitChars
  simp only [Nat.mul_comm]

theorem Digits.digits?_eq {ds : List Char} (h : Digits ds) :
    digits? ds = some (Nat.ofDigitChars 10 ds 0) := by
  unfold digits?
  rw [if_pos ⟨h.1, List.all_eq_true.mpr h.2⟩, digitsValue_eq]

theorem Digits.splitSign_eq {ds : List Char} (h : Digits ds) : splitSign ds = (false, ds) := by
  obtain ⟨hne, hdigit⟩ := h
  cases ds with
  | nil => exact absurd rfl hne
  | cons c cs =>
    have hc := hdigit c List.mem_cons_self
    unfold splitSign
    split
    · next heq => cases heq; exact absurd hc (by decide)
    · next heq => cases heq; exact absurd hc (by decide)
    · rfl

/-- The words for infinity and NaN are no digits. -/
theorem Digits.special?_eq {ds : List Char} (h : Digits ds) : special? ds = none := by
  obtain ⟨hne, hdigit⟩ := h
  cases ds with
  | nil => exact absurd rfl hne
  | cons c cs =>
    have hc := hdigit c List.mem_cons_self
    have hupper : ¬ c.isUpper = true := by
      simp only [Char.isDigit, Bool.and_eq_true, decide_eq_true_eq] at hc
      simp only [Char.isUpper, decide_eq_true_eq]
      grind
    have hword : ∀ word : String, word.toList.head?.all (fun c => !c.isDigit) = true →
        (c :: cs).map Char.toLower ≠ word.toList := by
      intro word hhead heq
      rw [← heq, List.map_cons, Char.toLower_eq_of_not_isUpper hupper] at hhead
      simp [hc] at hhead
    unfold special?
    rw [if_neg, if_neg (hword "nan" (by decide))]
    rintro (heq | heq)
    · exact hword "inf" (by decide) heq
    · exact hword "infinity" (by decide) heq

theorem Digits.unsignedDecimal?_eq {ds : List Char} (h : Digits ds) :
    unsignedDecimal? ds = some (nearestFloat (Nat.ofDigitChars 10 ds 0) 0) := by
  have htake : ds.takeWhile Char.isDigit = ds := List.takeWhile_eq_self_iff.mpr h.2
  have hdrop : ds.dropWhile Char.isDigit = [] := List.dropWhile_eq_nil_iff.mpr h.2
  unfold unsignedDecimal?
  simp only [htake, hdrop, List.append_nil, if_neg h.1, digitsValue_eq]
  rfl

theorem Digits.decimal?_eq {ds : List Char} (h : Digits ds) :
    ((special? ds).or (unsignedDecimal? ds)) =
      some (nearestFloat (Nat.ofDigitChars 10 ds 0) 0) := by
  rw [h.special?_eq, h.unsignedDecimal?_eq]
  rfl

theorem Denotes.integer?_eq {text : List Char} {n : Int} (h : Denotes text n) :
    integer? text = some n := by
  unfold integer?
  cases h with
  | unsigned h => simp only [h.splitSign_eq, h.digits?_eq]; rfl
  | plus h => simp only [splitSign, h.digits?_eq]; rfl
  | minus h => simp only [splitSign, h.digits?_eq]; rfl

theorem Denotes.decimal?_of_pos {text : List Char} {n : Int} (h : Denotes text n) (hn : 0 < n) :
    decimal? text = some (nearestFloat n.toNat 0) := by
  unfold decimal?
  cases h with
  | unsigned h => simp only [h.splitSign_eq, h.decimal?_eq]; rfl
  | plus h => simp only [splitSign, h.decimal?_eq]; rfl
  | minus h => omega

theorem Denotes.decimal?_of_neg {text : List Char} {n : Int} (h : Denotes text n) (hn : n < 0) :
    decimal? text = some (-nearestFloat n.natAbs 0) := by
  unfold decimal?
  cases h with
  | unsigned h => omega
  | plus h => omega
  | minus h => simp only [splitSign, h.decimal?_eq, Int.natAbs_neg]; rfl

/-! ## Integers as they are printed -/

theorem isBlank_of_isDigit {c : Char} (h : c.isDigit = true) : isBlank c = false := by
  have hlow : 48 ≤ c.toNat := by
    simp only [Char.isDigit, Bool.and_eq_true, decide_eq_true_eq] at h
    exact h.1
  have hhigh : c.toNat ≤ 57 := by
    simp only [Char.isDigit, Bool.and_eq_true, decide_eq_true_eq] at h
    exact h.2
  simp only [isBlank, blankRanges, List.any_eq_false, List.mem_cons, List.not_mem_nil, or_false,
    Bool.and_eq_true, decide_eq_true_eq]
  rintro range hrange ⟨hfrom, hto⟩
  rcases hrange with rfl | rfl | rfl | rfl | rfl | rfl | rfl | rfl | rfl | rfl <;>
    simp only at hfrom hto <;> omega

theorem trim_eq_self {text : List Char} (h : ∀ c ∈ text, isBlank c = false) : trim text = text := by
  have hdrop : ∀ cs : List Char, (∀ c ∈ cs, isBlank c = false) → cs.dropWhile isBlank = cs := by
    intro cs hcs
    rw [List.dropWhile_eq_self_iff]
    intro hpos
    simp [hcs _ (List.getElem_mem hpos)]
  unfold trim
  rw [hdrop text h, hdrop text.reverse (by simpa using h), List.reverse_reverse]

theorem digits_toDigits (n : Nat) : Digits (Nat.toDigits 10 n) :=
  ⟨Nat.toDigits_ne_nil, fun _ hc => Nat.isDigit_of_mem_toDigits (by decide) (by decide) hc⟩

end Text

namespace Value

open Text

/-- The text of an integer denotes it. -/
theorem denotes_intText (w : Int64) : Denotes (trim (intText w).toList) w.toInt := by
  unfold intText
  cases w.toInt with
  | ofNat n =>
    have hdigits := digits_toDigits n
    have hlist : (toString (Int.ofNat n)).toList = Nat.toDigits 10 n := Nat.toList_repr
    rw [hlist, trim_eq_self fun c hc => isBlank_of_isDigit (hdigits.2 c hc)]
    have hdenotes := Denotes.unsigned hdigits
    rw [Nat.ofDigitChars_ten_toDigits] at hdenotes
    exact hdenotes
  | negSucc n =>
    have hdigits := digits_toDigits (n + 1)
    have hlist : (toString (Int.negSucc n)).toList = '-' :: Nat.toDigits 10 (n + 1) := by
      show ("-" ++ (n + 1).repr).toList = _
      rw [String.toList_append, Nat.toList_repr]
      rfl
    rw [hlist, trim_eq_self]
    · have hdenotes := Denotes.minus hdigits
      rw [Nat.ofDigitChars_ten_toDigits] at hdenotes
      exact hdenotes
    · intro c hc
      rcases List.mem_cons.mp hc with rfl | hc
      · decide
      · exact isBlank_of_isDigit (hdigits.2 c hc)

/-! ## Conversion to an integer -/

/-- The integers below the range whose nearest double is the least integer. -/
def JustBelow (n : Int) : Prop := -2 ^ 63 - 2 ^ 10 ≤ n ∧ n < -2 ^ 63

instance (n : Int) : Decidable (JustBelow n) := inferInstanceAs (Decidable (_ ∧ _))

/-- Out of the range of integers, the conversion goes through the nearest double. -/
theorem truncate?_decimal?_of_denotes {text : List Char} {n : Int} (h : Denotes text n)
    (hn : ¬ InRange n) :
    (decimal? text).bind truncate? = if JustBelow n then some .minValue else none := by
  have hbelow : JustBelow n ↔ -2 ^ 63 - 2 ^ 10 ≤ n ∧ n < -2 ^ 63 := Iff.rfl
  unfold InRange at hn
  rcases Int.lt_or_gt_of_ne (show n ≠ 0 by omega) with hneg | hpos
  · have hle : n.natAbs ≤ 2 ^ 63 + 2 ^ 10 ↔ JustBelow n := by
      rw [hbelow]
      omega
    rw [h.decimal?_of_neg hneg, Option.bind_some, truncate?_neg_nearestFloat (by omega)]
    simp only [hle]
  · rw [h.decimal?_of_pos hpos, Option.bind_some, truncate?_nearestFloat (by omega),
      if_neg (mt hbelow.mp (by omega))]

theorem readInt?_of_denotes {s : String} {n : Int} (h : Denotes (trim s.toList) n) :
    readInt? s = if InRange n then some (.ofInt n)
      else if JustBelow n then some .minValue else none := by
  unfold readInt?
  simp only [h.integer?_eq, Option.bind_some]
  by_cases hrange : InRange n
  · rw [word?, if_pos hrange, if_pos hrange]
    rfl
  · rw [word?_eq_none_iff.mpr hrange, if_neg hrange, Option.none_or,
      truncate?_decimal?_of_denotes h hrange]

theorem cast_of_readInt?_some {s : String} {w : Int64} (h : readInt? s = some w) :
    (str s).cast .int = .ok (.int w) := by
  have hconvert : (str s).convert? .int = some (.int w) := by rw [convert?, h]; rfl
  simp only [cast, hconvert]

theorem cast_of_readInt?_none {s : String} (h : readInt? s = none) :
    (str s).cast .int = .error (.mismatch (.conversion (.str s) .int)) := by
  have hconvert : (str s).convert? .int = none := by rw [convert?, h]; rfl
  simp only [cast, hconvert]

theorem cast_of_inRange {s : String} {n : Int} (h : Denotes (trim s.toList) n)
    (hrange : InRange n) : ∃ w, (str s).cast .int = .ok (.int w) ∧ w.toInt = n := by
  have hread := readInt?_of_denotes h
  rw [if_pos hrange] at hread
  have hword : word? n = some (Int64.ofInt n) := if_pos hrange
  exact ⟨.ofInt n, cast_of_readInt?_some hread, toInt_word? hword⟩

theorem cast_of_justBelow {s : String} {n : Int} (h : Denotes (trim s.toList) n)
    (hbelow : JustBelow n) : (str s).cast .int = .ok (.int .minValue) := by
  have hread := readInt?_of_denotes h
  have hrange : ¬ InRange n := by
    unfold JustBelow at hbelow
    unfold InRange
    omega
  rw [if_neg hrange, if_pos hbelow] at hread
  exact cast_of_readInt?_some hread

theorem cast_of_not_inRange {s : String} {n : Int} (h : Denotes (trim s.toList) n)
    (hrange : ¬ InRange n) (hbelow : ¬ JustBelow n) :
    (str s).cast .int = .error (.mismatch (.conversion (.str s) .int)) := by
  have hread := readInt?_of_denotes h
  rw [if_neg hrange, if_neg hbelow] at hread
  exact cast_of_readInt?_none hread

/-- The text of an integer converts back to it. -/
theorem cast_string_cast_int (w : Int64) :
    ∃ s, (int w).cast .string = .ok (.str s) ∧ (str s).cast .int = .ok (.int w) := by
  obtain ⟨w', hcast, hint⟩ := cast_of_inRange (denotes_intText w) (inRange_toInt w)
  rw [Int64.toInt_inj.mp hint] at hcast
  exact ⟨intText w, rfl, hcast⟩

/-- **Integer strings convert exactly or not at all, except just below the range.** If
    the string denotes an integer that is not just below the range, it converts if and
    only if the integer is in range, and then to this integer; just below the range it
    converts to the least integer. Every integer is converted back from its text. -/
theorem cast_denoted {s : String} {n : Int} (h : Denotes (trim s.toList) n) (w : Int64) :
    (¬ JustBelow n → ((∃ v, (str s).cast .int = .ok v) ↔ InRange n)) ∧
      (InRange n → ∃ w, (str s).cast .int = .ok (.int w) ∧ w.toInt = n) ∧
      (JustBelow n → (str s).cast .int = .ok (.int .minValue)) ∧
      ∃ t, (int w).cast .string = .ok (.str t) ∧ (str t).cast .int = .ok (.int w) := by
  refine ⟨fun hbelow => ⟨?_, ?_⟩, cast_of_inRange h, cast_of_justBelow h, cast_string_cast_int w⟩
  · rintro ⟨v, hv⟩
    by_contra hrange
    rw [cast_of_not_inRange h hrange hbelow] at hv
    cases hv
  · intro hrange
    obtain ⟨w, hcast, -⟩ := cast_of_inRange h hrange
    exact ⟨_, hcast⟩

/-- White space around a signed number. -/
theorem cast_denoted_least :
    Denotes (trim " -9223372036854775808\n".toList) (-9223372036854775808) ∧
    InRange (-9223372036854775808) ∧
    ∃ w, (str " -9223372036854775808\n").cast .int = .ok (.int w) ∧
      w.toInt = -9223372036854775808 := by
  have h : Denotes (trim " -9223372036854775808\n".toList) (-9223372036854775808) := by
    have htrim : trim " -9223372036854775808\n".toList = '-' :: "9223372036854775808".toList := by
      decide
    rw [htrim]
    exact .minus ⟨by decide, by simp⟩
  exact ⟨h, by decide, (cast_denoted h 0).2.1 (by decide)⟩

/-- One below the least integer a string converts to the least integer. -/
theorem not_cast_denoted :
    ¬ ∀ (s : String) (n : Int), Denotes (trim s.toList) n →
      ((∃ v, (str s).cast .int = .ok v) ↔ InRange n) := by
  intro hexact
  have h : Denotes (trim "-9223372036854775809".toList) (-9223372036854775809) := by
    have htrim : trim "-9223372036854775809".toList = '-' :: "9223372036854775809".toList := by
      decide
    rw [htrim]
    exact .minus ⟨by decide, by simp⟩
  have hcast := cast_of_justBelow h (by decide)
  exact absurd ((hexact _ _ h).mp ⟨_, hcast⟩) (by decide)

end Value

end Scriptlet
