import Mathlib

/-!
# Identities of doubles

Not every identity of numbers holds of doubles: their zeros have signs, and
their sums and products are rounded. The ones below hold of all doubles,
infinities and NaN included. Each side rounds the same number, or nothing is
rounded at all.

Results:
* `Reads.pack_eq`: a word is packed from what it stands for.
* `roundWithAccuracy_scale`: rounding depends on a number and not on how it is
  scaled.
* `mul_one`, `one_mul`, `div_one`: a factor and a divisor of one.
* `mul_two`, `two_mul`: twice a number is its sum with itself.
* `div_two`: half a number is its product with `0.5`.
-/

namespace Scriptlet.Double

open Float.Model Float.Model.UnpackedFloat

/-! ## Words -/

/-- The words of doubles. -/
abbrev Word := BitVec Format.binary64.numBits

theorem toBitVec_ofBitVec (bit : BitVec 1) : (Sign.ofBitVec bit).toBitVec = bit := by
  revert bit
  decide

/-- A word is made of its sign, its exponent and its mantissa. -/
theorem packComponents_fields (b : Word) :
    packComponents .binary64 (Sign.ofBitVec (unpackSign b)) (unpackExponent b)
      (unpackMantissa b) = b := by
  unfold packComponents
  rw [toBitVec_ofBitVec]
  apply BitVec.eq_of_getElem_eq
  intro i hi
  simp only [unpackSign, unpackExponent, unpackMantissa, BitVec.cast_eq]
  grind

/-- What a word stands for, by its exponent and its mantissa. -/
inductive Reads (b : Word) : UnpackedFloat → Prop
  | infinity (he : unpackExponent b = -1#_) (hm : unpackMantissa b = 0#_) :
    Reads b (.infinity (Sign.ofBitVec (unpackSign b)))
  | notANumber (he : unpackExponent b = -1#_) (hm : unpackMantissa b ≠ 0#_) :
    Reads b .notANumber
  | zero (he : unpackExponent b = 0#_) (hm : unpackMantissa b = 0#_) :
    Reads b (.zero (Sign.ofBitVec (unpackSign b)))
  | subnormal (he : unpackExponent b = 0#_) (hpos : 0 < (unpackMantissa b).toNat) :
    Reads b (.finite (Sign.ofBitVec (unpackSign b)) (unpackMantissa b).toNat (-1074) hpos)
  | normal (hlow : 0 < (unpackExponent b).toNat) (hhigh : (unpackExponent b).toNat < 2047)
      (hpos : 0 < 2 ^ 52 + (unpackMantissa b).toNat) :
    Reads b (.finite (Sign.ofBitVec (unpackSign b)) (2 ^ 52 + (unpackMantissa b).toNat)
      ((unpackExponent b).toNat - 1075) hpos)

theorem reads_unpack (b : Word) : Reads b (UnpackedFloat.unpack .binary64 b) := by
  have hmantissa : (1#1 ++ unpackMantissa b).toNat = 2 ^ 52 + (unpackMantissa b).toNat := by
    rw [BitVec.toNat_append, ← Nat.shiftLeft_add_eq_or_of_lt (unpackMantissa b).isLt]
    rfl
  unfold UnpackedFloat.unpack
  dsimp only
  split
  · next htop =>
    split
    · next hzero => exact .infinity htop hzero
    · next hzero => exact .notANumber htop hzero
  · next htop =>
    split
    · next hbottom =>
      split
      · next hzero => exact .zero hbottom hzero
      · next hzero =>
        have hpos : 0 < (unpackMantissa b).toNat :=
          Nat.pos_of_ne_zero fun h => hzero (BitVec.toNat_inj.mp h)
        simp only [hbottom]
        exact .subnormal hbottom hpos
    · next hbottom =>
      have hlow : 0 < (unpackExponent b).toNat :=
        Nat.pos_of_ne_zero fun h => hbottom (BitVec.toNat_inj.mp h)
      have hhigh : (unpackExponent b).toNat < 2047 := by
        have hlt : (unpackExponent b).toNat < 2 ^ 11 := (unpackExponent b).isLt
        have hne : (unpackExponent b).toNat ≠ 2047 := fun h => htop (BitVec.toNat_inj.mp h)
        omega
      simp only [hmantissa]
      exact .normal hlow hhigh (by omega)

theorem log2_eq {m k : Nat} (hlow : 2 ^ k ≤ m) (hhigh : m < 2 ^ (k + 1)) : m.log2 = k := by
  have hpos : 0 < 2 ^ k := Nat.two_pow_pos k
  exact (Nat.log2_eq_iff (by omega)).mpr ⟨hlow, hhigh⟩

/-- **A word is packed from what it stands for.** -/
theorem Reads.pack_eq {b : Word} {x : UnpackedFloat} (hb : Reads b x)
    (hvalid : Format.binary64.Valid b) : UnpackedFloat.pack .binary64 x = b := by
  have hfields := packComponents_fields b
  have hlt : (unpackMantissa b).toNat < 2 ^ 52 := (unpackMantissa b).isLt
  have hbits : Format.binary64.mantissaBits = 53 := rfl
  have hbias : Format.binary64.exponentBias = 1023 := rfl
  cases hb with
  | infinity he hm =>
    rw [he, hm] at hfields
    exact hfields
  | notANumber he hm => exact (hvalid.eq_packedNaN he hm).symm
  | zero he hm =>
    rw [he, hm] at hfields
    exact hfields
  | subnormal he hpos =>
    have hlog : (unpackMantissa b).toNat.log2 < 52 := (Nat.log2_lt (by omega)).mpr hlt
    rw [he] at hfields
    rw [UnpackedFloat.pack]
    simp only [hbias, hbits]
    rw [if_neg (by omega), if_neg (by omega), BitVec.ofNat_toNat, BitVec.setWidth_eq]
    exact hfields
  | normal hlow hhigh hpos =>
    have hlog : (2 ^ 52 + (unpackMantissa b).toNat).log2 = 52 := log2_eq (by omega) (by omega)
    have hexponent : BitVec.ofNat 11 (((unpackExponent b).toNat : Int) - 1075 + (1023 : Nat) +
        (52 : Nat)).toNat = unpackExponent b := by
      apply BitVec.eq_of_toNat_eq
      rw [BitVec.toNat_ofNat]
      omega
    have hmantissa : BitVec.ofNat 52 (2 ^ 52 + (unpackMantissa b).toNat) = unpackMantissa b := by
      apply BitVec.eq_of_toNat_eq
      rw [BitVec.toNat_ofNat]
      omega
    rw [UnpackedFloat.pack]
    simp only [hbias, hbits]
    rw [if_neg (by omega), if_pos (by omega), hexponent, hmantissa]
    exact hfields

/-- A mantissa and an exponent of a double: the mantissa has 53 bits, and fewer
    only at the least exponent. -/
structure Canonical (m : Nat) (e : Int) : Prop where
  pos : 0 < m
  lt : m < 2 ^ 53
  low : -1074 ≤ e
  full : 2 ^ 52 ≤ m ∨ e = -1074

/-- What a double may stand for. -/
inductive Representable : UnpackedFloat → Prop
  | infinity (s : Sign) : Representable (.infinity s)
  | notANumber : Representable .notANumber
  | zero (s : Sign) : Representable (.zero s)
  | finite (s : Sign) {m : Nat} {e : Int} (h : Canonical m e) :
    Representable (.finite s m e h.pos)

theorem Reads.representable {b : Word} {x : UnpackedFloat} (hb : Reads b x) :
    Representable x := by
  have hlt : (unpackMantissa b).toNat < 2 ^ 52 := (unpackMantissa b).isLt
  cases hb with
  | infinity => exact .infinity _
  | notANumber => exact .notANumber
  | zero => exact .zero _
  | subnormal he hpos => exact .finite _ ⟨hpos, by omega, by omega, .inr rfl⟩
  | normal hlow hhigh hpos => exact .finite _ ⟨hpos, by omega, by omega, .inl (by omega)⟩

theorem representable_unpack (x : Float) : Representable x.toModel.unpack :=
  (reads_unpack x.toModel.toBits.toBitVec).representable

theorem ofModel_pack_unpack (x : Float) : Float.ofModel (Float.Model.pack x.toModel.unpack) = x := by
  obtain ⟨bits, hvalid⟩ := x
  have hpack := (reads_unpack bits.toBitVec).pack_eq hvalid
  unfold Float.Model.pack Float.Model.unpack
  simp only [hpack]

theorem eq_of_unpack_eq {x y : Float} (h : x.toModel.unpack = y.toModel.unpack) : x = y := by
  rw [← ofModel_pack_unpack x, h, ofModel_pack_unpack]

/-- Positive numbers that compare as equal are equal; of zeros this fails. -/
theorem eq_of_beq {x y : Float} {m : Nat} {e : Int} {h : 0 < m}
    (hy : y.toModel.unpack = .finite .positive m e h) (hxy : (x == y) = true) : x = y := by
  have hcompare : (x.toModel.unpack.compare y.toModel.unpack == some .eq) = true := hxy
  rw [hy] at hcompare
  apply eq_of_unpack_eq
  rw [hy]
  cases hx : x.toModel.unpack with
  | finite s m' e' h' =>
    rw [hx] at hcompare
    cases s with
    | negative => cases hcompare
    | positive =>
      simp only [UnpackedFloat.compare, beq_iff_eq, Option.some.injEq,
        Ordering.then_eq_eq, compare_eq_iff_eq] at hcompare
      obtain ⟨rfl, rfl⟩ := hcompare
      rfl
  | infinity s => rw [hx] at hcompare; cases s <;> cases hcompare
  | notANumber => rw [hx] at hcompare; cases hcompare
  | zero s => rw [hx] at hcompare; cases hcompare

/-! ## Rounding -/

theorem shiftRight_succ (em : ExtendedMantissa) (n : Nat) :
    em >>> (n + 1) = (em >>> n).shiftRightOne := rfl

theorem shiftRight_add (em : ExtendedMantissa) (m n : Nat) :
    em >>> (m + n) = (em >>> m) >>> n := by
  induction n with
  | zero => rfl
  | succ n ih => rw [← Nat.add_assoc, shiftRight_succ, ih, shiftRight_succ]

/-- No bit is lost where only zeros are shifted out. -/
theorem shiftRight_mul_pow (m k : Nat) :
    (⟨m * 2 ^ k, false, false⟩ : ExtendedMantissa) >>> k = ⟨m, false, false⟩ := by
  induction k generalizing m with
  | zero =>
    rw [Nat.pow_zero, Nat.mul_one]
    rfl
  | succ k ih =>
    have hsplit : m * 2 ^ (k + 1) = m * 2 * 2 ^ k := by
      rw [Nat.pow_succ, Nat.mul_comm (2 ^ k) 2, Nat.mul_assoc]
    rw [shiftRight_succ, hsplit, ih]
    simp [ExtendedMantissa.shiftRightOne]

/-- The exponent at which `m · 2 ^ e` is rounded. -/
def target (m : Nat) (e : Int) : Int := max ((m.log2 : Int) + 1 + e - 53) (-1074)

theorem targetExponent_eq (m : Nat) (e : Int) :
    Format.binary64.targetExponent (totalExponent m e) = target m e := rfl

theorem target_mul_pow {m : Nat} (hpos : 0 < m) (e : Int) (k : Nat) :
    target (m * 2 ^ k) (e - k) = target m e := by
  have hlog : (m * 2 ^ k).log2 = m.log2 + k := by
    have hlow : 2 ^ m.log2 ≤ m := Nat.log2_self_le (Nat.ne_of_gt hpos)
    have hhigh : m < 2 ^ (m.log2 + 1) := Nat.lt_log2_self
    apply log2_eq
    · rw [Nat.pow_add]
      exact Nat.mul_le_mul_right _ hlow
    · rw [Nat.add_right_comm, Nat.pow_add 2 (m.log2 + 1)]
      exact Nat.mul_lt_mul_of_pos_right hhigh (Nat.two_pow_pos k)
  unfold target
  rw [hlog]
  omega

theorem shiftToTargetExponent_scale {m : Nat} (hpos : 0 < m) {e : Int} (k : Nat)
    (he : e ≤ target m e) :
    shiftToTargetExponent .binary64 (m * 2 ^ k) (e - k) .exact =
      shiftToTargetExponent .binary64 m e .exact := by
  have hamount : (target m e - (e - k)).toNat = k + (target m e - e).toNat := by omega
  unfold shiftToTargetExponent shiftToExponent
  rw [targetExponent_eq, targetExponent_eq]
  simp only [target_mul_pow hpos, hamount,
    ExtendedMantissa.ofMantissaAndAccuracy, shiftRight_add, shiftRight_mul_pow]
  congr 1
  omega

/-- **Rounding depends on a number and not on how it is scaled.** -/
theorem roundWithAccuracy_scale (s : Sign) {m : Nat} (hpos : 0 < m) {e : Int} (k : Nat)
    (he : e ≤ target m e) :
    roundWithAccuracy .binary64 s (m * 2 ^ k) (e - k) .exact =
      roundWithAccuracy .binary64 s m e .exact := by
  unfold roundWithAccuracy
  rw [shiftToTargetExponent_scale hpos k he]

namespace Canonical

variable {m : Nat} {e : Int}

theorem log2_lt (h : Canonical m e) : m.log2 < 53 :=
  (Nat.log2_lt (Nat.ne_of_gt h.pos)).mpr h.lt

theorem target_eq (h : Canonical m e) : target m e = e := by
  have hlog := h.log2_lt
  have hlow := h.low
  unfold target
  rcases h.full with hfull | rfl
  · have hfull : m.log2 = 52 := log2_eq hfull h.lt
    omega
  · omega

theorem shiftToTargetExponent_eq (h : Canonical m e) :
    shiftToTargetExponent .binary64 m e .exact = (⟨m, false, false⟩, e) := by
  have hexponent : e + ((0 : Int).toNat : Int) = e := by simp
  unfold shiftToTargetExponent shiftToExponent
  rw [targetExponent_eq]
  simp only [h.target_eq, Int.sub_self]
  rw [hexponent]
  rfl

/-- A double is its own rounding. -/
theorem roundWithAccuracy_eq (h : Canonical m e) (s : Sign) :
    roundWithAccuracy .binary64 s m e .exact = .finite s m e h.pos := by
  have hne : m ≠ 0 := Nat.ne_of_gt h.pos
  unfold roundWithAccuracy
  simp only [h.shiftToTargetExponent_eq, ExtendedMantissa.roundedMantissa,
    ExtendedMantissa.accuracy, Accuracy.roundToNearestEven, dif_neg hne]

end Canonical

/-! ## Products and sums -/

theorem mul_positive (s : Sign) : s * .positive = s := by cases s <;> rfl

theorem div_positive (s : Sign) : s / .positive = s := by cases s <;> rfl

/-- Two to the power `j`. -/
def power (j : Int) : UnpackedFloat := .finite .positive (2 ^ 52) (j - 52) (by decide)

theorem unpack_one : (1 : Float).toModel.unpack = power 0 := rfl

theorem unpack_two : (2 : Float).toModel.unpack = power 1 := rfl

theorem unpack_half : (0.5 : Float).toModel.unpack = power (-1) := rfl

theorem add_eq (x y : Float) : x + y = Float.ofModel (Float.Model.pack
    (UnpackedFloat.add .binary64 x.toModel.unpack y.toModel.unpack)) := rfl

theorem mul_eq (x y : Float) : x * y = Float.ofModel (Float.Model.pack
    (UnpackedFloat.mul .binary64 x.toModel.unpack y.toModel.unpack)) := rfl

theorem div_eq (x y : Float) : x / y = Float.ofModel (Float.Model.pack
    (UnpackedFloat.div .binary64 x.toModel.unpack y.toModel.unpack)) := rfl

theorem unpacked_mul_comm (x y : UnpackedFloat) :
    UnpackedFloat.mul .binary64 x y = UnpackedFloat.mul .binary64 y x := by
  have hsign : ∀ s t : Sign, s * t = t * s := by
    intro s t
    cases s <;> cases t <;> rfl
  cases x <;> cases y <;>
    simp only [UnpackedFloat.mul, hsign, Nat.mul_comm, Int.add_comm]

protected theorem mul_comm (x y : Float) : x * y = y * x := by
  rw [mul_eq, mul_eq, unpacked_mul_comm]

/-- A product with a power of two rounds the mantissa at another exponent. -/
theorem Canonical.mul_power {m : Nat} {e j : Int} (h : Canonical m e) (s : Sign)
    (hj : e + j ≤ target m (e + j)) :
    UnpackedFloat.mul .binary64 (.finite s m e h.pos) (power j) =
      roundWithAccuracy .binary64 s m (e + j) .exact := by
  have hexponent : e + (j - 52) = e + j - (52 : Nat) := by omega
  rw [power, UnpackedFloat.mul, mul_positive, hexponent]
  exact roundWithAccuracy_scale s h.pos 52 hj

theorem unpacked_mul_one {x : UnpackedFloat} (hx : Representable x) :
    UnpackedFloat.mul .binary64 x (power 0) = x := by
  cases hx with
  | infinity s => rw [power, UnpackedFloat.mul, mul_positive]
  | notANumber => rfl
  | zero s => rw [power, UnpackedFloat.mul, mul_positive]
  | @finite s m e h =>
    have htarget := h.target_eq
    calc UnpackedFloat.mul .binary64 (.finite s m e h.pos) (power 0)
        = roundWithAccuracy .binary64 s m (e + 0) .exact :=
          h.mul_power s (by rw [Int.add_zero, htarget])
      _ = .finite s m e h.pos := by rw [Int.add_zero, h.roundWithAccuracy_eq s]

protected theorem mul_one (x : Float) : x * 1 = x := by
  rw [mul_eq, unpack_one, unpacked_mul_one (representable_unpack x), ofModel_pack_unpack]

protected theorem one_mul (x : Float) : 1 * x = x := by
  rw [Double.mul_comm, Double.mul_one]

/-- Twice a number is rounded at an exponent that is no less. -/
theorem Canonical.le_target_two_mul {m : Nat} {e : Int} (h : Canonical m e) :
    e ≤ target (2 * m) e := by
  have htarget := h.target_eq
  have hlog : (2 * m).log2 = m.log2 + 1 := Nat.log2_two_mul (Nat.ne_of_gt h.pos)
  unfold target at htarget ⊢
  omega

/-- A number is added to itself by doubling its mantissa. -/
theorem unpacked_add_self {m : Nat} {e : Int} (h : Canonical m e) (s : Sign) :
    UnpackedFloat.add .binary64 (.finite s m e h.pos) (.finite s m e h.pos) =
      roundWithAccuracy .binary64 s (2 * m) e .exact := by
  have hpos := h.pos
  have hround : UnpackedFloat.round .binary64 s (2 * m) e =
      roundWithAccuracy .binary64 s (2 * m) e .exact := by
    have hle := h.le_target_two_mul
    have hamount : (e - target (2 * m) e).toNat = 0 := by omega
    have hexponent : e - ((0 : Nat) : Int) = e := by omega
    unfold UnpackedFloat.round decreaseExponent
    rw [targetExponent_eq]
    simp only [hamount, hexponent]
    rfl
  rw [UnpackedFloat.add]
  simp only [decreaseExponent, Int.min_self, Int.sub_self, Int.toNat_zero, Nat.shiftLeft_zero]
  unfold UnpackedFloat.normalize
  cases s with
  | negative =>
    have hlt : compare (-(m : Int) + -(m : Int)) 0 = .lt := compare_lt_iff_lt.mpr (by omega)
    have hmantissa : (-(-(m : Int) + -(m : Int))).toNat = 2 * m := by omega
    simp only [Sign.apply, hlt, hmantissa]
    exact hround
  | positive =>
    have hgt : compare ((m : Int) + (m : Int)) 0 = .gt := compare_gt_iff_gt.mpr (by omega)
    have hmantissa : ((m : Int) + (m : Int)).toNat = 2 * m := by omega
    simp only [Sign.apply, hgt, hmantissa]
    exact hround

theorem unpacked_mul_two {x : UnpackedFloat} (hx : Representable x) :
    UnpackedFloat.mul .binary64 x (power 1) = UnpackedFloat.add .binary64 x x := by
  have hsame : ∀ s : Sign, (s == s) = true := by
    intro s
    cases s <;> rfl
  cases hx with
  | infinity s =>
    rw [power, UnpackedFloat.mul, UnpackedFloat.add, mul_positive, if_pos (hsame s)]
  | notANumber => rfl
  | zero s => rw [power, UnpackedFloat.mul, UnpackedFloat.add, mul_positive, if_pos (hsame s)]
  | @finite s m e h =>
    -- a subnormal number has room for another bit, so it is the mantissa that doubles
    have hpos := h.pos
    have hmantissa : m * 2 ^ 52 = 2 * m * 2 ^ 51 := by omega
    have hexponent : e + (1 - 52) = e - (51 : Nat) := by omega
    rw [unpacked_add_self h, power, UnpackedFloat.mul, mul_positive, hmantissa, hexponent]
    exact roundWithAccuracy_scale s (by omega) 51 h.le_target_two_mul

protected theorem mul_two (x : Float) : x * 2 = x + x := by
  rw [mul_eq, add_eq, unpack_two, unpacked_mul_two (representable_unpack x)]

protected theorem two_mul (x : Float) : 2 * x = x + x := by
  rw [Double.mul_comm, Double.mul_two]

/-! ## Quotients -/

/-- The exponent of the quotient of `m · 2 ^ e` by `2 ^ j`. -/
theorem quotientExponent_eq (m : Nat) (e j : Int) :
    min (e - (j - 52)) (Format.binary64.targetExponent
      (totalExponent m e - totalExponent (2 ^ 52) (j - 52))) =
      min (e - j + 52) (max ((m.log2 : Int) + e - j - 53) (-1074)) := by
  have hlog : (2 ^ 52 : Nat).log2 = 52 := rfl
  have hbits : (Format.binary64.mantissaBits : Int) = 53 := rfl
  have hmin : Format.binary64.minExponent = -1074 := rfl
  unfold Format.targetExponent totalExponent
  rw [hlog, hbits, hmin]
  omega

/-- A quotient by a power of two rounds the mantissa at another exponent, if the
    quotient has room for all bits of the mantissa. -/
theorem Canonical.div_power {m : Nat} {e j : Int} (h : Canonical m e) (s : Sign)
    (hj : e - j ≤ target m (e - j)) (hroom : -1074 ≤ e - j) :
    UnpackedFloat.div .binary64 (.finite s m e h.pos) (power j) =
      roundWithAccuracy .binary64 s m (e - j) .exact := by
  have hlog := h.log2_lt
  generalize hd : (e - j - max ((m.log2 : Int) + e - j - 53) (-1074)).toNat = d
  have hexponent : min (e - j + 52) (max ((m.log2 : Int) + e - j - 53) (-1074)) = e - j - d := by
    omega
  have hamount : (e - (j - 52) - (e - j - d)).toNat = d + 52 := by omega
  have hmantissa : m <<< (d + 52) = m * 2 ^ d * 2 ^ 52 := by
    rw [Nat.shiftLeft_eq, Nat.pow_add, Nat.mul_assoc]
  have hcore : divCore .binary64 m e (2 ^ 52) (j - 52) = (m * 2 ^ d, e - j - d, .exact) := by
    unfold divCore
    simp only [quotientExponent_eq, hexponent, hamount, hmantissa]
    rw [Nat.mul_div_cancel _ (Nat.two_pow_pos 52), Nat.mul_mod_left]
    rfl
  rw [power, UnpackedFloat.div, div_positive]
  simp only [hcore]
  exact roundWithAccuracy_scale s h.pos d hj

theorem unpacked_div_one {x : UnpackedFloat} (hx : Representable x) :
    UnpackedFloat.div .binary64 x (power 0) = x := by
  cases hx with
  | infinity s => rw [power, UnpackedFloat.div, div_positive]
  | notANumber => rfl
  | zero s => rw [power, UnpackedFloat.div, div_positive]
  | @finite s m e h =>
    have htarget := h.target_eq
    have hlow := h.low
    calc UnpackedFloat.div .binary64 (.finite s m e h.pos) (power 0)
        = roundWithAccuracy .binary64 s m (e - 0) .exact :=
          h.div_power s (by rw [Int.sub_zero, htarget]) (by omega)
      _ = .finite s m e h.pos := by rw [Int.sub_zero, h.roundWithAccuracy_eq s]

protected theorem div_one (x : Float) : x / 1 = x := by
  rw [div_eq, unpack_one, unpacked_div_one (representable_unpack x), ofModel_pack_unpack]

/-- Half a number at the least exponent: the last bit is lost, and kept as what
    the rounding depends on. -/
theorem shiftToTargetExponent_half {m : Nat} (hpos : 0 < m) (hlt : m < 2 ^ 53) :
    shiftToTargetExponent .binary64 (m / 2) (-1074)
      (accuracyOfFraction (m * 2 ^ 51 % 2 ^ 52) (2 ^ 52)) =
        shiftToTargetExponent .binary64 m (-1075) .exact := by
  have hlog : m.log2 < 53 := (Nat.log2_lt (Nat.ne_of_gt hpos)).mpr hlt
  have hlog' : (m / 2).log2 ≤ 52 := by
    rcases Nat.eq_zero_or_pos (m / 2) with hzero | hhalf
    · rw [hzero]
      decide
    · exact Nat.le_of_lt_succ ((Nat.log2_lt (Nat.ne_of_gt hhalf)).mpr (by omega))
  have htarget : target m (-1075) = -1074 := by
    unfold target
    omega
  have htarget' : target (m / 2) (-1074) = -1074 := by
    unfold target
    omega
  have hbits : ExtendedMantissa.shiftRightOne ⟨m, false, false⟩ =
      .ofMantissaAndAccuracy (m / 2) (accuracyOfFraction (m * 2 ^ 51 % 2 ^ 52) (2 ^ 52)) := by
    rcases Nat.mod_two_eq_zero_or_one m with heven | hodd
    · have hrest : m * 2 ^ 51 % 2 ^ 52 = 0 := by omega
      rw [hrest]
      simp [ExtendedMantissa.shiftRightOne, heven, accuracyOfFraction,
        ExtendedMantissa.ofMantissaAndAccuracy]
    · have hrest : m * 2 ^ 51 % 2 ^ 52 = 2 ^ 51 := by omega
      rw [hrest]
      simp [ExtendedMantissa.shiftRightOne, hodd, accuracyOfFraction,
        ExtendedMantissa.ofMantissaAndAccuracy, compare, compareOfLessAndEq]
  unfold shiftToTargetExponent shiftToExponent
  rw [targetExponent_eq, targetExponent_eq]
  simp only [htarget, htarget', ← hbits]
  rfl

theorem Canonical.div_two {m : Nat} (h : Canonical m (-1074)) (s : Sign) :
    UnpackedFloat.div .binary64 (.finite s m (-1074) h.pos) (power 1) =
      roundWithAccuracy .binary64 s m (-1075) .exact := by
  have hlog := h.log2_lt
  have hexponent : min (-1074 - 1 + 52) (max ((m.log2 : Int) + -1074 - 1 - 53) (-1074)) =
      -1074 := by omega
  have hamount : ((-1074 : Int) - (1 - 52) - -1074).toNat = 51 := rfl
  have hmantissa : m * 2 ^ 51 / 2 ^ 52 = m / 2 := by omega
  have hcore : divCore .binary64 m (-1074) (2 ^ 52) (1 - 52) =
      (m / 2, -1074, accuracyOfFraction (m * 2 ^ 51 % 2 ^ 52) (2 ^ 52)) := by
    unfold divCore
    simp only [quotientExponent_eq, hexponent, hamount]
    rw [Nat.shiftLeft_eq, hmantissa]
  rw [power, UnpackedFloat.div, div_positive]
  simp only [hcore]
  unfold roundWithAccuracy
  rw [shiftToTargetExponent_half h.pos h.lt]

theorem unpacked_div_two {x : UnpackedFloat} (hx : Representable x) :
    UnpackedFloat.div .binary64 x (power 1) = UnpackedFloat.mul .binary64 x (power (-1)) := by
  cases hx with
  | infinity s =>
    rw [power, power, UnpackedFloat.div, UnpackedFloat.mul, div_positive, mul_positive]
  | notANumber => rfl
  | zero s => rw [power, power, UnpackedFloat.div, UnpackedFloat.mul, div_positive, mul_positive]
  | @finite s m e h =>
    have htarget := h.target_eq
    have hlow := h.low
    have hle : e - 1 ≤ target m (e - 1) := by
      unfold target at htarget ⊢
      omega
    rw [h.mul_power s hle]
    -- only at the least exponent a bit may be lost
    by_cases hbottom : e = -1074
    · subst hbottom
      exact h.div_two s
    · exact h.div_power s hle (by omega)

protected theorem div_two (x : Float) : x / 2 = x * 0.5 := by
  rw [div_eq, mul_eq, unpack_two, unpack_half, unpacked_div_two (representable_unpack x)]

end Scriptlet.Double
