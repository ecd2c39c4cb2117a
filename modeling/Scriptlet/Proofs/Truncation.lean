import Mathlib
import Scriptlet.Proofs.Doubles
import Scriptlet.Text.Numeral

/-!
# Integers out of range as doubles

A double has 53 bits, so an integer that is out of the range of 64-bit words loses
at least its last 11 bits when it becomes a double. Which integer the double is then
truncated to depends on how these bits are rounded. Above the range the double is
never less than `2 ^ 63`, which is out of range as well. Below the range it may be
`-2 ^ 63`, which is not: the integers up to `2 ^ 10` below lie as near to it as to the
next double, and of two equally near it is the one with the even mantissa.

Results:
* `Canonical.unpack_pack`: a number keeps its parts when it is packed.
* `ofFloat?_eq`: the parts of a double are those it is unpacked to.
* `roundedMantissa_shiftRight`: the bits kept are those of the nearest number.
* `exists_roundWithAccuracy`: the double nearest to an integer of at least `2 ^ 63`.
* `truncate?_nearestFloat`, `truncate?_neg_nearestFloat`: what an integer out of range
  is truncated to by way of the nearest double.
-/

namespace Scriptlet

open Float.Model Float.Model.UnpackedFloat

namespace Double

/-! ## Packing and unpacking -/

theorem ofBitVec_toBitVec (s : Sign) : Sign.ofBitVec s.toBitVec = s := by
  cases s <;> rfl

theorem unpackSign_packComponents (s : Sign) (e : BitVec 11) (m : BitVec 52) :
    unpackSign (packComponents .binary64 s e m) = s.toBitVec := by
  have hextract : (s.toBitVec ++ e ++ m).extractLsb' 63 1 = s.toBitVec := by
    rw [BitVec.extractLsb'_append_eq_of_le (by decide),
      BitVec.extractLsb'_append_eq_of_le (by decide)]
    cases s <;> rfl
  exact hextract

/-- A word stands for one thing only. -/
theorem Reads.unpack_eq {b : Word} {x : UnpackedFloat} (hb : Reads b x) :
    UnpackedFloat.unpack .binary64 b = x := by
  have hunpack := reads_unpack b
  generalize UnpackedFloat.unpack .binary64 b = y at hunpack
  have htop : (-1#11).toNat = 2047 := rfl
  cases hb <;> cases hunpack <;> simp_all
  case zero.subnormal hpos hm _ => exact absurd (congrArg BitVec.toNat hm) (Nat.ne_of_gt hpos)
  case subnormal.zero hpos _ hm => exact absurd (congrArg BitVec.toNat hm) (Nat.ne_of_gt hpos)

theorem reads_packComponents (s : Sign) (e : BitVec 11) (m : BitVec 52) (hlow : 0 < e.toNat)
    (hhigh : e.toNat < 2047) :
    Reads (packComponents .binary64 s e m)
      (.finite s (2 ^ 52 + m.toNat) (e.toNat - 1075) (by omega)) := by
  have hnormal := Reads.normal (b := packComponents .binary64 s e m)
  simp only [unpackSign_packComponents, unpackExponent_packComponents,
    unpackMantissa_packComponents, ofBitVec_toBitVec] at hnormal
  exact hnormal hlow hhigh (by omega)

/-- A number whose mantissa is full keeps its parts when it is packed. -/
theorem Canonical.unpack_pack {m : Nat} {e : Int} (h : Canonical m e) (hfull : 2 ^ 52 ≤ m)
    (he : e ≤ 971) (s : Sign) :
    UnpackedFloat.unpack .binary64 (UnpackedFloat.pack .binary64 (.finite s m e h.pos)) =
      .finite s m e h.pos := by
  have hlt := h.lt
  have hlow := h.low
  obtain ⟨exponent, hexponent⟩ : ∃ b : BitVec 11, b.toNat = (e + 1075).toNat :=
    ⟨BitVec.ofNat 11 (e + 1075).toNat, by rw [BitVec.toNat_ofNat]; omega⟩
  obtain ⟨mantissa, hmantissa⟩ : ∃ b : BitVec 52, b.toNat = m - 2 ^ 52 :=
    ⟨BitVec.ofNat 52 m, by rw [BitVec.toNat_ofNat]; omega⟩
  have hreads := reads_packComponents s exponent mantissa (by omega) (by omega)
  have hm : 2 ^ 52 + mantissa.toNat = m := by omega
  have he : (exponent.toNat : Int) - 1075 = e := by omega
  simp only [hm, he] at hreads
  have hvalid : Format.binary64.Valid (packComponents .binary64 s exponent mantissa) := by
    refine ⟨fun htop => ?_⟩
    rw [unpackExponent_packComponents] at htop
    have htop : exponent.toNat = 2047 := by rw [htop]; rfl
    omega
  rw [hreads.pack_eq hvalid, hreads.unpack_eq]

theorem unpack_pack_infinity (s : Sign) :
    UnpackedFloat.unpack .binary64 (UnpackedFloat.pack .binary64 (.infinity s)) = .infinity s := by
  cases s <;> rfl

/-- A number with too large an exponent is packed as infinity. -/
theorem Canonical.pack_overflow {m : Nat} {e : Int} (h : Canonical m e) (he : 971 < e) (s : Sign) :
    UnpackedFloat.pack .binary64 (.finite s m e h.pos) =
      UnpackedFloat.pack .binary64 (.infinity s) := by
  have hbias : Format.binary64.exponentBias = 1023 := rfl
  rw [UnpackedFloat.pack, UnpackedFloat.pack]
  simp only [hbias]
  rw [if_pos (by omega)]

/-! ## Bits shifted out -/

theorem shiftRight_eq (m k : Nat) :
    (⟨m, false, false⟩ : ExtendedMantissa) >>> (k + 1) =
      ⟨m / 2 ^ (k + 1), m / 2 ^ k % 2 != 0, m % 2 ^ k != 0⟩ := by
  induction k with
  | zero =>
    have hzero : (⟨m, false, false⟩ : ExtendedMantissa) >>> 0 = ⟨m, false, false⟩ := rfl
    rw [shiftRight_succ, hzero]
    simp [ExtendedMantissa.shiftRightOne, Nat.mod_one]
  | succ k ih =>
    have hpos : 0 < 2 ^ k := Nat.two_pow_pos k
    have hrest : (m % 2 ^ (k + 1) != 0) = ((m / 2 ^ k % 2 != 0) || (m % 2 ^ k != 0)) := by
      rw [Nat.pow_succ, Nat.mod_mul, Bool.eq_iff_iff]
      simp
      tauto
    rw [shiftRight_succ, ih, ExtendedMantissa.shiftRightOne, hrest]
    simp only [Nat.div_div_eq_div_mul, ← Nat.pow_succ]

/-- The bits that are kept are those of the nearest number. -/
theorem roundedMantissa_shiftRight (m k : Nat) :
    ((⟨m, false, false⟩ : ExtendedMantissa) >>> (k + 1)).roundedMantissa =
      if m % 2 ^ (k + 1) < 2 ^ k then m / 2 ^ (k + 1)
      else if m % 2 ^ (k + 1) = 2 ^ k then m / 2 ^ (k + 1) + m / 2 ^ (k + 1) % 2
      else m / 2 ^ (k + 1) + 1 := by
  have hsplit : m % 2 ^ (k + 1) = m % 2 ^ k + 2 ^ k * (m / 2 ^ k % 2) := by
    rw [Nat.pow_succ, Nat.mod_mul]
  have hpos : 0 < 2 ^ k := Nat.two_pow_pos k
  have hlt : m % 2 ^ k < 2 ^ k := Nat.mod_lt m hpos
  have hsticky : m % 2 ^ k = 0 ∧ (m % 2 ^ k != 0) = false ∨
      0 < m % 2 ^ k ∧ (m % 2 ^ k != 0) = true := by
    by_cases hzero : m % 2 ^ k = 0 <;> simp [hzero, Nat.pos_iff_ne_zero]
  rw [shiftRight_eq, hsplit]
  rcases Nat.mod_two_eq_zero_or_one (m / 2 ^ k) with hbit | hbit <;>
    rcases hsticky with ⟨hrest, hsticky⟩ | ⟨hrest, hsticky⟩ <;>
    simp [ExtendedMantissa.roundedMantissa, ExtendedMantissa.accuracy,
      Accuracy.roundToNearestEven, hbit, hsticky, hlt, hrest, Nat.ne_of_gt]

/-- An integer of `k + 54` bits loses the last `k + 1` of them. -/
theorem shiftToTargetExponent_large {m k : Nat} (hk : m.log2 = k + 53) :
    shiftToTargetExponent .binary64 m 0 .exact =
      ((⟨m, false, false⟩ : ExtendedMantissa) >>> (k + 1), (k : Int) + 1) := by
  have htarget : target m 0 = (k : Int) + 1 := by
    unfold target
    omega
  have hamount : ((k : Int) + 1 - 0).toNat = k + 1 := by omega
  unfold shiftToTargetExponent shiftToExponent
  rw [targetExponent_eq]
  simp only [htarget, hamount, ExtendedMantissa.ofMantissaAndAccuracy]
  congr 1
  omega

/-- A mantissa that is rounded up to the next power of two moves to the next
    exponent. -/
theorem shiftToTargetExponent_carry {e : Int} (he : -1074 ≤ e) :
    shiftToTargetExponent .binary64 (2 ^ 53) e .exact = (⟨2 ^ 52, false, false⟩, e + 1) := by
  have htarget : target (2 ^ 53) e = e + 1 := by
    have hlog : (2 ^ 53 : Nat).log2 = 53 := rfl
    unfold target
    omega
  have hamount : (e + 1 - e).toNat = 1 := by omega
  unfold shiftToTargetExponent shiftToExponent
  rw [targetExponent_eq]
  simp only [htarget, hamount]
  rfl

/-- **The double nearest to an integer of at least `2 ^ 63`**: it is `2 ^ 63`
    itself just for the integers up to `2 ^ 63 + 2 ^ 10`. -/
theorem exists_roundWithAccuracy {m : Nat} (hm : 2 ^ 63 ≤ m) :
    ∃ (q : Nat) (e : Int) (h : Canonical q e), 2 ^ 52 ≤ q ∧ 11 ≤ e ∧
      (q = 2 ^ 52 ∧ e = 11 ↔ m ≤ 2 ^ 63 + 2 ^ 10) ∧
      ∀ s, roundWithAccuracy .binary64 s m 0 .exact = .finite s q e h.pos := by
  have hlog : 63 ≤ m.log2 := (Nat.le_log2 (by omega)).mpr hm
  obtain ⟨k, hk⟩ : ∃ k, m.log2 = k + 53 := ⟨m.log2 - 53, by omega⟩
  have hlow : 2 ^ 52 ≤ m / 2 ^ (k + 1) := by
    have hle : 2 ^ (52 + (k + 1)) ≤ m := (Nat.le_log2 (by omega)).mp (by omega)
    rwa [Nat.le_div_iff_mul_le (Nat.two_pow_pos _), ← Nat.pow_add]
  have hhigh : m / 2 ^ (k + 1) < 2 ^ 53 := by
    have hlt : m < 2 ^ (53 + (k + 1)) := (Nat.log2_lt (by omega)).mp (by omega)
    rwa [Nat.div_lt_iff_lt_mul (Nat.two_pow_pos _), ← Nat.pow_add]
  have hlarge : 10 < k → 2 ^ 64 ≤ m := fun h => (Nat.le_log2 (by omega)).mp (by omega)
  have hround := roundedMantissa_shiftRight m k
  generalize hr : ((⟨m, false, false⟩ : ExtendedMantissa) >>> (k + 1)).roundedMantissa = r
    at hround
  have hbounds : 2 ^ 52 ≤ r ∧ r ≤ 2 ^ 53 := by
    generalize m / 2 ^ (k + 1) = q at hlow hhigh hround
    rw [hround]
    split_ifs <;> omega
  have hsmall : k = 10 ∧ r = 2 ^ 52 ↔ m ≤ 2 ^ 63 + 2 ^ 10 := by
    rcases Nat.eq_or_lt_of_le (show 10 ≤ k by omega) with rfl | hlt
    · rw [hround]
      split_ifs <;> omega
    · have hlarge := hlarge hlt
      omega
  rcases Nat.lt_or_eq_of_le hbounds.2 with hlt | rfl
  · have h : Canonical r (k + 1) := ⟨by omega, hlt, by omega, .inl hbounds.1⟩
    refine ⟨r, k + 1, h, hbounds.1, by omega, by omega, fun s => ?_⟩
    unfold roundWithAccuracy
    simp only [shiftToTargetExponent_large hk, hr, h.shiftToTargetExponent_eq,
      dif_neg h.pos.ne']
  · have h : Canonical (2 ^ 52) (k + 1 + 1) := ⟨by omega, by omega, by omega, .inl (by omega)⟩
    refine ⟨2 ^ 52, k + 1 + 1, h, by omega, by omega, by omega, fun s => ?_⟩
    unfold roundWithAccuracy
    simp only [shiftToTargetExponent_large hk, hr,
      shiftToTargetExponent_carry (show (-1074 : Int) ≤ (k : Int) + 1 by omega), dif_neg h.pos.ne']

/-! ## Parts of a double -/

theorem toNat_unpackExponent (b : Word) :
    (unpackExponent b).toNat = b.toNat / 2 ^ 52 % 2 ^ 11 := by
  simp [unpackExponent, Nat.shiftRight_eq_div_pow]

theorem toNat_unpackMantissa (b : Word) : (unpackMantissa b).toNat = b.toNat % 2 ^ 52 := by
  simp [unpackMantissa]

theorem toNat_unpackSign (b : Word) : (unpackSign b).toNat = b.toNat / 2 ^ 63 := by
  have hlt : b.toNat < 2 ^ 64 := b.isLt
  have hdiv : b.toNat / 2 ^ 63 % 2 = b.toNat / 2 ^ 63 := by omega
  simpa [unpackSign, Nat.shiftRight_eq_div_pow] using hdiv

/-- The sign of a word as a truth value. -/
def isNegative : Sign → Bool
  | .negative => true
  | .positive => false

theorem isNegative_ofBitVec (bit : BitVec 1) :
    isNegative (Sign.ofBitVec bit) = (bit.toNat == 1) := by
  revert bit
  decide

/-- The parts of what a word stands for. -/
def partsOf? : UnpackedFloat → Option Parts
  | .finite s m e _ => some ⟨isNegative s, m, e⟩
  | .zero s => some ⟨isNegative s, 0, -1074⟩
  | .infinity _ | .notANumber => none

theorem Reads.parts_eq {b : Word} {u : UnpackedFloat} (hb : Reads b u) {x : Float}
    (hx : x.toBits.toNat = b.toNat) : Parts.ofFloat? x = partsOf? u := by
  have hsign := isNegative_ofBitVec (unpackSign b)
  rw [toNat_unpackSign] at hsign
  have hparts : Parts.ofFloat? x =
      if (unpackExponent b).toNat = 2047 then none
      else if (unpackExponent b).toNat = 0 then
        some ⟨isNegative (Sign.ofBitVec (unpackSign b)), (unpackMantissa b).toNat, -1074⟩
      else some ⟨isNegative (Sign.ofBitVec (unpackSign b)), (unpackMantissa b).toNat + 2 ^ 52,
        ((unpackExponent b).toNat : Int) - 1075⟩ := by
    rw [toNat_unpackExponent, toNat_unpackMantissa, hsign, ← hx]
    rfl
  rw [hparts]
  cases hb with
  | infinity he => rw [he]; rfl
  | notANumber he => rw [he]; rfl
  | zero he hm => rw [he, hm]; rfl
  | subnormal he => rw [he]; rfl
  | normal hlow hhigh =>
    rw [if_neg (by omega), if_neg (by omega), Nat.add_comm]
    rfl

theorem ofFloat?_eq (x : Float) : Parts.ofFloat? x = partsOf? x.toModel.unpack :=
  (reads_unpack x.toModel.toBits.toBitVec).parts_eq rfl

/-! ## Truncation -/

theorem unpack_neg (x : Float) : (-x).toModel.unpack =
    UnpackedFloat.unpack .binary64 (UnpackedFloat.pack .binary64 x.toModel.unpack.neg) := rfl

theorem unpack_ofScientific {m : Nat} (hm : 2 ^ 53 ≤ m) :
    (Float.ofScientific m false 0).toModel.unpack = UnpackedFloat.unpack .binary64
      (UnpackedFloat.pack .binary64 (roundWithAccuracy .binary64 .positive m 0 .exact)) := by
  have hbits : Format.binary64.mantissaBits = 53 := rfl
  have hone : (10 : Nat) ^ (0 : Int).toNat = 1 := rfl
  have hexponent : ¬ (0 : Int) < -(2 ^ 11 + (m.log2 : Int)) := by omega
  have hlog : 53 ≤ m.log2 := (Nat.le_log2 (by omega)).mpr hm
  have hscale : roundWithAccuracy .binary64 .positive (m * 2 ^ 53) (0 - (53 : Nat)) .exact =
      roundWithAccuracy .binary64 .positive m 0 .exact := by
    refine roundWithAccuracy_scale .positive (by omega) 53 ?_
    unfold target
    omega
  have hround : UnpackedFloat.ofScientific .binary64 m 0 =
      roundWithAccuracy .binary64 .positive m 0 .exact := by
    unfold UnpackedFloat.ofScientific
    rw [dif_neg (by omega), if_neg (by decide), if_neg hexponent, if_pos (by decide)]
    simp only [UnpackedFloat.mul, hbits, hone, Nat.shiftLeft_eq, Nat.mul_one]
    rw [← hscale]
    rfl
  rw [← hround]
  unfold Float.ofScientific
  rw [dif_neg (by omega)]
  rfl

/-- What an integer of at least `2 ^ 63` is as a double, and what its negation is. -/
theorem unpack_large {m : Nat} (hm : 2 ^ 63 ≤ m) :
    ∃ (q : Nat) (e : Int) (h : Canonical q e), 2 ^ 52 ≤ q ∧ 11 ≤ e ∧
      (q = 2 ^ 52 ∧ e = 11 ↔ m ≤ 2 ^ 63 + 2 ^ 10) ∧
      (Float.ofScientific m false 0).toModel.unpack =
        (if e ≤ 971 then .finite .positive q e h.pos else .infinity .positive) ∧
      (-Float.ofScientific m false 0).toModel.unpack =
        (if e ≤ 971 then .finite .negative q e h.pos else .infinity .negative) := by
  obtain ⟨q, e, h, hfull, hlow, hsmall, hround⟩ := exists_roundWithAccuracy hm
  have hfloat := unpack_ofScientific (show 2 ^ 53 ≤ m by omega)
  rw [hround .positive] at hfloat
  refine ⟨q, e, h, hfull, hlow, hsmall, ?_⟩
  by_cases he : e ≤ 971
  · rw [h.unpack_pack hfull he] at hfloat
    rw [if_pos he, if_pos he, unpack_neg, hfloat]
    exact ⟨rfl, h.unpack_pack hfull he .negative⟩
  · rw [h.pack_overflow (by omega), unpack_pack_infinity] at hfloat
    rw [if_neg he, if_neg he, unpack_neg, hfloat]
    exact ⟨rfl, unpack_pack_infinity .negative⟩

end Double

open Double

/-- The integer of a large double. -/
theorem Parts.toInt_large (b : Bool) {q : Nat} {e : Int} (hq : 2 ^ 52 ≤ q) (he : 11 ≤ e) :
    ∃ magnitude : Nat, (⟨b, q, e⟩ : Parts).toInt = (if b then -(magnitude : Int) else magnitude) ∧
      2 ^ 63 ≤ magnitude ∧ (magnitude = 2 ^ 63 ↔ q = 2 ^ 52 ∧ e = 11) := by
  obtain ⟨d, rfl⟩ : ∃ d : Nat, e = d + 11 := ⟨(e - 11).toNat, by omega⟩
  have hexponent : ((d : Int) + 11).toNat = d + 11 := by omega
  have hle : q * 2 ^ 11 ≤ q * 2 ^ 11 * 2 ^ d := Nat.le_mul_of_pos_right _ (Nat.two_pow_pos d)
  refine ⟨q * 2 ^ 11 * 2 ^ d, ?_, by omega, fun h => ?_, fun h => ?_⟩
  · have hnonneg : 0 ≤ (d : Int) + 11 := by omega
    unfold Parts.toInt
    simp only [hexponent]
    rw [if_pos hnonneg, Nat.mul_assoc, ← Nat.pow_add, Nat.add_comm d 11]
    rfl
  · rcases Nat.eq_zero_or_pos d with rfl | hpos
    · omega
    · have htwo : 2 ≤ 2 ^ d := Nat.le_self_pow (by omega) 2
      have htwice := Nat.mul_le_mul_left (q * 2 ^ 11) htwo
      omega
  · obtain ⟨rfl, he⟩ := h
    have hzero : d = 0 := by omega
    subst hzero
    rfl

/-- **An integer above the range is no word as a double either.** -/
theorem truncate?_ofScientific {m : Nat} (hm : 2 ^ 63 ≤ m) :
    truncate? (Float.ofScientific m false 0) = none := by
  obtain ⟨q, e, h, hfull, hlow, -, hpositive, -⟩ := unpack_large hm
  unfold truncate?
  rw [ofFloat?_eq, hpositive]
  split
  · obtain ⟨magnitude, hint, hlarge, -⟩ := Parts.toInt_large false hfull hlow
    have hint : (⟨false, q, e⟩ : Parts).toInt = magnitude := hint
    show word? (⟨false, q, e⟩ : Parts).toInt = none
    rw [hint, word?_eq_none_iff, InRange]
    omega
  · rfl

/-- **An integer below the range is a word as a double** just if it is at
    most `2 ^ 10` below: the double nearest to it is then the least integer. -/
theorem truncate?_neg_ofScientific {m : Nat} (hm : 2 ^ 63 ≤ m) :
    truncate? (-Float.ofScientific m false 0) =
      if m ≤ 2 ^ 63 + 2 ^ 10 then some Int64.minValue else none := by
  obtain ⟨q, e, h, hfull, hlow, hsmall, -, hnegative⟩ := unpack_large hm
  unfold truncate?
  rw [ofFloat?_eq, hnegative]
  split
  · obtain ⟨magnitude, hint, hlarge, hleast⟩ := Parts.toInt_large true hfull hlow
    have hint : (⟨true, q, e⟩ : Parts).toInt = -magnitude := hint
    show word? (⟨true, q, e⟩ : Parts).toInt = _
    rw [hint]
    split
    · next hm =>
      rw [word?_eq_some_iff, hleast.mpr (hsmall.mpr hm)]
      rfl
    · next hm =>
      have hne : magnitude ≠ 2 ^ 63 := fun h => hm (hsmall.mp (hleast.mp h))
      rw [word?_eq_none_iff, InRange]
      omega
  · rw [if_neg (by omega)]
    rfl

namespace Text

/-- A number of more than 310 digits is taken for infinity without further ado. -/
theorem nearestFloat_cases {m : Nat} (hm : 0 < m) :
    nearestFloat m 0 = Float.ofScientific m false 0 ∨
      10 ^ 20 ≤ m ∧ nearestFloat m 0 = Float.ofBits 0x7ff0000000000000 := by
  have hlength : (Nat.toDigits 10 m).length ≤ 20 ↔ m < 10 ^ 20 :=
    Nat.length_toDigits_le_iff (by decide) (by decide)
  unfold nearestFloat
  simp only [Int.add_zero]
  rw [if_neg (by omega)]
  split
  · exact .inr ⟨by omega, rfl⟩
  · exact .inl rfl

/-- **An integer above the range is out of range as a double too.** -/
theorem truncate?_nearestFloat {m : Nat} (hm : 2 ^ 63 ≤ m) :
    truncate? (nearestFloat m 0) = none := by
  rcases nearestFloat_cases (show 0 < m by omega) with heq | ⟨-, heq⟩
  · rw [heq, truncate?_ofScientific hm]
  · rw [heq]
    rfl

/-- **An integer below the range may be in range as a double**: up to `2 ^ 10` below,
    the nearest double is the least integer. -/
theorem truncate?_neg_nearestFloat {m : Nat} (hm : 2 ^ 63 ≤ m) :
    truncate? (-nearestFloat m 0) =
      if m ≤ 2 ^ 63 + 2 ^ 10 then some Int64.minValue else none := by
  rcases nearestFloat_cases (show 0 < m by omega) with heq | ⟨hlarge, heq⟩
  · rw [heq, truncate?_neg_ofScientific hm]
  · rw [heq, if_neg (by omega)]
    rfl

end Text

end Scriptlet
