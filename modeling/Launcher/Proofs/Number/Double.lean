-- The lemmas on the fields of a packed float are in no module of the library, but come with all of it.
import Mathlib
import Launcher.Proofs.Number.Nearest

/-!
# Integers as floating-point numbers

The floating-point number that is made of an integer of 64 bits has the value that is nearest to the integer. Two such
numbers are compared as their values are.
-/

namespace Launcher.Double

open Float.Model (Format UnpackedFloat totalExponent)
open Float.Model.UnpackedFloat

/-! ## Rounding -/

section

variable {em : ExtendedMantissa} {n d k : Nat}

/-- The mantissa is the quotient, and the two bits tell how what is left of it compares with half the divisor. -/
structure Divides (em : ExtendedMantissa) (n d : Nat) : Prop where
  mantissa : em.mantissa = n / d
  roundBit : em.roundBit = true ↔ d ≤ 2 * (n % d)
  stickyBit : em.stickyBit = true ↔ 2 * (n % d) ≠ 0 ∧ 2 * (n % d) ≠ d

theorem Divides.shiftRightOne (h : Divides em n d) (hd : 0 < d) : Divides em.shiftRightOne n (d * 2) := by
  have hr : n % d < d := Nat.mod_lt n hd
  have hmod : n % (d * 2) = n % d + d * (n / d % 2) := Nat.mod_mul
  have hbit : n / d % 2 = 0 ∨ n / d % 2 = 1 := Nat.mod_two_eq_zero_or_one _
  refine ⟨?_, ?_, ?_⟩
  · rw [ExtendedMantissa.shiftRightOne, h.mantissa, Nat.div_div_eq_div_mul]
  · simp only [ExtendedMantissa.shiftRightOne, h.mantissa, bne_iff_ne, hmod]
    rcases hbit with hbit | hbit <;> rw [hbit] <;> omega
  · simp only [ExtendedMantissa.shiftRightOne, Bool.or_eq_true, h.roundBit, h.stickyBit, hmod]
    rcases hbit with hbit | hbit <;> rw [hbit] <;> omega

theorem divides_shiftRight (n k : Nat) :
    Divides (ExtendedMantissa.ofMantissaAndAccuracy n .exact >>> k) n (2 ^ k) := by
  change Divides (k.repeat ExtendedMantissa.shiftRightOne _) n (2 ^ k)
  induction k with
  | zero => exact ⟨(Nat.div_one n).symm, by simp [ExtendedMantissa.ofMantissaAndAccuracy, Nat.repeat, Nat.mod_one],
      by simp [ExtendedMantissa.ofMantissaAndAccuracy, Nat.repeat, Nat.mod_one]⟩
  | succ k ih => exact ih.shiftRightOne (Nat.two_pow_pos k)

theorem Divides.roundedMantissa (h : Divides em n d) (hd : 0 < d) : em.roundedMantissa = roundQuotient n d := by
  obtain ⟨q, round, sticky⟩ := em
  obtain ⟨rfl, hround, hsticky⟩ := h
  have hr : n % d < d := Nat.mod_lt n hd
  rw [roundQuotient]
  cases round <;> cases sticky <;> simp only [Bool.false_eq_true, false_iff, true_iff] at hround hsticky <;>
    simp only [ExtendedMantissa.roundedMantissa, ExtendedMantissa.accuracy, Accuracy.roundToNearestEven] <;>
    split <;> omega

theorem shiftToTargetExponent_of_log2 {e : Int} (hn : n.log2 = 52 + k) (he : -1074 ≤ e + k) :
    shiftToTargetExponent Format.binary64 n e .exact =
      (ExtendedMantissa.ofMantissaAndAccuracy n .exact >>> k, e + k) := by
  have htarget : Format.binary64.targetExponent (totalExponent n e) = e + k := by
    simp only [Format.targetExponent, totalExponent, hn, Format.mantissaBits, Format.minExponent]
    omega
  have hshift : (e + k - e).toNat = k := by omega
  simp only [shiftToTargetExponent, shiftToExponent, htarget, hshift]

end

/-! ## Values -/

/-- A floating-point number that is taken apart has an integer for its value. If that is not zero the number has 53
digits, and all of them are there that stand in front of the point. -/
inductive HasValue : UnpackedFloat → Int → Prop where
  | zero (s : Sign) : HasValue (.zero s) 0
  | finite {s : Sign} {m n : Nat} {e : Int} (hpos : 0 < m) : 2 ^ 52 ≤ m → m < 2 ^ 53 → -52 ≤ e → n ≤ 2 ^ 64 →
      m * 2 ^ (e + 52).toNat = n * 2 ^ 52 → HasValue (.finite s m e hpos) (s.apply n)

section

variable {u v : UnpackedFloat} {a b : Int} {s : Sign} {m n k : Nat} {e : Int}

theorem log2_of_normal (hlow : 2 ^ 52 ≤ m) (hhigh : m < 2 ^ 53) : m.log2 = 52 :=
  (Nat.log2_eq_iff (by omega)).mpr ⟨hlow, hhigh⟩

theorem log2_mul_two_pow (hm : m ≠ 0) (k : Nat) : (m * 2 ^ k).log2 = m.log2 + k := by
  have hne : m * 2 ^ k ≠ 0 := Nat.mul_ne_zero hm (Nat.two_pow_pos k).ne'
  refine (Nat.log2_eq_iff hne).mpr ⟨?_, ?_⟩
  · rw [Nat.pow_add]
    exact Nat.mul_le_mul_right _ (Nat.log2_self_le hm)
  · have hpow : 2 ^ (m.log2 + k + 1) = 2 ^ (m.log2 + 1) * 2 ^ k := by rw [← Nat.pow_add]; congr 1; omega
    rw [hpow]
    exact Nat.mul_lt_mul_of_pos_right Nat.lt_log2_self (Nat.two_pow_pos k)

/-- A number of more than 52 digits is rounded to 53, which makes the next power of two of 53 digits that are all 1. -/
theorem HasValue.round (hm : m.log2 = 52 + k) (hlow : -52 ≤ e + k) (hn : n ≤ 2 ^ 64)
    (hvalue : roundQuotient m (2 ^ k) * 2 ^ (e + k + 52).toNat = n * 2 ^ 52) :
    HasValue (roundWithAccuracy Format.binary64 s m e .exact) (s.apply n) := by
  have hm0 : m ≠ 0 := by
    rintro rfl
    rw [Nat.log2_zero] at hm
    omega
  have hrounded := (divides_shiftRight m k).roundedMantissa (Nat.two_pow_pos k)
  have hquotient : 2 ^ 52 ≤ roundQuotient m (2 ^ k) ∧ roundQuotient m (2 ^ k) ≤ 2 ^ 53 := by
    obtain ⟨hself, hlt⟩ := (Nat.log2_eq_iff hm0).mp hm
    have hdown : 2 ^ 52 ≤ m / 2 ^ k := by
      rw [Nat.le_div_iff_mul_le (Nat.two_pow_pos k), ← Nat.pow_add]
      exact hself
    have hup : m / 2 ^ k < 2 ^ 53 := by
      rw [Nat.div_lt_iff_lt_mul (Nat.two_pow_pos k), ← Nat.pow_add]
      exact hlt.trans_eq (by congr 1; omega)
    exact ⟨hdown.trans le_roundQuotient, roundQuotient_le.trans hup⟩
  rw [roundWithAccuracy, shiftToTargetExponent_of_log2 hm (by omega)]
  dsimp only
  rw [hrounded]
  rcases Nat.lt_or_eq_of_le hquotient.2 with hlt | heq
  · rw [shiftToTargetExponent_of_log2 (k := 0) (log2_of_normal hquotient.1 hlt) (by omega)]
    have hmantissa := (divides_shiftRight (roundQuotient m (2 ^ k)) 0).mantissa
    rw [Nat.pow_zero, Nat.div_one] at hmantissa
    simp only [hmantissa]
    rw [dif_neg (by omega)]
    exact .finite _ hquotient.1 hlt (by omega) hn (by simpa using hvalue)
  · rw [heq, shiftToTargetExponent_of_log2 (k := 1) (by decide) (by omega)]
    have hmantissa := (divides_shiftRight (2 ^ 53) 1).mantissa
    simp only [hmantissa]
    rw [dif_neg (by decide)]
    refine .finite _ (by decide) (by decide) (by omega) hn ?_
    have hexponent : (e + k + (1 : Nat) + 52).toNat = (e + k + 52).toNat + 1 := by omega
    rw [hexponent, Nat.pow_succ, ← hvalue, heq]
    ring

theorem exponent_le (hlow : 2 ^ 52 ≤ m) (hn : n ≤ 2 ^ 64) (hvalue : m * 2 ^ (e + 52).toNat = n * 2 ^ 52) : e ≤ 12 := by
  by_contra he
  have hpow : 2 ^ 65 ≤ 2 ^ (e + 52).toNat := Nat.pow_le_pow_right (by decide) (by omega)
  have hmul := Nat.mul_le_mul hlow hpow
  omega

theorem pack_normal (hpos : 0 < m) (hlow : 2 ^ 52 ≤ m) (hhigh : m < 2 ^ 53) (he : e ≤ 12) :
    UnpackedFloat.pack Format.binary64 (.finite s m e hpos) =
      packComponents Format.binary64 s (.ofNat 11 (e + 1075).toNat) (.ofNat 52 m) := by
  have hbiased : (e + Format.binary64.exponentBias + Format.binary64.mantissaBitsWithoutImplicit).toNat =
      (e + 1075).toNat := by
    change (e + 1023 + 52).toNat = _
    omega
  have hfits : ¬2 ^ Format.binary64.exponentBits ≤ (e + 1075).toNat + 1 := by
    change ¬2048 ≤ _
    omega
  have hdigits : 52 + 1 = Format.binary64.mantissaBits := rfl
  simp only [UnpackedFloat.pack, hbiased, if_neg hfits, log2_of_normal hlow hhigh]
  rw [if_pos hdigits]

theorem unpack_normal (hpos : 0 < m) (hlow : 2 ^ 52 ≤ m) (hhigh : m < 2 ^ 53) (he : -52 ≤ e) (hmax : e ≤ 12) :
    unpack Format.binary64 (packComponents Format.binary64 s (.ofNat 11 (e + 1075).toNat) (.ofNat 52 m)) =
      .finite s m e hpos := by
  have hexponent : (BitVec.ofNat 11 (e + 1075).toNat).toNat = (e + 1075).toNat := by
    rw [BitVec.toNat_ofNat]
    exact Nat.mod_eq_of_lt (by omega)
  have hother : ∀ k : Nat, (e + 1075).toNat ≠ k % 2 ^ 11 → BitVec.ofNat 11 (e + 1075).toNat ≠ .ofNat 11 k := by
    intro k hk h
    have h := congrArg BitVec.toNat h
    rw [hexponent, BitVec.toNat_ofNat] at h
    exact hk h
  have hmantissa : (1#1 ++ BitVec.ofNat 52 m).toNat = m := by
    rw [BitVec.toNat_append, ← Nat.shiftLeft_add_eq_or_of_lt (BitVec.isLt _), BitVec.toNat_ofNat]
    change 1 <<< 52 + m % 2 ^ 52 = m
    omega
  have hback : ((e + 1075).toNat : Int) - (Format.binary64.exponentBias + 52) = e := by
    change ((e + 1075).toNat : Int) - (1023 + 52) = e
    omega
  -- The eleven bits are neither all 1, as in an infinity, nor all 0, as below the least normal number.
  have hone : BitVec.ofNat 11 (e + 1075).toNat ≠ -1#11 := hother 2047 (by omega)
  have hzero : BitVec.ofNat 11 (e + 1075).toNat ≠ 0#11 := hother 0 (by omega)
  simp only [unpack, unpackMantissa_packComponents, unpackExponent_packComponents, unpackSign_packComponents,
    Sign.ofBitVec_toBitVec, if_neg hone, if_neg hzero, hmantissa, hexponent]
  exact congrArg (fun e => UnpackedFloat.finite s m e hpos) hback

theorem unpack_pack_of_hasValue (h : HasValue u a) :
    unpack Format.binary64 (UnpackedFloat.pack Format.binary64 u) = u := by
  cases h with
  | zero s => exact unpack_packedZero
  | finite hpos hlow hhigh he hn hvalue =>
      have hmax := exponent_le hlow hn hvalue
      rw [pack_normal hpos hlow hhigh hmax]
      exact unpack_normal hpos hlow hhigh he hmax

theorem HasValue.unpack_pack (h : HasValue u a) : HasValue (Float.Model.pack u).unpack a := by
  have hsame : (Float.Model.pack u).unpack = u := unpack_pack_of_hasValue h
  rwa [hsame]

theorem HasValue.neg (h : HasValue u a) : HasValue u.neg (-a) := by
  cases h with
  | zero s => exact .zero (-s)
  | @finite s m n e hpos hlow hhigh he hn hvalue =>
      have hsign : -(s.apply n) = (-s).apply n := by
        cases s
        · exact Int.neg_neg _
        · rfl
      rw [hsign]
      exact .finite hpos hlow hhigh he hn hvalue

/-- The number 1, taken apart. -/
def unit : UnpackedFloat := .finite .positive (2 ^ 52) (-52) (by decide)

theorem HasValue.mul_unit (h : HasValue u a) : HasValue (UnpackedFloat.mul Format.binary64 u unit) a := by
  cases h with
  | zero s => exact .zero (s * .positive)
  | @finite s m n e hpos hlow hhigh he hn hvalue =>
      have hsign : s * Sign.positive = s := by cases s <;> rfl
      have hlog : (m * 2 ^ 52).log2 = 52 + 52 := by rw [log2_mul_two_pow (by omega), log2_of_normal hlow hhigh]
      have hquotient : roundQuotient (m * 2 ^ 52) (2 ^ 52) = m := by
        have hmul := @roundQuotient_mul m 1 (2 ^ 52) (by decide)
        rwa [Nat.one_mul, roundQuotient_one] at hmul
      have hexponent : (e + -52 + (52 : Nat) + 52).toNat = (e + 52).toNat := by omega
      change HasValue (roundWithAccuracy Format.binary64 (s * Sign.positive) (m * 2 ^ 52) (e + -52) .exact) _
      rw [hsign]
      exact .round hlog (by omega) hn (by rw [hquotient, hexponent, hvalue])

/-! ## Numbers made of integers -/

/-- Below `2 ^ 53` an integer has all of its digits. -/
theorem hasValue_ofInt_of_small (hn : n < 2 ^ 53) : HasValue (UnpackedFloat.ofInt Format.binary64 n) n := by
  rcases Nat.eq_zero_or_pos n with rfl | hpos
  · exact .zero .positive
  have hlog : n.log2 ≤ 52 := Nat.le_of_lt_succ ((Nat.log2_lt hpos.ne').mpr hn)
  have htarget : Format.binary64.targetExponent (totalExponent n 0) = n.log2 - 52 := by
    simp only [Format.targetExponent, totalExponent, Format.mantissaBits, Format.minExponent]
    omega
  have hshift : (0 - ((n.log2 : Int) - 52)).toNat = 52 - n.log2 := by omega
  have hsign : compare (n : Int) 0 = .gt := Int.compare_eq_gt.mpr (by omega)
  simp only [UnpackedFloat.ofInt, UnpackedFloat.normalize, hsign, Int.toNat_natCast, UnpackedFloat.round,
    decreaseExponent, htarget, hshift, Nat.shiftLeft_eq]
  refine HasValue.round (k := 0) (n := n) ?_ (by omega) (by omega) ?_
  · rw [log2_mul_two_pow hpos.ne']
    omega
  · have hexponent : (0 - ((52 - n.log2 : Nat) : Int) + (0 : Nat) + 52).toNat = n.log2 := by omega
    rw [Nat.pow_zero, roundQuotient_one, hexponent, Nat.mul_assoc, ← Nat.pow_add, Nat.sub_add_cancel hlog]

/-- A larger integer is multiplied by 1 for its digits to be rounded. -/
theorem hasValue_ofScientific_of_large (hlow : 2 ^ 53 ≤ n) (hhigh : n < 2 ^ 64) :
    HasValue (UnpackedFloat.ofScientific Format.binary64 n 0) (nearestNat n) := by
  have hpos : n ≠ 0 := by omega
  have hlog : 53 ≤ n.log2 := (Nat.le_log2 hpos).mpr hlow
  have hmax : (nearestNat n : Int) ≤ 2 ^ 64 := by
    have hmono := nearest_mono (i := n) (j := 2 ^ 64) (by omega)
    rwa [nearest_natCast, nearest_of_holds ⟨1, 64, by decide, rfl⟩] at hmono
  have hquotient : roundQuotient (n * 2 ^ 53) (2 ^ (n.log2 + 1)) = roundQuotient n (spacing n) := by
    have hpow : 2 ^ (n.log2 + 1) = spacing n * 2 ^ 53 := by
      rw [spacing, ← Nat.pow_add]
      congr 1
      omega
    rw [hpow, roundQuotient_mul (Nat.two_pow_pos 53)]
  have hexponent : (-53 + 0 + ((n.log2 + 1 : Nat) : Int) + 52).toNat = n.log2 - 52 + 52 := by omega
  have hmul : UnpackedFloat.ofScientific Format.binary64 n 0 =
      roundWithAccuracy Format.binary64 .positive (n * 2 ^ 53) (-53 + 0) .exact := by
    have hrange : ¬(0 : Int) < -((2 ^ Format.binary64.exponentBits : Int) + n.log2) := by
      change ¬(0 : Int) < -(2048 + n.log2)
      omega
    rw [UnpackedFloat.ofScientific, dif_neg hpos, if_neg (by decide), if_neg hrange, if_pos le_rfl]
    change roundWithAccuracy Format.binary64 .positive (n <<< 53 * 1) (-53 + 0) .exact = _
    rw [Nat.mul_one, Nat.shiftLeft_eq]
  rw [hmul]
  refine HasValue.round (s := .positive) (n := nearestNat n) (k := n.log2 + 1) ?_ (by omega) (by omega) ?_
  · rw [log2_mul_two_pow hpos]
    omega
  · rw [hquotient, hexponent, Nat.pow_add, ← Nat.mul_assoc]
    rfl

theorem hasValue_ofNat (hn : n < 2 ^ 64) : HasValue (Float.ofNat n).toModel.unpack (nearestNat n) := by
  change HasValue (Float.ofScientific n false 0).toModel.unpack (nearestNat n)
  by_cases hsmall : n < 2 ^ 53
  · have hword : (n.toUInt64.toNat : Int) = n := by
      rw [UInt64.toNat_ofNat', Nat.mod_eq_of_lt hn]
    have hof : HasValue n.toUInt64.toFloat.toModel.unpack n := by
      change HasValue (Float.Model.pack (UnpackedFloat.ofInt Format.binary64 n.toUInt64.toNat)).unpack n
      rw [hword]
      exact (hasValue_ofInt_of_small hsmall).unpack_pack
    have hunit : (Float.Model.ofBits 0x3ff0000000000000).unpack = unit := rfl
    rw [Float.ofScientific, dif_pos ⟨hsmall, Nat.zero_le _⟩, nearestNat_of_small hsmall, if_neg Bool.false_ne_true]
    change HasValue (Float.Model.pack (UnpackedFloat.mul Format.binary64 n.toUInt64.toFloat.toModel.unpack
      (Float.Model.ofBits 0x3ff0000000000000).unpack)).unpack n
    rw [hunit]
    exact hof.mul_unit.unpack_pack
  · rw [Float.ofScientific, dif_neg fun h => hsmall h.1]
    exact (hasValue_ofScientific_of_large (Nat.le_of_not_lt hsmall) hn).unpack_pack

variable {i j : Int}

/-- The number that is made of an integer of 64 bits has the nearest value. -/
theorem hasValue_ofInt (hi : i.natAbs < 2 ^ 64) : HasValue (ofInt i).toFloat.toModel.unpack (nearest i) := by
  have hbits : (ofInt i).toFloat = Float.ofInt i := Float.ofBits_toBits _
  rw [hbits]
  cases i with
  | ofNat n =>
      rw [Int.ofNat_eq_natCast, nearest_natCast]
      exact hasValue_ofNat hi
  | negSucc n =>
      rw [Int.negSucc_eq, nearest_neg, ← Int.natCast_succ, nearest_natCast]
      exact (hasValue_ofNat hi).neg.unpack_pack

/-! ## Comparison -/

/-- Of two numbers with 53 digits the one with the greater exponent is greater. -/
theorem lt_of_exponent_lt {m' n' : Nat} {e' : Int} (hhigh : m < 2 ^ 53) (hlow : 2 ^ 52 ≤ m') (he : -52 ≤ e)
    (hn : m * 2 ^ (e + 52).toNat = n * 2 ^ 52) (hn' : m' * 2 ^ (e' + 52).toNat = n' * 2 ^ 52) (hlt : e < e') :
    n < n' := by
  have hpow : 2 * 2 ^ (e + 52).toNat ≤ 2 ^ (e' + 52).toNat := by
    rw [← Nat.pow_succ']
    exact Nat.pow_le_pow_right (by decide) (by omega)
  have hfirst := Nat.mul_lt_mul_of_pos_right hhigh (Nat.two_pow_pos (e + 52).toNat)
  have hsecond := Nat.mul_le_mul hlow hpow
  omega

theorem compare_sizes {m' n' : Nat} {e' : Int} (hlow : 2 ^ 52 ≤ m) (hhigh : m < 2 ^ 53) (hlow' : 2 ^ 52 ≤ m')
    (hhigh' : m' < 2 ^ 53) (he : -52 ≤ e) (he' : -52 ≤ e') (hn : m * 2 ^ (e + 52).toNat = n * 2 ^ 52)
    (hn' : m' * 2 ^ (e' + 52).toNat = n' * 2 ^ 52) : (compare e e').then (compare m m') = compare n n' := by
  rcases Int.lt_trichotomy e e' with hlt | rfl | hgt
  · rw [compare_lt_iff_lt.mpr hlt, compare_lt_iff_lt.mpr (lt_of_exponent_lt hhigh hlow' he hn hn' hlt)]
    rfl
  · have hpos := Nat.two_pow_pos (e + 52).toNat
    have hless : m < m' ↔ n < n' := by
      rw [← Nat.mul_lt_mul_right hpos, hn, hn', Nat.mul_lt_mul_right (Nat.two_pow_pos 52)]
    have hsame : m = m' ↔ n = n' := by
      rw [← Nat.mul_left_inj hpos.ne', hn, hn', Nat.mul_left_inj (Nat.two_pow_pos 52).ne']
    rw [compare_eq_iff_eq.mpr rfl]
    rcases Nat.lt_trichotomy m m' with h | h | h
    · exact (compare_lt_iff_lt.mpr h).trans (compare_lt_iff_lt.mpr (hless.mp h)).symm
    · exact (compare_eq_iff_eq.mpr h).trans (compare_eq_iff_eq.mpr (hsame.mp h)).symm
    · have hgreater : n' < n := by omega
      exact (compare_gt_iff_gt.mpr h).trans (compare_gt_iff_gt.mpr hgreater).symm
  · rw [compare_gt_iff_gt.mpr hgt, compare_gt_iff_gt.mpr (lt_of_exponent_lt hhigh' hlow he' hn' hn hgt)]
    rfl

theorem compare_natCast (n n' : Nat) : compare (n : Int) n' = compare n n' := by
  rw [← cmp_eq_compare, ← cmp_eq_compare, Nat.strictMono_cast.cmp_map_eq]

theorem compare_neg_natCast (n n' : Nat) : compare (-(n : Int)) (-n') = (compare n n').swap := by
  have hanti : StrictAnti fun n : Nat => -(n : Int) := fun _ _ h => Int.neg_lt_neg (Int.ofNat_lt.mpr h)
  rw [← cmp_eq_compare, ← cmp_eq_compare, cmp_swap, hanti.cmp_map_eq]

theorem size_pos (hpos : 0 < m) (hvalue : m * 2 ^ (e + 52).toNat = n * 2 ^ 52) : 0 < n := by
  have hmul := Nat.mul_pos hpos (Nat.two_pow_pos (e + 52).toNat)
  omega

/-- Numbers are compared as their values are. -/
theorem compare_of_hasValue (hu : HasValue u a) (hv : HasValue v b) : u.compare v = some (compare a b) := by
  cases hu with
  | zero s =>
      cases hv with
      | zero s' => rfl
      | @finite s' _ n' _ hpos' _ _ _ _ hn' =>
          have hsize := size_pos hpos' hn'
          cases s' with
          | negative => exact congrArg some (compare_gt_iff_gt.mpr (show -(n' : Int) < 0 by omega)).symm
          | positive => exact congrArg some (compare_lt_iff_lt.mpr (show (0 : Int) < n' by omega)).symm
  | @finite s m n e hpos hlow hhigh he _ hn =>
      have hsize := size_pos hpos hn
      cases hv with
      | zero s' =>
          cases s with
          | negative => exact congrArg some (compare_lt_iff_lt.mpr (show -(n : Int) < 0 by omega)).symm
          | positive => exact congrArg some (compare_gt_iff_gt.mpr (show (0 : Int) < n by omega)).symm
      | @finite s' m' n' e' hpos' hlow' hhigh' he' _ hn' =>
          have hsize' := size_pos hpos' hn'
          have hsizes := compare_sizes hlow hhigh hlow' hhigh' he he' hn hn'
          cases s with
          | negative =>
              cases s' with
              | negative =>
                  exact congrArg some ((congrArg Ordering.swap hsizes).trans (compare_neg_natCast n n').symm)
              | positive => exact congrArg some (compare_lt_iff_lt.mpr (show -(n : Int) < n' by omega)).symm
          | positive =>
              cases s' with
              | negative => exact congrArg some (compare_gt_iff_gt.mpr (show -(n' : Int) < n by omega)).symm
              | positive => exact congrArg some (hsizes.trans (compare_natCast n n').symm)

theorem same_ofInt (hi : i.natAbs < 2 ^ 64) (hj : j.natAbs < 2 ^ 64) :
    (ofInt i).same (ofInt j) = decide (nearest i = nearest j) := by
  have hcompare := compare_of_hasValue (hasValue_ofInt hi) (hasValue_ofInt hj)
  change (UnpackedFloat.compare _ _ == some .eq) = _
  rw [hcompare, Bool.eq_iff_iff, beq_iff_eq, decide_eq_true_iff, Option.some_inj, compare_eq_iff_eq]

theorem lt_ofInt (hi : i.natAbs < 2 ^ 64) (hj : j.natAbs < 2 ^ 64) :
    (ofInt i).lt (ofInt j) = decide (nearest i < nearest j) := by
  have hcompare := compare_of_hasValue (hasValue_ofInt hi) (hasValue_ofInt hj)
  rw [lt, Bool.eq_iff_iff, decide_eq_true_iff, decide_eq_true_iff]
  change decide ((UnpackedFloat.compare _ _ == some .lt) = true) = true ↔ _
  rw [decide_eq_true_iff, hcompare, beq_iff_eq, Option.some_inj, compare_lt_iff_lt]

end

end Launcher.Double
