import Launcher.Checksum.Crc32
import Launcher.Proofs.Bytes
import Mathlib.Data.FinEnum
import Mathlib.Logic.Function.Iterate

/-!
# Four bytes behind a byte string

The division is linear and loses nothing, and up to four bytes act on it as one number that is added to the state. So
behind every byte string there is exactly one choice of four bytes that gives the whole a checksum that was asked for.
-/

namespace Launcher.Crc32

open Function (Injective)

/-! ## Bits -/

theorem low_iff (c : UInt32) : c &&& 1 = 1 ↔ c.toNat % 2 = 1 := by
  rw [← UInt32.toNat_inj, UInt32.toNat_and, ← Nat.and_one_is_mod]
  rfl

theorem xor_xor_cancel (a b p : UInt32) : a ^^^ p ^^^ (b ^^^ p) = a ^^^ b := by
  rw [UInt32.xor_comm b p, ← UInt32.xor_assoc, UInt32.xor_assoc a p p, UInt32.xor_self, UInt32.xor_zero]

theorem shift_xor (a b : UInt32) : shift (a ^^^ b) = shift a ^^^ shift b := by
  have hlow : (a ^^^ b) &&& 1 = 1 ↔ ¬(a &&& 1 = 1 ↔ b &&& 1 = 1) := by
    rw [low_iff, low_iff, low_iff, UInt32.toNat_xor, Nat.xor_mod_two_eq_one]
  unfold shift
  by_cases ha : a &&& 1 = 1 <;> by_cases hb : b &&& 1 = 1
  · rw [if_neg (by simp [hlow, ha, hb]), if_pos ha, if_pos hb, UInt32.shiftRight_xor, xor_xor_cancel]
  · rw [if_pos (by simp [hlow, ha, hb]), if_pos ha, if_neg hb, UInt32.shiftRight_xor]
    ac_rfl
  · rw [if_pos (by simp [hlow, ha, hb]), if_neg ha, if_pos hb, UInt32.shiftRight_xor, UInt32.xor_assoc]
  · rw [if_neg (by simp [hlow, ha, hb]), if_neg ha, if_neg hb, UInt32.shiftRight_xor]

theorem toNat_shiftRight_one (c : UInt32) : (c >>> 1).toNat = c.toNat / 2 := by
  rw [UInt32.toNat_shiftRight]
  exact Nat.shiftRight_eq_div_pow c.toNat 1

/-- A state is not lost: the polynomial has the bit that a shift leaves free. -/
theorem eq_zero_of_shift {c : UInt32} (h : shift c = 0) : c = 0 := by
  have hhalf := toNat_shiftRight_one c
  have hlt := c.toNat_lt
  unfold shift at h
  split at h
  · -- Half of a state is below the highest bit, and the polynomial is not.
    rw [UInt32.xor_eq_zero_iff.mp h] at hhalf
    have hpoly : UInt32.toNat 0xEDB88320 = 0xEDB88320 := rfl
    omega
  · rename_i hlow
    rw [low_iff] at hlow
    rw [h, UInt32.toNat_zero] at hhalf
    rw [← UInt32.toNat_inj, UInt32.toNat_zero]
    omega

theorem shift_injective : Injective shift := by
  intro a b h
  have hzero : shift (a ^^^ b) = 0 := by rw [shift_xor, h, UInt32.xor_self]
  exact UInt32.xor_eq_zero_iff.mp (eq_zero_of_shift hzero)

theorem iterate_shift_xor (n : Nat) (a b : UInt32) : shift^[n] (a ^^^ b) = shift^[n] a ^^^ shift^[n] b := by
  induction n generalizing a b with
  | zero => rfl
  | succ n ih => rw [Function.iterate_succ_apply, shift_xor, ih]; rfl

/-! ## Bytes as one number -/

theorem shift_double {v : Nat} (h : 2 * v < 2 ^ 32) : shift (UInt32.ofNat (2 * v)) = UInt32.ofNat v := by
  have hdouble : (UInt32.ofNat (2 * v)).toNat = 2 * v := UInt32.toNat_ofNat_of_lt' h
  have hv : (UInt32.ofNat v).toNat = v := UInt32.toNat_ofNat_of_lt' (Nat.lt_of_le_of_lt (by omega) h)
  unfold shift
  rw [if_neg (by rw [low_iff]; omega), ← UInt32.toNat_inj, toNat_shiftRight_one]
  omega

theorem iterate_shift_ofNat (n : Nat) {v : Nat} (h : 2 ^ n * v < 2 ^ 32) :
    shift^[n] (UInt32.ofNat (2 ^ n * v)) = UInt32.ofNat v := by
  induction n with
  | zero => rw [Nat.pow_zero, Nat.one_mul]; rfl
  | succ n ih =>
      have hdouble : 2 ^ (n + 1) * v = 2 * (2 ^ n * v) := by rw [pow_succ, Nat.mul_comm (2 ^ n) 2, Nat.mul_assoc]
      rw [hdouble] at h ⊢
      rw [Function.iterate_succ_apply, shift_double h]
      exact ih (by omega)

theorem add_eq_xor {b v : Nat} (h : b < 2 ^ 8) : b + 2 ^ 8 * v = b ^^^ 2 ^ 8 * v := by
  refine Nat.eq_of_testBit_eq fun i => ?_
  rw [Nat.add_comm, Nat.testBit_two_pow_mul_add v h, Nat.testBit_xor, Nat.testBit_two_pow_mul]
  by_cases hi : i < 8
  · simp [hi, Nat.not_le.mpr hi]
  · have hle : 8 ≤ i := Nat.not_lt.mp hi
    have hbit : b.testBit i = false :=
      Nat.testBit_lt_two_pow (Nat.lt_of_lt_of_le h (Nat.pow_le_pow_right (by decide) hle))
    simp [hi, hle, hbit]

/-- Up to four bytes are shifted through as the number that they spell. -/
theorem foldl_step {bs : Bytes} (h : bs.length ≤ 4) (c : UInt32) :
    bs.foldl step c = shift^[8 * bs.length] (c ^^^ UInt32.ofNat (Bytes.valueLE bs)) := by
  induction bs generalizing c with
  | nil => exact (UInt32.xor_zero).symm
  | cons b bs ih =>
      rw [List.length_cons] at h
      have hsmall : 2 ^ 8 * Bytes.valueLE bs < 2 ^ 32 := by
        have hlt := Bytes.valueLE_lt bs
        have hle : 256 ^ bs.length ≤ 256 ^ 3 := Nat.pow_le_pow_right (by decide) (by omega)
        omega
      have hword : UInt32.ofNat (Bytes.valueLE (b :: bs)) =
          b.toUInt32 ^^^ UInt32.ofNat (2 ^ 8 * Bytes.valueLE bs) := by
        rw [Bytes.valueLE, show (256 : Nat) = 2 ^ 8 from rfl, add_eq_xor b.toNat_lt, UInt32.ofNat_xor,
          UInt32.ofNat_uInt8ToNat]
      -- The bytes behind `b` are not touched by its eight shifts: they only come down by one byte.
      have hbyte : step c b ^^^ UInt32.ofNat (Bytes.valueLE bs) =
          shift^[8] (c ^^^ UInt32.ofNat (Bytes.valueLE (b :: bs))) := by
        rw [hword, ← UInt32.xor_assoc, iterate_shift_xor, iterate_shift_ofNat 8 hsmall]
        rfl
      rw [List.foldl_cons, ih (by omega), hbyte, List.length_cons, Nat.mul_succ, Function.iterate_add_apply]

/-! ## Bytes changed in one place -/

theorem foldl_step_injective (bs : Bytes) : Injective fun c => bs.foldl step c := by
  induction bs with
  | nil => exact fun _ _ h => h
  | cons b bs ih =>
      intro c c' h
      have hstate : c ^^^ b.toUInt32 = c' ^^^ b.toUInt32 := shift_injective.iterate 8 (ih h)
      exact (UInt32.xor_left_inj _).mp hstate

/-- From one state up to four bytes lead to different states. -/
theorem eq_of_foldl_step {w w' : Bytes} (hlen : w.length = w'.length) (hfour : w.length ≤ 4) {c : UInt32}
    (h : w.foldl step c = w'.foldl step c) : w = w' := by
  have hsize : ∀ bs : Bytes, bs.length ≤ 4 → Bytes.valueLE bs < UInt32.size := fun bs hbs =>
    Nat.lt_of_lt_of_le (Bytes.valueLE_lt bs) (Nat.pow_le_pow_right (by decide) hbs)
  rw [foldl_step hfour, foldl_step (hlen ▸ hfour), hlen] at h
  have hword : UInt32.ofNat (Bytes.valueLE w) = UInt32.ofNat (Bytes.valueLE w') :=
    (UInt32.xor_right_inj _).mp (shift_injective.iterate _ h)
  have hvalue : Bytes.valueLE w = Bytes.valueLE w' := by
    rw [← UInt32.toNat_ofNat_of_lt' (hsize w hfour), hword, UInt32.toNat_ofNat_of_lt' (hsize w' (hlen ▸ hfour))]
  rw [← Bytes.encodeLE_valueLE w, ← Bytes.encodeLE_valueLE w', hlen, hvalue]

/-- No change of up to four bytes in a row is hidden by what stands before or behind them. -/
theorem eq_of_checksum {front w w' back : Bytes} (hlen : w.length = w'.length) (hfour : w.length ≤ 4)
    (h : checksum (front ++ w ++ back) = checksum (front ++ w' ++ back)) : w = w' := by
  unfold checksum at h
  have hstates := (UInt32.xor_left_inj _).mp h
  simp only [List.foldl_append] at hstates
  exact eq_of_foldl_step hlen hfour (foldl_step_injective back hstates)

/-! ## Checksums asked for -/

theorem existsUnique_foldl_step (c target : UInt32) : ∃! bs : Bytes, bs.length = 4 ∧ bs.foldl step c = target := by
  have hbijective := Finite.injective_iff_bijective.mp (shift_injective.iterate (8 * 4))
  obtain ⟨w, hw⟩ := hbijective.2 target
  have hlength : (Bytes.encodeLE 4 (c ^^^ w).toNat).length = 4 := Bytes.length_encodeLE ..
  have hvalue : Bytes.valueLE (Bytes.encodeLE 4 (c ^^^ w).toNat) = (c ^^^ w).toNat := by
    rw [Bytes.valueLE_encodeLE]
    exact Nat.mod_eq_of_lt (c ^^^ w).toNat_lt
  refine ⟨Bytes.encodeLE 4 (c ^^^ w).toNat, ⟨hlength, ?_⟩, ?_⟩
  · rw [foldl_step hlength.le, hlength, hvalue, UInt32.ofNat_toNat, ← UInt32.xor_assoc, UInt32.xor_self,
      UInt32.zero_xor, hw]
  · rintro bs ⟨hlen, hbs⟩
    rw [foldl_step hlen.le, hlen, ← hw] at hbs
    have hword : c ^^^ UInt32.ofNat (Bytes.valueLE bs) = w := hbijective.1 hbs
    have hlt : Bytes.valueLE bs < UInt32.size := by
      have hvalue := Bytes.valueLE_lt bs
      rwa [hlen] at hvalue
    rw [← hword, ← UInt32.xor_assoc, UInt32.xor_self, UInt32.zero_xor, UInt32.toNat_ofNat_of_lt' hlt, ← hlen,
      Bytes.encodeLE_valueLE]

/-- Behind every byte string four bytes can be chosen in one way to give a checksum. -/
theorem existsUnique_checksum (front : Bytes) (target : UInt32) :
    ∃! bs : Bytes, bs.length = 4 ∧ checksum (front ++ bs) = target := by
  have hstate : ∀ bs : Bytes, checksum (front ++ bs) = target ↔
      bs.foldl step (front.foldl step 0xFFFFFFFF) = target ^^^ 0xFFFFFFFF := by
    intro bs
    rw [checksum, List.foldl_append]
    constructor
    · rintro rfl
      rw [UInt32.xor_assoc, UInt32.xor_self, UInt32.xor_zero]
    · intro h
      rw [h, UInt32.xor_assoc, UInt32.xor_self, UInt32.xor_zero]
  simp only [hstate]
  exact existsUnique_foldl_step _ _

end Launcher.Crc32
