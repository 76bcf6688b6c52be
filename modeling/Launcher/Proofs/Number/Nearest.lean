import Mathlib.Data.Int.Order.Basic
import Mathlib.Tactic.Ring
import Launcher.Number.Double

/-!
# The floating-point number nearest to an integer

A floating-point number has 53 binary digits. An integer with more is rounded to the nearest that has 53 digits and
zeros behind them, a tie going to the even one. What is rounded stays in order, and nothing below `2 ^ 53` is changed.
-/

namespace Launcher.Double

/-- The quotient rounded to the nearest integer, a tie going to the even one. -/
def roundQuotient (n d : Nat) : Nat :=
  if 2 * (n % d) < d ∨ 2 * (n % d) = d ∧ n / d % 2 = 0 then n / d else n / d + 1

/-- The distance between the neighbours of a number of that size, as far as these are integers. -/
def spacing (n : Nat) : Nat := 2 ^ (n.log2 - 52)

def nearestNat (n : Nat) : Nat := roundQuotient n (spacing n) * spacing n

/-- The floating-point number nearest to an integer, as an integer. -/
def nearest (i : Int) : Int := i.sign * nearestNat i.natAbs

/-- The integer has at most 53 binary digits and zeros behind them. -/
def Holds (k : Int) : Prop := ∃ m e : Nat, m < 2 ^ 53 ∧ k.natAbs = m * 2 ^ e

/-! ## Quotients -/

section

variable {n d c : Nat}

theorem roundQuotient_one (n : Nat) : roundQuotient n 1 = n := by
  rw [roundQuotient, Nat.div_one, if_pos (by omega)]

theorem roundQuotient_mul (hc : 0 < c) : roundQuotient (n * c) (d * c) = roundQuotient n d := by
  have hless : 2 * (n % d * c) < d * c ↔ 2 * (n % d) < d := by
    rw [← Nat.mul_assoc, Nat.mul_lt_mul_right hc]
  have htie : 2 * (n % d * c) = d * c ↔ 2 * (n % d) = d := by
    rw [← Nat.mul_assoc, Nat.mul_left_inj hc.ne']
  simp only [roundQuotient, Nat.mul_mod_mul_right, Nat.mul_div_mul_right _ _ hc, hless, htie]

theorem le_roundQuotient : n / d ≤ roundQuotient n d := by
  rw [roundQuotient]
  split <;> omega

theorem roundQuotient_le : roundQuotient n d ≤ n / d + 1 := by
  rw [roundQuotient]
  split <;> omega

/-- What is rounded is at most half a divisor away. -/
theorem roundQuotient_near (hd : 0 < d) :
    2 * (roundQuotient n d * d) ≤ 2 * n + d ∧ 2 * n ≤ 2 * (roundQuotient n d * d) + d := by
  have hn : n / d * d + n % d = n := Nat.div_add_mod' n d
  have hr : n % d < d := Nat.mod_lt n hd
  rw [roundQuotient]
  split
  · omega
  · rw [Nat.add_mul, Nat.one_mul]
    omega

/-- No multiple of the divisor is nearer than the rounded quotient. -/
theorem roundQuotient_closest (hd : 0 < d) (hc : d ∣ c) :
    ((roundQuotient n d * d : Nat) - n : Int).natAbs ≤ (c - n : Int).natAbs := by
  obtain ⟨hlow, hhigh⟩ := roundQuotient_near (n := n) hd
  obtain ⟨t, rfl⟩ := hc
  rw [Nat.mul_comm d t]
  rcases Nat.lt_trichotomy t (roundQuotient n d) with h | rfl | h
  · have hmul := Nat.mul_le_mul_right d h
    rw [Nat.succ_mul] at hmul
    omega
  · exact le_rfl
  · have hmul := Nat.mul_le_mul_right d h
    rw [Nat.succ_mul] at hmul
    omega

end

/-! ## The nearest number -/

section

variable {i j k : Int} {n c : Nat}

theorem spacing_pos (n : Nat) : 0 < spacing n := Nat.two_pow_pos _

theorem spacing_of_small (h : n < 2 ^ 53) : spacing n = 1 := by
  by_cases hn : n = 0
  · subst hn
    rfl
  · have hlog : n.log2 < 53 := (Nat.log2_lt hn).mpr h
    rw [spacing, Nat.sub_eq_zero_of_le (Nat.le_of_lt_succ hlog), Nat.pow_zero]

/-- A number that is not small has 53 digits in front of its last distance. -/
theorem spacing_bounds (h : 2 ^ 53 ≤ n) : 2 ^ 52 * spacing n ≤ n ∧ n < 2 ^ 53 * spacing n := by
  have hn : n ≠ 0 := by omega
  have hlog : 53 ≤ n.log2 := (Nat.le_log2 hn).mpr h
  have hlow : 52 + (n.log2 - 52) = n.log2 := by omega
  have hhigh : 53 + (n.log2 - 52) = n.log2 + 1 := by omega
  rw [spacing, ← Nat.pow_add, ← Nat.pow_add, hlow, hhigh]
  exact ⟨Nat.log2_self_le hn, Nat.lt_log2_self⟩

/-- Where the distance is more than one, the digits in front of it are 53. -/
theorem roundQuotient_spacing (h : 2 ^ 53 ≤ n) :
    2 ^ 52 ≤ roundQuotient n (spacing n) ∧ roundQuotient n (spacing n) ≤ 2 ^ 53 := by
  obtain ⟨hlow, hhigh⟩ := spacing_bounds h
  have hquotient : n / spacing n < 2 ^ 53 := (Nat.div_lt_iff_lt_mul (spacing_pos n)).mpr hhigh
  exact ⟨((Nat.le_div_iff_mul_le (spacing_pos n)).mpr hlow).trans le_roundQuotient,
    roundQuotient_le.trans hquotient⟩

theorem nearestNat_of_small (h : n < 2 ^ 53) : nearestNat n = n := by
  rw [nearestNat, spacing_of_small h, roundQuotient_one, Nat.mul_one]

theorem nearest_neg (i : Int) : nearest (-i) = -nearest i := by
  rw [nearest, Int.sign_neg, Int.natAbs_neg, Int.neg_mul, nearest]

theorem nearest_natCast (n : Nat) : nearest n = nearestNat n := by
  by_cases hn : n = 0
  · subst hn
    rfl
  · rw [nearest, Int.sign_natCast_of_ne_zero hn, Int.one_mul, Int.natAbs_natCast]

theorem Holds.neg (h : Holds k) : Holds (-k) := by
  rwa [Holds, Int.natAbs_neg]

theorem holds_nearestNat (n : Nat) : Holds (nearestNat n) := by
  by_cases h : n < 2 ^ 53
  · rw [nearestNat_of_small h]
    exact ⟨n, 0, h, by simp⟩
  · obtain ⟨-, hle⟩ := roundQuotient_spacing (Nat.le_of_not_lt h)
    rcases Nat.lt_or_eq_of_le hle with hlt | heq
    · exact ⟨_, n.log2 - 52, hlt, Int.natAbs_natCast _⟩
    · refine ⟨2 ^ 52, n.log2 - 52 + 1, by decide, ?_⟩
      rw [nearestNat, heq, Int.natAbs_natCast, spacing, Nat.pow_succ]
      ring

theorem holds_nearest (i : Int) : Holds (nearest i) := by
  obtain ⟨n, rfl | rfl⟩ := i.eq_nat_or_neg
  · exact nearest_natCast n ▸ holds_nearestNat n
  · rw [nearest_neg, nearest_natCast]
    exact (holds_nearestNat n).neg

theorem nearestNat_closest (hc : Holds c) : (nearestNat n - n : Int).natAbs ≤ (c - n : Int).natAbs := by
  by_cases hn : n < 2 ^ 53
  · rw [nearestNat_of_small hn, Int.sub_self]
    exact Nat.zero_le _
  obtain ⟨hlow, -⟩ := spacing_bounds (Nat.le_of_not_lt hn)
  obtain ⟨m, e, hm, hc⟩ := hc
  rw [Int.natAbs_natCast] at hc
  by_cases he : n.log2 - 52 ≤ e
  · exact roundQuotient_closest (spacing_pos n) (hc ▸ (Nat.pow_dvd_pow 2 he).mul_left m)
  · -- A number of shorter steps is below all those of the size of `n`, so the least of these is nearer.
    have hbelow : c ≤ 2 ^ 52 * spacing n := by
      have hpow : 2 ^ 53 * 2 ^ e ≤ 2 ^ 52 * spacing n := by
        rw [spacing, ← Nat.pow_add, ← Nat.pow_add]
        exact Nat.pow_le_pow_right (by decide) (by omega)
      exact (hc ▸ Nat.mul_le_mul_right _ hm.le).trans hpow
    have hleast := roundQuotient_closest (n := n) (spacing_pos n) (Nat.dvd_mul_left (spacing n) (2 ^ 52))
    rw [← nearestNat] at hleast
    omega

/-- No floating-point number is nearer to an integer. -/
theorem nearest_closest (hk : Holds k) : (nearest i - i).natAbs ≤ (k - i).natAbs := by
  have hnat : ∀ (n : Nat) (k : Int), Holds k → (nearest n - n).natAbs ≤ (k - n).natAbs := by
    intro n k hk
    rw [nearest_natCast]
    obtain ⟨c, rfl | rfl⟩ := k.eq_nat_or_neg
    · exact nearestNat_closest hk
    · have hzero := @nearestNat_closest n 0 ⟨0, 0, by decide, rfl⟩
      omega
  obtain ⟨n, rfl | rfl⟩ := i.eq_nat_or_neg
  · exact hnat n k hk
  · have h := hnat n (-k) hk.neg
    rw [nearest_neg]
    omega

theorem nearest_of_holds (h : Holds i) : nearest i = i := by
  have hclosest := nearest_closest (i := i) h
  omega

theorem holds_of_small (h : i.natAbs < 2 ^ 53) : Holds i := ⟨i.natAbs, 0, h, by simp⟩

theorem nearest_mono (h : i ≤ j) : nearest i ≤ nearest j := by
  by_contra hlt
  have hi := nearest_closest (i := i) (holds_nearest j)
  have hj := nearest_closest (i := j) (holds_nearest i)
  -- Each is at least as near to its own number as to the other, so both are at the midpoint.
  obtain rfl : i = j := by omega
  exact hlt le_rfl

/-- Two integers of which one is small have different nearest numbers. -/
theorem nearest_injective (hi : i.natAbs < 2 ^ 53) (h : nearest i = nearest j) : i = j := by
  rw [nearest_of_holds (holds_of_small hi)] at h
  by_cases hj : j.natAbs < 2 ^ 53
  · rwa [nearest_of_holds (holds_of_small hj)] at h
  · -- The powers of two at the ends are numbers too, so that what is beyond them stays there.
    have hpow : Holds (2 ^ 53) := ⟨1, 53, by decide, rfl⟩
    rcases Int.le_total 0 j with hpos | hneg
    · have hmono := nearest_mono (i := 2 ^ 53) (j := j) (by omega)
      rw [nearest_of_holds hpow] at hmono
      omega
    · have hmono := nearest_mono (i := j) (j := -2 ^ 53) (by omega)
      rw [nearest_of_holds hpow.neg] at hmono
      omega

end

end Launcher.Double
