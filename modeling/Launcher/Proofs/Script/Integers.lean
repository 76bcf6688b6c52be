import Launcher.Script.Value.Arithmetic
import Mathlib.Data.Rat.Floor

/-!
# Arithmetic on integers

Sums, differences, products, quotients and remainders of integers are the exact ones where these have 64 bits, and an
overflow where they do not. Only the remainder of the least integer by -1, which is 0, is refused as an overflow too.
-/

namespace Launcher.Script

/-! ## Exact results -/

/-- The exact result of an operator on integers. The quotient `//` is rounded down, and `%` is what is left of it. -/
def BinaryOp.exact? : BinaryOp → Option (Int → Int → Int)
  | .add => some fun x y => x + y
  | .sub => some fun x y => x - y
  | .mul => some fun x y => x * y
  | .div => none
  | .floorDiv => some fun x y => ⌊(x / y : ℚ)⌋
  | .mod => some fun x y => x - y * ⌊(x / y : ℚ)⌋

/-- There is no result where the right operand is 0. -/
def BinaryOp.Divides (op : BinaryOp) : Prop := op = .div ∨ op = .floorDiv ∨ op = .mod

instance (op : BinaryOp) : Decidable op.Divides := inferInstanceAs (Decidable (_ ∨ _))

/-- The integer has 64 bits. -/
def FitsWord (r : Int) : Prop := -2 ^ 63 ≤ r ∧ r < 2 ^ 63

instance (r : Int) : Decidable (FitsWord r) := inferInstanceAs (Decidable (_ ∧ _))

/-- The operation ends in an error of a class. -/
def Fails (kind : String) (x : Except OperandError Value) : Prop := ∃ e, x = .error e ∧ e.toTarget.kind = kind

theorem Fails.unique {kind kind' : String} {x : Except OperandError Value} (h : Fails kind x) (h' : Fails kind' x) :
    kind = kind' := by
  obtain ⟨e, rfl, rfl⟩ := h
  obtain ⟨e', he, rfl⟩ := h'
  rw [Except.error.inj he]

/-- What becomes of the exact result `r`: it is the value if it fits, and an overflow exactly if it does not. -/
structure Exactly (r : Int) (x : Except OperandError Value) : Prop where
  value : FitsWord r → ∃ k : Int64, k.toInt = r ∧ x = .ok (.int k)
  overflow : Fails "OverflowError" x ↔ ¬FitsWord r

theorem Exactly.not_zeroDivision {r : Int} {x : Except OperandError Value} (h : Exactly r x) :
    ¬Fails "ZeroDivisionError" x := by
  intro hzero
  by_cases hfits : FitsWord r
  · obtain ⟨k, -, rfl⟩ := h.value hfits
    obtain ⟨e, he, -⟩ := hzero
    cases he
  · exact absurd (hzero.unique (h.overflow.mpr hfits)) (by decide)

theorem exactly_ofInt (r : Int) : Exactly r (Value.ofInt r) := by
  unfold Value.ofInt
  split
  · rename_i h
    have hfits : FitsWord r := ⟨h.1, Int.lt_add_one_iff.mpr h.2⟩
    refine ⟨fun _ => ⟨Int64.ofInt r, Int64.toInt_ofInt_of_le hfits.1 hfits.2, rfl⟩, fun hfails => ?_, absurd hfits⟩
    obtain ⟨e, he, -⟩ := hfails
    cases he
  · rename_i h
    have hfits : ¬FitsWord r := fun hfits => h ⟨hfits.1, Int.le_of_lt_add_one hfits.2⟩
    exact ⟨fun h => absurd h hfits, fun _ => hfits, fun _ => ⟨_, rfl, rfl⟩⟩

/-! ## Quotients and remainders -/

theorem fdiv_eq_floor (x y : Int) : x.fdiv y = ⌊(x / y : ℚ)⌋ := by
  have hnonneg : ∀ (x : Int) (n : Nat), x.fdiv n = ⌊(x / (n : Int) : ℚ)⌋ := by
    intro x n
    rw [Int.fdiv_eq_ediv_of_nonneg x n.cast_nonneg, Int.cast_natCast, Rat.floor_intCast_div_natCast]
  obtain ⟨n, rfl | rfl⟩ := y.eq_nat_or_neg
  · exact hnonneg x n
  · calc x.fdiv (-n) = (-x).fdiv n := by rw [← Int.neg_fdiv_neg, Int.neg_neg]
      _ = ⌊((-x : Int) / (n : Int) : ℚ)⌋ := hnonneg (-x) n
      _ = ⌊(x / (-n : Int) : ℚ)⌋ := by rw [Int.cast_neg, Int.cast_neg, neg_div, div_neg]

theorem fmod_eq_sub_floor (x y : Int) : x.fmod y = x - y * ⌊(x / y : ℚ)⌋ := by
  rw [Int.fmod_def, fdiv_eq_floor]

/-- What is left has the sign of the divisor and is smaller. -/
theorem sub_floor_sign (x y : Int) :
    (0 < y → 0 ≤ x - y * ⌊(x / y : ℚ)⌋ ∧ x - y * ⌊(x / y : ℚ)⌋ < y) ∧
    (y < 0 → y < x - y * ⌊(x / y : ℚ)⌋ ∧ x - y * ⌊(x / y : ℚ)⌋ ≤ 0) := by
  rw [← fmod_eq_sub_floor]
  refine ⟨fun h => ⟨Int.fmod_nonneg_of_pos x h, Int.fmod_lt_of_pos x h⟩, fun h => ?_⟩
  have hneg : x.fmod y = -(-x).fmod (-y) := by rw [Int.neg_fmod_neg, Int.neg_neg]
  have hpos : 0 < -y := by omega
  have hlow := Int.fmod_nonneg_of_pos (-x) hpos
  have hhigh := Int.fmod_lt_of_pos (-x) hpos
  omega

/-- The quotient rounded towards zero is the floor, or one above it where the signs differ and something is left. -/
theorem fdiv_eq_corrected {x y : Int} (hy : y ≠ 0) :
    x.fdiv y = if x.tmod y ≠ 0 ∧ (x < 0 ↔ ¬y < 0) then x.tdiv y - 1 else x.tdiv y := by
  have hdvd : y ∣ x ↔ x.tmod y = 0 := Int.dvd_iff_tmod_eq_zero
  rw [Int.fdiv_eq_tdiv]
  by_cases hx : 0 ≤ x <;> by_cases hpos : 0 ≤ y
  · grind
  · grind
  · have hsign : y.sign = 1 := Int.sign_eq_one_of_pos (by omega)
    grind
  · have hsign : y.sign = -1 := Int.sign_eq_neg_one_of_neg (by omega)
    grind

/-- What the quotient rounded towards zero leaves has the sign of the dividend. -/
theorem fmod_eq_corrected {x y : Int} (hy : y ≠ 0) :
    x.fmod y = if x.tmod y ≠ 0 ∧ (x.tmod y < 0 ↔ ¬y < 0) then x.tmod y + y else x.tmod y := by
  have hsign : x.tmod y ≠ 0 → (x.tmod y < 0 ↔ x < 0) := by
    intro hne
    rcases Int.le_total 0 x with hx | hx
    · have := Int.tmod_nonneg y hx
      omega
    · have h : x.tmod y ≤ 0 := by
        have := Int.tmod_nonneg y (a := -x) (by omega)
        rw [Int.neg_tmod] at this
        omega
      have hx0 : x ≠ 0 := by
        rintro rfl
        simp at hne
      omega
  have hfdiv := fdiv_eq_corrected (x := x) hy
  have hdef := Int.fmod_def x y
  have hdiv := Int.tmod_add_mul_tdiv x y
  by_cases hcorr : x.tmod y ≠ 0 ∧ (x < 0 ↔ ¬y < 0)
  · rw [if_pos hcorr] at hfdiv
    rw [if_pos ⟨hcorr.1, (hsign hcorr.1).trans hcorr.2⟩, hdef, hfdiv, Int.mul_sub]
    omega
  · rw [if_neg hcorr] at hfdiv
    rw [if_neg fun h => hcorr ⟨h.1, (hsign h.1).symm.trans h.2⟩, hdef, hfdiv]
    omega

/-! ## Division of words -/

theorem fitsWord_toInt (k : Int64) : FitsWord k.toInt := ⟨k.le_toInt, k.toInt_lt⟩

theorem bmod_eq_of_fitsWord {r : Int} (h : FitsWord r) : r.bmod (2 ^ 64) = r :=
  Int.bmod_eq_of_le h.1 h.2

/-- No floor quotient is smaller than the least integer. -/
theorem least_le_fdiv {x y : Int} (hx : FitsWord x) (hy : y ≠ 0) : -2 ^ 63 ≤ x.fdiv y := by
  have hpos : ∀ {x y : Int}, -2 ^ 63 ≤ x → 0 < y → -2 ^ 63 ≤ x.fdiv y := by
    intro x y hx hy
    rw [Int.fdiv_eq_ediv_of_nonneg x (Int.le_of_lt hy), Int.le_ediv_iff_mul_le hy]
    omega
  rcases Int.lt_or_gt_of_ne hy with hneg | hpos'
  · rw [← Int.neg_fdiv_neg]
    have := hx.2
    exact hpos (by omega) (by omega)
  · exact hpos hx.1 hpos'

namespace Value

theorem oppose_iff {a b : Int64} : oppose a b = true ↔ (a.toInt < 0 ↔ ¬b.toInt < 0) := by
  simp [oppose, Int64.lt_iff_toInt_lt]
  grind

theorem mod_ne_zero_iff {a b : Int64} : a % b ≠ 0 ↔ a.toInt.tmod b.toInt ≠ 0 := by
  rw [← Int64.toInt_mod, ne_eq, ← Int64.toInt_inj]
  rfl

theorem toInt_div_of_divides {a b : Int64} (h : Divides a b) : (a / b).toInt = a.toInt.tdiv b.toInt := by
  by_cases ha : a = Int64.minValue
  · exact Int64.toInt_div_of_ne_right a b fun hb => h.2 ⟨ha, hb⟩
  · exact Int64.toInt_div_of_ne_left a b ha

theorem ofInt_toInt (k : Int64) : ofInt k.toInt = .ok (.int k) := by
  unfold ofInt
  rw [if_pos ⟨k.le_toInt, Int.le_of_lt_add_one k.toInt_lt⟩, Int64.ofInt_toInt]

theorem toInt_ne_zero {b : Int64} (hb : b ≠ 0) : b.toInt ≠ 0 := fun h => hb (Int64.toInt_inj.mp h)

/-- The correction does not leave the integers of 64 bits, since the floor quotient is one of them. -/
theorem toInt_corrected_div {a b : Int64} (h : Divides a b) :
    (if a % b ≠ 0 ∧ oppose a b then a / b - 1 else a / b).toInt = a.toInt.fdiv b.toInt := by
  have hfloor := fdiv_eq_corrected (x := a.toInt) (toInt_ne_zero h.1)
  have hquot := toInt_div_of_divides h
  simp only [mod_ne_zero_iff, oppose_iff]
  split at hfloor <;> rename_i hcorr
  · have hfits : FitsWord (a.toInt.fdiv b.toInt) :=
      ⟨least_le_fdiv (fitsWord_toInt a) (toInt_ne_zero h.1), by have := (a / b).toInt_lt; omega⟩
    rw [if_pos hcorr, Int64.toInt_sub, hquot, hfloor]
    exact bmod_eq_of_fitsWord (hfloor ▸ hfits)
  · rw [if_neg hcorr, hquot, hfloor]

theorem toInt_corrected_mod {a b : Int64} (hb : b ≠ 0) :
    (if a % b ≠ 0 ∧ oppose (a % b) b then a % b + b else a % b).toInt = a.toInt.fmod b.toInt := by
  have hfloor := fmod_eq_corrected (x := a.toInt) (toInt_ne_zero hb)
  have hrem := Int64.toInt_mod a b
  simp only [mod_ne_zero_iff, oppose_iff, hrem]
  split at hfloor <;> rename_i hcorr
  · have hfits : FitsWord (a.toInt.tmod b.toInt + b.toInt) := by
      have hr := fitsWord_toInt (a % b)
      have hb := fitsWord_toInt b
      rw [hrem] at hr
      unfold FitsWord at *
      omega
    rw [if_pos hcorr, Int64.toInt_add, hrem, hfloor]
    exact bmod_eq_of_fitsWord hfits
  · rw [if_neg hcorr, hrem, hfloor]

/-- The corrected quotient of the processor is the floor quotient, which has too many bits just where the processor does
not divide. -/
theorem intOp_floorDiv {a b : Int64} (hb : b ≠ 0) : intOp .floorDiv a b = ofInt (a.toInt.fdiv b.toInt) := by
  by_cases h : Divides a b
  · simp only [intOp, if_neg hb, checkedDiv, if_pos h, Except.map, ← toInt_corrected_div h, ofInt_toInt]
  · have hedge : a = Int64.minValue ∧ b = -1 := by
      by_contra hne
      exact h ⟨hb, hne⟩
    obtain ⟨rfl, rfl⟩ := hedge
    rfl

/-- So is the corrected remainder that of the floor quotient, where the processor divides. -/
theorem intOp_mod {a b : Int64} (h : Divides a b) : intOp .mod a b = ofInt (a.toInt.fmod b.toInt) := by
  simp only [intOp, if_neg h.1, checkedRem, if_pos h, Except.map, ← toInt_corrected_mod h.1, ofInt_toInt]

end Value

/-! ## Operators -/

section

variable {op : BinaryOp} {f : Int → Int → Int} {a b : Value} {i j : Int64}

theorem binary_of_int? (ha : a.int? = some i) (hb : b.int? = some j) : Value.binary op a b = Value.intOp op i j := by
  have hnumber : Value.numberOp op a b = Value.intOp op i j := by rw [Value.numberOp, ha, hb]
  cases a <;> cases ha <;> cases b <;> cases hb <;> cases op <;> exact hnumber

theorem intOp_exactly (hop : op.exact? = some f) (hzero : ¬(op.Divides ∧ j.toInt = 0))
    (hleast : op = .mod → i.toInt = -2 ^ 63 → j.toInt ≠ -1) :
    Exactly (f i.toInt j.toInt) (Value.intOp op i j) := by
  cases op with
  | add | sub | mul =>
      cases hop
      exact exactly_ofInt _
  | div => cases hop
  | floorDiv =>
      cases hop
      have hj : j ≠ 0 := fun h => hzero ⟨.inr (.inl rfl), Int64.toInt_inj.mpr h⟩
      rw [Value.intOp_floorDiv hj, fdiv_eq_floor]
      exact exactly_ofInt _
  | mod =>
      cases hop
      have hdivides : Value.Divides i j := by
        refine ⟨fun h => hzero ⟨.inr (.inr rfl), Int64.toInt_inj.mpr h⟩, ?_⟩
        rintro ⟨rfl, rfl⟩
        exact hleast rfl rfl rfl
      rw [Value.intOp_mod hdivides, fmod_eq_sub_floor]
      exact exactly_ofInt _

theorem intOp_zeroDivision (hop : op.Divides) (hj : j.toInt = 0) :
    Fails "ZeroDivisionError" (Value.intOp op i j) := by
  have hzero : j = 0 := Int64.toInt_inj.mp hj
  rcases hop with rfl | rfl | rfl
  all_goals
    simp only [Value.intOp, if_pos hzero]
    exact ⟨_, rfl, rfl⟩

/-- The least integer leaves nothing when it is divided by -1, and yet its remainder is refused. -/
theorem intOp_mod_least (hi : i.toInt = -2 ^ 63) (hj : j.toInt = -1) :
    Fails "OverflowError" (Value.intOp .mod i j) := by
  have hleast : i = Int64.minValue := Int64.toInt_inj.mp hi
  have hone : j = -1 := Int64.toInt_inj.mp hj
  subst hleast hone
  exact ⟨.overflow, rfl, rfl⟩

theorem negate_exactly (ha : a.int? = some i) : Exactly (-i.toInt) a.negate := by
  cases a with
  | bool b =>
      cases ha
      cases b
      · exact exactly_ofInt 0
      · exact exactly_ofInt (-1)
  | int k =>
      cases ha
      exact exactly_ofInt _
  | _ => cases ha

/-- For integers, of which truth values are 0 and 1, an operator gives the exact result if that has 64 bits and an
overflow if it has not, and refuses just to divide by 0; so does the sign. The one exception is the remainder of the
least integer by -1. -/
theorem binary_exact (hop : op.exact? = some f) (ha : a.int? = some i) (hb : b.int? = some j) :
    (Fails "ZeroDivisionError" (Value.binary op a b) ↔ op.Divides ∧ j.toInt = 0) ∧
    (¬(op.Divides ∧ j.toInt = 0) → (op = .mod → i.toInt = -2 ^ 63 → j.toInt ≠ -1) →
      Exactly (f i.toInt j.toInt) (Value.binary op a b)) ∧
    (op = .mod → i.toInt = -2 ^ 63 → j.toInt = -1 → Fails "OverflowError" (Value.binary op a b)) ∧
    (op = .mod → (0 < j.toInt → 0 ≤ f i.toInt j.toInt ∧ f i.toInt j.toInt < j.toInt) ∧
      (j.toInt < 0 → j.toInt < f i.toInt j.toInt ∧ f i.toInt j.toInt ≤ 0)) ∧
    Exactly (-i.toInt) a.negate := by
  rw [binary_of_int? ha hb]
  refine ⟨⟨fun hfails => ?_, fun h => intOp_zeroDivision h.1 h.2⟩, intOp_exactly hop, ?_, ?_, negate_exactly ha⟩
  · by_contra hzero
    by_cases hleast : op = .mod ∧ i.toInt = -2 ^ 63 ∧ j.toInt = -1
    · obtain ⟨rfl, hi, hj⟩ := hleast
      exact absurd (hfails.unique (intOp_mod_least hi hj)) (by decide)
    · exact (intOp_exactly hop hzero fun h hi hj => hleast ⟨h, hi, hj⟩).not_zeroDivision hfails
  · rintro rfl
    exact intOp_mod_least
  · rintro rfl
    cases hop
    exact sub_floor_sign _ _

/-- Of -7 divided by 2, which is -4, there is 1 left. -/
theorem binary_exact_negative :
    Value.binary .mod (.int (-7)) (.int 2) = .ok (.int 1) ∧
      ¬Fails "ZeroDivisionError" (Value.binary .mod (.int (-7)) (.int 2)) ∧
      Exactly ((-7 : Int) - 2 * ⌊((-7 : Int) / (2 : Int) : ℚ)⌋) (Value.binary .mod (.int (-7)) (.int 2)) := by
  obtain ⟨hzero, hexact, -⟩ := @binary_exact .mod _ (.int (-7)) (.int 2) _ _ rfl rfl rfl
  exact ⟨rfl, fun h => absurd (hzero.mp h).2 (by decide), hexact (by decide) (by decide)⟩

/-- The least integer divided by -1 leaves nothing, and this is an overflow all the same. -/
theorem mod_least_overflows :
    BinaryOp.exact? .mod = some (fun x y : Int => x - y * ⌊(x / y : ℚ)⌋) ∧
      Int64.minValue.toInt - (-1) * ⌊(Int64.minValue.toInt / (-1 : Int) : ℚ)⌋ = 0 ∧
      Value.binary .mod (.int Int64.minValue) (.int (-1)) = .error .overflow ∧
      ¬Exactly 0 (Value.binary .mod (.int Int64.minValue) (.int (-1))) := by
  refine ⟨rfl, ?_, rfl, fun h => h.overflow.mp ⟨_, rfl, rfl⟩ (by decide)⟩
  rw [← fmod_eq_sub_floor]
  rfl

end

end Launcher.Script
