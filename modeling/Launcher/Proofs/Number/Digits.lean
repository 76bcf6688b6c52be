import Launcher.Text.Integer

/-!
# Texts of numbers

The text of a number is its digits, without zeros in front and without a sign. A reader of numbers below a limit gets
the number back from it.
-/

namespace Launcher

namespace Decimal

theorem toList_toString (n : Nat) : (toString n).toList = digitsOf n := String.toList_ofList

theorem isDigit_of_mem {n : Nat} {c : Char} (h : c ∈ digitsOf n) : c.isDigit = true :=
  Nat.isDigit_of_mem_toDigits (by decide) (by decide) h

theorem valueOf_digitsOf (n : Nat) : valueOf (digitsOf n) = n := Nat.ofDigitChars_toDigits (by decide) (by decide)

theorem not_mem_toString {c : Char} (hc : c.isDigit = false) (n : Nat) : c ∉ (toString n).toList := by
  rw [toList_toString]
  exact fun hmem => Bool.false_ne_true (hc.symm.trans (isDigit_of_mem hmem))

theorem toString_injective {m n : Nat} (h : toString m = toString n) : m = n := by
  have hdigits := congrArg String.toList h
  rw [toList_toString, toList_toString] at hdigits
  rw [← valueOf_digitsOf m, hdigits, valueOf_digitsOf]

end Decimal

open Decimal

theorem digitsBelow?_digitsOf {limit n : Nat} (h : n < limit) : digitsBelow? limit (digitsOf n) = some n := by
  have hne : digitsOf n ≠ [] := Nat.toDigits_ne_nil
  have hall : (digitsOf n).all Char.isDigit = true := List.all_eq_true.mpr fun _ => isDigit_of_mem
  simp [digitsBelow?, hne, hall, valueOf_digitsOf, h]

/-- A number below the limit is read from its text. -/
theorem natBelow?_toString {limit n : Nat} (h : n < limit) : natBelow? limit (toString n) = some n := by
  have hread := digitsBelow?_digitsOf h
  rw [natBelow?, toList_toString]
  split
  · rename_i cs hcs
    exact absurd (isDigit_of_mem (hcs ▸ List.mem_cons_self : '+' ∈ digitsOf n)) (by decide)
  · exact hread

theorem lt_of_digitsBelow? {limit n : Nat} {cs : List Char} (h : digitsBelow? limit cs = some n) : n < limit := by
  unfold digitsBelow? at h
  split at h
  · dsimp only at h
    split at h
    · rename_i hlt
      exact Option.some.inj h ▸ hlt
    · cases h
  · cases h

theorem lt_of_natBelow? {limit n : Nat} {s : String} (h : natBelow? limit s = some n) : n < limit := by
  unfold natBelow? at h
  split at h <;> exact lt_of_digitsBelow? h

end Launcher
