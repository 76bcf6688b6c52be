/-!
Finite maps from names, as lists of pairs in the order in which the names came. What a map gives
after a change is said by `get?_set` and `get?_erase`.
-/
namespace Launcher

abbrev Dict (α : Type) := List (String × α)

namespace Dict

variable {α : Type}

def get? : Dict α → String → Option α
  | [], _ => none
  | (n, a) :: d, name => if n = name then some a else get? d name

def has (d : Dict α) (name : String) : Bool := (d.get? name).isSome

/-- Bind a name, in its old place if it has one. -/
def set : Dict α → String → α → Dict α
  | [], name, a => [(name, a)]
  | (n, b) :: d, name, a => if n = name then (name, a) :: d else (n, b) :: set d name a

def erase : Dict α → String → Dict α
  | [], _ => []
  | (n, a) :: d, name => if n = name then erase d name else (n, a) :: erase d name

theorem get?_set (d : Dict α) (n m : String) (a : α) :
    (d.set n a).get? m = if n = m then some a else d.get? m := by
  induction d with
  | nil => rfl
  | cons p d ih =>
    obtain ⟨k, b⟩ := p
    by_cases hk : k = n
    · subst hk
      by_cases h : k = m <;> simp [set, get?, h]
    · by_cases hm : k = m
      · subst hm
        simp [set, get?, hk, Ne.symm hk]
      · simp [set, get?, hk, hm, ih]

theorem get?_erase (d : Dict α) (n m : String) :
    (d.erase n).get? m = if n = m then none else d.get? m := by
  induction d with
  | nil => simp [erase, get?]
  | cons p d ih =>
    obtain ⟨k, b⟩ := p
    by_cases hk : k = n
    · subst hk
      rw [erase, if_pos rfl, ih, get?]
      split <;> rfl
    · by_cases hm : k = m
      · subst hm
        simp [erase, get?, hk, Ne.symm hk]
      · simp [erase, get?, hk, hm, ih]

end Dict

end Launcher
