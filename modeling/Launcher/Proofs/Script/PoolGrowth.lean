import Launcher.Proofs.Script.Agreement
import Mathlib.Data.List.Nodup

/-!
# Pools that grow

Constants and names are added to a code object one after the other. A pool grows at its end only, so a position that
was given for an entry leads to that entry from then on, and no entry is ever there twice.
-/

namespace Launcher.Script

/-! ## Interning -/

section

variable {α : Type} {pool pool' : List α} {a : α} {i j : Nat}

/-- The position of `a`, and the pool with `a` in it: the first position that it has, or one at the end. -/
inductive Interns (pool : List α) (a : α) : Nat → List α → Prop where
  | there {i : Nat} : pool[i]? = some a → (∀ j, pool[j]? = some a → i ≤ j) → Interns pool a i pool
  | new : a ∉ pool → Interns pool a pool.length (pool ++ [a])

theorem interns [DecidableEq α] (pool : List α) (a : α) : Interns pool a (intern pool a).1 (intern pool a).2 := by
  unfold intern
  split
  · rename_i i hi
    obtain ⟨hlt, ha, hfirst⟩ := List.idxOf?_eq_some_iff.mp hi
    refine .there (List.getElem?_eq_some_iff.mpr ⟨hlt, ha⟩) fun j hj => Nat.le_of_not_lt fun hji => ?_
    obtain ⟨_, hja⟩ := List.getElem?_eq_some_iff.mp hj
    exact hfirst j hji hja
  · rename_i hnone
    exact .new (List.idxOf?_eq_none_iff.mp hnone)

namespace Interns

theorem isPrefix (h : Interns pool a i pool') : pool <+: pool' := by
  cases h with
  | there _ _ => exact List.prefix_refl pool
  | new _ => exact List.prefix_append pool [a]

theorem nodup (h : Interns pool a i pool') (hpool : pool.Nodup) : pool'.Nodup := by
  cases h with
  | there _ _ => exact hpool
  | new ha => exact List.concat_eq_append ▸ hpool.concat ha

theorem getElem? (h : Interns pool a i pool') : pool'[i]? = some a := by
  cases h with
  | there hi _ => exact hi
  | new _ => exact List.getElem?_concat_length

theorem position_le (h : Interns pool a i pool') : i ≤ pool.length := by
  cases h with
  | there hi _ => exact Nat.le_of_lt (List.getElem?_eq_some_iff.mp hi).1
  | new _ => exact Nat.le_refl _

theorem length_le (h : Interns pool a i pool') : pool'.length ≤ pool.length + 1 := by
  cases h with
  | there _ _ => exact Nat.le_succ _
  | new _ => simp

/-- What is there already stays where it is first. -/
theorem of_getElem? (h : Interns pool a i pool') (hj : pool[j]? = some a) : pool' = pool ∧ i ≤ j := by
  cases h with
  | there _ hfirst => exact ⟨rfl, hfirst j hj⟩
  | new ha => exact absurd (List.mem_of_getElem? hj) ha

theorem of_not_getElem? (h : Interns pool a i pool') (ha : ∀ j : Nat, pool[j]? ≠ some a) :
    i = pool.length ∧ pool' = pool ++ [a] := by
  cases h with
  | there hi _ => exact absurd hi (ha i)
  | new _ => exact ⟨rfl, rfl⟩

end Interns

end

/-! ## Constants that are the same -/

/-- Two constants are the same if their kinds and their values are; floating-point numbers are if their bits are. -/
def Const.same : Const → Const → Bool
  | .none, .none => true
  | .bool a, .bool b => a == b
  | .int i, .int j => i == j
  | .float x, .float y => x.bits == y.bits
  | .str s, .str t => s == t
  | _, _ => false

theorem Const.same_iff {a b : Const} : a.same b = true ↔ a = b := by
  cases a with
  | float x =>
      obtain ⟨x⟩ := x
      cases b with
      | float y =>
          obtain ⟨y⟩ := y
          simp [same]
      | _ => simp [same]
  | _ => cases b <;> simp [same]

theorem pairwise_same_iff {cs : List Const} : (cs.Pairwise fun a b => a.same b = false) ↔ cs.Nodup := by
  simp only [Bool.eq_false_iff, Ne, Const.same_iff, List.Nodup]

/-! ## Additions -/

/-- What is added to a code object. -/
inductive Entry where
  | const (c : Const)
  | name (s : String)
deriving DecidableEq, Repr

namespace Code

variable {code code' : Code} {e : Entry} {i j : Nat}

/-- Add an entry: its position. -/
def add (code : Code) : Entry → Nat × Code
  | .const c => code.addConst c
  | .name s => code.addName s

/-- The code object after additions. -/
def addAll (code : Code) (es : List Entry) : Code := es.foldl (fun code e => (code.add e).2) code

/-- The entry is what is looked up at a position. -/
def Has (code : Code) (i : Nat) : Entry → Prop
  | .const c => Exec.constAt code i = .ok c
  | .name s => Exec.nameAt code i = .ok s

/-- The number of entries in the pool that an entry belongs to. -/
def poolSize (code : Code) : Entry → Nat
  | .const _ => code.consts.length
  | .name _ => code.names.length

/-- The code object with an entry at the end of its pool. -/
def extend (code : Code) : Entry → Code
  | .const c => { code with consts := code.consts ++ [c] }
  | .name s => { code with names := code.names ++ [s] }

/-- No pool has an entry twice. -/
structure Distinct (code : Code) : Prop where
  consts : code.consts.Pairwise fun a b => a.same b = false
  names : code.names.Nodup

/-- The pools of the one code object are the beginnings of those of the other. -/
structure Grows (code code' : Code) : Prop where
  consts : code.consts <+: code'.consts
  names : code.names <+: code'.names

theorem Grows.refl (code : Code) : code.Grows code := ⟨List.prefix_refl _, List.prefix_refl _⟩

theorem Grows.trans {last : Code} (h : code.Grows code') (h' : code'.Grows last) : code.Grows last :=
  ⟨h.consts.trans h'.consts, h.names.trans h'.names⟩

theorem constAt_eq_ok {c : Const} : Exec.constAt code i = .ok c ↔ code.consts[i]? = some c := by
  rw [Exec.constAt]
  split <;> simp_all

theorem Has.lt_poolSize (h : code.Has i e) : i < code.poolSize e := by
  cases e with
  | const c => exact (List.getElem?_eq_some_iff.mp (constAt_eq_ok.mp h)).1
  | name s => exact (List.getElem?_eq_some_iff.mp (Exec.nameAt_eq_ok.mp h)).1

theorem getElem?_of_front {α : Type} {xs ys : List α} {a : α} (h : xs <+: ys) (ha : xs[i]? = some a) :
    ys[i]? = some a := by
  obtain ⟨hi, rfl⟩ := List.getElem?_eq_some_iff.mp ha
  exact List.prefix_iff_getElem?.mp h i hi

theorem Has.grows (h : code.Has i e) (hgrows : code.Grows code') : code'.Has i e := by
  cases e with
  | const c => exact constAt_eq_ok.mpr (getElem?_of_front hgrows.consts (constAt_eq_ok.mp h))
  | name s => exact Exec.nameAt_eq_ok.mpr (getElem?_of_front hgrows.names (Exec.nameAt_eq_ok.mp h))

/-! ### One addition -/

theorem add_has (code : Code) (e : Entry) : (code.add e).2.Has (code.add e).1 e := by
  cases e with
  | const c => exact constAt_eq_ok.mpr (interns code.consts c).getElem?
  | name s => exact Exec.nameAt_eq_ok.mpr (interns code.names s).getElem?

theorem add_grows (code : Code) (e : Entry) : code.Grows (code.add e).2 := by
  cases e with
  | const c => exact ⟨(interns code.consts c).isPrefix, List.prefix_refl _⟩
  | name s => exact ⟨List.prefix_refl _, (interns code.names s).isPrefix⟩

theorem Distinct.add (h : code.Distinct) (e : Entry) : (code.add e).2.Distinct := by
  cases e with
  | const c => exact ⟨pairwise_same_iff.mpr ((interns code.consts c).nodup (pairwise_same_iff.mp h.consts)), h.names⟩
  | name s => exact ⟨h.consts, (interns code.names s).nodup h.names⟩

/-- The position of an entry that is there is its first one, and nothing changes. -/
theorem add_of_has (h : code.Has j e) : (code.add e).2 = code ∧ (code.add e).1 ≤ j := by
  cases e with
  | const c =>
      obtain ⟨hpool, hle⟩ := (interns code.consts c).of_getElem? (constAt_eq_ok.mp h)
      exact ⟨congrArg (fun consts => { code with consts }) hpool, hle⟩
  | name s =>
      obtain ⟨hpool, hle⟩ := (interns code.names s).of_getElem? (Exec.nameAt_eq_ok.mp h)
      exact ⟨congrArg (fun names => { code with names }) hpool, hle⟩

theorem add_of_not_has (h : ∀ j, ¬code.Has j e) : code.add e = (code.poolSize e, code.extend e) := by
  cases e with
  | const c =>
      obtain ⟨hi, hpool⟩ := (interns code.consts c).of_not_getElem? fun j hj => h j (constAt_eq_ok.mpr hj)
      exact Prod.ext hi (congrArg (fun consts => { code with consts }) hpool)
  | name s =>
      obtain ⟨hi, hpool⟩ := (interns code.names s).of_not_getElem? fun j hj => h j (Exec.nameAt_eq_ok.mpr hj)
      exact Prod.ext hi (congrArg (fun names => { code with names }) hpool)

theorem poolSize_add_le (code : Code) (e e' : Entry) : (code.add e').2.poolSize e ≤ code.poolSize e + 1 := by
  cases e' with
  | const c =>
      cases e with
      | const _ => exact (interns code.consts c).length_le
      | name _ => exact Nat.le_succ _
  | name s =>
      cases e with
      | const _ => exact Nat.le_succ _
      | name _ => exact (interns code.names s).length_le

theorem add_le_poolSize (code : Code) (e : Entry) : (code.add e).1 ≤ code.poolSize e := by
  cases e with
  | const c => exact (interns code.consts c).position_le
  | name s => exact (interns code.names s).position_le

/-! ### Many additions -/

theorem addAll_grows (code : Code) (es : List Entry) : code.Grows (code.addAll es) := by
  induction es generalizing code with
  | nil => exact .refl code
  | cons e es ih => exact (code.add_grows e).trans (ih (code.add e).2)

theorem Distinct.addAll (h : code.Distinct) (es : List Entry) : (code.addAll es).Distinct := by
  induction es generalizing code with
  | nil => exact h
  | cons e es ih => exact ih (h.add e)

theorem poolSize_addAll_le (code : Code) (es : List Entry) (e : Entry) :
    (code.addAll es).poolSize e ≤ code.poolSize e + es.length := by
  induction es generalizing code with
  | nil => exact Nat.le_refl _
  | cons e' es ih =>
      calc (code.addAll (e' :: es)).poolSize e ≤ (code.add e').2.poolSize e + es.length := ih (code.add e').2
        _ ≤ code.poolSize e + 1 + es.length := Nat.add_le_add_right (code.poolSize_add_le e e') _
        _ = code.poolSize e + (e' :: es).length := by rw [List.length_cons]; omega

theorem distinct_of_new (file : String) : ({ file } : Code).Distinct := ⟨.nil, .nil⟩

/-- Whatever is added to a new code object, no pool has an entry twice. The position that an addition gives is one of
the pool, no further back than there were additions before, and leads to the entry then and after all further
additions. It is the first one of an entry that is there, and then the code object stays as it is; another entry goes
to the end of its pool. -/
theorem addAll_has (file : String) (before after : List Entry) (e : Entry) :
    let code := addAll { file } before
    let position := (code.add e).1
    let next := (code.add e).2
    let last := next.addAll after
    code.Distinct ∧ last.Distinct ∧ position < next.poolSize e ∧ position ≤ before.length ∧
      next.Has position e ∧ last.Has position e ∧
      (∀ j, code.Has j e → next = code ∧ code.Has position e ∧ position ≤ j) ∧
      ((∀ j, ¬code.Has j e) → position = code.poolSize e ∧ next = code.extend e) := by
  intro code position next last
  have hcode : code.Distinct := (distinct_of_new file).addAll before
  have hhas : next.Has position e := code.add_has e
  have hsize : code.poolSize e ≤ before.length := by
    have hle := poolSize_addAll_le { file } before e
    cases e <;> simpa [poolSize] using hle
  refine ⟨hcode, (hcode.add e).addAll after, hhas.lt_poolSize, Nat.le_trans (code.add_le_poolSize e) hsize, hhas,
    hhas.grows (next.addAll_grows after), ?_, ?_⟩
  · intro j hj
    obtain ⟨hnext, hle⟩ := add_of_has hj
    exact ⟨hnext, hnext ▸ hhas, hle⟩
  · intro hnew
    have hadd : code.add e = (code.poolSize e, code.extend e) := add_of_not_has hnew
    exact ⟨congrArg Prod.fst hadd, congrArg Prod.snd hadd⟩

/-- The numbers 1 and 1.0, the truth value and the two zeros are different constants; a NaN is the same again. -/
example : (addAll { file := "f" } ([.int 1, .float ⟨0x3FF0000000000000⟩, .bool true, .float ⟨0⟩,
    .float ⟨0x8000000000000000⟩, .float ⟨0x7FF8000000000000⟩, .float ⟨0x7FF8000000000000⟩].map .const)).consts.length =
    6 := by decide

end Code

end Launcher.Script
