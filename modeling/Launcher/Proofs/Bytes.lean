import Launcher.Bytes.Utf8
import Mathlib.Algebra.Group.Nat.Defs

/-!
# Taking off the front what was put there

Reading undoes writing, for byte strings of known length and for numbers of `k` bytes, which keep what they are
modulo `256 ^ k`.
-/

namespace Launcher

namespace Bytes

/-! ## Byte strings -/

theorem takeBytes_append (h t : Bytes) : takeBytes h.length (h ++ t) = some (h, t) := by
  induction h with
  | nil => rfl
  | cons b h ih => simp [takeBytes, ih]

theorem takeBytes_append_of_some {n : Nat} {bs h t : Bytes} (heq : takeBytes n bs = some (h, t)) (tail : Bytes) :
    takeBytes n (bs ++ tail) = some (h, t ++ tail) := by
  induction n generalizing bs h with
  | zero => cases heq; rfl
  | succ n ih =>
      cases bs with
      | nil => cases heq
      | cons b bs =>
          rw [takeBytes, Option.map_eq_some_iff] at heq
          obtain ⟨⟨h', t'⟩, hrest, heq⟩ := heq
          cases heq
          rw [List.cons_append, takeBytes, ih hrest, Option.map_some]

theorem append_of_takeBytes {n : Nat} {bs h t : Bytes} (heq : takeBytes n bs = some (h, t)) : h ++ t = bs := by
  induction n generalizing bs h with
  | zero => cases heq; rfl
  | succ n ih =>
      cases bs with
      | nil => cases heq
      | cons b bs =>
          rw [takeBytes, Option.map_eq_some_iff] at heq
          obtain ⟨⟨h', t'⟩, hrest, heq⟩ := heq
          cases heq
          rw [List.cons_append, ih hrest]

theorem length_of_takeBytes {n : Nat} {bs h t : Bytes} (heq : takeBytes n bs = some (h, t)) : h.length = n := by
  induction n generalizing bs h with
  | zero => cases heq; rfl
  | succ n ih =>
      cases bs with
      | nil => cases heq
      | cons b bs =>
          rw [takeBytes, Option.map_eq_some_iff] at heq
          obtain ⟨⟨h', t'⟩, hrest, heq⟩ := heq
          cases heq
          rw [List.length_cons, ih hrest]

theorem drop?_append (bs t : Bytes) : drop? bs (bs ++ t) = some t := by
  induction bs with
  | nil => rfl
  | cons b bs ih => simp [drop?, ih]

theorem append_of_drop? {bs cs t : Bytes} (heq : drop? bs cs = some t) : bs ++ t = cs := by
  induction bs generalizing cs with
  | nil => cases heq; rfl
  | cons b bs ih =>
      cases cs with
      | nil => cases heq
      | cons c cs =>
          rw [drop?] at heq
          split at heq
          · rename_i hbyte
            rw [List.cons_append, hbyte, ih heq]
          · cases heq

theorem ofString_of_decode? {bs : Bytes} {s : String} (h : Utf8.decode? bs = some s) : ofString s = bs := by
  unfold Utf8.decode? String.fromUTF8? at h
  split at h
  · cases h; rfl
  · cases h

/-! ## Numbers -/

@[simp] theorem length_encodeLE (k v : Nat) : (encodeLE k v).length = k := by
  induction k generalizing v with
  | zero => rfl
  | succ k ih => simp [encodeLE, ih]

theorem valueLE_encodeLE (k v : Nat) : valueLE (encodeLE k v) = v % 256 ^ k := by
  induction k generalizing v with
  | zero => simp [encodeLE, valueLE, Nat.mod_one]
  | succ k ih =>
      have hbyte : (UInt8.ofNat v).toNat = v % 256 := by simp
      rw [encodeLE, valueLE, ih, hbyte, pow_succ, Nat.mul_comm (256 ^ k) 256, Nat.mod_mul]

theorem encodeLE_valueLE (bs : Bytes) : encodeLE bs.length (valueLE bs) = bs := by
  induction bs with
  | nil => rfl
  | cons b bs ih =>
      have hbyte : b.toNat < 256 := b.toNat_lt
      have hlow : UInt8.ofNat (b.toNat + 256 * valueLE bs) = b := by
        rw [← UInt8.toNat_inj, UInt8.toNat_ofNat']
        omega
      have hrest : (b.toNat + 256 * valueLE bs) / 256 = valueLE bs := by omega
      rw [List.length_cons, valueLE, encodeLE, hlow, hrest, ih]

theorem takeLE_encodeLE (k v : Nat) (t : Bytes) : takeLE k (encodeLE k v ++ t) = some (v % 256 ^ k, t) := by
  have h := takeBytes_append (encodeLE k v) t
  rw [length_encodeLE] at h
  simp [takeLE, h, valueLE_encodeLE]

theorem valueLE_lt (bs : Bytes) : valueLE bs < 256 ^ bs.length := by
  induction bs with
  | nil => exact Nat.one_pos
  | cons b bs ih =>
      have hbyte : b.toNat < 256 := b.toNat_lt
      rw [valueLE, List.length_cons, pow_succ]
      omega

theorem takeLE_of_lt {k v : Nat} (h : v < 256 ^ k) (t : Bytes) : takeLE k (encodeLE k v ++ t) = some (v, t) := by
  rw [takeLE_encodeLE, Nat.mod_eq_of_lt h]

theorem takeLE_append {k : Nat} {h : Bytes} (hlen : h.length = k) (t : Bytes) :
    takeLE k (h ++ t) = some (valueLE h, t) := by
  rw [takeLE, ← hlen, takeBytes_append, Option.map_some]

/-- What is taken off are the `k` bytes that spell the number. -/
theorem of_takeLE {k n : Nat} {bs t : Bytes} (heq : takeLE k bs = some (n, t)) :
    n < 256 ^ k ∧ encodeLE k n ++ t = bs := by
  rw [takeLE, Option.map_eq_some_iff] at heq
  obtain ⟨⟨h, t'⟩, htake, heq⟩ := heq
  cases heq
  rw [← length_of_takeBytes htake, encodeLE_valueLE]
  exact ⟨valueLE_lt h, append_of_takeBytes htake⟩

end Bytes

end Launcher
