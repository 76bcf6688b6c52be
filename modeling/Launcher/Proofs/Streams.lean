import Launcher.Proofs.Action
import Launcher.Streams

/-!
# What the outputs take

An output takes what is written to it, or the beginning of that and then it fails. What standard output has taken it
keeps, whether it holds it back or passes it on, and also where it fails to pass it on. What is written to one output
does not reach the other.
-/

namespace Launcher.Streams

variable {s : Streams} {text : String} {bytes more : Bytes}

theorem taken_isPrefix (fault : Option OutputFault) (bytes : Bytes) : taken fault bytes <+: bytes := by
  cases fault with
  | none => exact List.prefix_refl bytes
  | some fault => exact List.take_prefix _ bytes

/-! ## Standard output -/

/-- The bytes go to standard output, all of them unless it fails, and to nothing else. -/
def Puts (bytes : Bytes) (x : Transfer Unit) : Prop :=
  ∀ s, ∃ taken, taken <+: bytes ∧ ((x s).1 = .ok () → taken = bytes) ∧
    (x s).2.stdout = s.stdout ++ taken ∧ (x s).2.stderr = s.stderr

theorem Puts.nothing : Puts [] (Action.pure ()) :=
  fun _ => ⟨[], List.prefix_refl [], fun _ => rfl, (List.append_nil _).symm, rfl⟩

theorem Puts.followedBy {x y : Transfer Unit} (hx : Puts bytes x) (hy : Puts more y) :
    Puts (bytes ++ more) (x >>= fun _ => y) := by
  intro s
  obtain ⟨taken, hprefix, hall, hout, herr⟩ := hx s
  rcases hxs : x s with ⟨message | _, t⟩ <;> rw [hxs] at hall hout herr
  · rw [Action.bind_of_error hxs]
    exact ⟨taken, hprefix.trans (List.prefix_append _ _), nofun, hout, herr⟩
  · obtain rfl := hall rfl
    obtain ⟨taken', hprefix', hall', hout', herr'⟩ := hy t
    rw [Action.bind_of_ok hxs]
    refine ⟨taken ++ taken', (List.prefix_append_right_inj taken).mpr hprefix', fun hok => ?_, ?_, herr'.trans herr⟩
    · rw [hall' hok]
    · rw [hout', hout, List.append_assoc]

/-- Standard output does not fail any more. -/
def Sound (s : Streams) : Prop := ∀ fault ∈ s.outFaults, fault = none

/-- What is done goes well where standard output does not fail, and it does not fail then. -/
def Succeeds (x : Transfer Unit) : Prop := ∀ s, s.Sound → (x s).1 = .ok () ∧ (x s).2.Sound

theorem Succeeds.followedBy {x y : Transfer Unit} (hx : Succeeds x) (hy : Succeeds y) :
    Succeeds (x >>= fun _ => y) := by
  intro s hs
  obtain ⟨hok, hsound⟩ := hx s hs
  rw [Action.bind_of_ok (Prod.ext hok rfl)]
  exact hy _ hsound

@[simp] theorem tell_empty (s : Streams) : s.tell "" = s := rfl

theorem ofString_ne_nil (h : text ≠ "") : Bytes.ofString text ≠ [] := by
  intro hnil
  apply h
  rw [← String.utf8ByteSize_eq_zero_iff, ← String.size_toByteArray]
  simpa [Bytes.ofString] using congrArg List.length hnil

theorem tell_of_ne_empty (s : Streams) (h : text ≠ "") : s.tell text =
    { s with stderr := s.stderr ++ taken s.errFault? (Bytes.ofString text), errFaults := s.errFaults.tail } := by
  have hempty : ¬text.isEmpty = true := fun hempty => h (String.isEmpty_iff.mp hempty)
  simp only [tell, err, if_neg hempty]
  cases s.errFault? <;> rfl

theorem stderr_tell (s : Streams) (text : String) :
    (s.tell text).stderr = s.stderr ++ taken s.errFault? (Bytes.ofString text) := by
  by_cases h : text = ""
  · subst h
    have hnothing : taken s.errFault? (Bytes.ofString "") = [] := List.prefix_nil.mp (taken_isPrefix _ _)
    rw [tell_empty, hnothing, List.append_nil]
  · rw [tell_of_ne_empty s h]

theorem stdout_tell (s : Streams) (text : String) : (s.tell text).stdout = s.stdout := by
  by_cases h : text = ""
  · rw [h, tell_empty]
  · rw [tell_of_ne_empty s h]
    rfl

/-- A text that is not empty leaves a trace: it is taken, or a failure has come up. -/
theorem tell_ne (s : Streams) (h : text ≠ "") : s.tell text ≠ s := by
  intro hsame
  have hfaults : s.errFaults = [] := by
    have htail : s.errFaults.tail = s.errFaults := by
      have herr := congrArg Streams.errFaults hsame
      rwa [tell_of_ne_empty s h] at herr
    cases hcons : s.errFaults with
    | nil => rfl
    | cons fault faults =>
        rw [hcons] at htail
        exact absurd htail.symm (List.cons_ne_self fault faults)
  have hstderr := congrArg Streams.stderr hsame
  rw [stderr_tell, errFault?, hfaults] at hstderr
  exact ofString_ne_nil h (List.append_cancel_left (hstderr.trans (List.append_nil _).symm))

end Launcher.Streams
