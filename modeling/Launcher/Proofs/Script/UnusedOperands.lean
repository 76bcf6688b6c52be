import Launcher.Proofs.Script.Spelling

/-!
# Operands that mean nothing

The byte strings that are read as one code object have one length, and differ from one another just in the operands of
instructions that have none.
-/

namespace Launcher.Script.Code

/-! ## Byte strings that agree -/

/-- Byte strings of one length that differ at free places only. -/
structure AgreeBut (free : Nat → Prop) (xs ys : Bytes) : Prop where
  length : xs.length = ys.length
  differ : ∀ i, xs[i]? ≠ ys[i]? → free i

section

variable {free free₁ free₂ : Nat → Prop} {xs ys xs' ys' : Bytes}

theorem agreeBut_const {p : Prop} : AgreeBut (fun _ => p) xs ys ↔ xs.length = ys.length ∧ (¬p → xs = ys) := by
  refine ⟨fun h => ⟨h.length, fun hp => List.ext_getElem? fun i => ?_⟩, fun h => ⟨h.1, fun i hi => ?_⟩⟩
  · exact Decidable.of_not_not fun hi => hp (h.differ i hi)
  · exact Classical.byContradiction fun hp => hi (by rw [h.2 hp])

/-- Byte strings agree part by part. -/
theorem agreeBut_append (hlen : xs.length = ys.length) (h₁ : ∀ i < xs.length, free i ↔ free₁ i)
    (h₂ : ∀ i, free (xs.length + i) ↔ free₂ i) :
    AgreeBut free (xs ++ xs') (ys ++ ys') ↔ AgreeBut free₁ xs ys ∧ AgreeBut free₂ xs' ys' := by
  have hfront : ∀ i < xs.length, (xs ++ xs')[i]? = xs[i]? ∧ (ys ++ ys')[i]? = ys[i]? := fun i hi =>
    ⟨List.getElem?_append_left hi, List.getElem?_append_left (hlen ▸ hi)⟩
  have hback : ∀ i, (xs ++ xs')[xs.length + i]? = xs'[i]? ∧ (ys ++ ys')[xs.length + i]? = ys'[i]? := by
    intro i
    constructor
    · rw [List.getElem?_append_right (Nat.le_add_right ..), Nat.add_sub_cancel_left]
    · rw [hlen, List.getElem?_append_right (Nat.le_add_right ..), Nat.add_sub_cancel_left]
  constructor
  · intro h
    have hlength := h.length
    rw [List.length_append, List.length_append] at hlength
    refine ⟨⟨hlen, fun i hi => ?_⟩, ⟨by omega, fun i hi => ?_⟩⟩
    · by_cases hlt : i < xs.length
      · exact (h₁ i hlt).mp (h.differ i (by rwa [(hfront i hlt).1, (hfront i hlt).2]))
      · rw [List.getElem?_eq_none (Nat.not_lt.mp hlt), List.getElem?_eq_none (hlen ▸ Nat.not_lt.mp hlt)] at hi
        exact absurd rfl hi
    · exact (h₂ i).mp (h.differ _ (by rwa [(hback i).1, (hback i).2]))
  · rintro ⟨hx, hx'⟩
    refine ⟨by rw [List.length_append, List.length_append, hx.length, hx'.length], fun i hi => ?_⟩
    by_cases hlt : i < xs.length
    · rw [(hfront i hlt).1, (hfront i hlt).2] at hi
      exact (h₁ i hlt).mpr (hx.differ i hi)
    · obtain ⟨j, rfl⟩ := Nat.exists_eq_add_of_le (Nat.not_lt.mp hlt)
      rw [(hback j).1, (hback j).2] at hi
      exact (h₂ j).mpr (hx'.differ j hi)

theorem agreeBut_nowhere : AgreeBut (fun _ => False) xs ys ↔ xs = ys := by
  rw [agreeBut_const]
  exact ⟨fun h => h.2 not_false, fun h => ⟨congrArg List.length h, fun _ => h⟩⟩

end

/-! ## Places of operands -/

/-- The place in the bytes of a step is one of an operand that means nothing. -/
def FreeIn (s : Step) (i : Nat) : Prop := s.instr.hasOperand = false ∧ 1 ≤ i ∧ i < 5

/-- The place in the bytes of steps, the first of which begin at `start`. -/
def FreeFrom (start : Nat) (steps : List Step) (i : Nat) : Prop :=
  ∃ k s j, steps[k]? = some s ∧ FreeIn s j ∧ i = start + 9 * k + j

/-- The place in the bytes of a code object is one of the operand of an instruction that has none. -/
def FreeByte (code : Code) : Nat → Prop := FreeFrom code.head.length code.body

theorem FreeFrom.lt {start : Nat} {steps : List Step} {i : Nat} (h : FreeFrom start steps i) : start < i := by
  obtain ⟨k, s, j, -, ⟨-, hlow, -⟩, rfl⟩ := h
  omega

theorem freeFrom_add {start n : Nat} {steps : List Step} {i : Nat} :
    FreeFrom (start + n) steps (n + i) ↔ FreeFrom start steps i := by
  refine exists_congr fun k => exists_congr fun s => exists_congr fun j => and_congr_right fun _ =>
    and_congr_right fun _ => ?_
  omega

theorem freeFrom_cons {start : Nat} {s : Step} {steps : List Step} {i : Nat} :
    FreeFrom start (s :: steps) (start + i) ↔ FreeIn s i ∨ FreeFrom (start + 9) steps (start + i) := by
  constructor
  · rintro ⟨_ | k, s', j, hs, hfree, hi⟩
    · obtain rfl : s = s' := Option.some.inj hs
      obtain rfl : i = j := by omega
      exact .inl hfree
    · exact .inr ⟨k, s', j, hs, hfree, by omega⟩
  · rintro (hfree | ⟨k, s', j, hs, hfree, hi⟩)
    · exact ⟨0, s, i, rfl, hfree, rfl⟩
    · exact ⟨k + 1, s', j, hs, hfree, by omega⟩

/-! ## Bytes of code objects -/

theorem length_encodeStep (s : Step) : (encodeStep s).length = 9 := by
  simp [encodeStep]

theorem agreeBut_step {s : Step} {number : UInt8} {operand line : Bytes} (hlen : operand.length = 4) :
    AgreeBut (FreeIn s) (number :: operand ++ line) (encodeStep s) ↔
      number = (opcode s.instr).1 ∧ (s.instr.hasOperand → operand = Bytes.encodeLE 4 (opcode s.instr).2) ∧
        line = Bytes.encodeLE 4 s.line := by
  have hnumber : AgreeBut (FreeIn s) ([number] ++ (operand ++ line))
      ([(opcode s.instr).1] ++ (Bytes.encodeLE 4 (opcode s.instr).2 ++ Bytes.encodeLE 4 s.line)) ↔
      AgreeBut (fun _ => False) [number] [(opcode s.instr).1] ∧
        AgreeBut (fun i => s.instr.hasOperand = false ∧ i < 4) (operand ++ line)
          (Bytes.encodeLE 4 (opcode s.instr).2 ++ Bytes.encodeLE 4 s.line) := by
    refine agreeBut_append rfl (fun i hi => ?_) fun i => ?_
    · have hi : i < 1 := hi
      refine iff_false_intro fun hfree => ?_
      have hlow := hfree.2.1
      omega
    · have hshift : 1 ≤ 1 + i ∧ 1 + i < 5 ↔ i < 4 := by omega
      exact and_congr_right fun _ => hshift
  have hoperand : AgreeBut (fun i => s.instr.hasOperand = false ∧ i < 4) (operand ++ line)
      (Bytes.encodeLE 4 (opcode s.instr).2 ++ Bytes.encodeLE 4 s.line) ↔
      AgreeBut (fun _ => s.instr.hasOperand = false) operand (Bytes.encodeLE 4 (opcode s.instr).2) ∧
        AgreeBut (fun _ => False) line (Bytes.encodeLE 4 s.line) := by
    refine agreeBut_append (by rw [hlen, Bytes.length_encodeLE]) (fun i hi => ?_) fun i => ?_
    · exact and_iff_left (hlen ▸ hi)
    · simp only [iff_false]
      omega
  refine hnumber.trans ?_
  rw [hoperand, agreeBut_nowhere, agreeBut_nowhere, agreeBut_const, hlen, Bytes.length_encodeLE, Bool.not_eq_false,
    List.singleton_inj]
  simp only [true_and]

theorem spellsStep_iff {s : Step} {bs : Bytes} :
    SpellsStep s bs ↔ s.Fits ∧ AgreeBut (FreeIn s) bs (encodeStep s) := by
  constructor
  · rintro ⟨operand, hfits, hlen, hoperand⟩
    exact ⟨hfits, (agreeBut_step hlen).mpr ⟨rfl, hoperand, rfl⟩⟩
  · rintro ⟨hfits, h⟩
    have hlength := h.length
    rw [length_encodeStep] at hlength
    cases bs with
    | nil => cases hlength
    | cons number rest =>
        rw [List.length_cons] at hlength
        have hlen : (rest.take 4).length = 4 := by
          rw [List.length_take]
          omega
        rw [← List.take_append_drop 4 rest, ← List.cons_append] at h ⊢
        obtain ⟨rfl, hoperand, hline⟩ := (agreeBut_step hlen).mp h
        rw [hline]
        exact .mk _ hfits hlen hoperand

theorem spellsSteps_iff {steps : List Step} {bs : Bytes} :
    SpellsAll SpellsStep steps bs ↔
      (∀ s ∈ steps, s.Fits) ∧ AgreeBut (FreeFrom 0 steps) bs (steps.flatMap encodeStep) := by
  induction steps generalizing bs with
  | nil =>
      constructor
      · rintro ⟨⟩
        exact ⟨nofun, rfl, fun _ h => absurd rfl h⟩
      · rintro ⟨-, h⟩
        rw [List.eq_nil_of_length_eq_zero h.length]
        exact .nil
  | cons s steps ih =>
      have hparts : ∀ {h t : Bytes}, h.length = 9 →
          (AgreeBut (FreeFrom 0 (s :: steps)) (h ++ t) ((s :: steps).flatMap encodeStep) ↔
            AgreeBut (FreeIn s) h (encodeStep s) ∧
              AgreeBut (FreeFrom 0 steps) t (steps.flatMap encodeStep)) := by
        intro h t hlen
        have hcons : ∀ i, FreeFrom 0 (s :: steps) i ↔ FreeIn s i ∨ FreeFrom 9 steps i := fun i => by
          simpa only [Nat.zero_add] using @freeFrom_cons 0 s steps i
        have hadd : ∀ i, FreeFrom 9 steps (9 + i) ↔ FreeFrom 0 steps i := fun i => @freeFrom_add 0 9 steps i
        refine agreeBut_append (hlen.trans (length_encodeStep s).symm) (fun i hi => ?_) fun i => ?_
        · rw [hcons, or_iff_left fun hfree => ?_]
          have hlow := hfree.lt
          omega
        · rw [hcons, hlen, or_iff_right fun hfree => ?_, hadd]
          have hhigh := hfree.2.2
          omega
      constructor
      · rintro (_ | ⟨hs, hsteps⟩)
        obtain ⟨hfits, hs⟩ := spellsStep_iff.mp hs
        obtain ⟨hall, hsteps⟩ := ih.mp hsteps
        exact ⟨List.forall_mem_cons.mpr ⟨hfits, hall⟩,
          (hparts (hs.length.trans (length_encodeStep s))).mpr ⟨hs, hsteps⟩⟩
      · rintro ⟨hfits, h⟩
        obtain ⟨hs, hall⟩ := List.forall_mem_cons.mp hfits
        have hlength := h.length
        rw [List.flatMap_cons, List.length_append, length_encodeStep] at hlength
        have hlen : (bs.take 9).length = 9 := by
          rw [List.length_take]
          omega
        rw [← List.take_append_drop 9 bs] at h ⊢
        obtain ⟨hstep, hsteps⟩ := (hparts hlen).mp h
        exact .cons (spellsStep_iff.mpr ⟨hs, hstep⟩) (ih.mpr ⟨hall, hsteps⟩)

theorem spells_iff {code : Code} {bs : Bytes} :
    code.Spells bs ↔ code.Fits ∧ AgreeBut code.FreeByte bs code.toBytes := by
  have hparts : ∀ {front steps : Bytes}, front.length = code.head.length →
      (AgreeBut code.FreeByte (front ++ steps) code.toBytes ↔
        front = code.head ∧ AgreeBut (FreeFrom 0 code.body) steps (code.body.flatMap encodeStep)) := by
    intro front steps hlen
    rw [toBytes_eq_head, ← agreeBut_nowhere]
    refine agreeBut_append hlen (fun i hi => iff_false_intro fun hfree => by have := hfree.lt; omega) fun i => ?_
    have hadd := @freeFrom_add 0 front.length code.body i
    rw [Nat.zero_add] at hadd
    rwa [FreeByte, ← hlen]
  constructor
  · rintro ⟨hfits, steps, hsteps, rfl⟩
    exact ⟨hfits, (hparts rfl).mpr ⟨rfl, (spellsSteps_iff.mp hsteps).2⟩⟩
  · rintro ⟨hfits, h⟩
    have hlength := h.length
    rw [toBytes_eq_head, List.length_append] at hlength
    have hlen : (bs.take code.head.length).length = code.head.length := by
      rw [List.length_take]
      omega
    rw [← List.take_append_drop code.head.length bs] at h ⊢
    obtain ⟨hhead, hsteps⟩ := (hparts hlen).mp h
    exact ⟨hfits, _, spellsSteps_iff.mpr ⟨hfits.body.2, hsteps⟩, by rw [hhead]⟩

/-! ## What is accepted -/

theorem target_le {code : Code} (h : jumpsInside code.body) {s : Step} (hs : s ∈ code.body) {t : Nat}
    (ht : s.instr.target? = some t) : t ≤ code.body.length := by
  have hjump := List.all_eq_true.mp h s hs
  rw [ht] at hjump
  exact of_decide_eq_true hjump

/-- Bytes are read as a code object exactly if its own bytes are, and if they differ from these only in the operands of
instructions that have none; and then no jump leads beyond the last instruction. -/
theorem ofBytes_faithful (bs : Bytes) (code : Code) :
    ofBytes bs = .ok code ↔
      ofBytes code.toBytes = .ok code ∧
      (∀ s ∈ code.body, ∀ t, s.instr.target? = some t → t ≤ code.body.length) ∧
      code.toBytes.length = bs.length ∧ ∀ i, bs[i]? ≠ code.toBytes[i]? → code.FreeByte i := by
  rw [ofBytes_toBytes_iff, ofBytes_eq_ok, spells_iff]
  constructor
  · rintro ⟨⟨hfits, hagree⟩, hjumps⟩
    exact ⟨⟨hfits, hjumps⟩, fun s hs t ht => target_le hjumps hs ht, hagree.length.symm, hagree.differ⟩
  · rintro ⟨⟨hfits, hjumps⟩, -, hlength, hdiffer⟩
    exact ⟨⟨hfits, hlength.symm, hdiffer⟩, hjumps⟩

/-- Bytes in which the number 7 stands as the operand of an instruction that drops a value. -/
theorem ofBytes_faithful_dropping :
    let code : Code := ⟨"m", [], [], [⟨.pop, 1⟩]⟩
    let bs : Bytes := [0x4D, 0x43, 1, 1, 0, 0, 0, 0x6D, 0, 0, 0, 0, 0, 0, 0, 0, 1, 0, 0, 0, 13, 7, 0, 0, 0, 1, 0, 0, 0]
    ofBytes bs = .ok code ∧ bs ≠ code.toBytes ∧ ofBytes code.toBytes = .ok code ∧
      ∀ i, bs[i]? ≠ code.toBytes[i]? → code.FreeByte i := by
  intro code bs
  have hread : ofBytes bs = .ok code := rfl
  obtain ⟨hown, -, -, hdiffer⟩ := (ofBytes_faithful bs code).mp hread
  exact ⟨hread, by decide, hown, hdiffer⟩

end Launcher.Script.Code
