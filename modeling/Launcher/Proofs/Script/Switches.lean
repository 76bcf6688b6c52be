import Launcher.Proofs.Script.Joining

/-!
# Switches of the compiler

Whether a source is accepted, and what its code can look up, does not depend on the switches. With echo, the
instructions that drop the values of expression statements print them, and all others are the same. Without assertions,
the instructions of assert statements are taken out of the code, and jumps lead to where their targets have come.
-/

namespace Launcher.Script

/-- The mode for an optimize level, in a program or in a session. -/
def CompileMode.ofSwitches (optimize : Nat) (interactive : Bool) : CompileMode := ⟨0 < optimize, interactive⟩

/-! ## Where the instructions of statements are -/

/-- A statement and the places of its instructions: from `start` on, and before `stop`. -/
structure Span where
  statement : Statement
  start : Nat
  stop : Nat

/-- The statements of a program and the places of their instructions. -/
def Program.spans (mode : CompileMode) (pools : Pools) (pos : Nat) : Program → List Span
  | [] => []
  | s :: ss =>
    let stop := pos + (s.code mode pools pos).length
    ⟨s, pos, stop⟩ :: spans mode pools stop ss

def Statement.isAssert : Statement → Bool
  | .assert .. => true
  | _ => false

def Statement.isExpression : Statement → Bool
  | .expression .. => true
  | _ => false

/-- The place of an instruction of an assert statement. -/
def inAssert (spans : List Span) (i : Nat) : Bool :=
  spans.any fun span => span.statement.isAssert && decide (span.start ≤ i ∧ i < span.stop)

/-- The place of the last instruction of an expression statement. -/
def EndsExpression (spans : List Span) (i : Nat) : Prop :=
  ∃ span ∈ spans, span.statement.isExpression ∧ span.stop = i + 1

/-! ## Instructions that are taken out -/

/-- The instructions from `pos` on that are not taken out. -/
def stayingFrom (gone : Nat → Bool) (pos : Nat) (steps : List Step) : List Step :=
  ((steps.zipIdx pos).filter fun entry => !gone entry.2).map Prod.fst

/-- Where a place has come: it is moved by the number of instructions that are taken out before it. -/
def placeAfter (gone : Nat → Bool) (t : Nat) : Nat := t - (List.range t).countP gone

/-- The code without the instructions that are taken out, with its jumps to the places where their targets are then. -/
def takenOut (gone : Nat → Bool) (body : List Step) : List Step :=
  (stayingFrom gone 0 body).map (Step.rename id id (placeAfter gone) id)

section

variable {gone : Nat → Bool} {pos : Nat}

theorem stayingFrom_append (xs ys : List Step) :
    stayingFrom gone pos (xs ++ ys) = stayingFrom gone pos xs ++ stayingFrom gone (pos + xs.length) ys := by
  rw [stayingFrom, List.zipIdx_append, List.filter_append, List.map_append]
  rfl

/-- Of instructions that are all taken out or all stay, none or all are left. -/
theorem stayingFrom_of_const {xs : List Step} {b : Bool} (h : ∀ i, pos ≤ i → i < pos + xs.length → gone i = b) :
    stayingFrom gone pos xs = if b then [] else xs := by
  have hconst : ∀ entry ∈ xs.zipIdx pos, (!gone entry.2) = !b := by
    rintro ⟨s, i⟩ hi
    obtain ⟨hlow, hhigh, -⟩ := List.mem_zipIdx hi
    rw [h i hlow (by omega)]
  rw [stayingFrom, List.filter_congr hconst]
  cases b with
  | true => rw [Bool.not_true, List.filter_false, List.map_nil, if_pos rfl]
  | false => rw [Bool.not_false, List.filter_true, List.zipIdx_map_fst, if_neg Bool.false_ne_true]

theorem placeAfter_succ (t : Nat) : placeAfter gone (t + 1) = placeAfter gone t + if gone t then 0 else 1 := by
  have hle := List.countP_le_length (p := gone) (l := List.range t)
  rw [List.length_range] at hle
  rw [placeAfter, placeAfter, List.range_succ, List.countP_append, List.countP_singleton]
  split <;> omega

theorem placeAfter_add_of_const {n : Nat} {b : Bool} (h : ∀ i, pos ≤ i → i < pos + n → gone i = b) :
    placeAfter gone (pos + n) = placeAfter gone pos + if b then 0 else n := by
  induction n with
  | zero => cases b <;> rfl
  | succ n ih =>
      rw [← Nat.add_assoc, placeAfter_succ, h (pos + n) (Nat.le_add_right ..) (by omega),
        ih fun i hlow hhigh => h i hlow (by omega)]
      cases b <;> rfl

end

/-! ## Code at the place where it has come -/

namespace Statement

variable {gone : Nat → Bool} {mode : CompileMode} {pools : Pools} {pos : Nat}

/-- The code of a statement, of which nothing is taken out, at the place where it has come. -/
theorem code_placeAfter {s : Statement} (hold : pools.Hold s.consts s.names)
    (h : ∀ i, pos ≤ i → i < pos + (s.code mode pools pos).length → gone i = false) :
    s.code mode pools (placeAfter gone pos) =
      (s.code mode pools pos).map (Step.rename id id (placeAfter gone) id) := by
  have hle : placeAfter gone pos ≤ pos := Nat.sub_le ..
  obtain ⟨d, hd⟩ := Nat.exists_eq_add_of_le hle
  have hmoved := code_rename (Pools.Moves.refl pools) d mode (placeAfter gone pos) s hold
  rw [← hd] at hmoved
  rw [hmoved, List.length_map] at h
  rw [hmoved, List.map_map]
  have hbrings : Brings (placeAfter gone pos) 0 (s.code mode pools (placeAfter gone pos)) 0 := s.code_brings 0 _
  have hflows := hbrings.flows
  refine ((List.map_congr_left fun step hstep => ?_).trans (List.map_id _)).symm
  rw [Function.comp_apply, Step.rename_rename]
  refine Step.rename_of_target fun t ht => ?_
  obtain ⟨i, hi⟩ := List.getElem?_of_mem hstep
  obtain ⟨hlow, hhigh, -⟩ := (hflows.at _ hi).2 t ht
  have hplace := @placeAfter_add_of_const gone pos (t - placeAfter gone pos) false fun i hi hlt => h i hi (by omega)
  rw [Function.comp_apply, show t + d = pos + (t - placeAfter gone pos) by omega, hplace, if_neg Bool.false_ne_true]
  omega

theorem code_dropAsserts (s : Statement) (echo : Bool) :
    s.code ⟨true, echo⟩ pools pos = if s.isAssert then [] else s.code ⟨false, echo⟩ pools pos := by
  cases s <;> rfl

end Statement

/-! ## Programs without assertions -/

namespace Program

variable {gone : Nat → Bool} {mode : CompileMode} {pools : Pools} {pos : Nat}

theorem inAssert_of_lt {p : Program} {i : Nat} (h : i < pos) : inAssert (spans mode pools pos p) i = false := by
  induction p generalizing pos with
  | nil => rfl
  | cons s p ih =>
      have hstart : ¬(pos ≤ i ∧ i < pos + (s.code mode pools pos).length) := by omega
      rw [spans, inAssert, List.any_cons, decide_eq_false hstart, Bool.and_false, Bool.false_or]
      exact ih (by omega)

/-- Without assertions, the code of a program from the place on where it has come is what is left of its code when the
instructions of assert statements are taken out. -/
theorem code_dropAsserts (echo : Bool) {p : Program} (hold : ∀ s ∈ p, pools.Hold s.consts s.names)
    (hgone : ∀ i, pos ≤ i → gone i = inAssert (spans ⟨false, echo⟩ pools pos p) i) :
    code ⟨true, echo⟩ pools (placeAfter gone pos) p =
      (stayingFrom gone pos (code ⟨false, echo⟩ pools pos p)).map (Step.rename id id (placeAfter gone) id) := by
  induction p generalizing pos with
  | nil => rfl
  | cons s p ih =>
      obtain ⟨hs, hp⟩ := List.forall_mem_cons.mp hold
      have hfirst : ∀ i, pos ≤ i → i < pos + (s.code ⟨false, echo⟩ pools pos).length → gone i = s.isAssert := by
        intro i hlow hhigh
        have hrest : inAssert (spans ⟨false, echo⟩ pools (pos + (s.code ⟨false, echo⟩ pools pos).length) p) i = false :=
          inAssert_of_lt hhigh
        rw [inAssert] at hrest
        rw [hgone i hlow, spans, inAssert, List.any_cons, hrest, decide_eq_true ⟨hlow, hhigh⟩, Bool.and_true,
          Bool.or_false]
      have hrest : ∀ i, pos + (s.code ⟨false, echo⟩ pools pos).length ≤ i →
          gone i = inAssert (spans ⟨false, echo⟩ pools (pos + (s.code ⟨false, echo⟩ pools pos).length) p) i := by
        intro i hlow
        have hout : ¬(pos ≤ i ∧ i < pos + (s.code ⟨false, echo⟩ pools pos).length) := by omega
        rw [hgone i (by omega), spans, inAssert, List.any_cons, decide_eq_false hout, Bool.and_false, Bool.false_or]
        rfl
      rw [code, code, stayingFrom_append, List.map_append, ← ih hp hrest, s.code_dropAsserts,
        stayingFrom_of_const hfirst, placeAfter_add_of_const hfirst]
      cases hassert : s.isAssert with
      | true => rfl
      | false =>
          rw [hassert] at hfirst
          have hcode := Statement.code_placeAfter hs hfirst
          rw [if_neg Bool.false_ne_true, if_neg Bool.false_ne_true, hcode, List.length_map]
          rfl

end Program

/-! ## Echo -/

/-- The instruction that drops a value prints it. -/
def Step.echoed (s : Step) : Step := if s.instr = .pop then ⟨.printExpr, s.line⟩ else s

/-- No instruction drops a value. -/
def DropsNothing (steps : List Step) : Prop := ∀ s ∈ steps, s.instr ≠ .pop

namespace DropsNothing

variable {xs ys : List Step}

theorem append (hx : DropsNothing xs) (hy : DropsNothing ys) : DropsNothing (xs ++ ys) :=
  List.forall_mem_append.mpr ⟨hx, hy⟩

theorem cons {s : Step} (hs : s.instr ≠ .pop) (hx : DropsNothing xs) : DropsNothing (s :: xs) :=
  List.forall_mem_cons.mpr ⟨hs, hx⟩

theorem nil : DropsNothing [] := nofun

theorem single {s : Step} (hs : s.instr ≠ .pop) : DropsNothing [s] := nil.cons hs

theorem map_echoed (h : DropsNothing xs) : xs.map Step.echoed = xs :=
  (List.map_congr_left fun s hs => if_neg (h s hs)).trans (List.map_id' xs)

end DropsNothing

namespace Expr

variable {pools : Pools}

mutual

theorem code_dropsNothing (pos : Nat) : (e : Expr) → DropsNothing (e.code pools pos)
  | .const _ _ | .name _ _ => by
      rw [code]
      exact .single nofun
  | .list _ es => by
      rw [code]
      exact (codeAll_dropsNothing pos es).append (.single nofun)
  | .call _ e es => by
      rw [code]
      exact ((code_dropsNothing pos e).append (codeAll_dropsNothing _ es)).append (.single nofun)
  | .attr _ e _ | .negate _ e | .not _ e => by
      rw [code]
      exact (code_dropsNothing pos e).append (.single nofun)
  | .subscript _ a b | .binary _ _ a b | .compare _ _ a b => by
      rw [code]
      exact ((code_dropsNothing pos a).append (code_dropsNothing _ b)).append (.single nofun)
  | .and _ a b | .or _ a b => by
      rw [code]
      exact (code_dropsNothing pos a).append (.cons nofun (code_dropsNothing _ b))

theorem codeAll_dropsNothing (pos : Nat) : (es : List Expr) → DropsNothing (codeAll pools pos es)
  | [] => .nil
  | e :: es => by
      rw [codeAll]
      exact (code_dropsNothing pos e).append (codeAll_dropsNothing _ es)

end

end Expr

namespace Statement

variable {pools : Pools} {pos : Nat}

theorem messageCode_dropsNothing (line : Nat) (message : Option Expr) :
    DropsNothing (messageCode pools pos line message) := by
  cases message with
  | none => exact .single nofun
  | some e => exact e.code_dropsNothing pos

theorem code_dropsNothing {mode : CompileMode} {s : Statement} (h : s.isExpression = false) :
    DropsNothing (s.code mode pools pos) := by
  cases s with
  | imports dotted =>
      intro step hstep
      obtain ⟨_, _, rfl⟩ := List.mem_map.mp hstep
      simp
  | pass => exact .nil
  | assert testLine test line message =>
      rw [code]
      split
      · exact .nil
      · exact ((test.code_dropsNothing pos).append (.cons (by simp) (messageCode_dropsNothing line message))).append
          (.single (by simp))
  | raise kindLine kind line message =>
      have hload : (pools.loadConst kindLine (.str kind)).instr ≠ .pop := by simp [Pools.loadConst]
      exact (DropsNothing.cons hload (messageCode_dropsNothing line message)).append (.single (by simp))
  | assign line id e => exact (e.code_dropsNothing pos).append (.single (by simp))
  | expression line e => cases h

theorem code_echo (s : Statement) (dropAsserts : Bool) :
    s.code ⟨dropAsserts, true⟩ pools pos = (s.code ⟨dropAsserts, false⟩ pools pos).map Step.echoed := by
  cases h : s.isExpression with
  | false =>
      rw [(code_dropsNothing h).map_echoed]
      cases s with
      | expression => cases h
      | _ => rfl
  | true =>
      cases s with
      | expression line e =>
          rw [code, code, List.map_append, (e.code_dropsNothing pos).map_echoed]
          rfl
      | _ => cases h

/-- A statement drops a value by its last instruction, if it is an expression statement, and by no other. -/
theorem code_drops_iff {dropAsserts : Bool} {s : Statement} {i : Nat} :
    (∃ line, (s.code ⟨dropAsserts, false⟩ pools pos)[i]? = some ⟨.pop, line⟩) ↔
      s.isExpression ∧ (s.code ⟨dropAsserts, false⟩ pools pos).length = i + 1 := by
  cases h : s.isExpression with
  | false =>
      refine ⟨fun ⟨line, hi⟩ => ?_, fun h => absurd h.1 Bool.false_ne_true⟩
      exact absurd rfl (code_dropsNothing h _ (List.mem_of_getElem? hi))
  | true =>
      cases s with
      | expression line e =>
          have hdrops : DropsNothing (e.code pools pos) := e.code_dropsNothing pos
          rw [code, List.length_append, List.length_singleton]
          generalize e.code pools pos = xs at hdrops
          constructor
          · rintro ⟨line', hi⟩
            have hlt := (List.getElem?_eq_some_iff.mp hi).1
            rw [List.length_append, List.length_singleton] at hlt
            have hnot : ¬i < xs.length := fun hlt => by
              rw [List.getElem?_append_left hlt] at hi
              exact hdrops _ (List.mem_of_getElem? hi) rfl
            exact ⟨rfl, by omega⟩
          · rintro ⟨-, hi⟩
            obtain rfl : xs.length = i := by omega
            exact ⟨line, List.getElem?_concat_length⟩
      | _ => cases h

end Statement

namespace Program

variable {pools : Pools} {pos : Nat} {p : Program}

theorem code_echo (dropAsserts : Bool) :
    code ⟨dropAsserts, true⟩ pools pos p = (code ⟨dropAsserts, false⟩ pools pos p).map Step.echoed := by
  induction p generalizing pos with
  | nil => rfl
  | cons s p ih => rw [code, code, s.code_echo, List.length_map, ih, List.map_append]

theorem lt_stop_of_mem_spans {mode : CompileMode} {span : Span} (h : span ∈ spans mode pools pos p)
    (hexpression : span.statement.isExpression) : pos < span.stop := by
  induction p generalizing pos with
  | nil => cases h
  | cons s p ih =>
      rcases List.mem_cons.mp h with rfl | h
      · cases s with
        | expression line e =>
            simp only [Statement.code, List.length_append, List.length_singleton]
            omega
        | _ => cases hexpression
      · exact Nat.lt_of_le_of_lt (Nat.le_add_right ..) (ih h)

/-- Values are dropped by the last instructions of expression statements, and by no others. -/
theorem code_drops_iff {dropAsserts : Bool} {i : Nat} :
    (∃ line, (code ⟨dropAsserts, false⟩ pools pos p)[i]? = some ⟨.pop, line⟩) ↔
      EndsExpression (spans ⟨dropAsserts, false⟩ pools pos p) (pos + i) := by
  induction p generalizing pos i with
  | nil =>
      constructor
      · rintro ⟨_, ⟨⟩⟩
      · rintro ⟨_, ⟨⟩, _⟩
  | cons s p ih =>
      rw [code, spans]
      by_cases hlt : i < (s.code ⟨dropAsserts, false⟩ pools pos).length
      · rw [List.getElem?_append_left hlt, Statement.code_drops_iff]
        constructor
        · rintro ⟨hexpression, hlen⟩
          exact ⟨_, List.mem_cons_self, hexpression, by dsimp only; omega⟩
        · rintro ⟨span, hspan, hexpression, hstop⟩
          rcases List.mem_cons.mp hspan with rfl | hspan
          · exact ⟨hexpression, by dsimp only at hstop; omega⟩
          · have hlow := lt_stop_of_mem_spans hspan hexpression
            omega
      · obtain ⟨j, rfl⟩ := Nat.exists_eq_add_of_le (Nat.not_lt.mp hlt)
        rw [List.getElem?_append_right (Nat.le_add_right ..), Nat.add_sub_cancel_left, ih, ← Nat.add_assoc]
        constructor
        · rintro ⟨span, hspan, hends⟩
          exact ⟨span, List.mem_cons_of_mem _ hspan, hends⟩
        · rintro ⟨span, hspan, hends⟩
          rcases List.mem_cons.mp hspan with rfl | hspan
          · have hstop := hends.2
            dsimp only at hstop
            omega
          · exact ⟨span, hspan, hends⟩

end Program

/-! ## All switches -/

/-- How the code of a program for some switches comes from that for others. -/
structure Switched (p : Program) (code : Nat → Bool → Code) (optimize : Nat) (interactive : Bool) : Prop where
  file : (code optimize interactive).file = (code 0 false).file
  consts : (code optimize interactive).consts = (code 0 false).consts
  names : (code optimize interactive).names = (code 0 false).names
  /-- Where a value is dropped, at the end of an expression statement, it is printed in a session. -/
  echo : (code optimize true).body = (code optimize false).body.map Step.echoed
  drops : ∀ i, (∃ line, (code optimize false).body[i]? = some ⟨.pop, line⟩) ↔
    EndsExpression (p.spans (.ofSwitches optimize false) (code 0 false).pools 0) i
  /-- The instructions of assert statements are taken out at the levels above 0. -/
  asserts : 0 < optimize → (code optimize interactive).body =
    takenOut (inAssert (p.spans (.ofSwitches 0 interactive) (code 0 false).pools 0)) (code 0 interactive).body

theorem Program.compile_switched (file : String) (p : Program) (optimize : Nat) (interactive : Bool) :
    Switched p (fun optimize interactive => p.compile (.ofSwitches optimize interactive) file) optimize
      interactive where
  file := rfl
  consts := rfl
  names := rfl
  echo := code_echo _
  drops i := by
    have h := @code_drops_iff (Pools.ofProgram p) 0 p (0 < optimize) i
    rwa [Nat.zero_add] at h
  asserts hpos := by
    have hmode : CompileMode.ofSwitches optimize interactive = ⟨true, interactive⟩ := by
      rw [CompileMode.ofSwitches, decide_eq_true hpos]
    simp only [compile, hmode]
    exact @code_dropAsserts (inAssert (p.spans ⟨false, interactive⟩ (Pools.ofProgram p) 0)) (Pools.ofProgram p) 0
      interactive p (fun _ => Pools.hold_ofProgram p) fun _ _ => rfl

/-- The switches change only what they announce. For all of them the source is refused with the same error, or it
spells one program for which code with the same constants and names is made: in a session it differs in that the
values of expression statements are printed where they are dropped otherwise, and at the levels above 0 in that the
instructions of assert statements are taken out. -/
theorem compile_switches (file source : String) :
    (∃ e, ∀ optimize interactive, compile (.ofSwitches optimize interactive) file source = .error e) ∨
    ∃ ts p code, tokenize source = .ok ts ∧ Grammar.SpellsProgram ts p ∧
      (∀ optimize interactive,
        compile (.ofSwitches optimize interactive) file source = .ok (code optimize interactive)) ∧
      ∀ optimize interactive, Switched p code optimize interactive := by
  cases htokens : tokenize source with
  | error e => exact .inl ⟨_, fun _ _ => by rw [compile, htokens]⟩
  | ok ts =>
      cases hprogram : Program.ofTokens ts with
      | error line =>
          refine .inl ⟨syntaxError "invalid syntax" file line, fun _ _ => ?_⟩
          simp only [compile, htokens, hprogram]
      | ok p =>
          refine .inr ⟨ts, p, fun optimize interactive => p.compile (.ofSwitches optimize interactive) file, rfl,
            Program.ofTokens_spells htokens hprogram, fun _ _ => ?_, p.compile_switched file⟩
          simp only [compile, htokens, hprogram]

/-- The assertion is gone, and the jump over the second operand leads to where its target has come. -/
example : compile (.ofSwitches 0 false) "m.py" "assert x, 1\ny or 2" =
    .ok ⟨"m.py", [.int 1, .int 2], ["x", "y"], [⟨.loadName 0, 1⟩, ⟨.jumpIfTrue 4, 1⟩, ⟨.loadConst 0, 1⟩,
      ⟨.assertFail, 1⟩, ⟨.loadName 1, 2⟩, ⟨.jumpIfTrueOrPop 7, 2⟩, ⟨.loadConst 1, 2⟩, ⟨.pop, 2⟩]⟩ ∧
    compile (.ofSwitches 1 true) "m.py" "assert x, 1\ny or 2" =
    .ok ⟨"m.py", [.int 1, .int 2], ["x", "y"], [⟨.loadName 1, 2⟩, ⟨.jumpIfTrueOrPop 3, 2⟩, ⟨.loadConst 1, 2⟩,
      ⟨.printExpr, 2⟩]⟩ :=
  ⟨rfl, rfl⟩

end Launcher.Script
