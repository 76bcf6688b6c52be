import Launcher.Proofs.Script.Operands

/-!
# Operand depths in emitted code

Followed from one instruction to the next, emitted code takes and leaves a known number of operands: an
expression leaves one more than there were, a statement as many. Where a jump leads there are as many operands
as on the way that falls through. Whatever an instruction looks up is in the pools of its program.
-/

namespace Launcher.Script

/-! ## Depths along a list of instructions -/

/-- The number of operands after instructions that are followed without jumps. -/
def depthAfter (depth : Nat) (steps : List Step) : Nat :=
  steps.foldl (fun d s => s.instr.fallDepth d) depth

theorem depthAfter_append (depth : Nat) (xs ys : List Step) :
    depthAfter depth (xs ++ ys) = depthAfter (depthAfter depth xs) ys :=
  List.foldl_append

/-- Instructions from `pos` on find their operands, of `depth` at the start, and their jumps lead forward to
places in or right behind them where as many operands are left. -/
def Flows (pos depth : Nat) : List Step → Prop
  | [] => True
  | s :: rest =>
    s.instr.pops ≤ depth ∧
    (∀ t, s.instr.target? = some t → pos < t ∧ t ≤ pos + 1 + rest.length ∧
      depthAfter (s.instr.fallDepth depth) (rest.take (t - (pos + 1))) = s.instr.jumpDepth depth) ∧
    Flows (pos + 1) (s.instr.fallDepth depth) rest

theorem Flows.append {ys : List Step} : (xs : List Step) → {pos depth : Nat} → Flows pos depth xs →
    Flows (pos + xs.length) (depthAfter depth xs) ys → Flows pos depth (xs ++ ys)
  | [], _, _, _, h => h
  | s :: xs, pos, depth, ⟨hp, hj, hx⟩, h => by
      show Flows pos depth (s :: (xs ++ ys))
      refine ⟨hp, ?_, hx.append xs ?_⟩
      · intro t ht
        obtain ⟨hlt, hle, hd⟩ := hj t ht
        have hin : t - (pos + 1) ≤ xs.length := by omega
        refine ⟨hlt, ?_, ?_⟩
        · rw [List.length_append]; omega
        · rwa [List.take_append_of_le_length hin]
      · rwa [show pos + 1 + xs.length = pos + (s :: xs).length by rw [List.length_cons]; omega]

/-- What holds of the instruction at one place of such a list. -/
theorem Flows.at : (xs : List Step) → {pos depth : Nat} → Flows pos depth xs → {i : Nat} → {s : Step} →
    xs[i]? = some s → s.instr.pops ≤ depthAfter depth (xs.take i) ∧
      ∀ t, s.instr.target? = some t → pos + i < t ∧ t ≤ pos + xs.length ∧
        depthAfter depth (xs.take (t - pos)) = s.instr.jumpDepth (depthAfter depth (xs.take i))
  | [], _, _, _, _, _, h => by simp at h
  | x :: xs, pos, depth, ⟨hp, hj, hx⟩, 0, s, h => by
      obtain rfl : x = s := by simpa using h
      refine ⟨hp, fun t ht => ?_⟩
      obtain ⟨hlt, hle, hd⟩ := hj t ht
      refine ⟨hlt, ?_, ?_⟩
      · rw [List.length_cons]; omega
      · rw [show t - pos = (t - (pos + 1)) + 1 by omega, List.take_succ_cons]
        exact hd
  | x :: xs, pos, depth, ⟨_, _, hx⟩, i + 1, s, h => by
      obtain ⟨hp, hj⟩ := hx.at xs (i := i) (by simpa using h)
      refine ⟨hp, fun t ht => ?_⟩
      obtain ⟨hlt, hle, hd⟩ := hj t ht
      refine ⟨?_, ?_, ?_⟩
      · omega
      · rw [List.length_cons]; omega
      · rw [show t - pos = (t - (pos + 1)) + 1 by omega, List.take_succ_cons]
        exact hd

/-- Instructions from `pos` on that lead from `depth` operands to `final` ones. -/
structure Brings (pos depth : Nat) (steps : List Step) (final : Nat) : Prop where
  flows : Flows pos depth steps
  final : depthAfter depth steps = final

namespace Brings

variable {pos depth middle final line : Nat} {xs ys : List Step} {i : Instr}

theorem nil : Brings pos depth [] depth := ⟨trivial, rfl⟩

theorem append (hx : Brings pos depth xs middle) (hy : Brings (pos + xs.length) middle ys final) :
    Brings pos depth (xs ++ ys) final := by
  obtain ⟨hx, rfl⟩ := hx
  exact ⟨hx.append xs hy.flows, (depthAfter_append depth xs ys).trans hy.final⟩

theorem single (hp : i.pops ≤ depth) (ht : i.target? = none) (hf : i.fallDepth depth = final) :
    Brings pos depth [⟨i, line⟩] final :=
  ⟨⟨hp, fun _ h => by simp [ht] at h, trivial⟩, hf⟩

/-- A jump over all that follows, which keeps as many operands as what follows leaves. -/
theorem jump (hp : i.pops ≤ depth) (ht : i.target? = some (pos + 1 + ys.length))
    (hy : Brings (pos + 1) (i.fallDepth depth) ys final) (hj : i.jumpDepth depth = final) :
    Brings pos depth (⟨i, line⟩ :: ys) final := by
  refine ⟨⟨hp, fun t h => ?_, hy.flows⟩, hy.final⟩
  obtain rfl : pos + 1 + ys.length = t := by simpa [ht] using h
  refine ⟨by omega, Nat.le_refl _, ?_⟩
  rw [Nat.add_sub_cancel_left, List.take_length, hj, hy.final]

end Brings

/-! ## Expressions -/

namespace Expr

variable {pools : Pools}

mutual

/-- The code of an expression finds its operands and leaves one more. -/
theorem code_brings (depth pos : Nat) :
    (e : Expr) → Brings pos depth (e.code pools pos) (depth + 1)
  | .const _ _ => .single (Nat.zero_le _) rfl rfl
  | .name _ _ => .single (Nat.zero_le _) rfl rfl
  | .list _ es => by
      rw [code]
      refine (codeAll_brings depth pos es).append (.single ?_ rfl ?_)
      · simp only [Instr.pops]; omega
      · simp only [Instr.fallDepth, Instr.pops, Instr.pushes]; omega
  | .call _ e es => by
      rw [code]
      refine ((code_brings depth pos e).append (codeAll_brings _ _ es)).append (.single ?_ rfl ?_)
      · simp only [Instr.pops]; omega
      · simp only [Instr.fallDepth, Instr.pops, Instr.pushes]; omega
  | .attr _ e _ => by
      rw [code]
      exact (code_brings depth pos e).append (.single (Nat.le_add_left ..) rfl rfl)
  | .negate _ e | .not _ e => by
      rw [code]
      exact (code_brings depth pos e).append (.single (Nat.le_add_left ..) rfl rfl)
  | .subscript _ a b | .binary _ _ a b | .compare _ _ a b => by
      rw [code]
      exact ((code_brings depth pos a).append (code_brings _ _ b)).append
        (.single (Nat.le_add_left ..) rfl rfl)
  | .and _ a b | .or _ a b => by
      rw [code]
      refine (code_brings depth pos a).append (.jump (Nat.le_add_left ..) rfl ?_ rfl)
      exact code_brings depth _ b

theorem codeAll_brings (depth pos : Nat) :
    (es : List Expr) → Brings pos depth (codeAll pools pos es) (depth + es.length)
  | [] => .nil
  | e :: es => by
      rw [codeAll, List.length_cons, Nat.add_comm es.length, ← Nat.add_assoc]
      exact (code_brings depth pos e).append (codeAll_brings (depth + 1) _ es)

end

end Expr

/-! ## Statements and programs -/

section

variable {pools : Pools} {mode : CompileMode}

theorem Statement.messageCode_brings (depth pos line : Nat) (message : Option Expr) :
    Brings pos depth (messageCode pools pos line message) (depth + 1) := by
  cases message with
  | none => exact .single (Nat.zero_le _) rfl rfl
  | some e => exact e.code_brings depth pos

theorem Statement.imports_brings (depth : Nat) (dotted : List (Nat × String)) (pos : Nat) :
    Brings pos depth (dotted.map fun (line, id) => ⟨.importName (pools.name id), line⟩) depth := by
  induction dotted generalizing pos with
  | nil => exact .nil
  | cons d dotted ih => exact (Brings.single (Nat.zero_le _) rfl rfl).append (ih _)

/-- The code of a statement finds its operands and leaves as many as there were. -/
theorem Statement.code_brings (depth pos : Nat) (s : Statement) :
    Brings pos depth (s.code mode pools pos) depth := by
  cases s with
  | imports dotted => exact imports_brings depth dotted pos
  | pass => exact .nil
  | assert testLine test line message =>
      rw [code]
      split
      · exact .nil
      · rw [List.append_assoc, List.cons_append]
        refine (test.code_brings depth pos).append (.jump (Nat.le_add_left ..) ?_ ?_ rfl)
        · simp [Instr.target?, Nat.add_assoc]
        · exact (messageCode_brings depth _ line message).append (.single (Nat.le_add_left ..) rfl rfl)
  | raise kindLine kind line message =>
      rw [code]
      refine (Brings.single (Nat.zero_le _) rfl rfl).append
        ((messageCode_brings _ _ line message).append (.single ?_ rfl rfl))
      simp only [Instr.fallDepth, Instr.pops, Instr.pushes]; omega
  | assign line id e =>
      exact (e.code_brings depth pos).append (.single (Nat.le_add_left ..) rfl rfl)
  | expression line e =>
      rw [code]
      refine (e.code_brings depth pos).append ?_
      cases mode.echo
      · exact .single (Nat.le_add_left ..) rfl rfl
      · exact .single (Nat.le_add_left ..) rfl rfl

theorem Program.code_brings (pos : Nat) (p : Program) : Brings pos 0 (code mode pools pos p) 0 := by
  induction p generalizing pos with
  | nil => exact .nil
  | cons s p ih => exact (s.code_brings 0 pos).append (ih _)

end

end Launcher.Script
