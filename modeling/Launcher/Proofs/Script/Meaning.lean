import Launcher.Proofs.Script.Evaluation
import Launcher.Proofs.Script.Reading
import Launcher.Proofs.Script.StackSafety

/-!
# Compilation keeps the meaning of expressions

The tokens of a source spell a program, and wherever compiled code has the code of one of its expressions, execution
does what the evaluator does with the expression as it is spelled.
-/

namespace Launcher.Script

/-! ## Where the code of an expression begins -/

/-- The expressions of a statement that are compiled, and the positions at which their code begins. -/
def Statement.placed (mode : CompileMode) (pools : Pools) (pos : Nat) : Statement → List (Nat × Expr)
  | .imports _ | .pass => []
  | .assert _ test _ message =>
    if mode.dropAsserts then []
    else (pos, test) :: message.toList.map fun e => (pos + (test.code pools pos).length + 1, e)
  | .raise _ _ _ message => message.toList.map fun e => (pos + 1, e)
  | .assign _ _ e | .expression _ e => [(pos, e)]

def Program.placed (mode : CompileMode) (pools : Pools) (pos : Nat) : Program → List (Nat × Expr)
  | [] => []
  | s :: ss => s.placed mode pools pos ++ placed mode pools (pos + (s.code mode pools pos).length) ss

section

variable {mode : CompileMode} {pools : Pools} {code : Code} {start pos line : Nat} {e : Expr}

/-- The code of an expression begins at a position, and the pools have what it refers to. -/
structure Expr.Placed (code : Code) (pools : Pools) (pos : Nat) (e : Expr) : Prop where
  at_pos : code.At pos (e.code pools pos)
  hold : pools.Hold e.consts e.names

theorem Statement.message_placed {message : Option Expr}
    (h : (pos, e) ∈ message.toList.map fun e => (start, e))
    (hcode : code.At start (messageCode pools start line message))
    (hold : pools.Hold (messageConsts message) (messageNames message)) : e.Placed code pools pos := by
  cases message with
  | none => cases h
  | some e' =>
      obtain ⟨rfl, rfl⟩ := Prod.mk.inj (List.mem_singleton.mp h)
      exact ⟨hcode, hold⟩

theorem Statement.placed_spec {s : Statement} (h : (pos, e) ∈ s.placed mode pools start)
    (hcode : code.At start (s.code mode pools start)) (hold : pools.Hold s.consts s.names) :
    e.Placed code pools pos := by
  cases s with
  | imports _ | pass => cases h
  | assert testLine test line message =>
      rw [placed] at h
      rw [Statement.code] at hcode
      split at h
      · cases h
      · rw [if_neg ‹_›, List.append_assoc] at hcode
        rcases List.mem_cons.mp h with heq | h
        · obtain ⟨rfl, rfl⟩ := Prod.mk.inj heq
          exact ⟨hcode.left, hold.left⟩
        · exact message_placed h hcode.right.tail.left hold.right
  | raise kindLine kind line message =>
      have hmessage := hold.mono (List.subset_cons_self ..) (List.Subset.refl _)
      exact message_placed h hcode.left.tail hmessage
  | assign line id e' =>
      obtain ⟨rfl, rfl⟩ := Prod.mk.inj (List.mem_singleton.mp h)
      exact ⟨hcode.left, hold.mono (List.Subset.refl _) (List.subset_append_left ..)⟩
  | expression line e' =>
      obtain ⟨rfl, rfl⟩ := Prod.mk.inj (List.mem_singleton.mp h)
      exact ⟨hcode.left, hold⟩

theorem Program.placed_spec {p : Program} (h : (pos, e) ∈ placed mode pools start p)
    (hcode : code.At start (Program.code mode pools start p))
    (hold : ∀ s ∈ p, pools.Hold s.consts s.names) : e.Placed code pools pos := by
  induction p generalizing start with
  | nil => cases h
  | cons s p ih =>
      obtain ⟨hs, hp⟩ := List.forall_mem_cons.mp hold
      rcases List.mem_append.mp h with h | h
      · exact s.placed_spec h hcode.left hs
      · exact ih h hcode.right hp

end

/-! ## Execution of an expression -/

/-- Compiled code is that of a program which the tokens of the source spell, and evaluates the expressions of that
program, on any stack and in any machine. -/
theorem compile_evaluates {mode : CompileMode} {file source : String} {code : Code}
    (h : compile mode file source = .ok code) :
    ∃ ts p, tokenize source = .ok ts ∧ Grammar.SpellsProgram ts p ∧ p.compile mode file = code ∧
      ∀ pos e, (pos, e) ∈ p.placed mode code.pools 0 →
        code.At pos (e.code code.pools pos) ∧
        ∀ env module stack, Exec.Leads env code module pos stack (e.eval ⟨env, file, module⟩)
          (pos + (e.code code.pools pos).length) fun v => v :: stack := by
  obtain ⟨ts, p, hts, hp, rfl⟩ := compile_eq_ok.mp h
  refine ⟨ts, p, hts, Program.ofTokens_spells hts hp, rfl, fun pos e he => ?_⟩
  have hplaced := Program.placed_spec he (Code.At.all (p.compile mode file))
    fun _ hs => Pools.hold_ofProgram p hs
  exact ⟨hplaced.at_pos, fun env module stack =>
    Exec.code_leads env module stack e hplaced.at_pos hplaced.hold⟩

/-- Subtractions that group to the left, behind an operand that does not decide. -/
theorem compile_evaluates_subtractions :
    ∃ code, compile {} "m.py" "x = 0 or 8 - 3 - y" = .ok code ∧
      ∃ ts p, tokenize "x = 0 or 8 - 3 - y" = .ok ts ∧ Grammar.SpellsProgram ts p ∧
        p.compile {} "m.py" = code ∧
        ∀ pos e, (pos, e) ∈ p.placed {} code.pools 0 →
          code.At pos (e.code code.pools pos) ∧
          ∀ env module stack, Exec.Leads env code module pos stack (e.eval ⟨env, "m.py", module⟩)
            (pos + (e.code code.pools pos).length) fun v => v :: stack :=
  ⟨_, rfl, compile_evaluates rfl⟩

end Launcher.Script
