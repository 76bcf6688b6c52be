import Launcher.Proofs.Script.Operands

/-!
# Execution as a path of configurations

An execution of a code object goes from configuration to configuration, one instruction at a time, until it has
no steps left, has come to the end of the code, or an instruction fails. The result of an execution is that of
the end of its path.
-/

namespace Launcher.Script.Exec

/-- A moment in the execution of a code object: the steps that are left, the position of the next instruction,
the operands and the machine. -/
structure Config where
  fuel : Nat
  pos : Nat
  stack : List Value
  machine : Machine

/-- How imports run the code of the modules they load when a step leaves `fuel` steps. -/
def nested (env : Surroundings) (fuel : Nat) : Runner :=
  fun code module => runFrom env fuel code module 0 []

variable (env : Surroundings) (code : Code) (module : String)

/-- The result of execution from a configuration on. -/
def Config.run (c : Config) : Except Halt Unit × Machine :=
  runFrom env c.fuel code module c.pos c.stack c.machine

/-- One instruction is carried out, and execution goes on. -/
inductive Goes : Config → Config → Prop where
  | step {fuel pos : Nat} {stack : List Value} {m m' : Machine} {s : Step} {next : Next} :
      code.body[pos]? = some s →
      step env (nested env fuel) code module s stack m = (.ok next, m') →
      Goes ⟨fuel + 1, pos, stack, m⟩ ⟨fuel, next.jump.getD (pos + 1), next.stack, m'⟩

/-- Execution gets from one configuration to another; the list has those in which an instruction is carried
out. -/
inductive Path : Config → List Config → Config → Prop where
  | here (c : Config) : Path c [] c
  | cons {a b c : Config} {visited : List Config} :
      Goes env code module a b → Path b visited c → Path a (a :: visited) c

/-- Execution stops in a configuration. -/
inductive Ends : Config → Except Halt Unit × Machine → Prop where
  | exhausted {pos : Nat} {stack : List Value} {m : Machine} :
      Ends ⟨0, pos, stack, m⟩ (.error .exhausted, m)
  | finished {fuel pos : Nat} {stack : List Value} {m : Machine} : code.body[pos]? = none →
      Ends ⟨fuel + 1, pos, stack, m⟩ (.ok (), m)
  | failed {fuel pos : Nat} {stack : List Value} {m m' : Machine} {s : Step} {h : Halt} :
      code.body[pos]? = some s →
      step env (nested env fuel) code module s stack m = (.error h, m') →
      Ends ⟨fuel + 1, pos, stack, m⟩ (.error (inFrame code.file s.line h), m')

variable {env code module}

/-! ## Paths and results -/

theorem run_of_none {fuel pos : Nat} {stack : List Value} {m : Machine} (hs : code.body[pos]? = none) :
    runFrom env (fuel + 1) code module pos stack m = (.ok (), m) := by
  simp only [runFrom, hs]

/-- How an execution goes on after a step, or stops with its error. -/
def resume (env : Surroundings) (fuel : Nat) (code : Code) (module : String) (pos line : Nat) :
    Except Halt Next × Machine → Except Halt Unit × Machine
  | (.ok next, m) => runFrom env fuel code module (next.jump.getD (pos + 1)) next.stack m
  | (.error h, m) => (.error (inFrame code.file line h), m)

theorem run_of_some {fuel pos : Nat} {stack : List Value} {m : Machine} {s : Step}
    (hs : code.body[pos]? = some s) :
    runFrom env (fuel + 1) code module pos stack m =
      resume env fuel code module pos s.line (step env (nested env fuel) code module s stack m) := by
  rw [runFrom, hs]; rfl

theorem run_of_ok {fuel pos : Nat} {stack : List Value} {m m' : Machine} {s : Step} {next : Next}
    (hs : code.body[pos]? = some s)
    (h : step env (nested env fuel) code module s stack m = (.ok next, m')) :
    runFrom env (fuel + 1) code module pos stack m =
      runFrom env fuel code module (next.jump.getD (pos + 1)) next.stack m' := by
  rw [run_of_some hs, h]; rfl

theorem run_of_error {fuel pos : Nat} {stack : List Value} {m m' : Machine} {s : Step} {e : Halt}
    (hs : code.body[pos]? = some s)
    (h : step env (nested env fuel) code module s stack m = (.error e, m')) :
    runFrom env (fuel + 1) code module pos stack m =
      (.error (inFrame code.file s.line e), m') := by
  rw [run_of_some hs, h]; rfl

theorem Goes.run_eq {a b : Config} (h : Goes env code module a b) :
    a.run env code module = b.run env code module := by
  cases h with
  | step hs h => exact run_of_ok hs h

theorem Path.run_eq {a b : Config} {visited : List Config} (h : Path env code module a visited b) :
    a.run env code module = b.run env code module := by
  induction h with
  | here _ => rfl
  | cons hg _ ih => exact hg.run_eq.trans ih

theorem Ends.run_eq {c : Config} {r : Except Halt Unit × Machine} (h : Ends env code module c r) :
    c.run env code module = r := by
  cases h with
  | exhausted => rfl
  | finished hs => exact run_of_none hs
  | failed hs h => exact run_of_error hs h

/-- Every execution has a path to a configuration in which it stops. -/
theorem exists_path (fuel pos : Nat) (stack : List Value) (m : Machine) :
    ∃ visited last, Path env code module ⟨fuel, pos, stack, m⟩ visited last ∧
      Ends env code module last (runFrom env fuel code module pos stack m) := by
  induction fuel generalizing pos stack m with
  | zero => exact ⟨[], _, .here _, .exhausted⟩
  | succ fuel ih =>
      cases hs : code.body[pos]? with
      | none => exact ⟨[], _, .here _, run_of_none hs ▸ .finished hs⟩
      | some s =>
          rcases h : step env (nested env fuel) code module s stack m with ⟨e | next, m'⟩
          · exact ⟨[], _, .here _, run_of_error hs h ▸ .failed hs h⟩
          · obtain ⟨visited, last, hp, he⟩ := ih (next.jump.getD (pos + 1)) next.stack m'
            exact ⟨_, last, .cons (.step hs h) hp, run_of_ok hs h ▸ he⟩

end Launcher.Script.Exec
