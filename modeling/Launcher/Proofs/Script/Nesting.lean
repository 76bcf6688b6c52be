import Mathlib.Logic.Relation
import Launcher.Proofs.Script.Changes

/-!
# Executions inside an execution

A step that imports executes the code of the modules that it loads, and that code may import again. The moments that
an execution comes to are its own and, at every depth, those of the executions inside it, whether they end well or not.
-/

namespace Launcher.Script

open Launcher.Action (Moves)

/-- The relation allows all that an execution can do, its imports too, which find their modules so. -/
structure Machine.PermitsAll (R : Machine → Machine → Prop) (find : String → Except ImportError LocatedModule) :
    Prop where
  permits : ∀ module, Machine.Permits R module
  start : ∀ (m : Machine) {name : String} {found : LocatedModule}, find name = .ok found →
    R m ((m.enter name found.origin).noteStart name)
  remove : ∀ (m : Machine) (module : String), R m (m.remove module)

namespace Exec

/-- The code and the module that are being executed, and where the execution is. -/
structure Moment where
  code : Code
  module : String
  config : Config

/-- The code of a module is about to be executed. -/
def Moment.start (code : Code) (module : String) (fuel : Nat) (m : Machine) : Moment :=
  ⟨code, module, ⟨fuel, 0, [], m⟩⟩

/-- From one moment to another: an instruction is carried out, or the import that is to be carried out has loaded the
modules `before` and starts the code of the next. -/
inductive Proceeds (env : Surroundings) : Moment → Moment → Prop where
  | goes {code : Code} {module : String} {c c' : Config} :
      Goes env code module c c' → Proceeds env ⟨code, module, c⟩ ⟨code, module, c'⟩
  | loads {code code' : Code} {module dotted name : String} {fuel pos k line : Nat} {stack : List Value}
      {m m' : Machine} {before after : List String} {found : LocatedModule} :
      code.body[pos]? = some ⟨.importName k, line⟩ → nameAt code k = .ok dotted →
      throughNames dotted = before ++ name :: after → importAll env (nested env fuel) before m = (.ok (), m') →
      m'.modules.has name = false → env.find name = .ok found → codeOf env found = .ok code' →
      Proceeds env ⟨code, module, ⟨fuel + 1, pos, stack, m⟩⟩
        (.start code' name fuel ((m'.enter name found.origin).noteStart name))

/-- An execution comes from one moment to another. -/
def Comes (env : Surroundings) : Moment → Moment → Prop := Relation.ReflTransGen (Proceeds env)

variable {R : Machine → Machine → Prop} {env : Surroundings} {run : Runner} {a b : Moment}

theorem importAll_append {names names' : List String} {m m' : Machine}
    (h : importAll env run names m = (.ok (), m')) :
    importAll env run (names ++ names') m = importAll env run names' m' := by
  induction names generalizing m with
  | nil =>
      cases h
      rfl
  | cons name names ih =>
      obtain ⟨_, x, hx, h⟩ := Action.bind_eq_ok.mp h
      rw [List.cons_append, importAll, Action.bind_of_ok hx]
      exact ih h

/-! ## Relations that lead from moment to moment -/

theorem importAll_moves (hR : Machine.PermitsAll R env.find) (hrun : ∀ code module, Moves R (run code module))
    (names : List String) : Moves R (importAll env run names) := by
  induction names with
  | nil => exact fun m => (hR.permits "").aside rfl rfl rfl
  | cons name names ih =>
      have hfirst : Moves R (importOne env run name) :=
        importOne_moves hR.permits hR.remove hrun fun m _ _ hfind => hR.start m hfind
      exact (hR.permits name).andThen hfirst fun _ => ih

theorem execution_moves (hR : Machine.PermitsAll R env.find) (fuel : Nat) (code : Code) (module : String) (pos : Nat)
    (stack : List Value) : Moves R (runFrom env fuel code module pos stack) :=
  runFrom_moves (fun _ => R) hR.permits (fun _ hrun _ name => importAll_moves hR hrun (throughNames name))
    fuel code module pos stack

theorem nested_moves (hR : Machine.PermitsAll R env.find) (fuel : Nat) (code : Code) (module : String) :
    Moves R (nested env fuel code module) :=
  execution_moves hR fuel code module 0 []

theorem Proceeds.moves (hR : Machine.PermitsAll R env.find) (h : Proceeds env a b) :
    R a.config.machine b.config.machine := by
  cases h with
  | @goes code module _ _ h =>
      cases h with
      | @step fuel pos stack _ _ s next _ hstep =>
          have himport : ∀ name, Moves R (importAll env (nested env fuel) (throughNames name)) :=
            fun name => importAll_moves hR (nested_moves hR fuel) (throughNames name)
          exact (step_moves (hR.permits module) himport s stack).of_eq hstep
  | @loads _ _ module _ _ fuel _ _ _ _ _ _ before _ _ _ _ _ hbefore _ hfind _ =>
      have hloaded := (importAll_moves hR (nested_moves hR fuel) before).of_eq hbefore
      exact (hR.permits module).trans hloaded (hR.start _ hfind)

theorem Comes.moves (hR : Machine.PermitsAll R env.find) (h : Comes env a b) : R a.config.machine b.config.machine := by
  induction h with
  | refl => exact (hR.permits a.module).aside rfl rfl rfl
  | @tail b _ _ hproceeds ih => exact (hR.permits b.module).trans ih (hproceeds.moves hR)

end Exec

end Launcher.Script
