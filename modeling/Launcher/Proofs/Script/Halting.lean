import Launcher.Proofs.Script.Sessions

/-!
# How executions stop

An instruction that stops, with an error or with a status, stops the execution that it is carried out in and every one
that this is inside. On the way out an error gets the places that were being executed around it, and a status stays.
-/

namespace Launcher

namespace Halt

/-- From inside an execution to the outside of it: an error may get places around it. -/
inductive Framed (h : Halt) : Halt → Prop where
  | same : Framed h h
  | inFrame {h' : Halt} (file : String) (line : Nat) : Framed h h' → Framed h (Script.Exec.inFrame file line h')

variable {h h' : Halt}

theorem Framed.trans {h'' : Halt} (hh' : h.Framed h') (hh'' : h'.Framed h'') : h.Framed h'' := by
  induction hh'' with
  | same => exact hh'
  | inFrame file line _ ih => exact .inFrame file line ih

theorem Framed.eq_exit {status : Int} (h : Framed (.exit status) h') : h' = .exit status := by
  induction h with
  | same => rfl
  | inFrame file line _ ih =>
      rw [ih]
      rfl

theorem Framed.eq_raised {e : TargetError} (h : Framed (.raised e) h') :
    ∃ trace, h' = .raised { e with trace := trace ++ e.trace } := by
  induction h with
  | same => exact ⟨[], rfl⟩
  | inFrame file line _ ih =>
      obtain ⟨trace, rfl⟩ := ih
      exact ⟨⟨file, line, "<module>"⟩ :: trace, rfl⟩

end Halt

namespace Script.Exec

namespace Moment

/-- The result of the execution from the moment on. -/
def run (env : Surroundings) (a : Moment) : Except Halt Unit × Machine := a.config.run env a.code a.module

/-- The instruction that is to be carried out stops the execution. -/
inductive Stops (env : Surroundings) : Moment → Halt → Prop where
  | intro {code : Code} {module : String} {fuel pos : Nat} {stack : List Value} {m m' : Machine} {s : Step} {h : Halt} :
      code.body[pos]? = some s → step env (nested env fuel) code module s stack m = (.error h, m') →
      Stops env ⟨code, module, ⟨fuel + 1, pos, stack, m⟩⟩ h

/-- What is to be carried out is the call of `exit` with an integer. -/
inductive CallsExit : Moment → Int64 → Prop where
  | intro {code : Code} {module : String} {fuel pos line : Nat} {stack : List Value} {m : Machine} {n : Int64} :
      code.body[pos]? = some ⟨.call 1, line⟩ →
      CallsExit ⟨code, module, ⟨fuel + 1, pos, .int n :: .builtin .exit :: stack, m⟩⟩ n

end Moment

variable {env : Surroundings} {a b : Moment} {h : Halt}

theorem Moment.CallsExit.stops {n : Int64} (h : a.CallsExit n) (env : Surroundings) :
    a.Stops env (.exit (Call.status n)) := by
  cases h with
  | @intro _ _ _ _ _ stack m _ hs =>
      have hcall (site : CallSite) : apply site (.builtin .exit) [.int n] m = (.error (.exit (Call.status n)), m) := rfl
      exact .intro hs ((congrFun (step_call [.int n]) m).trans (pushing_eq_error.mpr (hcall _)))

theorem Moment.Stops.run (hstops : a.Stops env h) : ∃ h' m', a.run env = (.error h', m') ∧ h.Framed h' := by
  cases hstops with
  | intro hs hstep => exact ⟨_, _, run_of_error hs hstep, .inFrame _ _ .same⟩

/-- Where an import comes to a module that cannot be loaded, the modules behind it are not tried, and the import
stops. -/
theorem run_of_importOne {code : Code} {module dotted name : String} {fuel pos k line : Nat} {stack : List Value}
    {m m' x : Machine} {before after : List String} (hs : code.body[pos]? = some ⟨.importName k, line⟩)
    (hname : nameAt code k = .ok dotted) (hthrough : throughNames dotted = before ++ name :: after)
    (hbefore : importAll env (nested env fuel) before m = (.ok (), m'))
    (himport : importOne env (nested env fuel) name m' = (.error h, x)) :
    runFrom env (fuel + 1) code module pos stack m = (.error (inFrame code.file line h), x) := by
  have hall : importAll env (nested env fuel) (throughNames dotted) m = (.error h, x) := by
    rw [hthrough, importAll_append hbefore]
    exact Action.bind_of_error himport
  have hstep : step env (nested env fuel) code module ⟨.importName k, line⟩ stack m = (.error h, x) := by
    rw [step_importName (nameAt_eq_ok.mp hname)]
    exact Action.bind_of_error hall
  exact run_of_error hs hstep

/-- A module whose code stops is taken off the table again. -/
theorem importOne_of_run (run : Runner) {code : Code} {name : String} {m x : Machine} {found : LocatedModule}
    (hfresh : m.modules.has name = false) (hfind : env.find name = .ok found) (hcode : codeOf env found = .ok code)
    (hrun : run code name ((m.enter name found.origin).noteStart name) = (.error h, x)) :
    importOne env run name m = (.error h, x.remove name) := by
  rw [importOne_of_code hfresh hfind hcode]
  exact Action.bind_of_error (Action.onFail_of_error hrun)

/-- Where an import starts the code of a module and that stops, the import stops. -/
theorem Proceeds.run_of_error {h : Halt} {m : Machine} (hproceeds : Proceeds env a b)
    (hrun : b.run env = (.error h, m)) :
    ∃ h' m', a.run env = (.error h', m') ∧ h.Framed h' := by
  cases hproceeds with
  | goes hgoes => exact ⟨h, m, hgoes.run_eq.trans hrun, .same⟩
  | loads hs hname hthrough hbefore hfresh hfind hcode =>
      have himport := importOne_of_run (nested env _) hfresh hfind hcode hrun
      exact ⟨_, _, run_of_importOne hs hname hthrough hbefore himport, .inFrame _ _ .same⟩

/-- Where an execution comes to an instruction that stops, at whatever depth of imports, it stops itself. -/
theorem Comes.run_of_stops (hcomes : Comes env a b) (hstops : b.Stops env h) :
    ∃ h' m', a.run env = (.error h', m') ∧ h.Framed h' := by
  -- From the last moment back, since each import passes on what the code in it stopped with.
  induction hcomes using Relation.ReflTransGen.head_induction_on with
  | refl => exact hstops.run
  | head hproceeds _ ih =>
      obtain ⟨h', m', hrun, hframed⟩ := ih
      obtain ⟨h'', m'', hrun', hframed'⟩ := hproceeds.run_of_error hrun
      exact ⟨h'', m'', hrun', hframed.trans hframed'⟩

end Script.Exec

end Launcher
