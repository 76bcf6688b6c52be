import Launcher.Proofs.Script.Halting
import Launcher.Proofs.Script.StartedOnce

/-!
# Places in tracebacks

An error arises without a place, in an instruction that imports nothing or in an import that gets no code for a module.
The executions around it add their places on the way out, each the file of its code and the line of the instruction that
it is carrying out. So its traceback is the list of the executions that are active where it arises, the outermost first.
-/

namespace Launcher.Script

/-! ## Errors without a place -/

/-- The errors that a computation raises have no place yet. -/
def Bare {α : Type} (x : Run α) : Prop := ∀ m e m', x m = (.error (.raised e), m') → e.trace = []

namespace Bare

variable {α β : Type} {x : Run α}

theorem pure (a : α) : Bare (Action.pure a : Run α) := nofun

theorem modify (f : Machine → Machine) : Bare (Action.modify f : Run Unit) := nofun

theorem exit (status : Int) : Bare (Action.fail (.exit status) : Run α) := nofun

theorem transfer (x : Streams.Transfer α) : Bare (Run.transfer x) := by
  intro m e m' h
  obtain ⟨message, rfl⟩ := Exec.transfer_eq_raised h
  rfl

theorem raise {e : TargetError} (he : e.trace = []) : Bare (Run.raise e : Run α) := by
  rintro _ _ _ ⟨⟩
  exact he

theorem ofExcept {r : Except TargetError α} (hr : ∀ e, r = .error e → e.trace = []) : Bare (Run.ofExcept r) :=
  fun _ e _ h => hr e (Exec.ofExcept_eq_raised.mp h).1

theorem bind {f : α → Run β} (hx : Bare x) (hf : ∀ a, Bare (f a)) : Bare (x >>= f) := by
  intro m e m' h
  obtain h | ⟨a, m₁, _, h⟩ := Action.bind_eq_error.mp h
  · exact hx m e m' h
  · exact hf a m₁ e m' h

theorem read {f : Machine → Run α} (hf : ∀ m, Bare (f m)) : Bare (Action.get >>= f) :=
  bind nofun hf

theorem value {r : Except TargetError α} {f : α → Run β} (hr : ∀ e, r = .error e → e.trace = [])
    (hf : ∀ a, Bare (f a)) : Bare (Run.ofExcept r >>= f) :=
  (ofExcept hr).bind hf

end Bare

/-! ### Values -/

theorem OperandError.trace_toTarget (e : OperandError) : e.toTarget.trace = [] := by
  cases e <;> rfl

theorem OperandError.trace_of_mapError {α : Type} {x : Except OperandError α} {e : TargetError}
    (h : x.mapError OperandError.toTarget = .error e) : e.trace = [] := by
  cases x with
  | ok a => cases h
  | error e' =>
      cases h
      exact e'.trace_toTarget

/-! ### Functions that every module can call -/

namespace Call

theorem oneArg_bare (f : Builtin) (args : List Value) {k : Value → Run Value} (h : ∀ v, Bare (k v)) :
    Bare (oneArg f args k) := by
  unfold oneArg
  split
  · exact h _
  · exact .raise rfl

theorem optionalArg_bare (f : Builtin) (args : List Value) {k : Option Value → Run Value} (h : ∀ v, Bare (k v)) :
    Bare (optionalArg f args k) := by
  unfold optionalArg
  split
  · exact h _
  · exact h _
  · exact .raise rfl

theorem oneOrTwoArgs_bare (f : Builtin) (args : List Value) {k : Value → Option Value → Run Value}
    (h : ∀ v w, Bare (k v w)) : Bare (oneOrTwoArgs f args k) := by
  unfold oneOrTwoArgs
  split
  · exact h _ _
  · exact h _ _
  · exact .raise rfl

theorem len_bare (v : Value) : Bare (Run.ofExcept (len v)) := by
  unfold len
  split
  · exact .pure _
  · exact .pure _
  · exact .raise rfl

theorem int_bare (v : Option Value) : Bare (Run.ofExcept (int v)) := by
  unfold int
  split
  · exact .pure _
  · exact .pure _
  · exact .pure _
  · split
    · exact .pure _
    · exact .raise rfl
  · dsimp only
    split
    · split
      · exact .pure _
      · exact .raise rfl
    · exact .raise rfl

theorem exit_bare (v : Option Value) : Bare (exit v) := by
  unfold exit
  split
  · exact .exit _
  · exact .exit _
  · exact .exit _
  · exact .exit _
  · exact (Bare.transfer _).bind fun _ => .exit _

theorem warn_bare (site : CallSite) (category message : String) : Bare (warn site category message) := by
  intro m e m' h
  have hcases := warn_cases site category message m
  generalize warn site category message m = r at h hcases
  cases hcases with
  | ignored _ | known _ _ => cases h
  | raised _ =>
      cases h
      rfl
  | always _ | shown _ _ => exact Bare.transfer _ _ e m' h

theorem addFilter_bare (spec : String) : Bare (addFilter spec) := by
  unfold addFilter
  split
  · exact .modify _
  · exact .raise rfl

theorem call_bare (site : CallSite) (f : Builtin) (args : List Value) : Bare (call site f args) := by
  unfold call
  cases f with
  | print => exact (Bare.transfer _).bind fun _ => .pure _
  | str => exact optionalArg_bare _ _ fun _ => .pure _
  | repr => exact oneArg_bare _ _ fun _ => .pure _
  | len => exact oneArg_bare _ _ len_bare
  | int => exact optionalArg_bare _ _ int_bare
  | exit => exact optionalArg_bare _ _ exit_bare
  | warn => exact oneOrTwoArgs_bare _ _ fun _ _ => (warn_bare _ _ _).bind fun _ => .pure _
  | filterWarnings => exact oneOrTwoArgs_bare _ _ fun _ _ => (addFilter_bare _).bind fun _ => .pure _

end Call

namespace Exec

variable {env : Surroundings} {run : Runner} {code : Code} {module : String} {e : TargetError}

/-! ### Instructions -/

theorem trace_of_pop {stack : List Value} (h : pop stack = .error e) : e.trace = [] := by
  cases stack with
  | nil =>
      cases h
      rfl
  | cons v stack => cases h

theorem trace_of_popMany {n : Nat} {stack : List Value} (h : popMany n stack = .error e) : e.trace = [] := by
  unfold popMany at h
  split at h
  · cases h
  · cases h
    rfl

theorem trace_of_constAt {k : Nat} (h : constAt code k = .error e) : e.trace = [] := by
  unfold constAt at h
  split at h
  · cases h
  · cases h
    rfl

theorem trace_of_nameAt {k : Nat} (h : nameAt code k = .error e) : e.trace = [] := by
  unfold nameAt at h
  split at h
  · cases h
  · cases h
    rfl

theorem trace_of_loadName {name : String} {m : Machine} (h : loadName env module name m = .error e) : e.trace = [] := by
  unfold loadName at h
  split at h
  · cases h
  · split at h
    · cases h
    · split at h
      · cases h
      · cases h
        rfl

theorem trace_of_loadAttr {v : Value} {name : String} {m : Machine} (h : loadAttr v name m = .error e) :
    e.trace = [] := by
  unfold loadAttr at h
  split at h
  · split at h
    · cases h
    · cases h
      rfl
  · cases h
    rfl

/-- The instruction imports a module, and the code has a name for it. -/
def Imports (code : Code) (s : Step) : Prop := ∃ k dotted, s.instr = .importName k ∧ nameAt code k = .ok dotted

/-- What a step raises by itself, and not for a module that it imports, has no place yet. -/
theorem step_bare {s : Step} (himports : ¬Imports code s) (stack : List Value) :
    Bare (step env run code module s stack) := by
  obtain ⟨i, line⟩ := s
  have hpop (stack : List Value) (e : TargetError) : pop stack = .error e → e.trace = [] := trace_of_pop
  have hname (k : Nat) (e : TargetError) : nameAt code k = .error e → e.trace = [] := trace_of_nameAt
  have hoperands (x : Except OperandError Value) (e : TargetError) :
      x.mapError OperandError.toTarget = .error e → e.trace = [] := OperandError.trace_of_mapError
  cases i with
  | loadConst k => exact .value (fun _ => trace_of_constAt) fun _ => .pure _
  | loadName k =>
      exact .value (hname k) fun _ => .read fun _ => .value (fun _ => trace_of_loadName) fun _ => .pure _
  | storeName k =>
      exact .value (hpop _) fun ⟨v, stack⟩ => .value (hname k) fun _ => (Bare.modify _).bind fun _ => .pure _
  | loadAttr k =>
      exact .value (hpop _) fun ⟨object, stack⟩ => .value (hname k) fun _ => .read fun _ =>
        .value (fun _ => trace_of_loadAttr) fun _ => .pure _
  | binary op =>
      exact .value (hpop _) fun ⟨b, stack⟩ => .value (hpop _) fun ⟨a, stack⟩ => .value (hoperands _) fun _ => .pure _
  | compare op =>
      exact .value (hpop _) fun ⟨b, stack⟩ => .value (hpop _) fun ⟨a, stack⟩ => .value (hoperands _) fun _ => .pure _
  | negate => exact .value (hpop _) fun ⟨a, stack⟩ => .value (hoperands _) fun _ => .pure _
  | not => exact .value (hpop _) fun ⟨a, stack⟩ => .pure _
  | call n =>
      refine .value (fun _ => trace_of_popMany) fun ⟨args, stack⟩ => .value (hpop _) fun ⟨callee, stack⟩ => ?_
      cases callee with
      | builtin f => exact (Call.call_bare _ f args).bind fun _ => .pure _
      | _ => exact .raise rfl
  | subscript =>
      exact .value (hpop _) fun ⟨b, stack⟩ => .value (hpop _) fun ⟨a, stack⟩ => .value (hoperands _) fun _ => .pure _
  | buildList n => exact .value (fun _ => trace_of_popMany) fun ⟨items, stack⟩ => .pure _
  | importName k =>
      cases hdotted : nameAt code k with
      | error e' =>
          simp only [step, hdotted]
          exact .raise (trace_of_nameAt hdotted)
      | ok dotted => exact absurd ⟨k, dotted, rfl, hdotted⟩ himports
  | pop => exact .value (hpop _) fun ⟨_, stack⟩ => .pure _
  | printExpr =>
      refine .value (hpop _) fun ⟨v, stack⟩ => ?_
      dsimp only
      split
      · exact (Bare.transfer _).bind fun _ => .pure _
      · exact .pure _
  | jumpIfTrue target => exact .value (hpop _) fun ⟨v, stack⟩ => .pure _
  | jumpIfFalseOrPop target => exact .value (hpop _) fun ⟨v, rest⟩ => .pure _
  | jumpIfTrueOrPop target => exact .value (hpop _) fun ⟨v, rest⟩ => .pure _
  | raise => exact .value (hpop _) fun ⟨message, stack⟩ => .value (hpop _) fun ⟨kind, _⟩ => .raise rfl
  | assertFail => exact .value (hpop _) fun ⟨message, stack⟩ => .raise rfl

/-! ### Imports -/

theorem trace_importFailure (e : ImportError) : (importFailure e).trace = [] := by
  unfold importFailure
  split <;> rfl

theorem trace_of_compile {mode : CompileMode} {file source : String} (h : compile mode file source = .error e) :
    e.trace = [] := by
  unfold compile at h
  split at h
  · cases h
    rfl
  · split at h
    · cases h
      rfl
    · cases h

theorem trace_of_ofBytes {bytes : Bytes} (h : Code.ofBytes bytes = .error e) : e.trace = [] := by
  unfold Code.ofBytes at h
  split at h
  · cases h
  · cases h
    rfl

theorem trace_of_codeOf {found : LocatedModule} (h : codeOf env found = .error e) : e.trace = [] := by
  unfold codeOf at h
  split at h
  · exact trace_of_compile h
  · exact trace_of_ofBytes h
  · cases h

/-! ## Where errors arise -/

namespace Moment

/-- The place of an execution: the file of its code, and the line of the instruction that is to be carried out. -/
def frame (a : Moment) : Frame := ⟨a.code.file, (a.code.body[a.config.pos]?.elim 0 Step.line), "<module>"⟩

theorem frame_of_some {fuel pos : Nat} {stack : List Value} {m : Machine} {s : Step} (hs : code.body[pos]? = some s) :
    frame ⟨code, module, ⟨fuel, pos, stack, m⟩⟩ = ⟨code.file, s.line, "<module>"⟩ := by
  rw [frame, hs, Option.elim_some]

/-- The import that is to be carried out has loaded the modules in front of the given one. It comes to that one with
some fuel, on a machine on which it is not loaded. -/
inductive Wants (env : Surroundings) : Moment → String → Nat → Machine → Prop where
  | intro {code : Code} {module dotted name : String} {fuel pos k line : Nat} {stack : List Value} {m m' : Machine}
      {before after : List String} :
      code.body[pos]? = some ⟨.importName k, line⟩ → nameAt code k = .ok dotted →
      throughNames dotted = before ++ name :: after → importAll env (nested env fuel) before m = (.ok (), m') →
      m'.modules.has name = false → Wants env ⟨code, module, ⟨fuel + 1, pos, stack, m⟩⟩ name fuel m'

/-- The error arises in what is to be carried out: in an instruction that imports nothing, or in an import, for a module
that is not found, or that cannot be compiled or decoded. -/
inductive Raises (env : Surroundings) : Moment → TargetError → Prop where
  | instruction {code : Code} {module : String} {fuel pos : Nat} {stack : List Value} {m m' : Machine} {s : Step}
      {e : TargetError} :
      code.body[pos]? = some s → ¬Imports code s →
      step env (nested env fuel) code module s stack m = (.error (.raised e), m') →
      Raises env ⟨code, module, ⟨fuel + 1, pos, stack, m⟩⟩ e
  | locating {a : Moment} {name : String} {fuel : Nat} {m : Machine} {e : ImportError} :
      a.Wants env name fuel m → env.find name = .error e → Raises env a (importFailure e)
  | decoding {a : Moment} {name : String} {fuel : Nat} {m : Machine} {found : LocatedModule} {e : TargetError} :
      a.Wants env name fuel m → env.find name = .ok found → codeOf env found = .error e → Raises env a e

variable {a b : Moment} {name : String} {fuel : Nat} {m : Machine}

theorem Raises.trace_eq_nil (h : a.Raises env e) : e.trace = [] := by
  cases h with
  | instruction _ himports hstep => exact step_bare himports _ _ _ _ hstep
  | locating _ _ => exact trace_importFailure _
  | decoding _ _ hcode => exact trace_of_codeOf hcode

theorem Wants.fresh (h : a.Wants env name fuel m) : m.modules.has name = false := by
  cases h with
  | intro _ _ _ _ hfresh => exact hfresh

/-- An import fails with the error that it gets for a module, and adds its place to it. -/
theorem Wants.run_of_importOne {x : Machine} (h : a.Wants env name fuel m)
    (himport : importOne env (nested env fuel) name m = (.error (.raised e), x)) :
    a.run env = (.error (.raised (e.pushOuter a.frame)), x) := by
  cases h with
  | intro hs hname hthrough hbefore _ =>
      rw [frame_of_some hs]
      exact Exec.run_of_importOne hs hname hthrough hbefore himport

theorem Raises.run_eq (h : a.Raises env e) : ∃ m', a.run env = (.error (.raised (e.pushOuter a.frame)), m') := by
  cases h with
  | instruction hs _ hstep =>
      rw [frame_of_some hs]
      exact ⟨_, run_of_error hs hstep⟩
  | locating hwants hfind => exact ⟨_, hwants.run_of_importOne (importOne_of_error hwants.fresh hfind)⟩
  | decoding hwants hfind hcode =>
      exact ⟨_, hwants.run_of_importOne (importOne_of_badCode hwants.fresh hfind hcode)⟩

end Moment

/-! ## Active executions -/

/-- From one moment an execution comes to another, and the executions that are active there around the innermost one are
at the imports `outer`, the outermost first. -/
inductive Active (env : Surroundings) : Moment → List Moment → Moment → Prop where
  | here (a : Moment) : Active env a [] a
  | goes {code : Code} {module : String} {c c' : Config} {outer : List Moment} {b : Moment} :
      Goes env code module c c' → Active env ⟨code, module, c'⟩ outer b → Active env ⟨code, module, c⟩ outer b
  | enters {a b c : Moment} {outer : List Moment} : Enters env a b → Active env b outer c → Active env a (a :: outer) c

variable {a b c : Moment} {outer : List Moment} {origin : TargetError}

/-- The error with the places of active executions around it. -/
def within (active : List Moment) (origin : TargetError) : TargetError :=
  { origin with trace := active.map Moment.frame ++ origin.trace }

/-- An error in the code of a module that an import loads gets the place of the import. -/
theorem Enters.run_eq {x : Machine} (h : Enters env a b) (hrun : b.run env = (.error (.raised e), x)) :
    ∃ x', a.run env = (.error (.raised (e.pushOuter a.frame)), x') := by
  cases h with
  | loads hs hname hthrough hbefore hfresh hfind hcode =>
      have hstops := importOne_of_run (nested env _) hfresh hfind hcode hrun
      exact ⟨_, Moment.Wants.run_of_importOne (.intro hs hname hthrough hbefore hfresh) hstops⟩

theorem Active.run_eq {x : Machine} (h : Active env a outer b) (hrun : b.run env = (.error (.raised e), x)) :
    ∃ x', a.run env = (.error (.raised (within outer e)), x') := by
  induction h with
  | here _ => exact ⟨x, hrun⟩
  | goes hgoes _ ih =>
      obtain ⟨x', hb⟩ := ih hrun
      exact ⟨x', hgoes.run_eq.trans hb⟩
  | enters henters _ ih =>
      obtain ⟨x', hb⟩ := ih hrun
      exact henters.run_eq hb

/-! ## Where a run that fails came from -/

theorem importAll_error_cases {names : List String} {m x : Machine} {h : Halt}
    (himport : importAll env run names m = (.error h, x)) :
    ∃ before name after m', names = before ++ name :: after ∧ importAll env run before m = (.ok (), m') ∧
      importOne env run name m' = (.error h, x) := by
  induction names generalizing m with
  | nil => cases himport
  | cons name names ih =>
      obtain hfirst | ⟨_, m', hfirst, hrest⟩ := Action.bind_eq_error.mp himport
      · exact ⟨[], name, names, m, rfl, rfl, hfirst⟩
      · obtain ⟨before, name', after, m'', rfl, hbefore, hlast⟩ := ih hrest
        refine ⟨name :: before, name', after, m'', rfl, ?_, hlast⟩
        rw [importAll, Action.bind_of_ok hfirst]
        exact hbefore

/-- The import of a module fails since there is no code for it, or in its code. -/
theorem importOne_error_cases {name : String} {m x : Machine}
    (himport : importOne env run name m = (.error (.raised e), x)) :
    m.modules.has name = false ∧
      ((∃ failure, env.find name = .error failure ∧ e = importFailure failure) ∨
        ∃ found, env.find name = .ok found ∧ (codeOf env found = .error e ∨
          ∃ code x', codeOf env found = .ok code ∧
            run code name ((m.enter name found.origin).noteStart name) = (.error (.raised e), x'))) := by
  cases hhas : m.modules.has name with
  | true =>
      rw [importOne_of_loaded hhas] at himport
      cases himport
  | false =>
      refine ⟨rfl, ?_⟩
      cases hfind : env.find name with
      | error failure =>
          rw [importOne_of_error hhas hfind] at himport
          cases himport
          exact .inl ⟨failure, rfl, rfl⟩
      | ok found =>
          refine .inr ⟨found, rfl, ?_⟩
          cases hcode : codeOf env found with
          | error e' =>
              rw [importOne_of_badCode hhas hfind hcode] at himport
              cases himport
              exact .inl rfl
          | ok code =>
              rcases hrun : run code name ((m.enter name found.origin).noteStart name) with ⟨h | _, x'⟩
              · rw [importOne_of_run run hhas hfind hcode hrun] at himport
                cases himport
                exact .inr ⟨code, x', rfl, hrun⟩
              · rw [importOne_of_code hhas hfind hcode, Action.bind_of_ok (Action.onFail_of_ok hrun), announce_ok]
                  at himport
                cases himport

theorem inFrame_eq_raised {file : String} {line : Nat} {h : Halt} (hframe : inFrame file line h = .raised e) :
    ∃ e₀, h = .raised e₀ ∧ e = e₀.pushOuter ⟨file, line, "<module>"⟩ := by
  cases h with
  | raised e₀ =>
      cases hframe
      exact ⟨e₀, rfl, rfl⟩
  | exit status => cases hframe
  | exhausted => cases hframe

/-- A step that fails raises the error itself, or has got it from the code of a module that it imports. -/
theorem raises_or_enters {fuel pos : Nat} {stack : List Value} {m x : Machine} {s : Step}
    (hs : code.body[pos]? = some s)
    (hstep : step env (nested env fuel) code module s stack m = (.error (.raised e), x)) :
    Moment.Raises env ⟨code, module, ⟨fuel + 1, pos, stack, m⟩⟩ e ∨
      ∃ code' name m' x', Enters env ⟨code, module, ⟨fuel + 1, pos, stack, m⟩⟩ (.start code' name fuel m') ∧
        runFrom env fuel code' name 0 [] m' = (.error (.raised e), x') := by
  by_cases himports : Imports code s
  · obtain ⟨i, line⟩ := s
    obtain ⟨k, dotted, rfl, hname⟩ := himports
    have hall : importAll env (nested env fuel) (throughNames dotted) m = (.error (.raised e), x) := by
      rw [step_importName (nameAt_eq_ok.mp hname)] at hstep
      obtain hall | ⟨_, _, _, hrest⟩ := Action.bind_eq_error.mp hstep
      · exact hall
      · cases hrest
    obtain ⟨before, name, after, m', hthrough, hbefore, himport⟩ := importAll_error_cases hall
    obtain ⟨hfresh, ⟨failure, hfind, rfl⟩ | ⟨found, hfind, hcode | ⟨code', x', hcode, hrun⟩⟩⟩ :=
      importOne_error_cases himport
    · exact .inl (.locating (.intro hs hname hthrough hbefore hfresh) hfind)
    · exact .inl (.decoding (.intro hs hname hthrough hbefore hfresh) hfind hcode)
    · exact .inr ⟨code', name, _, x', .loads hs hname hthrough hbefore hfresh hfind hcode, hrun⟩
  · exact .inl (.instruction hs himports hstep)

/-- A run that raises an error has come to where the error arises. -/
theorem exists_active {fuel pos : Nat} {stack : List Value} {m x : Machine}
    (hrun : runFrom env fuel code module pos stack m = (.error (.raised e), x)) :
    ∃ outer b origin, Active env ⟨code, module, ⟨fuel, pos, stack, m⟩⟩ outer b ∧ b.Raises env origin ∧
      e = within (outer ++ [b]) origin := by
  -- The code of a module that is imported is run with less fuel too, like what follows a step.
  induction fuel generalizing code module pos stack m x e with
  | zero => cases hrun
  | succ fuel ih =>
      cases hs : code.body[pos]? with
      | none =>
          rw [run_of_none hs] at hrun
          cases hrun
      | some s =>
          rcases hstep : step env (nested env fuel) code module s stack m with ⟨h | next, m'⟩
          · rw [run_of_error hs hstep] at hrun
            obtain ⟨e₀, rfl, rfl⟩ := inFrame_eq_raised (Except.error.inj (Prod.mk.inj hrun).1)
            rw [← Moment.frame_of_some hs]
            obtain hraises | ⟨code', name, m'', x', henters, hinner⟩ := raises_or_enters hs hstep
            · exact ⟨[], _, e₀, .here _, hraises, rfl⟩
            · obtain ⟨outer, b, origin, hactive, hraises, rfl⟩ := ih hinner
              exact ⟨_ :: outer, b, origin, .enters henters hactive, hraises, rfl⟩
          · rw [run_of_ok hs hstep] at hrun
            obtain ⟨outer, b, origin, hactive, hraises, he⟩ := ih hrun
            exact ⟨outer, b, origin, .goes (.step hs hstep) hactive, hraises, he⟩

/-- Running code ends in an error exactly if it comes to a moment at which an error arises. That has no place, and the
traceback has one for each execution that is active then, the outermost first: the file of its code and the line of the
instruction that it is carrying out. An import that gets no code for a module is itself the last of these places. -/
theorem exec_raises_iff_active (env : Surroundings) (fuel : Nat) (code : Code) (module : String) (m : Machine)
    (e : TargetError) :
    (exec env fuel code module m).1 = .error (.raised e) ↔
      ∃ outer b origin, Active env (.start code module fuel (m.enter module code.file)) outer b ∧
        b.Raises env origin ∧ origin.trace = [] ∧ e = { origin with trace := (outer ++ [b]).map Moment.frame } := by
  constructor
  · intro hexec
    obtain ⟨outer, b, origin, hactive, hraises, rfl⟩ := exists_active (Prod.ext hexec rfl)
    have hbare := hraises.trace_eq_nil
    refine ⟨outer, b, origin, hactive, hraises, hbare, ?_⟩
    rw [within, hbare, List.append_nil]
  · rintro ⟨outer, b, origin, hactive, hraises, hbare, rfl⟩
    obtain ⟨x, hb⟩ := hraises.run_eq
    obtain ⟨x', hrun⟩ := hactive.run_eq hb
    have htrace : within outer (origin.pushOuter b.frame) =
        { origin with trace := (outer ++ [b]).map Moment.frame } := by
      simp only [within, TargetError.pushOuter, hbare, List.map_append, List.map_cons, List.map_nil]
    rw [htrace] at hrun
    exact congrArg Prod.fst hrun

/-- A module that has no code has no place either. -/
example :
    let env : Surroundings := ⟨fun name => .ok ⟨name, "<frozen>", false, .compiled []⟩, [], {}⟩
    (exec env 9 (Session.importsOf "main" ["a"]) Session.mainModule {}).1 =
      .error (.raised ⟨"ValueError", "bad marshal data", [⟨"main", 1, "<module>"⟩]⟩) := by
  cbv

end Exec

end Launcher.Script
