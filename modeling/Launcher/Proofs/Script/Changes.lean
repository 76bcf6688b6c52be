import Launcher.Proofs.Script.Agreement

/-!
# What execution may do to a machine

A relation between machines that leads from before to after each thing that code can do in its module leads from
before to after every execution, whatever the execution ends with. Imports are what a relation has to answer for
itself: it is asked about them under the assumption that it holds of the code of the modules that they load.
-/

namespace Launcher

namespace Script

open Launcher.Action (Moves)

/-- The relation allows all that code can do in its module without importing anything. -/
structure Machine.Permits (R : Machine → Machine → Prop) (module : String) : Prop where
  aside : ∀ {m m' : Machine}, m'.modules = m.modules → m'.started = m.started → m'.shown = m.shown → R m m'
  warn : ∀ (site : CallSite) (category message : String), Moves R (Call.warn site category message)
  bind : ∀ (m : Machine) (name : String) (v : Value), R m (m.bind module name v)
  trans : ∀ {m m' m'' : Machine}, R m m' → R m' m'' → R m m''

variable {R : Machine → Machine → Prop} {module : String}

namespace Machine.Permits

variable {α β : Type}

theorem pure (h : Permits R module) (a : α) : Moves R (Action.pure a : Run α) := fun _ => h.aside rfl rfl rfl

theorem fail (h : Permits R module) (e : Halt) : Moves R (Action.fail e : Run α) := fun _ => h.aside rfl rfl rfl

theorem change (h : Permits R module) {f : Machine → Machine} (hmodules : ∀ m, (f m).modules = m.modules)
    (hstarted : ∀ m, (f m).started = m.started) (hshown : ∀ m, (f m).shown = m.shown) :
    Moves R (Action.modify f : Run Unit) :=
  fun m => h.aside (hmodules m) (hstarted m) (hshown m)

theorem transfer (h : Permits R module) (x : Streams.Transfer α) : Moves R (Run.transfer x) :=
  fun _ => h.aside rfl rfl rfl

theorem ofExcept (h : Permits R module) (x : Except TargetError α) : Moves R (Run.ofExcept x) := by
  cases x with
  | ok a => exact h.pure a
  | error e => exact h.fail _

theorem andThen (h : Permits R module) {x : Run α} {f : α → Run β} (hx : Moves R x) (hf : ∀ a, Moves R (f a)) :
    Moves R (x >>= f) := by
  refine Moves.bind ?_ hx hf
  exact fun _ _ _ => h.trans

theorem value (h : Permits R module) {x : Except TargetError α} {f : α → Run β} (hf : ∀ a, Moves R (f a)) :
    Moves R (Run.ofExcept x >>= f) :=
  h.andThen (h.ofExcept x) hf

theorem read (h : Permits R module) {f : Machine → Run α} (hf : ∀ m, Moves R (f m)) :
    Moves R (Action.get >>= f) :=
  h.andThen (fun _ => h.aside rfl rfl rfl) hf

end Machine.Permits

/-! ## Functions that every module can call -/

namespace Call

/-- The warning that a call gives. -/
def warningOf (site : CallSite) (category message : String) : Warning := ⟨category, message, site.module, site.line⟩

/-- The line that shows a warning. -/
def lineOf (site : CallSite) (category message : String) : String :=
  site.file ++ s!":{site.line}: " ++ category ++ ": " ++ message ++ "\n"

/-- What a warning comes to: the filters ignore it, make an error of it or always show it, or it is shown unless its
identity was shown before. To show it is to write its line to standard error, which may fail. -/
inductive Warns (site : CallSite) (category message : String) (m : Machine) : Except Halt Unit × Machine → Prop where
  | ignored : m.channels.filters.actionFor (warningOf site category message) = .ignore →
      Warns site category message m (.ok (), m)
  | raised : m.channels.filters.actionFor (warningOf site category message) = .error →
      Warns site category message m (.error (.raised ⟨category, message, []⟩), m)
  | always : m.channels.filters.actionFor (warningOf site category message) = .always →
      Warns site category message m (Run.err (lineOf site category message) m)
  | known {id : String} : identity? (m.channels.filters.actionFor (warningOf site category message))
      (warningOf site category message) = some id → id ∈ m.shown → Warns site category message m (.ok (), m)
  | shown {id : String} : identity? (m.channels.filters.actionFor (warningOf site category message))
      (warningOf site category message) = some id → id ∉ m.shown →
      Warns site category message m (Run.err (lineOf site category message) { m with shown := id :: m.shown })

theorem warn_cases (site : CallSite) (category message : String) (m : Machine) :
    Warns site category message m (warn site category message m) := by
  have honce : ∀ {id : String}, identity? (m.channels.filters.actionFor (warningOf site category message))
      (warningOf site category message) = some id → Warns site category message m
        ((if m.shown.contains id then Action.pure ()
          else Action.modify (fun m => { m with shown := id :: m.shown }) >>= fun _ =>
            Run.err (lineOf site category message) : Run Unit) m) := by
    intro id hid
    split
    · rename_i hin
      exact .known hid (List.contains_iff_mem.mp hin)
    · rename_i hin
      exact .shown hid fun hmem => hin (List.contains_iff_mem.mpr hmem)
  rw [warn, Action.bind_of_ok (Action.get_apply m), ← warningOf, ← lineOf]
  cases haction : m.channels.filters.actionFor (warningOf site category message) with
  | ignore => exact .ignored haction
  | error => exact .raised haction
  | always => exact .always haction
  | default => exact honce (haction ▸ rfl)
  | module => exact honce (haction ▸ rfl)
  | once => exact honce (haction ▸ rfl)

/-- A warning changes nothing but what was shown and what is on the channels. -/
theorem warn_aside (site : CallSite) (category message : String) (m : Machine) :
    (warn site category message m).2.modules = m.modules ∧ (warn site category message m).2.started = m.started := by
  have hcases := warn_cases site category message m
  generalize warn site category message m = r at hcases
  cases hcases <;> exact ⟨rfl, rfl⟩

theorem oneArg_moves (hR : Machine.Permits R module) (f : Builtin) (args : List Value) {k : Value → Run Value}
    (h : ∀ v, Moves R (k v)) : Moves R (oneArg f args k) := by
  unfold oneArg
  split
  · exact h _
  · exact hR.fail _

theorem optionalArg_moves (hR : Machine.Permits R module) (f : Builtin) (args : List Value)
    {k : Option Value → Run Value} (h : ∀ v, Moves R (k v)) : Moves R (optionalArg f args k) := by
  unfold optionalArg
  split
  · exact h _
  · exact h _
  · exact hR.fail _

theorem oneOrTwoArgs_moves (hR : Machine.Permits R module) (f : Builtin) (args : List Value)
    {k : Value → Option Value → Run Value} (h : ∀ v w, Moves R (k v w)) : Moves R (oneOrTwoArgs f args k) := by
  unfold oneOrTwoArgs
  split
  · exact h _ _
  · exact h _ _
  · exact hR.fail _

theorem exit_moves (hR : Machine.Permits R module) (v : Option Value) : Moves R (exit v) := by
  unfold exit
  split
  · exact hR.fail _
  · exact hR.fail _
  · exact hR.fail _
  · exact hR.fail _
  · exact hR.andThen (hR.transfer _) fun _ => hR.fail _

theorem addFilter_moves (hR : Machine.Permits R module) (spec : String) : Moves R (addFilter spec) := by
  unfold addFilter
  split
  · exact hR.change (fun _ => rfl) (fun _ => rfl) fun _ => rfl
  · exact hR.fail _

theorem call_moves (hR : Machine.Permits R module) (site : CallSite) (f : Builtin) (args : List Value) :
    Moves R (call site f args) := by
  cases f with
  | print => exact hR.andThen (hR.transfer _) fun _ => hR.pure _
  | str => exact optionalArg_moves hR _ _ fun _ => hR.pure _
  | repr => exact oneArg_moves hR _ _ fun _ => hR.pure _
  | len => exact oneArg_moves hR _ _ fun _ => hR.ofExcept _
  | int => exact optionalArg_moves hR _ _ fun _ => hR.ofExcept _
  | exit => exact optionalArg_moves hR _ _ (exit_moves hR)
  | warn => exact oneOrTwoArgs_moves hR _ _ fun _ _ => hR.andThen (hR.warn _ _ _) fun _ => hR.pure _
  | filterWarnings =>
      exact oneOrTwoArgs_moves hR _ _ fun _ _ => hR.andThen (addFilter_moves hR _) fun _ => hR.pure _

end Call

/-! ## Instructions and executions -/

namespace Exec

variable {env : Surroundings} {run : Runner} {code : Code}

/-- Of a step that imports, the relation has to be known on the machine on which the step is made only. -/
theorem step_moves_at (hR : Machine.Permits R module) {s : Step} {m : Machine}
    (himport : ∀ k name, s.instr = .importName k → nameAt code k = .ok name →
      R m (importAll env run (throughNames name) m).2) (stack : List Value) :
    R m (step env run code module s stack m).2 := by
  have hbind : ∀ name v, Moves R (Action.modify (Machine.bind module name v) : Run Unit) :=
    fun name v m => hR.bind m name v
  obtain ⟨i, line⟩ := s
  cases i with
  | loadConst k => exact hR.value (fun _ => hR.pure _) m
  | loadName k => exact hR.value (fun _ => hR.read fun _ => hR.value fun _ => hR.pure _) m
  | storeName k =>
      exact hR.value (fun ⟨v, stack⟩ => hR.value fun name => hR.andThen (hbind name v) fun _ => hR.pure _) m
  | loadAttr k =>
      exact hR.value (fun ⟨object, stack⟩ => hR.value fun _ => hR.read fun _ => hR.value fun _ => hR.pure _) m
  | binary op => exact hR.value (fun ⟨b, stack⟩ => hR.value fun ⟨a, stack⟩ => hR.value fun _ => hR.pure _) m
  | compare op => exact hR.value (fun ⟨b, stack⟩ => hR.value fun ⟨a, stack⟩ => hR.value fun _ => hR.pure _) m
  | negate => exact hR.value (fun ⟨a, stack⟩ => hR.value fun _ => hR.pure _) m
  | not => exact hR.value (fun ⟨a, stack⟩ => hR.pure _) m
  | call n =>
      refine hR.value (fun ⟨args, stack⟩ => hR.value fun ⟨callee, stack⟩ => ?_) m
      cases callee with
      | builtin f => exact hR.andThen (Call.call_moves hR _ f args) fun _ => hR.pure _
      | _ => exact hR.fail _
  | subscript => exact hR.value (fun ⟨b, stack⟩ => hR.value fun ⟨a, stack⟩ => hR.value fun _ => hR.pure _) m
  | buildList n => exact hR.value (fun ⟨items, stack⟩ => hR.pure _) m
  | importName k =>
      cases hname : nameAt code k with
      | error e =>
          simp only [step, hname]
          exact hR.fail _ m
      | ok name =>
          rw [step_importName (nameAt_eq_ok.mp hname)]
          have hall := himport k name rfl hname
          rcases hx : importAll env run (throughNames name) m with ⟨e | _, x⟩ <;> rw [hx] at hall
          · rw [Action.bind_of_error hx]
            exact hall
          · rw [Action.bind_of_ok hx]
            exact hR.trans hall (hR.andThen (hbind _ _) (fun _ => hR.pure _) x)
  | pop => exact hR.value (fun ⟨_, stack⟩ => hR.pure _) m
  | printExpr =>
      refine hR.value (fun ⟨v, stack⟩ => ?_) m
      dsimp only
      split
      · exact hR.andThen (hR.transfer _) fun _ => hR.pure _
      · exact hR.pure _
  | jumpIfTrue target => exact hR.value (fun ⟨v, stack⟩ => hR.pure _) m
  | jumpIfFalseOrPop target => exact hR.value (fun ⟨v, rest⟩ => hR.pure _) m
  | jumpIfTrueOrPop target => exact hR.value (fun ⟨v, rest⟩ => hR.pure _) m
  | raise => exact hR.value (fun ⟨message, stack⟩ => hR.value fun ⟨kind, _⟩ => hR.fail _) m
  | assertFail => exact hR.value (fun ⟨message, stack⟩ => hR.fail _) m

theorem step_moves (hR : Machine.Permits R module)
    (himport : ∀ name, Moves R (importAll env run (throughNames name))) (s : Step) (stack : List Value) :
    Moves R (step env run code module s stack) :=
  fun m => step_moves_at hR (fun _ name _ _ => himport name m) stack

/-- What code may do depends on the module that it runs in: each module has a relation of its own. -/
theorem runFrom_moves (R : String → Machine → Machine → Prop) (hR : ∀ module, Machine.Permits (R module) module)
    (himport : ∀ fuel, (∀ code module, Moves (R module) (nested env fuel code module)) →
      ∀ module name, Moves (R module) (importAll env (nested env fuel) (throughNames name)))
    (fuel : Nat) (code : Code) (module : String) (pos : Nat) (stack : List Value) :
    Moves (R module) (runFrom env fuel code module pos stack) := by
  induction fuel generalizing code module pos stack with
  | zero => exact (hR module).fail _
  | succ fuel ih =>
      intro m
      cases hs : code.body[pos]? with
      | none =>
          rw [run_of_none hs]
          exact (hR module).aside rfl rfl rfl
      | some s =>
          have hnested : ∀ code module, Moves (R module) (nested env fuel code module) :=
            fun code module => ih code module 0 []
          have hstep : Moves (R module) (step env (nested env fuel) code module s stack) :=
            step_moves (hR module) (himport fuel hnested module) s stack
          rcases hx : step env (nested env fuel) code module s stack m with ⟨e | next, x⟩
          · rw [run_of_error hs hx]
            exact hstep.of_eq hx
          · rw [run_of_ok hs hx]
            exact (hR module).trans (hstep.of_eq hx) (ih code module _ _ x)

/-! ## Imports of one module -/

theorem announce_moves (hR : ∀ module, Machine.Permits R module) (name : String) : Moves R (announce name) := by
  unfold announce
  split
  · rename_i parent child _
    exact fun m => (hR parent).bind m child _
  · exact (hR name).pure ()

theorem announce_ok (name : String) (m : Machine) : announce name m = (.ok (), (announce name m).2) := by
  unfold announce
  cases splitLast? name <;> rfl

/-- What the import of a module comes to: it is in the table, there is no code for it, or it ends well or fails. -/
inductive ImportsOne (env : Surroundings) (run : Runner) (name : String) (m : Machine) :
    Except Halt Unit × Machine → Prop where
  | loaded : name ∈ m.loaded → ImportsOne env run name m (.ok (), m)
  | refused (e : TargetError) : name ∉ m.loaded → ImportsOne env run name m (.error (.raised e), m)
  | ends {found : LocatedModule} {code : Code} {x : Machine} : name ∉ m.loaded → env.find name = .ok found →
      codeOf env found = .ok code → run code name ((m.enter name found.origin).noteStart name) = (.ok (), x) →
      ImportsOne env run name m (.ok (), (announce name x).2)
  | fails {found : LocatedModule} {code : Code} {x : Machine} {e : Halt} : name ∉ m.loaded →
      env.find name = .ok found → codeOf env found = .ok code →
      run code name ((m.enter name found.origin).noteStart name) = (.error e, x) →
      ImportsOne env run name m (.error e, x.remove name)

theorem importOne_cases (env : Surroundings) (run : Runner) (name : String) (m : Machine) :
    ImportsOne env run name m (importOne env run name m) := by
  by_cases hin : name ∈ m.loaded
  · rw [importOne_of_loaded (Machine.has_iff.mpr hin)]
    exact .loaded hin
  · have hhas := Machine.has_eq_false_iff.mpr hin
    cases hfind : env.find name with
    | error e =>
        rw [importOne_of_error hhas hfind]
        exact .refused _ hin
    | ok found =>
        cases hcode : codeOf env found with
        | error e =>
            rw [importOne_of_badCode hhas hfind hcode]
            exact .refused _ hin
        | ok code =>
            rw [importOne_of_code hhas hfind hcode]
            rcases hx : run code name ((m.enter name found.origin).noteStart name) with ⟨e | _, x⟩
            · rw [Action.bind_of_error (Action.onFail_of_error hx)]
              exact .fails hin hfind hcode hx
            · rw [Action.bind_of_ok (Action.onFail_of_ok hx), announce_ok]
              exact .ends hin hfind hcode hx

/-- An import leaves the machine as it is or starts the code of the module, which it takes off again if that fails. -/
theorem importOne_moves (hR : ∀ module, Machine.Permits R module) (hremove : ∀ m name, R m (m.remove name))
    (hrun : ∀ code module, Moves R (run code module)) {name : String}
    (hstart : ∀ m found, m.modules.has name = false → env.find name = .ok found →
      R m ((m.enter name found.origin).noteStart name)) :
    Moves R (importOne env run name) := by
  intro m
  have hcases := importOne_cases env run name m
  generalize importOne env run name m = r at hcases
  cases hcases with
  | loaded _ => exact (hR name).aside rfl rfl rfl
  | refused _ _ => exact (hR name).aside rfl rfl rfl
  | @ends found code x hin hfind _ hx =>
      have hrest := (hR name).trans ((hrun code name).of_eq hx) (announce_moves hR name x)
      exact (hR name).trans (hstart m found (Machine.has_eq_false_iff.mpr hin) hfind) hrest
  | @fails found code x _ hin hfind _ hx =>
      have hrest := (hR name).trans ((hrun code name).of_eq hx) (hremove x name)
      exact (hR name).trans (hstart m found (Machine.has_eq_false_iff.mpr hin) hfind) hrest

end Exec

end Script

end Launcher
