import Launcher.Proofs.Script.Path
import Launcher.Proofs.Script.Quiet

/-!
# Machines that agree but for the files of their modules

Code that neither imports nor reads the variable with the file of its module cannot tell two machines apart that
differ in these variables alone: it ends in the same way on both, leaves machines that again differ in nothing else,
and loads no module. Where its modules are found does not matter to it.
-/

namespace Launcher

/-! ## Two computations -/

namespace Action

variable {ε σ α β : Type} {R : σ → σ → Prop}

theorem onFail_of_ok {x : Action ε σ α} {cleanUp : σ → σ} {s t : σ} {a : α} (h : x s = (.ok a, t)) :
    x.onFail cleanUp s = (.ok a, t) := by
  simp only [onFail, h]

theorem onFail_of_error {x : Action ε σ α} {cleanUp : σ → σ} {s t : σ} {e : ε} (h : x s = (.error e, t)) :
    x.onFail cleanUp s = (.error e, cleanUp t) := by
  simp only [onFail, h]

/-- Started in related states, two computations have the same result and leave related states. -/
def Relates (R : σ → σ → Prop) (x y : Action ε σ α) : Prop :=
  ∀ s t, R s t → (x s).1 = (y t).1 ∧ R (x s).2 (y t).2

namespace Relates

theorem pure (a : α) : Relates R (Action.pure a : Action ε σ α) (Action.pure a) := fun _ _ h => ⟨rfl, h⟩

theorem fail (e : ε) : Relates R (Action.fail e : Action ε σ α) (Action.fail e) := fun _ _ h => ⟨rfl, h⟩

theorem modify {f g : σ → σ} (h : ∀ s t, R s t → R (f s) (g t)) :
    Relates R (Action.modify f : Action ε σ Unit) (Action.modify g) := fun s t hst => ⟨rfl, h s t hst⟩

theorem bind {x y : Action ε σ α} {f g : α → Action ε σ β} (hx : Relates R x y) (hf : ∀ a, Relates R (f a) (g a)) :
    Relates R (x >>= f) (y >>= g) := by
  intro s t hst
  obtain ⟨hresult, hstates⟩ := hx s t hst
  rcases hs : x s with ⟨e | a, s'⟩ <;> rcases ht : y t with ⟨e' | a', t'⟩ <;> rw [hs, ht] at hresult hstates
  · rw [bind_of_error hs, bind_of_error ht, Except.error.inj hresult]
    exact ⟨rfl, hstates⟩
  · cases hresult
  · cases hresult
  · rw [bind_of_ok hs, bind_of_ok ht, Except.ok.inj hresult]
    exact hf a' s' t' hstates

/-- What is done may depend on the state in which it is started. -/
theorem read {f g : σ → Action ε σ α} (h : ∀ s t, R s t → Relates R (f s) (g t)) :
    Relates R (Action.get >>= f) (Action.get >>= g) := fun s t hst => h s t hst s t hst

end Relates

end Action

/-! ## Changes of a dictionary -/

namespace Dict

variable {α β : Type}

theorem get?_map (f : α → β) (d : Dict α) (name : String) :
    get? (d.map fun p => (p.1, f p.2)) name = (d.get? name).map f := by
  induction d with
  | nil => rfl
  | cons p d ih =>
      rw [List.map_cons, get?, get?, ih]
      split <;> rfl

theorem set_map (f : α → β) (d : Dict α) (name : String) (a : α) :
    (d.set name a).map (fun p => (p.1, f p.2)) = set (d.map fun p => (p.1, f p.2)) name (f a) := by
  induction d with
  | nil => rfl
  | cons p d ih =>
      rw [set, List.map_cons, set]
      split
      · rfl
      · rw [List.map_cons, ih]

theorem set_of_get? {d : Dict α} {name : String} {a : α} (h : d.get? name = some a) : d.set name a = d := by
  induction d with
  | nil => cases h
  | cons p d ih =>
      rw [get?] at h
      rw [set]
      split at h
      · rename_i hp
        rw [if_pos hp, ← hp, ← Option.some.inj h]
      · rename_i hp
        rw [if_neg hp, ih h]

theorem erase_set (d : Dict α) (name other : String) (a : α) :
    (d.set name a).erase other = if name = other then d.erase other else (d.erase other).set name a := by
  induction d with
  | nil => simp [set, erase]
  | cons p d ih =>
      obtain ⟨k, b⟩ := p
      by_cases hk : k = name
      · subst hk
        by_cases h : k = other <;> simp [set, erase, h]
      · by_cases ho : k = other
        · subst ho
          simp [set, erase, hk, ih, Ne.symm hk]
        · rw [set, if_neg hk, erase, if_neg ho, ih, erase, if_neg ho]
          split <;> simp [set, hk]

theorem erase_map (f : α → β) (d : Dict α) (name : String) :
    (d.erase name).map (fun p => (p.1, f p.2)) = erase (d.map fun p => (p.1, f p.2)) name := by
  induction d with
  | nil => rfl
  | cons p d ih =>
      rw [erase, List.map_cons, erase]
      split
      · exact ih
      · rw [List.map_cons, ih]

theorem names_erase (d : Dict α) (name : String) :
    (d.erase name).map Prod.fst = (d.map Prod.fst).filter (· ≠ name) := by
  induction d with
  | nil => rfl
  | cons p d ih =>
      rw [erase, List.map_cons, List.filter_cons]
      by_cases hp : p.1 = name <;> simp [hp, ih]

theorem has_iff {d : Dict α} {name : String} : d.has name = true ↔ name ∈ d.map Prod.fst := by
  induction d with
  | nil => simp [has, get?]
  | cons p d ih =>
      rw [has, get?, List.map_cons, List.mem_cons]
      split
      · rename_i hp
        simp [hp]
      · rename_i hp
        exact ih.trans (or_iff_right (Ne.symm hp)).symm

theorem names_set (d : Dict α) (name : String) (a : α) :
    (d.set name a).map Prod.fst = if d.has name then d.map Prod.fst else d.map Prod.fst ++ [name] := by
  induction d with
  | nil => rfl
  | cons p d ih =>
      rw [set, has, get?]
      split
      · rename_i hp
        simp [hp]
      · rw [List.map_cons, ih, has]
        split <;> rfl

end Dict

namespace Script

/-! ## Machines without the files of their modules -/

namespace Machine

/-- The machine without the variables with the files of its modules. -/
def withoutFiles (m : Machine) : Machine :=
  { m with modules := m.modules.map fun p => (p.1, Dict.erase p.2 fileVariable) }

/-- The modules that are loaded. -/
def loaded (m : Machine) : List String := m.modules.map Prod.fst

/-- The machines have the modules `loaded` and differ at most in the files of these. -/
structure Alike (loaded : List String) (m m' : Machine) : Prop where
  same : m.withoutFiles = m'.withoutFiles
  loaded : m.loaded = loaded

variable {names : List String} {m m' : Machine} {module name : String}

theorem loaded_withoutFiles (m : Machine) : m.withoutFiles.loaded = m.loaded := by
  simp [loaded, withoutFiles, Function.comp_def]

theorem get?_withoutFiles (m : Machine) (module : String) :
    m.withoutFiles.modules.get? module = (m.modules.get? module).map (Dict.erase · fileVariable) :=
  Dict.get?_map (Dict.erase · fileVariable) m.modules module

theorem bind_of_some {m : Machine} {module name : String} {v : Value} {scope : Scope}
    (h : m.modules.get? module = some scope) :
    m.bind module name v = { m with modules := m.modules.set module (Dict.set scope name v) } := by
  simp only [bind, h]

theorem bind_of_none {m : Machine} {module name : String} {v : Value} (h : m.modules.get? module = none) :
    m.bind module name v = m := by
  simp only [bind, h]

theorem withoutFiles_bind (m : Machine) (module name : String) (v : Value) :
    (m.bind module name v).withoutFiles =
      if name = fileVariable then m.withoutFiles else m.withoutFiles.bind module name v := by
  cases hscope : m.modules.get? module with
  | none =>
      have hnone : m.withoutFiles.modules.get? module = none := by rw [get?_withoutFiles, hscope]; rfl
      rw [bind_of_none hscope, bind_of_none hnone, ite_self]
  | some scope =>
      have hsome : m.withoutFiles.modules.get? module = some (Dict.erase scope fileVariable) := by
        rw [get?_withoutFiles, hscope]
        rfl
      have hset : (m.modules.set module (Dict.set scope name v)).map (fun p => (p.1, Dict.erase p.2 fileVariable)) =
          m.withoutFiles.modules.set module (Dict.erase (Dict.set scope name v) fileVariable) :=
        Dict.set_map (Dict.erase · fileVariable) m.modules module (Dict.set scope name v)
      rw [bind_of_some hscope, withoutFiles, hset, bind_of_some hsome, Dict.erase_set]
      split
      · rw [Dict.set_of_get? hsome]
        rfl
      · rfl

theorem loaded_bind (m : Machine) (module name : String) (v : Value) : (m.bind module name v).loaded = m.loaded := by
  cases hscope : m.modules.get? module with
  | none => rw [bind_of_none hscope]
  | some scope =>
      have hhas : m.modules.has module = true := by rw [Dict.has, hscope]; rfl
      rw [bind_of_some hscope, loaded, Dict.names_set, if_pos hhas]
      rfl

theorem started_bind (m : Machine) (module name : String) (v : Value) : (m.bind module name v).started = m.started := by
  rw [bind]
  split <;> rfl

namespace Alike

theorem channels (h : Alike names m m') : m.channels = m'.channels := by
  have hsame := congrArg Machine.channels h.same
  exact hsame

theorem shown (h : Alike names m m') : m.shown = m'.shown := by
  have hsame := congrArg Machine.shown h.same
  exact hsame

theorem loaded_right (h : Alike names m m') : m'.loaded = names := by
  rw [← loaded_withoutFiles, ← h.same, loaded_withoutFiles, h.loaded]

theorem bind (h : Alike names m m') (v : Value) : Alike names (m.bind module name v) (m'.bind module name v) where
  same := by rw [withoutFiles_bind, withoutFiles_bind, h.same]
  loaded := (loaded_bind m module name v).trans h.loaded

theorem get?_eq (h : Alike names m m') (hname : name ≠ fileVariable) :
    (m.modules.get? module).bind (·.get? name) = (m'.modules.get? module).bind (·.get? name) := by
  have hget : ∀ m : Machine,
      (m.modules.get? module).bind (·.get? name) = (m.withoutFiles.modules.get? module).bind (·.get? name) := by
    intro m
    rw [get?_withoutFiles]
    cases m.modules.get? module with
    | none => rfl
    | some scope => simp [Dict.get?_erase, Ne.symm hname]
  rw [hget m, hget m', h.same]

theorem scope_get? (h : Alike names m m') (hname : name ≠ fileVariable) :
    (m.scope module).get? name = (m'.scope module).get? name := by
  have hscope : ∀ m : Machine, (m.scope module).get? name = (m.modules.get? module).bind (·.get? name) := by
    intro m
    rw [scope]
    cases m.modules.get? module <;> rfl
  rw [hscope m, hscope m', h.get?_eq hname]

end Alike

theorem has_iff : m.modules.has name = true ↔ name ∈ m.loaded := Dict.has_iff

theorem has_eq_false_iff : m.modules.has name = false ↔ name ∉ m.loaded := by
  rw [← Bool.not_eq_true, has_iff]

theorem withoutFiles_enter {file : String} (h : name ∉ m.loaded) :
    (m.enter name file).withoutFiles =
      { m.withoutFiles with modules := m.withoutFiles.modules.set name [("__name__", .str name)] } := by
  have hfresh : Dict.erase (freshScope name file) fileVariable = [("__name__", .str name)] := by
    simp [freshScope, fileVariable, Dict.erase]
  have hset := Dict.set_map (Dict.erase · fileVariable) m.modules name (freshScope name file)
  rw [hfresh] at hset
  rw [enter, has_eq_false_iff.mpr h]
  exact congrArg (fun modules => { m.withoutFiles with modules }) hset

theorem loaded_enter {file : String} (h : name ∉ m.loaded) : (m.enter name file).loaded = m.loaded ++ [name] := by
  have hhas := has_eq_false_iff.mpr h
  rw [enter, hhas]
  exact (Dict.names_set ..).trans (if_neg (by simp [hhas]))

theorem loaded_start {file : String} (h : name ∉ m.loaded) :
    ((m.enter name file).noteStart name).loaded = m.loaded ++ [name] :=
  loaded_enter h

theorem enter_of_mem {file : String} (h : name ∈ m.loaded) : m.enter name file = m := by
  rw [enter, if_pos (has_iff.mpr h)]

theorem started_enter (m : Machine) (name file : String) : (m.enter name file).started = m.started := by
  rw [enter]
  split <;> rfl

theorem loaded_remove (m : Machine) (name : String) : (m.remove name).loaded = m.loaded.filter (· ≠ name) :=
  Dict.names_erase m.modules name

namespace Alike

/-- A module may be entered with another file. -/
theorem enter (h : Alike names m m') (hname : name ∉ names) (file file' : String) :
    Alike (names ++ [name]) ((m.enter name file).noteStart name) ((m'.enter name file').noteStart name) where
  same := by
    have hsame : (m.enter name file).withoutFiles = (m'.enter name file').withoutFiles := by
      rw [withoutFiles_enter (h.loaded.symm ▸ hname), withoutFiles_enter (h.loaded_right.symm ▸ hname), h.same]
    exact congrArg (Machine.noteStart name) hsame
  loaded := (loaded_enter (h.loaded.symm ▸ hname)).trans (congrArg (· ++ [name]) h.loaded)

theorem remove (h : Alike names m m') (name : String) :
    Alike (names.filter (· ≠ name)) (m.remove name) (m'.remove name) where
  same := by
    have hremove : ∀ m : Machine, (m.remove name).withoutFiles = m.withoutFiles.remove name := fun m =>
      congrArg (fun modules => { m with modules })
        (Dict.erase_map (Dict.erase · fileVariable) m.modules name)
    rw [hremove, hremove, h.same]
  loaded := (loaded_remove m name).trans (congrArg _ h.loaded)

end Alike

end Machine

/-! ## Functions that every module can call -/

section

open Launcher.Action (Relates)

variable {names : List String} {R : Machine → Machine → Prop}

theorem relates_ofExcept {α : Type} (x : Except TargetError α) : Relates R (Run.ofExcept x) (Run.ofExcept x) := by
  cases x with
  | ok a => exact .pure a
  | error e => exact .fail _

theorem relates_value {α β : Type} {x : Except TargetError α} {f g : α → Run β}
    (h : ∀ a, x = .ok a → Relates R (f a) (g a)) : Relates R (Run.ofExcept x >>= f) (Run.ofExcept x >>= g) := by
  cases x with
  | ok a => exact h a rfl
  | error e => exact fun _ _ hst => ⟨rfl, hst⟩

/-- A change of something else than the modules. -/
theorem relates_change {f : Machine → Machine} (hmodules : ∀ m, (f m).modules = m.modules)
    (hf : ∀ m, (f m).withoutFiles = f m.withoutFiles) :
    Relates (Machine.Alike names) (Action.modify f : Run Unit) (Action.modify f) :=
  .modify fun m m' h =>
    ⟨by rw [hf, hf, h.same], by rw [Machine.loaded, hmodules]; exact h.loaded⟩

theorem relates_transfer {α : Type} (x : Streams.Transfer α) :
    Relates (Machine.Alike names) (Run.transfer x) (Run.transfer x) := by
  intro m m' h
  have hstreams : m'.channels.streams = m.channels.streams := congrArg Channels.streams h.channels.symm
  let change (m : Machine) : Machine := { m with channels.streams := (x m'.channels.streams).2 }
  have hchange : Relates (Machine.Alike names) (Action.modify change : Run Unit) (Action.modify change) :=
    relates_change (fun _ => rfl) fun _ => rfl
  unfold Run.transfer
  dsimp only
  rw [← hstreams]
  exact ⟨rfl, (hchange m m' h).2⟩

namespace Call

theorem oneArg_relates (f : Builtin) (args : List Value) {k : Value → Run Value} (h : ∀ v, Relates R (k v) (k v)) :
    Relates R (oneArg f args k) (oneArg f args k) := by
  unfold oneArg
  split
  · exact h _
  · exact .fail _

theorem optionalArg_relates (f : Builtin) (args : List Value) {k : Option Value → Run Value}
    (h : ∀ v, Relates R (k v) (k v)) : Relates R (optionalArg f args k) (optionalArg f args k) := by
  unfold optionalArg
  split
  · exact h _
  · exact h _
  · exact .fail _

theorem oneOrTwoArgs_relates (f : Builtin) (args : List Value) {k : Value → Option Value → Run Value}
    (h : ∀ v w, Relates R (k v w) (k v w)) : Relates R (oneOrTwoArgs f args k) (oneOrTwoArgs f args k) := by
  unfold oneOrTwoArgs
  split
  · exact h _ _
  · exact h _ _
  · exact .fail _

theorem exit_relates (v : Option Value) : Relates (Machine.Alike names) (exit v) (exit v) := by
  unfold exit
  split
  · exact .fail _
  · exact .fail _
  · exact .fail _
  · exact .fail _
  · exact (relates_transfer _).bind fun _ => .fail _

theorem warn_relates (site : CallSite) (category message : String) :
    Relates (Machine.Alike names) (warn site category message) (warn site category message) := by
  refine .read fun m m' h => ?_
  have hsame : m'.channels.filters = m.channels.filters := congrArg Channels.filters h.channels.symm
  rw [hsame, h.shown]
  dsimp only
  split
  · exact .pure _
  · exact .fail _
  · split
    · exact relates_transfer _
    · split
      · exact .pure _
      · refine .bind ?_ fun _ => relates_transfer _
        exact relates_change (fun _ => rfl) fun _ => rfl

theorem addFilter_relates (spec : String) : Relates (Machine.Alike names) (addFilter spec) (addFilter spec) := by
  unfold addFilter
  split
  · exact relates_change (fun _ => rfl) fun _ => rfl
  · exact .fail _

theorem call_relates (site : CallSite) (f : Builtin) (args : List Value) :
    Relates (Machine.Alike names) (call site f args) (call site f args) := by
  cases f with
  | print => exact (relates_transfer _).bind fun _ => .pure _
  | str => exact optionalArg_relates _ _ fun _ => .pure _
  | repr => exact oneArg_relates _ _ fun _ => .pure _
  | len => exact oneArg_relates _ _ fun _ => relates_ofExcept _
  | int => exact optionalArg_relates _ _ fun _ => relates_ofExcept _
  | exit => exact optionalArg_relates _ _ exit_relates
  | warn => exact oneOrTwoArgs_relates _ _ fun _ _ => (warn_relates _ _ _).bind fun _ => .pure _
  | filterWarnings => exact oneOrTwoArgs_relates _ _ fun _ _ => (addFilter_relates _).bind fun _ => .pure _

end Call

end

/-! ## Runs of quiet code -/

namespace Exec

open Launcher.Action (Relates)

variable {env env' : Surroundings} {run run' : Runner} {code : Code} {module : String} {names : List String}

theorem relates_readName (hargv : env.argv = env'.argv) {name : String} (hname : name ≠ fileVariable) {β : Type}
    {k : Value → Run β} (hk : ∀ v, Relates (Machine.Alike names) (k v) (k v)) :
    Relates (Machine.Alike names) (Action.get >>= fun m => Run.ofExcept (loadName env module name m) >>= k)
      (Action.get >>= fun m => Run.ofExcept (loadName env' module name m) >>= k) := by
  refine .read fun m m' h => ?_
  have hload : loadName env module name m = loadName env' module name m' := by
    rw [loadName, loadName, h.scope_get? hname, hargv]
  rw [hload]
  exact relates_value fun v _ => hk v

theorem relates_readAttr {object : Value} {name : String} (hname : name ≠ fileVariable) {β : Type}
    {k : Value → Run β} (hk : ∀ v, Relates (Machine.Alike names) (k v) (k v)) :
    Relates (Machine.Alike names) (Action.get >>= fun m => Run.ofExcept (loadAttr object name m) >>= k)
      (Action.get >>= fun m => Run.ofExcept (loadAttr object name m) >>= k) := by
  refine .read fun m m' h => ?_
  have hload : loadAttr object name m = loadAttr object name m' := by
    cases object with
    | module module => rw [loadAttr, loadAttr, h.get?_eq hname]
    | _ => rfl
  rw [hload]
  exact relates_value fun v _ => hk v

theorem nameAt_eq_ok {k : Nat} {name : String} : nameAt code k = .ok name ↔ code.names[k]? = some name := by
  rw [nameAt]
  split <;> simp_all

theorem step_relates {s : Step} (hquiet : s.instr.Quiet code.names) (hargv : env.argv = env'.argv)
    (stack : List Value) :
    Relates (Machine.Alike names) (step env run code module s stack) (step env' run' code module s stack) := by
  obtain ⟨i, line⟩ := s
  cases i with
  | loadConst k => exact relates_value fun _ _ => .pure _
  | loadName k =>
      refine relates_value fun name hname => relates_readName hargv ?_ fun _ => .pure _
      rintro rfl
      exact hquiet (nameAt_eq_ok.mp hname)
  | storeName k =>
      exact relates_value fun ⟨v, stack⟩ _ => relates_value fun name _ =>
        (Relates.modify fun m m' h => h.bind v).bind fun _ => .pure _
  | loadAttr k =>
      refine relates_value fun ⟨object, stack⟩ _ => relates_value fun name hname =>
        relates_readAttr ?_ fun _ => .pure _
      rintro rfl
      exact hquiet (nameAt_eq_ok.mp hname)
  | binary op =>
      exact relates_value fun ⟨b, stack⟩ _ => relates_value fun ⟨a, stack⟩ _ =>
        relates_value fun _ _ => .pure _
  | compare op =>
      exact relates_value fun ⟨b, stack⟩ _ => relates_value fun ⟨a, stack⟩ _ =>
        relates_value fun _ _ => .pure _
  | negate => exact relates_value fun ⟨a, stack⟩ _ => relates_value fun _ _ => .pure _
  | not => exact relates_value fun ⟨a, stack⟩ _ => .pure _
  | call n =>
      refine relates_value fun ⟨args, stack⟩ _ => relates_value fun ⟨callee, stack⟩ _ => ?_
      cases callee with
      | builtin f => exact (Call.call_relates _ f args).bind fun _ => .pure _
      | _ => exact .fail _
  | subscript =>
      exact relates_value fun ⟨b, stack⟩ _ => relates_value fun ⟨a, stack⟩ _ =>
        relates_value fun _ _ => .pure _
  | buildList n => exact relates_value fun ⟨items, stack⟩ _ => .pure _
  | importName k => exact hquiet.elim
  | pop => exact relates_value fun ⟨_, stack⟩ _ => .pure _
  | printExpr =>
      refine relates_value fun ⟨v, stack⟩ _ => ?_
      dsimp only
      split
      · exact (relates_transfer _).bind fun _ => .pure _
      · exact .pure _
  | jumpIfTrue target => exact relates_value fun ⟨v, stack⟩ _ => .pure _
  | jumpIfFalseOrPop target => exact relates_value fun ⟨v, rest⟩ _ => .pure _
  | jumpIfTrueOrPop target => exact relates_value fun ⟨v, rest⟩ _ => .pure _
  | raise =>
      exact relates_value fun ⟨message, stack⟩ _ => relates_value fun ⟨kind, _⟩ _ => .fail _
  | assertFail => exact relates_value fun ⟨message, stack⟩ _ => .fail _

theorem runFrom_relates (hquiet : code.Quiet) (hargv : env.argv = env'.argv) (fuel pos : Nat)
    (stack : List Value) :
    Relates (Machine.Alike names) (runFrom env fuel code module pos stack)
      (runFrom env' fuel code module pos stack) := by
  induction fuel generalizing pos stack with
  | zero => exact fun _ _ h => ⟨rfl, h⟩
  | succ fuel ih =>
      intro m m' h
      cases hs : code.body[pos]? with
      | none =>
          rw [run_of_none hs, run_of_none hs]
          exact ⟨rfl, h⟩
      | some s =>
          have hstep : Relates (Machine.Alike names) (step env (nested env fuel) code module s stack)
              (step env' (nested env' fuel) code module s stack) :=
            step_relates (hquiet s (List.mem_of_getElem? hs)) hargv stack
          obtain ⟨hresult, halike⟩ := hstep m m' h
          rcases hx : step env (nested env fuel) code module s stack m with ⟨e | next, x⟩ <;>
            rcases hy : step env' (nested env' fuel) code module s stack m' with ⟨e' | next', y⟩ <;>
            rw [hx, hy] at hresult halike
          · rw [run_of_error hs hx, run_of_error hs hy, Except.error.inj hresult]
            exact ⟨rfl, halike⟩
          · cases hresult
          · cases hresult
          · rw [run_of_ok hs hx, run_of_ok hs hy, Except.ok.inj hresult]
            exact ih _ _ x y halike

/-! ## Imports of such code -/

/-- The package of a module that was loaded gets a variable for it. -/
def announce (name : String) : Run Unit :=
  match splitLast? name with
  | some (parent, child) => Action.modify (Machine.bind parent child (.module name))
  | none => Action.pure ()

variable {name : String} {found found' : LocatedModule} {m m' : Machine}

theorem importOne_of_loaded (h : m.modules.has name = true) : importOne env run name m = (.ok (), m) := by
  simp only [importOne, Bind.bind, Action.bind, Action.get_apply, h]
  rfl

theorem importOne_of_error {e : ImportError} (h : m.modules.has name = false) (hfind : env.find name = .error e) :
    importOne env run name m = (.error (.raised (importFailure e)), m) := by
  simp [importOne, Bind.bind, Action.bind, h, hfind, Run.raise]

theorem importOne_of_badCode {e : TargetError} (h : m.modules.has name = false) (hfind : env.find name = .ok found)
    (hcode : codeOf env found = .error e) : importOne env run name m = (.error (.raised e), m) := by
  simp [importOne, Bind.bind, Action.bind, h, hfind, hcode, Run.ofExcept, Run.raise]

theorem importOne_of_code (h : m.modules.has name = false) (hfind : env.find name = .ok found)
    (hcode : codeOf env found = .ok code) :
    importOne env run name m =
      ((run code name).onFail (Machine.remove name) >>= fun _ => announce name)
        ((m.enter name found.origin).noteStart name) := by
  simp only [importOne, Bind.bind, Action.bind, Action.get_apply, h, hfind, hcode, Run.ofExcept]
  rfl

theorem announce_relates (name : String) : Relates (Machine.Alike names) (announce name) (announce name) := by
  unfold announce
  split
  · exact .modify fun _ _ h => h.bind _
  · exact .pure _

/-- Two surroundings give code that is the same, and cannot tell where it is, for a name. -/
structure SameCode (env env' : Surroundings) (name : String) : Prop where
  sameCode : ∃ found found' code, env.find name = .ok found ∧ env'.find name = .ok found' ∧
    codeOf env found = .ok code ∧ codeOf env' found' = .ok code ∧ code.Quiet

theorem importOne_alike (hargv : env.argv = env'.argv) (hname : name ∈ names ∨ SameCode env env' name) (fuel : Nat)
    (h : Machine.Alike names m m') :
    (importOne env (nested env fuel) name m).1 = (importOne env' (nested env' fuel) name m').1 ∧
      ∃ names', Machine.Alike names' (importOne env (nested env fuel) name m).2
        (importOne env' (nested env' fuel) name m').2 ∧
        ((importOne env (nested env fuel) name m).1 = .ok () → ∀ x, x ∈ names' ↔ x ∈ names ∨ x = name) := by
  by_cases hin : name ∈ names
  · have hhas : m.modules.has name = true := Machine.has_iff.mpr (h.loaded.symm ▸ hin)
    have hhas' : m'.modules.has name = true := Machine.has_iff.mpr (h.loaded_right.symm ▸ hin)
    rw [importOne_of_loaded hhas, importOne_of_loaded hhas']
    exact ⟨rfl, names, h, fun _ x => ⟨.inl, fun hx => hx.elim id fun hx => hx ▸ hin⟩⟩
  · obtain ⟨found, found', code, hfind, hfind', hcode, hcode', hquiet⟩ := (hname.resolve_left hin).sameCode
    have hhas : m.modules.has name = false := Machine.has_eq_false_iff.mpr (h.loaded.symm ▸ hin)
    have hhas' : m'.modules.has name = false := Machine.has_eq_false_iff.mpr (h.loaded_right.symm ▸ hin)
    rw [importOne_of_code hhas hfind hcode, importOne_of_code hhas' hfind' hcode']
    have henter := h.enter hin found.origin found'.origin
    have hrun : Relates (Machine.Alike (names ++ [name])) (nested env fuel code name) (nested env' fuel code name) :=
      runFrom_relates hquiet hargv fuel 0 []
    obtain ⟨hresult, halike⟩ := hrun _ _ henter
    rcases hx : nested env fuel code name ((m.enter name found.origin).noteStart name) with ⟨e | _, x⟩ <;>
      rcases hy : nested env' fuel code name ((m'.enter name found'.origin).noteStart name) with ⟨e' | _, y⟩ <;>
      rw [hx, hy] at hresult halike
    · rw [Action.bind_of_error (Action.onFail_of_error hx), Action.bind_of_error (Action.onFail_of_error hy)]
      exact ⟨hresult, _, halike.remove name, nofun⟩
    · cases hresult
    · cases hresult
    · rw [Action.bind_of_ok (Action.onFail_of_ok hx), Action.bind_of_ok (Action.onFail_of_ok hy)]
      obtain ⟨hresult, halike⟩ := announce_relates name x y halike
      exact ⟨hresult, _, halike, fun _ x => by rw [List.mem_append, List.mem_singleton]⟩

/-- A chain of imports ends in the same way in both surroundings. -/
theorem importAll_alike (hargv : env.argv = env'.argv) {ps : List String}
    (hps : ∀ p ∈ ps, p ∈ names ∨ SameCode env env' p) (fuel : Nat) (h : Machine.Alike names m m') :
    (importAll env (nested env fuel) ps m).1 = (importAll env' (nested env' fuel) ps m').1 ∧
      ∃ names', Machine.Alike names' (importAll env (nested env fuel) ps m).2
        (importAll env' (nested env' fuel) ps m').2 := by
  induction ps generalizing names m m' with
  | nil => exact ⟨rfl, names, h⟩
  | cons p ps ih =>
      obtain ⟨hp, hps⟩ := List.forall_mem_cons.mp hps
      obtain ⟨hresult, names', halike, hnames'⟩ := importOne_alike hargv hp fuel h
      rw [importAll, importAll]
      rcases hx : importOne env (nested env fuel) p m with ⟨e | _, x⟩ <;>
        rcases hy : importOne env' (nested env' fuel) p m' with ⟨e' | _, y⟩ <;>
        rw [hx, hy] at hresult halike
      · rw [Action.bind_of_error hx, Action.bind_of_error hy]
        exact ⟨hresult, names', halike⟩
      · cases hresult
      · cases hresult
      · rw [Action.bind_of_ok hx, Action.bind_of_ok hy]
        rw [hx] at hnames'
        exact ih (fun q hq => (hps q hq).imp_left fun hq => (hnames' rfl q).mpr (.inl hq)) halike

/-- An import that succeeds has loaded the module, or finds it loaded. -/
theorem importOne_eq_ok {fuel : Nat} (hquiet : ∀ found code, env.find name = .ok found →
      codeOf env found = .ok code → code.Quiet) (h : importOne env (nested env fuel) name m = (.ok (), m')) :
    (name ∈ m.loaded ∨ ∃ found code, env.find name = .ok found ∧ codeOf env found = .ok code) ∧
      ∀ x, x ∈ m'.loaded ↔ x ∈ m.loaded ∨ x = name := by
  have hname : name ∈ m.loaded ∨ SameCode env env name := by
    by_cases hin : name ∈ m.loaded
    · exact .inl hin
    · have hhas := Machine.has_eq_false_iff.mpr hin
      cases hfind : env.find name with
      | error e => cases (importOne_of_error hhas hfind).symm.trans h
      | ok found =>
          cases hcode : codeOf env found with
          | error e => cases (importOne_of_badCode hhas hfind hcode).symm.trans h
          | ok code => exact .inr ⟨found, found, code, hfind, hfind, hcode, hcode, hquiet found code hfind hcode⟩
  obtain ⟨-, names', halike, hnames'⟩ := importOne_alike rfl hname fuel ⟨rfl, rfl⟩
  rw [h] at halike hnames'
  refine ⟨hname.imp_right fun hsame => ?_, fun x => halike.loaded ▸ hnames' rfl x⟩
  obtain ⟨found, _, code, hfind, _, hcode, _, _⟩ := hsame.sameCode
  exact ⟨found, code, hfind, hcode⟩

/-- A chain of imports that succeeds finds code for every name on the way that is not loaded. -/
theorem importAll_eq_ok {ps : List String} {fuel : Nat} (hquiet : ∀ p ∈ ps, ∀ found code, env.find p = .ok found →
      codeOf env found = .ok code → code.Quiet) (h : importAll env (nested env fuel) ps m = (.ok (), m')) :
    ∀ p ∈ ps, p ∈ m.loaded ∨ ∃ found code, env.find p = .ok found ∧ codeOf env found = .ok code := by
  induction ps generalizing m with
  | nil => nofun
  | cons p ps ih =>
      obtain ⟨hp, hps⟩ := List.forall_mem_cons.mp hquiet
      obtain ⟨_, x, hx, h⟩ := Action.bind_eq_ok.mp h
      obtain ⟨hcode, hloaded⟩ := importOne_eq_ok hp hx
      refine List.forall_mem_cons.mpr ⟨hcode, fun q hq => ?_⟩
      rcases ih hps h q hq with hin | hfound
      · rcases (hloaded q).mp hin with hin | rfl
        · exact .inl hin
        · exact hcode
      · exact .inr hfound

end Exec

end Script

end Launcher
