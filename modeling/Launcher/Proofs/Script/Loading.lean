import Launcher.Proofs.Script.Changes

/-!
# Conditions that imports keep

A condition on the names in the table and on those whose code was started holds throughout an execution when it
survives the start of a module that is not loaded, for only a failure takes a module off again, and after a failure
nothing is executed any more.
-/

namespace Launcher.Script

open Launcher.Action (Keeps)

variable {P Q : List String → List String → Prop}

/-- The condition holds of the names in the table and of those whose code was started. -/
def Machine.Has (P : List String → List String → Prop) (m : Machine) : Prop := P m.loaded m.started

/-- The first condition survives the start of a module, and what remains of it after a failure survives its removal. -/
structure Survives (P Q : List String → List String → Prop) : Prop where
  start : ∀ {loaded started name}, P loaded started → name ∉ loaded → P (loaded ++ [name]) (name :: started)
  failure : ∀ {loaded started}, P loaded started → Q loaded started
  removal : ∀ {loaded started} name, Q loaded started → Q (loaded.filter (· ≠ name)) started

namespace Machine.Has

variable {m m' : Machine}

theorem of_eq (h : m.Has P) (hloaded : m'.loaded = m.loaded) (hstarted : m'.started = m.started) : m'.Has P := by
  rw [Has, hloaded, hstarted]
  exact h

theorem bind (h : m.Has P) (module name : String) (v : Value) : (m.bind module name v).Has P :=
  h.of_eq (loaded_bind m module name v) (started_bind m module name v)

theorem start (h : m.Has P) (hs : Survives P Q) {name : String} (hname : name ∉ m.loaded) (file : String) :
    ((m.enter name file).noteStart name).Has P := by
  have hstarted : ((m.enter name file).noteStart name).started = name :: m.started :=
    congrArg (name :: ·) (started_enter m name file)
  rw [Has, loaded_start hname, hstarted]
  exact hs.start h hname

theorem remove (h : m.Has Q) (hs : Survives P Q) (name : String) : (m.remove name).Has Q := by
  rw [Has, loaded_remove]
  exact hs.removal name h

end Machine.Has

theorem Machine.Permits.sameNames (module : String) :
    Machine.Permits (fun m m' => m'.loaded = m.loaded ∧ m'.started = m.started) module where
  aside := fun hmodules hstarted _ => ⟨congrArg (List.map Prod.fst) hmodules, hstarted⟩
  warn := fun site category message m =>
    (Call.warn_aside site category message m).imp_left (congrArg (List.map Prod.fst))
  bind := fun m name v => ⟨loaded_bind m module name v, started_bind m module name v⟩
  trans := fun h h' => ⟨h'.1.trans h.1, h'.2.trans h.2⟩

namespace Exec

variable {env : Surroundings} {run : Runner} {code : Code} {module name : String}

theorem announce_has {m : Machine} (h : m.Has P) (name : String) : (announce name m).2.Has P := by
  obtain ⟨hloaded, hstarted⟩ := announce_moves Machine.Permits.sameNames name m
  exact h.of_eq hloaded hstarted

theorem step_sameNames {s : Step} (hs : ∀ k, s.instr ≠ .importName k) (stack : List Value) (m : Machine) :
    (step env run code module s stack m).2.loaded = m.loaded ∧
      (step env run code module s stack m).2.started = m.started :=
  step_moves_at (.sameNames module) (fun k _ hk _ => absurd hk (hs k)) stack

theorem importOne_keeps (hs : Survives P Q)
    (hrun : ∀ code module, Keeps (Machine.Has P) (Machine.Has Q) (run code module))
    (name : String) : Keeps (Machine.Has P) (Machine.Has Q) (importOne env run name) := by
  intro m hm
  have hcases := importOne_cases env run name m
  generalize importOne env run name m = r at hcases
  cases hcases with
  | loaded _ => exact hm
  | refused _ _ => exact hs.failure hm
  | @ends found code x hname _ _ hx =>
      exact announce_has ((hrun code name).of_ok (hm.start hs hname found.origin) hx) name
  | @fails found code x _ hname _ _ hx =>
      exact Machine.Has.remove ((hrun code name).of_error (hm.start hs hname found.origin) hx) hs name

theorem importAll_keeps (hs : Survives P Q)
    (hrun : ∀ code module, Keeps (Machine.Has P) (Machine.Has Q) (run code module))
    (names : List String) : Keeps (Machine.Has P) (Machine.Has Q) (importAll env run names) := by
  induction names with
  | nil => exact .pure ()
  | cons name names ih => exact (importOne_keeps hs hrun name).bind fun _ => ih

theorem step_keeps (hs : Survives P Q)
    (hrun : ∀ code module, Keeps (Machine.Has P) (Machine.Has Q) (run code module))
    (s : Step) (stack : List Value) : Keeps (Machine.Has P) (Machine.Has Q) (step env run code module s stack) := by
  have hfailure : ∀ m : Machine, m.Has P → m.Has Q := fun _ => hs.failure
  obtain ⟨i, line⟩ := s
  by_cases himport : ∃ k, i = .importName k
  · obtain ⟨k, rfl⟩ := himport
    cases hname : nameAt code k with
    | error e =>
        simp only [step, hname]
        exact .fail hfailure _
    | ok name =>
        rw [step_importName (nameAt_eq_ok.mp hname)]
        refine (importAll_keeps hs hrun _).bind fun _ => ?_
        exact Keeps.bind (.modify fun m hm => hm.bind _ _ _) fun _ => .pure _
  · intro m hm
    have hothers : ∀ k, (Step.mk i line).instr ≠ .importName k := fun k hk => himport ⟨k, hk⟩
    obtain ⟨hloaded, hstarted⟩ := @step_sameNames env run code module ⟨i, line⟩ hothers stack m
    rcases hx : step env run code module ⟨i, line⟩ stack m with ⟨e | next, x⟩ <;> rw [hx] at hloaded hstarted
    · exact hfailure x (hm.of_eq hloaded hstarted)
    · exact hm.of_eq hloaded hstarted

/-- An execution keeps the first condition, and where it fails the second holds. -/
theorem runFrom_keeps (hs : Survives P Q) (fuel : Nat) (code : Code) (module : String) (pos : Nat)
    (stack : List Value) : Keeps (Machine.Has P) (Machine.Has Q) (runFrom env fuel code module pos stack) := by
  induction fuel generalizing code module pos stack with
  | zero => exact .fail (fun _ hm => hs.failure hm) _
  | succ fuel ih =>
      intro m hm
      cases hstep : code.body[pos]? with
      | none =>
          rw [run_of_none hstep]
          exact hm
      | some s =>
          -- The code of imported modules has the steps that are left as well.
          have hnested : ∀ code module, Keeps (Machine.Has P) (Machine.Has Q) (nested env fuel code module) :=
            fun code module => ih code module 0 []
          have hkeeps := @step_keeps _ _ env (nested env fuel) code module hs hnested s stack
          rcases hx : step env (nested env fuel) code module s stack m with ⟨e | next, x⟩
          · rw [run_of_error hstep hx]
            exact hkeeps.of_error hm hx
          · rw [run_of_ok hstep hx]
            exact ih code module _ _ x (hkeeps.of_ok hm hx)

theorem nested_keeps (hs : Survives P Q) (fuel : Nat) (code : Code) (module : String) :
    Keeps (Machine.Has P) (Machine.Has Q) (nested env fuel code module) :=
  runFrom_keeps hs fuel code module 0 []

/-! ## Modules stay loaded unless something fails -/

/-- The modules are in the table. -/
def AllLoaded (names loaded _started : List String) : Prop := names ⊆ loaded

theorem survives_allLoaded (names : List String) : Survives (AllLoaded names) fun _ _ => True where
  start := fun hloaded _ => List.subset_append_of_subset_left _ hloaded
  failure := fun _ => trivial
  removal := fun _ _ => trivial

theorem importOne_loads {m m' : Machine} {fuel : Nat} (h : importOne env (nested env fuel) name m = (.ok (), m')) :
    name ∈ m'.loaded := by
  have hcases := importOne_cases env (nested env fuel) name m
  rw [h] at hcases
  generalize hr : ((.ok (), m') : Except Halt Unit × Machine) = r at hcases
  cases hcases with
  | loaded hin =>
      cases hr
      exact hin
  | refused _ _ => cases hr
  | @ends found code x hname _ _ hx =>
      cases hr
      have hstart : ((m.enter name found.origin).noteStart name).Has (AllLoaded [name]) := by
        intro n hn
        rw [List.mem_singleton.mp hn, Machine.loaded_start hname]
        exact List.mem_concat_self
      have hend := (nested_keeps (survives_allLoaded [name]) fuel code name).of_ok hstart hx
      exact announce_has hend name (List.mem_singleton_self name)
  | fails _ _ _ _ => cases hr

/-- Where a chain of imports ends well, all of its modules are loaded. -/
theorem importAll_loads {m m' : Machine} {fuel : Nat} {names : List String}
    (h : importAll env (nested env fuel) names m = (.ok (), m')) : ∀ name ∈ names, name ∈ m'.loaded := by
  induction names generalizing m with
  | nil => nofun
  | cons name names ih =>
      rw [importAll] at h
      obtain ⟨_, x, hx, h⟩ := Action.bind_eq_ok.mp h
      refine List.forall_mem_cons.mpr ⟨?_, ih h⟩
      have hstart : x.Has (AllLoaded [name]) := List.cons_subset.mpr ⟨importOne_loads hx, List.nil_subset _⟩
      have hs := survives_allLoaded [name]
      exact (importAll_keeps hs (nested_keeps hs fuel) names).of_ok hstart h (List.mem_singleton_self name)

end Exec

end Launcher.Script
