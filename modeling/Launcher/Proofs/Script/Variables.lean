import Launcher.Proofs.Names
import Launcher.Proofs.Script.StartedOnce

/-!
# Variables of other modules

Code binds variables in its own module. An import runs code in modules that were not loaded, and then binds in the
package of each of them the variable for it. So of the modules that are loaded already, apart from the one whose code
runs, only packages get new variables, each for a module in it that was loaded meanwhile.
-/

namespace Launcher.Script

open Launcher.Action (Moves)

namespace Machine

/-! ## Variables after a change -/

/-- The value of a variable of a module. -/
def valueOf? (m : Machine) (module name : String) : Option Value := (m.scope module).get? name

variable {m m' : Machine} {module name : String}

theorem valueOf?_of_modules (h : m'.modules = m.modules) (module name : String) :
    m'.valueOf? module name = m.valueOf? module name := by
  rw [valueOf?, scope, h]
  rfl

theorem valueOf?_of_get? {other : String} (h : m'.modules.get? other = m.modules.get? other) :
    m'.valueOf? other name = m.valueOf? other name := by
  rw [valueOf?, scope, h]
  rfl

theorem valueOf?_bind_of_ne {other : String} (h : other ≠ module) (m : Machine) (name : String) (v : Value)
    (x : String) : (m.bind module name v).valueOf? other x = m.valueOf? other x := by
  refine valueOf?_of_get? ?_
  cases hscope : m.modules.get? module with
  | none => rw [bind_of_none hscope]
  | some scope => rw [bind_of_some hscope, Dict.get?_set, if_neg h.symm]

theorem valueOf?_bind_cases (m : Machine) (module name : String) (v : Value) (other x : String) :
    (m.bind module name v).valueOf? other x = m.valueOf? other x ∨
      other = module ∧ x = name ∧ (m.bind module name v).valueOf? other x = some v := by
  by_cases hother : other = module
  · subst hother
    cases hscope : m.modules.get? other with
    | none => exact .inl (by rw [bind_of_none hscope])
    | some scope =>
        have hvalue : (m.bind other name v).valueOf? other x = if name = x then some v else m.valueOf? other x := by
          simp only [valueOf?, Machine.scope, bind_of_some hscope, hscope, Dict.get?_set, if_pos, Option.getD_some]
        rw [hvalue]
        split
        · rename_i hname
          exact .inr ⟨rfl, hname.symm, rfl⟩
        · exact .inl rfl
  · exact .inl (valueOf?_bind_of_ne hother m name v x)

theorem valueOf?_enter_of_ne {other : String} (h : other ≠ module) (m : Machine) (file x : String) :
    (m.enter module file).valueOf? other x = m.valueOf? other x := by
  refine valueOf?_of_get? ?_
  rw [enter]
  split
  · rfl
  · exact (Dict.get?_set _ _ _ _).trans (if_neg h.symm)

theorem valueOf?_remove_of_ne {other : String} (h : other ≠ module) (m : Machine) (x : String) :
    (m.remove module).valueOf? other x = m.valueOf? other x :=
  valueOf?_of_get? ((Dict.get?_erase _ _ _).trans (if_neg h.symm))

theorem mem_loaded_enter (m : Machine) (module file : String) : module ∈ (m.enter module file).loaded := by
  by_cases hin : module ∈ m.loaded
  · rwa [enter_of_mem hin]
  · rw [loaded_enter hin]
    exact List.mem_concat_self

/-! ## Machines that differ in the variables of some modules -/

/-- The variable names a module in the package, which was loaded since. -/
structure Announces (m m' : Machine) (package x : String) : Prop where
  value : m'.valueOf? package x = some (.module (package ++ "." ++ x))
  fresh : package ++ "." ++ x ∉ m.loaded
  loaded : package ++ "." ++ x ∈ m'.loaded

/-- All modules stay loaded, and apart from the variables that packages get for modules that were loaded since, the
modules that were loaded keep theirs, unless they are among the given ones. -/
structure Spares (own : List String) (m m' : Machine) : Prop where
  stays : m.loaded ⊆ m'.loaded
  values : ∀ other ∈ m.loaded, other ∉ own → ∀ x,
    m'.valueOf? other x = m.valueOf? other x ∨ Announces m m' other x

namespace Spares

variable {own own' : List String} {m'' : Machine}

theorem of_modules (own : List String) (h : m'.modules = m.modules) : Spares own m m' where
  stays := by rw [loaded, loaded, h]; exact List.Subset.refl _
  values := fun _ _ _ _ => .inl (valueOf?_of_modules h _ _)

theorem refl (own : List String) (m : Machine) : Spares own m m := of_modules own rfl

theorem trans (h : Spares own m m') (h' : Spares own m' m'') : Spares own m m'' where
  stays := List.Subset.trans h.stays h'.stays
  values := by
    intro other hin hown x
    obtain hsame' | hnew := h'.values other (h.stays hin) hown x
    · obtain hsame | hnew := h.values other hin hown x
      · exact .inl (hsame'.trans hsame)
      · exact .inr ⟨hsame'.trans hnew.value, hnew.fresh, h'.stays hnew.loaded⟩
    · exact .inr ⟨hnew.value, fun hold => hnew.fresh (h.stays hold), hnew.loaded⟩

/-- Only which of the modules that were loaded are excepted matters. -/
theorem mono (h : Spares own m m') (hown : ∀ other ∈ m.loaded, other ∈ own → other ∈ own') : Spares own' m m' where
  stays := h.stays
  values := fun other hin hother => h.values other hin fun h => hother (hown other hin h)

theorem bind (m : Machine) (module name : String) (v : Value) : Spares [module] m (m.bind module name v) where
  stays := by rw [loaded_bind]; exact List.Subset.refl _
  values := fun other _ hother x =>
    .inl (valueOf?_bind_of_ne (fun h => hother (List.mem_singleton.mpr h)) m name v x)

theorem permits (module : String) : Permits (Spares [module]) module where
  aside := fun hmodules _ _ => of_modules _ hmodules
  warn := fun site category message m => of_modules _ (Call.warn_aside site category message m).1
  bind := fun m name v => bind m module name v
  trans := trans

theorem enter (m : Machine) (name file : String) : Spares [] m (m.enter name file) := by
  by_cases hin : name ∈ m.loaded
  · rw [enter_of_mem hin]
    exact refl [] m
  · refine ⟨?_, fun other hother _ x => .inl (valueOf?_enter_of_ne ?_ m file x)⟩
    · rw [loaded_enter hin]
      exact List.subset_append_left _ _
    · exact fun h => hin (h ▸ hother)

theorem start (m : Machine) (name file : String) : Spares [] m ((m.enter name file).noteStart name) :=
  (enter m name file).trans (of_modules [] rfl)

/-- A module that was not loaded may do with its own variables what it likes. -/
theorem of_start {file : String} (hname : name ∉ m.loaded) (h : Spares [name] ((m.enter name file).noteStart name) m') :
    Spares [] m m' := by
  have hall : Spares [name] m m' := ((start m name file).mono fun _ _ => nofun).trans h
  refine hall.mono fun other hother hin => ?_
  exact absurd (List.mem_singleton.mp hin ▸ hother) hname

/-- A module that was not loaded may be taken off again. No variable has been bound for it meanwhile. -/
theorem remove_of_start {file : String} (hname : name ∉ m.loaded)
    (h : Spares [name] ((m.enter name file).noteStart name) m') : Spares [] m (m'.remove name) := by
  have hloaded : ((m.enter name file).noteStart name).loaded = m.loaded ++ [name] := loaded_start hname
  have hstays : ∀ other ∈ m'.loaded, other ≠ name → other ∈ (m'.remove name).loaded := by
    intro other hother hne
    rw [loaded_remove, List.mem_filter]
    exact ⟨hother, decide_eq_true hne⟩
  refine ⟨fun other hother => ?_, fun other hother _ x => ?_⟩
  · exact hstays other ((of_start hname h).stays hother) fun heq => hname (heq ▸ hother)
  · have hne : other ≠ name := fun heq => hname (heq ▸ hother)
    have hstarted : other ∈ ((m.enter name file).noteStart name).loaded := (start m name file).stays hother
    rw [valueOf?_remove_of_ne hne]
    obtain hsame | hnew := h.values other hstarted (fun hin => hne (List.mem_singleton.mp hin)) x
    · exact .inl (hsame.trans (valueOf?_enter_of_ne hne m file x))
    · have hfresh := hnew.fresh
      rw [hloaded, List.mem_append, List.mem_singleton, not_or] at hfresh
      exact .inr ⟨(valueOf?_remove_of_ne hne m' x).trans hnew.value, hfresh.1, hstays _ hnew.loaded hfresh.2⟩

end Spares

end Machine

open Machine (Announces Spares)

namespace Exec

variable {env : Surroundings} {run : Runner} {code : Code} {module name : String} {m m' : Machine}

/-! ## Imports -/

theorem eq_of_splitLast? {parent child : String} (h : splitLast? name = some (parent, child)) :
    name = parent ++ "." ++ child := by
  unfold splitLast? at h
  split at h
  · rename_i part front rest hparts
    obtain ⟨rfl, rfl⟩ := Prod.mk.inj (Option.some.inj h)
    have hsplit : name.splitOn "." = rest.reverse ++ [front] ++ [part] := by
      rw [← List.reverse_reverse (name.splitOn "."), hparts, List.reverse_cons, List.reverse_cons]
    have hne : rest.reverse ++ [front] ≠ [] := List.append_ne_nil_of_right_ne_nil _ (List.cons_ne_nil _ _)
    rw [← intercalate_concat hne, ← hsplit]
    exact (Text.intercalate_splitOn name '.').symm
  · cases h

/-- The only variable that may change is the one in its package for the module. -/
theorem valueOf?_announce (name : String) (m : Machine) (other x : String) :
    (announce name m).2.valueOf? other x = m.valueOf? other x ∨
      name = other ++ "." ++ x ∧ (announce name m).2.valueOf? other x = some (.module name) := by
  rw [announce]
  cases hsplit : splitLast? name with
  | none => exact .inl rfl
  | some parts =>
      obtain ⟨parent, child⟩ := parts
      refine (Machine.valueOf?_bind_cases m parent child (.module name) other x).imp_right ?_
      rintro ⟨rfl, rfl, hvalue⟩
      exact ⟨eq_of_splitLast? hsplit, hvalue⟩

theorem announce_spares (hname : name ∉ m.loaded) (hloaded : name ∈ m'.loaded) (h : Spares [] m m') :
    Spares [] m (announce name m').2 := by
  have hkept : (announce name m').2.loaded = m'.loaded := (announce_moves Machine.Permits.sameNames name m').1
  refine ⟨hkept.symm ▸ h.stays, fun other hother hown x => ?_⟩
  obtain hsame | ⟨rfl, hvalue⟩ := valueOf?_announce name m' other x
  · refine (h.values other hother hown x).imp hsame.trans fun hnew => ?_
    exact ⟨hsame.trans hnew.value, hnew.fresh, hkept.symm ▸ hnew.loaded⟩
  · exact .inr ⟨hvalue, hname, hkept.symm ▸ hloaded⟩

theorem importOne_spares (hrun : ∀ code module, Moves (Spares [module]) (run code module)) (name : String) :
    Moves (Spares []) (importOne env run name) := by
  intro m
  have hcases := importOne_cases env run name m
  generalize importOne env run name m = r at hcases
  cases hcases with
  | loaded _ => exact .refl [] m
  | refused _ _ => exact .refl [] m
  | @ends found code x hname _ _ hx =>
      have hran := (hrun code name).of_eq hx
      have hstarted : name ∈ ((m.enter name found.origin).noteStart name).loaded := by
        rw [Machine.loaded_start hname]
        exact List.mem_concat_self
      exact announce_spares hname (hran.stays hstarted) (.of_start hname hran)
  | @fails found code x _ hname _ _ hx => exact .remove_of_start hname ((hrun code name).of_eq hx)

theorem importAll_spares (hrun : ∀ code module, Moves (Spares [module]) (run code module)) (names : List String) :
    Moves (Spares []) (importAll env run names) := by
  induction names with
  | nil => exact fun m => .refl [] m
  | cons name names ih =>
      refine Moves.bind ?_ (importOne_spares hrun name) fun _ => ih
      exact fun _ _ _ => .trans

/-! ## Executions -/

theorem runFrom_spares (fuel : Nat) (code : Code) (module : String) (pos : Nat) (stack : List Value) :
    Moves (Spares [module]) (runFrom env fuel code module pos stack) := by
  refine runFrom_moves (fun module => Spares [module]) Spares.permits ?_ fuel code module pos stack
  intro fuel hrun module name m
  exact (importAll_spares hrun (throughNames name) m).mono fun _ _ => nofun

theorem nested_spares (fuel : Nat) (code : Code) (module : String) :
    Moves (Spares [module]) (nested env fuel code module) :=
  runFrom_spares fuel code module 0 []

theorem step_spares (fuel : Nat) (code : Code) (module : String) (s : Step) (stack : List Value) :
    Moves (Spares [module]) (step env (nested env fuel) code module s stack) := by
  refine step_moves (Spares.permits module) (fun name m => ?_) s stack
  exact (importAll_spares (nested_spares fuel) (throughNames name) m).mono fun _ _ => nofun

/-- The modules whose code an import starts were not loaded before. -/
theorem Proceeds.spares {a b : Moment} (h : Proceeds env a b) :
    Spares [a.module] a.config.machine b.config.machine ∧
      (b.module = a.module ∨ b.module ∉ a.config.machine.loaded ∧ b.module ∈ b.config.machine.loaded) := by
  cases h with
  | goes hgoes =>
      cases hgoes with
      | step _ hstep => exact ⟨(step_spares _ _ _ _ _).of_eq hstep, .inl rfl⟩
  | @loads _ _ _ _ name fuel _ _ _ _ _ m' before _ found _ _ _ hbefore hfresh _ _ =>
      have hloaded := (importAll_spares (nested_spares fuel) before).of_eq hbefore
      have hname := Machine.has_eq_false_iff.mp hfresh
      refine ⟨(hloaded.trans (.start m' name found.origin)).mono fun _ _ => nofun, .inr ⟨?_, ?_⟩⟩
      · exact fun hin => hname (hloaded.stays hin)
      · exact (Machine.loaded_start hname).symm ▸ List.mem_concat_self

theorem Comes.spares {a b : Moment} (h : Comes env a b) (ha : a.module ∈ a.config.machine.loaded) :
    Spares [a.module] a.config.machine b.config.machine ∧ b.module ∈ b.config.machine.loaded ∧
      (b.module = a.module ∨ b.module ∉ a.config.machine.loaded) := by
  induction h with
  | refl => exact ⟨.refl _ _, ha, .inl rfl⟩
  | @tail b c _ hproceeds ih =>
      obtain ⟨hspares, hb, hmodule⟩ := ih
      obtain ⟨hnext, hc⟩ := hproceeds.spares
      have hboth : Spares [a.module, b.module] a.config.machine c.config.machine :=
        (hspares.mono fun _ _ hin => List.mem_append_left [b.module] hin).trans
          (hnext.mono fun _ _ hin => List.mem_cons_of_mem a.module hin)
      refine ⟨hboth.mono fun other hother hin => ?_, ?_, ?_⟩
      · -- What a module does that was not loaded at first is nothing to those that were.
        obtain rfl | hin := List.mem_cons.mp hin
        · exact List.mem_singleton_self _
        · obtain rfl := List.mem_singleton.mp hin
          exact hmodule.elim (fun hsame => hsame ▸ List.mem_singleton_self _) fun hnew => absurd hother hnew
      · exact hc.elim (fun hsame => hsame ▸ hnext.stays hb) And.right
      · obtain hsame | ⟨hnew, _⟩ := hc
        · exact hsame ▸ hmodule
        · exact .inr fun hin => hnew (hspares.stays hin)

/-- The module gets no variable but that with the name of a module, which it names, and those for modules in it. -/
def Binds (module top : String) (m m' : Machine) : Prop :=
  ∀ x, m'.valueOf? module x = m.valueOf? module x ∨ Announces m m' module x ∨
    x = top ∧ m'.valueOf? module x = some (.module top)

/-- An import binds the first part of its name in the module in which it stands. -/
theorem step_import_binds {k : Nat} {dotted : String} (hname : nameAt code k = .ok dotted) (hmodule : module ∈ m.loaded)
    (fuel line : Nat) (stack : List Value) :
    Binds module ((dotted.splitOn ".").headD dotted) m
      (step env (nested env fuel) code module ⟨.importName k, line⟩ stack m).2 := by
  intro x
  rw [step_importName (nameAt_eq_ok.mp hname)]
  rcases hx : importAll env (nested env fuel) (throughNames dotted) m with ⟨e | _, y⟩
  · have hloaded := (importAll_spares (nested_spares fuel) _).of_eq hx
    rw [Action.bind_of_error hx]
    exact (hloaded.values module hmodule List.not_mem_nil x).imp_right .inl
  · have hloaded := (importAll_spares (nested_spares fuel) _).of_eq hx
    rw [Action.bind_of_ok hx]
    obtain hsame | ⟨-, htop, hvalue⟩ := Machine.valueOf?_bind_cases y module _ _ module x
    · refine (hloaded.values module hmodule List.not_mem_nil x).imp hsame.trans fun hnew => .inl ?_
      exact ⟨hsame.trans hnew.value, hnew.fresh, (Machine.loaded_bind y module _ _).symm ▸ hnew.loaded⟩
    · exact .inr (.inr ⟨htop, hvalue⟩)

/-! ## Running code in a module -/

/-- While code runs in a module, with all imports in it and whatever it ends with, the other modules that were loaded
before keep their variables, except that packages get one for each module in them that is loaded meanwhile. An import
statement at any of its moments changes the variables of the module in which it stands in the same way only, and by
binding the first part of its name. -/
theorem exec_spares_others (env : Surroundings) (fuel : Nat) (code : Code) (module : String) (m : Machine) :
    Spares [module] m (exec env fuel code module m).2 ∧
      ∀ b, Comes env (.start code module fuel (m.enter module code.file)) b →
        Spares [module] m b.config.machine ∧
        ∀ k line dotted, b.code.body[b.config.pos]? = some ⟨.importName k, line⟩ → nameAt b.code k = .ok dotted →
          Binds b.module ((dotted.splitOn ".").headD dotted) b.config.machine
            (step env (nested env (b.config.fuel - 1)) b.code b.module ⟨.importName k, line⟩ b.config.stack
              b.config.machine).2 := by
  have henter : Spares [module] m (m.enter module code.file) := (Spares.enter m module code.file).mono fun _ _ => nofun
  refine ⟨henter.trans (runFrom_spares fuel code module 0 [] _), fun b hcomes => ?_⟩
  have hstart : module ∈ (m.enter module code.file).loaded := Machine.mem_loaded_enter m module code.file
  obtain ⟨hspares, hloaded, _⟩ := hcomes.spares hstart
  refine ⟨henter.trans hspares, fun k line dotted _ hname => ?_⟩
  exact step_import_binds hname hloaded (b.config.fuel - 1) line b.config.stack

/-- The machine after an import of the module by a program, when the code of its package has been started. -/
def moduleImported : Except Halt Unit × Machine :=
  exec Session.inCircle 9 (Session.importsOf "main" ["a.b"]) Session.mainModule Session.packageStarted

/-- The package gets a variable for the module, and the importing module one for the package. -/
theorem exec_spares_others_package :
    moduleImported.1 = .ok () ∧ Spares [Session.mainModule] Session.packageStarted moduleImported.2 ∧
      Announces Session.packageStarted moduleImported.2 "a" "b" ∧
      Binds Session.mainModule "a" Session.packageStarted
        (step Session.inCircle (nested Session.inCircle 8) (Session.importsOf "main" ["a.b"]) Session.mainModule
          ⟨.importName 0, 1⟩ [] Session.packageStarted).2 ∧
      moduleImported.2.valueOf? Session.mainModule "a" = some (.module "a") := by
  obtain ⟨hspares, hmoments⟩ :=
    exec_spares_others Session.inCircle 9 (Session.importsOf "main" ["a.b"]) Session.mainModule Session.packageStarted
  have hfresh : "a.b" ∉ Session.packageStarted.loaded := Machine.has_eq_false_iff.mp (by cbv)
  have hloaded : "a.b" ∈ moduleImported.2.loaded := Machine.has_iff.mp (by cbv)
  have hbinds := (hmoments _ .refl).2 0 1 "a.b" rfl rfl
  have htop : ("a.b".splitOn ".").headD "a.b" = "a" := by cbv
  rw [htop] at hbinds
  exact ⟨by cbv, hspares, ⟨by cbv, hfresh, hloaded⟩, hbinds, by cbv⟩

end Exec

end Launcher.Script
