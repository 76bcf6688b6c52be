import Launcher.Proofs.Freeze.Import
import Launcher.Proofs.Script.StartedOnce
import Launcher.Proofs.Search.Blocking

/-!
# Modules that enclose an imported one

An import goes through all that stands in front of the dots of a name, and each of these must be found, but it is not
asked whether they are packages. A module that is to be run is refused if one of them is not. So a module can be
imported below a plain one, and then cannot be run.
-/

namespace Launcher

open Script.Session (mainModule)

/-- The module without the mark of a package. -/
def LocatedModule.unmarked (found : LocatedModule) : LocatedModule := { found with isPackage := false }

namespace Script

namespace Exec

/-! ## Marks of packages are not looked at -/

/-- The same modules are found, but for the marks of the packages. -/
structure SameUnmarked (env env' : Surroundings) : Prop where
  find : ∀ name, (env.find name).map LocatedModule.unmarked = (env'.find name).map LocatedModule.unmarked
  argv : env.argv = env'.argv
  flags : env.flags = env'.flags

variable {env env' : Surroundings} {run : Runner} {code : Code} {module : String}

theorem codeOf_eq (h : SameUnmarked env env') {found found' : LocatedModule}
    (hfound : found.unmarked = found'.unmarked) : codeOf env found = codeOf env' found' := by
  obtain ⟨name, origin, isPackage, code⟩ := found
  obtain ⟨name', origin', isPackage', code'⟩ := found'
  obtain ⟨rfl, rfl, -, rfl⟩ := LocatedModule.mk.inj hfound
  simp only [codeOf, h.flags]

theorem importOne_eq (h : SameUnmarked env env') (run : Runner) (name : String) :
    importOne env run name = importOne env' run name := by
  have hfind := h.find name
  cases he : env.find name <;> cases he' : env'.find name <;> rw [he, he'] at hfind
  case ok.ok found found' =>
    have hfound : found.unmarked = found'.unmarked := Except.ok.inj hfind
    have horigin : found.unmarked.origin = found'.unmarked.origin := by rw [hfound]
    exact Code.importOne_congr he' he horigin (codeOf_eq h hfound) run
  case error.error e e' =>
    obtain rfl := Except.error.inj hfind
    simp only [importOne, he, he']
  all_goals cases hfind

theorem importAll_eq (h : SameUnmarked env env') (run : Runner) (names : List String) :
    importAll env run names = importAll env' run names := by
  induction names with
  | nil => rfl
  | cons name names ih => rw [importAll, importAll, importOne_eq h, ih]

theorem step_eq (h : SameUnmarked env env') (run : Runner) (code : Code) (module : String) (s : Step)
    (stack : List Value) : step env run code module s stack = step env' run code module s stack := by
  obtain ⟨i, line⟩ := s
  cases i with
  | importName k => simp only [step, importAll_eq h]
  | loadName k => simp only [step, loadName, h.argv]
  | _ => rfl

/-- An execution is the same whatever is marked as a package. -/
theorem runFrom_eq (h : SameUnmarked env env') (fuel : Nat) (code : Code) (module : String) (pos : Nat)
    (stack : List Value) : runFrom env fuel code module pos stack = runFrom env' fuel code module pos stack := by
  induction fuel generalizing code module pos stack with
  | zero => rfl
  | succ fuel ih =>
      funext m
      simp only [runFrom, ih, step_eq h]

/-! ## Modules that were found -/

/-- A module of that name is found, or it is the main module, which is loaded from the start. -/
def Located (env : Surroundings) (name : String) : Prop := name = mainModule ∨ ∃ found, env.find name = .ok found

theorem permitsAll_located (env : Surroundings) :
    Machine.PermitsAll (fun m m' => m.Only (Located env) → m'.Only (Located env)) env.find where
  permits := .only (Located env)
  start := fun _ _ found hfind hm =>
    (hm.enter (.inr ⟨found, hfind⟩) found.origin).noteStart (.inr ⟨found, hfind⟩)
  remove := fun _ module hm => hm.remove module

theorem importAll_located {fuel : Nat} {names : List String} {m m' : Machine} (hm : m.Only (Located env))
    (h : importAll env (nested env fuel) names m = (.ok (), m')) : ∀ name ∈ names, Located env name := by
  -- Only failures take modules off again, so what the chain has loaded is there at its end.
  have hall := permitsAll_located env
  have hloaded := (importAll_moves hall (nested_moves hall fuel) names).of_eq h hm
  exact fun name hname => hloaded.loaded name (importAll_loads h name hname)

end Exec

/-! ## Fresh hosts -/

namespace Session

variable {env env' : Surroundings} {bytes : Bytes} {code : Code} {name : String}

theorem runMain_eq (h : Exec.SameUnmarked env env') (fuel : Nat) (bytes : Bytes) (file : String) :
    runMain env fuel bytes file = runMain env' fuel bytes file := by
  simp only [runMain, Exec.exec, Exec.runFrom_eq h]

/-- Where the import of a name ends well in a fresh host, all names that it goes through are located. -/
theorem located_of_runMain (hbytes : Code.ofBytes bytes = .ok code) (hcode : code.Imports name) {file : String}
    {fuel : Nat} {channels : Channels} (h : (runMain env fuel bytes file { channels }).1 = .ok ()) :
    ∀ p ∈ Exec.throughNames name, Exec.Located env p := by
  have hfresh : Machine.Only (Exec.Located env) { channels } := ⟨nofun, nofun⟩
  rw [runMain_of_code hbytes] at h
  obtain ⟨rest, x, hall⟩ := Exec.importAll_of_imports hcode (Prod.ext h rfl)
  exact Exec.importAll_located (hfresh.enter (.inl rfl) file) hall

end Session

end Script

namespace Dispatcher

open Script

variable {σ τ : Type}

theorem checkEnclosing_iff (d : Dispatcher σ τ) (f : Finder) (name : String) (parents : List String) :
    d.checkEnclosing f name parents = .ok () ↔
      ∀ p ∈ parents, ∃ found, f.find d.files p = .ok found ∧ found.isPackage = true := by
  induction parents with
  | nil => simp [checkEnclosing]
  | cons parent parents ih =>
      rw [checkEnclosing, List.forall_mem_cons, ← ih]
      cases f.find d.files parent with
      | error e => simp
      | ok found => cases hpackage : found.isPackage <;> simp [hpackage]

/-- Where the import of a name ends well in a fresh host, everything that encloses the name is located, but for the main
module. So the module may be run unless one of these is a plain module, or the main module and not located. Whichever of
them are packages, the host ends in the same way. -/
theorem import_encloses (d : Dispatcher σ τ) (f : Finder) {name : String} (hname : "" ∉ name.splitOn ".")
    {bytes : Bytes} {code : Code} (hbytes : Code.ofBytes bytes = .ok code) (hcode : code.Imports name) {file : String}
    {argv : List String} {flags : Flags} {fuel : Nat} {channels : Channels}
    (hrun : ((Session.host fuel).runMain bytes file ⟨f.find d.files, argv, flags⟩ {} channels).1 = .ok ()) :
    (∀ p ∈ enclosing name, p = mainModule ∨ ∃ found, f.find d.files p = .ok found) ∧
    ((∀ p ∈ enclosing name, ∃ found, f.find d.files p = .ok found ∧ found.isPackage = true) ↔
      d.checkEnclosing f name (enclosing name) = .ok ()) ∧
    (d.checkEnclosing f name (enclosing name) = .ok () ↔
      (∀ p ∈ enclosing name, ∀ found, f.find d.files p = .ok found → found.isPackage = true) ∧
        (mainModule ∈ enclosing name → ∃ found, f.find d.files mainModule = .ok found)) ∧
    ∀ find : String → Except ImportError LocatedModule,
      (∀ n, (find n).map LocatedModule.unmarked = (f.find d.files n).map LocatedModule.unmarked) →
        (Session.host fuel).runMain bytes file ⟨find, argv, flags⟩ {} channels =
          (Session.host fuel).runMain bytes file ⟨f.find d.files, argv, flags⟩ {} channels := by
  have hlocated : ∀ p ∈ enclosing name, p = mainModule ∨ ∃ found, f.find d.files p = .ok found :=
    fun p hp => Session.located_of_runMain hbytes hcode hrun p (enclosing_subset hname hp)
  refine ⟨hlocated, (checkEnclosing_iff ..).symm, ?_, fun find hfind => ?_⟩
  · rw [checkEnclosing_iff]
    constructor
    · refine fun h => ⟨fun p hp found hfound => ?_, fun hmain => ?_⟩
      · obtain ⟨found', hfound', hpackage⟩ := h p hp
        obtain rfl := Except.ok.inj (hfound.symm.trans hfound')
        exact hpackage
      · obtain ⟨found, hfound, -⟩ := h mainModule hmain
        exact ⟨found, hfound⟩
    · rintro ⟨hpackage, hmain⟩ p hp
      obtain ⟨found, hfound⟩ : ∃ found, f.find d.files p = .ok found := by
        rcases hlocated p hp with rfl | hfound
        · exact hmain hp
        · exact hfound
      exact ⟨found, hfound, hpackage p hp found hfound⟩
  · have hsame : Exec.SameUnmarked ⟨find, argv, flags⟩ ⟨f.find d.files, argv, flags⟩ := ⟨hfind, rfl, rfl⟩
    simp only [Session.host, Session.lend, Session.runMain_eq hsame]

/-- A package or a plain module, and a module of a name below it. -/
def below (isPackage : Bool) : Table.FrozenTable where
  entries := [.unit "a" (Session.importsOf "a" []).toBytes isPackage,
    .unit "a.b" (Session.importsOf "a.b" []).toBytes false]

def belowFinder (isPackage : Bool) : Finder := .ofConfig {} (below isPackage) [] []

def belowDispatcher (isPackage : Bool) : Dispatcher Machine Unit :=
  ⟨{}, below isPackage, Session.host 9, {}, fun _ _ s => (⟨[], []⟩, s)⟩

def importBelow : Code := Session.importsOf "main" ["a.b"]

theorem enclosing_below : enclosing "a.b" = ["a"] := by cbv

/-- Below a package the module is imported and may be run. -/
theorem import_encloses_package :
    "" ∉ "a.b".splitOn "." ∧ Code.ofBytes importBelow.toBytes = .ok importBelow ∧ importBelow.Imports "a.b" ∧
    ((Session.host 9).runMain importBelow.toBytes "main" ⟨(belowFinder true).find {}, [], {}⟩ {} {}).1 = .ok () ∧
    (belowDispatcher true).checkEnclosing (belowFinder true) "a.b" (enclosing "a.b") = .ok () := by
  have hsplit : "a.b".splitOn "." = ["a", "b"] := by cbv
  have hname : "" ∉ "a.b".splitOn "." := hsplit ▸ by decide
  have hbytes : Code.ofBytes importBelow.toBytes = .ok importBelow := by cbv
  have hcode : importBelow.Imports "a.b" := ⟨0, 1, rfl, rfl⟩
  have hrun : ((Session.host 9).runMain importBelow.toBytes "main" ⟨(belowFinder true).find {}, [], {}⟩ {} {}).1 =
      .ok () := by cbv
  have hencloses := import_encloses (belowDispatcher true) (belowFinder true) hname hbytes hcode hrun
  refine ⟨hname, hbytes, hcode, hrun, hencloses.2.1.mp ?_⟩
  rw [enclosing_below]
  simp only [List.mem_singleton, forall_eq]
  exact ⟨_, rfl, rfl⟩

/-- Below a plain module the module is imported all the same, and is refused where it is to be run. -/
theorem import_below_module :
    ((Session.host 9).runMain importBelow.toBytes "main" ⟨(belowFinder false).find {}, [], {}⟩ {} {}).1 = .ok () ∧
    (∃ p ∈ enclosing "a.b", ∃ found, (belowFinder false).find {} p = .ok found ∧ found.isPackage = false) ∧
    (belowDispatcher false).checkEnclosing (belowFinder false) "a.b" (enclosing "a.b") =
      .error (.resolution (.couldNotRun "a.b" "No module named 'a.b'; 'a' is not a package")) :=
  ⟨by cbv, ⟨"a", enclosing_below ▸ List.mem_singleton_self "a", _, rfl, rfl⟩, by cbv⟩

end Dispatcher

end Launcher
