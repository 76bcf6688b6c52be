import Launcher.Proofs.Names
import Launcher.Proofs.Script.Sessions
import Launcher.Proofs.Streams
import Launcher.Proofs.Table.Lookup

/-!
# Names that a table closes

A name whose import a table forces to fail is closed, and with it every name below it. Whatever a host is asked to do,
in whatever order and however it ends, no module of a closed name comes into its table and no code of one is started,
and a module that is to be run is not even looked for. The main module alone may have a name that a table blocks.
-/

namespace Launcher

open Launcher.Action (Moves)

open Script.Session (mainModule)

namespace Table.FrozenTable

variable {t : FrozenTable} {name : String}

/-- The import of a module of that name may be tried: it is the main module, or the table does not make it fail. -/
def Passes (t : FrozenTable) (name : String) : Prop := name ≠ mainModule → t.find name ≠ .forcedFailure

/-- The name and all that stands in front of its dots may be tried. -/
def Open (t : FrozenTable) (name : String) : Prop := ∀ p, Heads p name → t.Passes p

theorem Open.passes (h : t.Open name) : t.Passes name := h name (.refl name)

theorem open_main : t.Open mainModule := by
  intro p hp hmain
  exact absurd (hp.of_no_dot (by decide)) hmain

end Table.FrozenTable

theorem Finder.find_of_blocked {f : Finder} {fs : FileSystem} {name : String} (h : f.table.find name = .forcedFailure) :
    f.find fs name = .error (.blocked name) := by
  rw [Finder.find, h]

namespace Script

/-! ## Machines with open names only -/

/-- The modules of the table and those whose code was started have names of the given kind. -/
structure Machine.Only (P : String → Prop) (m : Machine) : Prop where
  loaded : ∀ name ∈ m.loaded, P name
  started : ∀ name ∈ m.started, P name

namespace Machine.Only

variable {P : String → Prop} {m m' : Machine} {module name : String}

theorem of_eq (h : m.Only P) (hmodules : m'.modules = m.modules) (hstarted : m'.started = m.started) : m'.Only P where
  loaded := by
    rw [Machine.loaded, hmodules]
    exact h.loaded
  started := by
    rw [hstarted]
    exact h.started

theorem bind (h : m.Only P) (v : Value) : (m.bind module name v).Only P where
  loaded := by
    rw [loaded_bind]
    exact h.loaded
  started := by
    rw [started_bind]
    exact h.started

theorem enter (h : m.Only P) (hmodule : P module) (file : String) : (m.enter module file).Only P where
  loaded := by
    by_cases hin : module ∈ m.loaded
    · rw [enter_of_mem hin]
      exact h.loaded
    · rw [loaded_enter hin]
      intro name hname
      rcases List.mem_append.mp hname with hname | hname
      · exact h.loaded name hname
      · exact List.mem_singleton.mp hname ▸ hmodule
  started := by
    rw [started_enter]
    exact h.started

theorem noteStart (h : m.Only P) (hmodule : P module) : (m.noteStart module).Only P where
  loaded := h.loaded
  started := List.forall_mem_cons.mpr ⟨hmodule, h.started⟩

theorem remove (h : m.Only P) (module : String) : (m.remove module).Only P where
  loaded := by
    intro name hname
    rw [loaded_remove] at hname
    exact h.loaded name (List.mem_filter.mp hname).1
  started := h.started

end Machine.Only

theorem Machine.Permits.only (P : String → Prop) (module : String) :
    Machine.Permits (fun m m' => m.Only P → m'.Only P) module where
  aside := fun hmodules hstarted _ h => h.of_eq hmodules hstarted
  warn := fun site category message m h =>
    have haside := Call.warn_aside site category message m
    h.of_eq haside.1 haside.2
  bind := fun _ _ v h => h.bind v
  trans := fun h h' hm => h' (h hm)

/-! ## Imports -/

namespace Exec

/-- No module is found under a name that the table forces to fail. -/
def Respects (env : Surroundings) (t : Table.FrozenTable) : Prop :=
  ∀ name, t.find name = .forcedFailure → ∃ e, env.find name = .error e

/-- No names come in but open ones. -/
def KeepsOpen (t : Table.FrozenTable) (m m' : Machine) : Prop := m.Only t.Open → m'.Only t.Open

variable {env : Surroundings} {t : Table.FrozenTable} {run : Runner} {name : String} {m m' : Machine}
  {done names : List String}

theorem Respects.passes {found : LocatedModule} (henv : Respects env t) (h : env.find name = .ok found) :
    t.Passes name := by
  intro _ hblocked
  obtain ⟨e, he⟩ := henv name hblocked
  cases he.symm.trans h

/-- An import that ends well is of a name that may be tried. -/
theorem importOne_passes (henv : Respects env t) (hm : m.Only t.Open)
    (h : (importOne env run name m).1 = .ok ()) : t.Passes name := by
  cases hhas : m.modules.has name with
  | true => exact (hm.loaded name (Machine.has_iff.mp hhas)).passes
  | false =>
      cases hfind : env.find name with
      | error e => cases h.symm.trans (congrArg Prod.fst (importOne_of_error hhas hfind))
      | ok found => exact henv.passes hfind

/-- The names in front of the dots were imported before, so that a module that is found has an open name. -/
theorem open_of_ordered (henv : Respects env t) (hdone : ∀ q ∈ done, t.Passes q)
    (hheads : ∀ p, Heads p name → p = name ∨ p ∈ done) {found : LocatedModule} (hfind : env.find name = .ok found) :
    t.Open name := by
  intro p hp
  rcases hheads p hp with rfl | hin
  · exact henv.passes hfind
  · exact hdone p hin

theorem importOne_keepsOpen (henv : Respects env t) (hrun : ∀ code module, Moves (KeepsOpen t) (run code module))
    (hdone : ∀ q ∈ done, t.Passes q) (hheads : ∀ p, Heads p name → p = name ∨ p ∈ done) :
    Moves (KeepsOpen t) (importOne env run name) := by
  refine importOne_moves (fun module => .only t.Open module) (fun m name hm => hm.remove name) hrun ?_
  intro m found _ hfind hm
  have hopen := open_of_ordered henv hdone hheads hfind
  exact (hm.enter hopen _).noteStart hopen

theorem importAll_keepsOpen (henv : Respects env t) (hrun : ∀ code module, Moves (KeepsOpen t) (run code module))
    (hordered : Ordered done names) (hdone : ∀ q ∈ done, t.Passes q) (hm : m.Only t.Open) :
    (importAll env run names m).2.Only t.Open ∧
      ((importAll env run names m).1 = .ok () → ∀ q ∈ names, t.Passes q) := by
  induction names generalizing done m with
  | nil => exact ⟨hm, fun _ q hq => absurd hq List.not_mem_nil⟩
  | cons name names ih =>
      have hfirst := importOne_keepsOpen henv hrun hdone hordered.1 m hm
      have hpasses : (importOne env run name m).1 = .ok () → t.Passes name := importOne_passes henv hm
      rw [importAll]
      rcases hx : importOne env run name m with ⟨e | _, x⟩ <;> rw [hx] at hfirst hpasses
      · rw [Action.bind_of_error hx]
        refine ⟨hfirst, fun hok => ?_⟩
        cases hok
      · rw [Action.bind_of_ok hx]
        have hname : t.Passes name := hpasses rfl
        obtain ⟨hrest, hall⟩ := ih hordered.2 (List.forall_mem_cons.mpr ⟨hname, hdone⟩) hfirst
        exact ⟨hrest, fun hok => List.forall_mem_cons.mpr ⟨hname, hall hok⟩⟩

theorem runFrom_keepsOpen (henv : Respects env t) (fuel : Nat) (code : Code) (module : String) (pos : Nat)
    (stack : List Value) : Moves (KeepsOpen t) (runFrom env fuel code module pos stack) :=
  runFrom_moves (fun _ => KeepsOpen t) (fun module => .only t.Open module)
    (fun _ hrun _ dotted _ hm => (importAll_keepsOpen henv hrun (ordered_throughNames dotted) nofun hm).1)
    fuel code module pos stack

theorem nested_keepsOpen (henv : Respects env t) (fuel : Nat) (code : Code) (module : String) :
    Moves (KeepsOpen t) (nested env fuel code module) :=
  runFrom_keepsOpen henv fuel code module 0 []

theorem step_keepsOpen (henv : Respects env t) (fuel : Nat) (code : Code) (module : String) (s : Step)
    (stack : List Value) : Moves (KeepsOpen t) (step env (nested env fuel) code module s stack) :=
  step_moves (.only t.Open module)
    (fun dotted _ hm =>
      (importAll_keepsOpen henv (nested_keepsOpen henv fuel) (ordered_throughNames dotted) nofun hm).1)
    s stack

/-- A moment of a module with an open name, when the machine has none but open names. -/
structure Moment.IsOpen (t : Table.FrozenTable) (a : Moment) : Prop where
  module : t.Open a.module
  machine : a.config.machine.Only t.Open

theorem Proceeds.isOpen (henv : Respects env t) {a b : Moment} (h : Proceeds env a b) (ha : a.IsOpen t) :
    b.IsOpen t := by
  cases h with
  | @goes code module _ _ h =>
      cases h with
      | @step fuel pos stack _ _ s next hs hstep =>
          exact ⟨ha.module, (step_keepsOpen henv fuel code module s stack).of_eq hstep ha.machine⟩
  | @loads _ _ _ dotted name fuel _ _ _ _ _ m before after found hs hname hdotted hbefore hhas hfind hcode =>
      have hordered := ordered_throughNames dotted
      rw [hdotted, ordered_append, List.append_nil] at hordered
      obtain ⟨hkeeps, hpasses⟩ := importAll_keepsOpen henv (nested_keepsOpen henv fuel) hordered.1 nofun ha.machine
      rw [hbefore] at hkeeps hpasses
      have hopen : t.Open name :=
        open_of_ordered henv (fun q hq => hpasses rfl q (List.mem_reverse.mp hq)) hordered.2.1 hfind
      exact ⟨hopen, (hkeeps.enter hopen _).noteStart hopen⟩

theorem Comes.isOpen (henv : Respects env t) {a b : Moment} (h : Comes env a b) (ha : a.IsOpen t) : b.IsOpen t := by
  induction h with
  | refl => exact ha
  | tail _ hstep ih => exact hstep.isOpen henv ih

end Exec

/-! ## Sessions -/

namespace Session

open Exec

variable {f : Finder} {fs : FileSystem}

theorem spans_keepsOpen (t : Table.FrozenTable) : Spans (KeepsOpen t) where
  permits := .only t.Open mainModule
  enters := fun _ file hm => hm.enter Table.FrozenTable.open_main file

theorem respects_find (f : Finder) (fs : FileSystem) (argv : List String) (flags : Flags) :
    Respects ⟨f.find fs, argv, flags⟩ f.table :=
  fun name hblocked => ⟨.blocked name, Finder.find_of_blocked hblocked⟩

theorem Visit.nested_keepsOpen (v : Visit) (code : Code) :
    Moves (KeepsOpen f.table) (nested (v.surroundings f fs) v.fuel code mainModule) :=
  Exec.nested_keepsOpen (respects_find f fs v.argv v.flags) v.fuel code mainModule

theorem after_only (visits : List Visit) : (after f fs visits).Only f.table.Open :=
  after_moves (spans_keepsOpen f.table) (fun v => v.moves (spans_keepsOpen f.table) v.nested_keepsOpen) visits
    ⟨nofun, nofun⟩

theorem Visit.Starts.isOpen {v : Visit} {m : Machine} {a : Moment} (h : v.Starts f fs m a)
    (hm : m.Only f.table.Open) : a.IsOpen f.table where
  module := by cases h <;> exact Table.FrozenTable.open_main
  machine := h.moves (spans_keepsOpen f.table) v.nested_keepsOpen hm

end Session

end Script

/-! ## A module that is to be run -/

namespace Dispatcher

variable {σ τ : Type}

/-- The check of the enclosing packages is passed, or the module cannot be run. -/
theorem checkEnclosing_cases (d : Dispatcher σ τ) (f : Finder) (name : String) (parents : List String) :
    d.checkEnclosing f name parents = .ok () ∨
      ∃ reason, d.checkEnclosing f name parents = .error (.resolution (.couldNotRun name reason)) := by
  induction parents with
  | nil => exact .inl rfl
  | cons parent parents ih =>
      rw [checkEnclosing]
      cases f.find d.files parent with
      | error e => exact .inr ⟨e.message, rfl⟩
      | ok found =>
          dsimp only
          split
          · exact ih
          · exact .inr ⟨_, rfl⟩

theorem found_of_checkEnclosing {d : Dispatcher σ τ} {f : Finder} {p name : String} {parents : List String}
    (h : d.checkEnclosing f name parents = .ok ()) (hp : p ∈ parents) : ∃ found, f.find d.files p = .ok found := by
  induction parents with
  | nil => cases hp
  | cons parent parents ih =>
      rw [checkEnclosing] at h
      cases hfind : f.find d.files parent with
      | error e =>
          rw [hfind] at h
          cases h
      | ok found =>
          rw [hfind] at h
          dsimp only at h
          split at h
          · rcases List.mem_cons.mp hp with rfl | hp
            · exact ⟨found, hfind⟩
            · exact ih h hp
          · cases h

/-- A module with a blocked name at its head cannot be run. -/
theorem locateMain_of_blocked (d : Dispatcher σ τ) {f : Finder} {p name : String} (h : f.table.find p = .forcedFailure)
    (hp : Heads p name) : ∃ reason, d.locateMain f name = .error (.resolution (.couldNotRun name reason)) := by
  have hblocked : f.find d.files p = .error (.blocked p) := Finder.find_of_blocked h
  rw [locateMain]
  rcases d.checkEnclosing_cases f name (enclosing name) with hcheck | ⟨reason, hcheck⟩
  · rcases hp with rfl | ⟨rest, hrest⟩
    · rw [hcheck, hblocked]
      exact ⟨_, rfl⟩
    · obtain ⟨found, hfound⟩ := found_of_checkEnclosing hcheck (mem_enclosing hrest)
      cases hblocked.symm.trans hfound
  · rw [hcheck]
    exact ⟨reason, rfl⟩

/-- Where the target cannot be found or read, a run writes at most a line about what it tries, and fails. -/
theorem execute_of_resolution (d : Dispatcher σ τ) (mode : ExecutionMode) (s : RunState σ τ) {e : ResolutionError}
    {f : Finder} (h : d.load s.context (Finder.ofConfig d.config d.table s.context.searchPath d.host.magic) mode =
      ⟨.error (.resolution e), f, s.context.argv⟩) :
    ∃ text, d.execute mode s = (.error (.resolution e.message), { s with streams := s.streams.tell text }) := by
  have hsilent : s.streams.tell "" = s.streams := s.streams.tell_empty
  rw [execute, Action.bind_of_ok (Action.get_apply s)]
  dsimp only
  rw [h]
  cases announcement s.context mode with
  | none => exact ⟨"", by rw [hsilent]; rfl⟩
  | some line =>
      by_cases hverbose : 0 < s.context.flags.verbose
      · exact ⟨s.context.programName ++ ": " ++ line ++ "\n", by simp only [if_pos hverbose]; rfl⟩
      · exact ⟨"", by simp only [if_neg hverbose, hsilent]; rfl⟩

end Dispatcher

/-! ## Blocked names -/

open Script.Exec Script.Session in
/-- Only the main module may have a name with a blocked one at its head: at no moment of a session is another
executed or in the table, at its end no other is in the table or was ever started, and none is run by its name. -/
theorem blocked_stays_closed (t : Table.FrozenTable) :
    (∀ (f : Finder) (fs : FileSystem) (visits : List Visit), f.table = t →
      (after f fs visits).Only t.Open ∧
      ∀ (v : Visit) (a b : Moment), v.Starts f fs (after f fs visits) a → Comes (v.surroundings f fs) a b →
        t.Open b.module ∧ b.config.machine.Only t.Open) ∧
    (∀ {σ τ : Type} (d : Dispatcher σ τ) (name p : String), d.table = t → t.find p = .forcedFailure → Heads p name →
      ∀ s : RunState σ τ, ∃ reason text, d.execute (.module name) s =
        (.error (.resolution (ResolutionError.couldNotRun name reason).message),
          { s with streams := s.streams.tell text })) := by
  constructor
  · rintro f fs visits rfl
    refine ⟨after_only visits, fun v a b hstart hcomes => ?_⟩
    have hb := hcomes.isOpen (respects_find f fs v.argv v.flags) (hstart.isOpen (after_only visits))
    exact ⟨hb.module, hb.machine⟩
  · rintro σ τ d name p rfl hblocked hp s
    obtain ⟨reason, hlocate⟩ := d.locateMain_of_blocked
      (f := .ofConfig d.config d.table s.context.searchPath d.host.magic) hblocked hp
    have hload : d.load s.context (.ofConfig d.config d.table s.context.searchPath d.host.magic) (.module name) =
        ⟨.error (.resolution (.couldNotRun name reason)),
          .ofConfig d.config d.table s.context.searchPath d.host.magic, s.context.argv⟩ := by
      simp only [Dispatcher.load, hlocate]
    obtain ⟨text, hexecute⟩ := d.execute_of_resolution (.module name) s hload
    exact ⟨reason, text, hexecute⟩

/-! ### A package that is blocked -/

/-- A blocked package, a module in it, and a module elsewhere. -/
def blockedPackage : Table.FrozenTable where
  entries := [.forcedFailure "a", .unit "a.b" (Script.Code.toBytes ⟨"b", [], [], []⟩) false,
    .unit "c" (Script.Code.toBytes ⟨"c", [], [], []⟩) false]

namespace Script.Session

open Exec

def importCode (name : String) : Code := ⟨"main", [], [name], [⟨.importName 0, 1⟩]⟩

def importing (name : String) : Visit := ⟨.runMain (importCode name).toBytes "main", 5, [], {}, {}⟩

def frozenOnly : Finder := .ofConfig {} blockedPackage [] [0x4D, 0x49, 0x4E, 0x49]

/-- The start of the code of `c`. -/
def startOfC : Moment :=
  .start ⟨"c", [], [], []⟩ "c" 4 (((Machine.enter mainModule "main" {}).enter "c" "<frozen>").noteStart "c")

theorem starts_importing : (importing "c").Starts frozenOnly {} {}
    (.start (importCode "c") mainModule 5 (Machine.enter mainModule "main" {})) :=
  .main rfl (by cbv)

theorem comes_startOfC : Comes ((importing "c").surroundings frozenOnly {})
    (.start (importCode "c") mainModule 5 (Machine.enter mainModule "main" {})) startOfC := by
  have hfind : ((importing "c").surroundings frozenOnly {}).find "c" =
      .ok ⟨"c", "<frozen>", false, .compiled (Code.toBytes ⟨"c", [], [], []⟩)⟩ := by cbv
  have hcode : Code.ofBytes (Code.toBytes ⟨"c", [], [], []⟩) = .ok ⟨"c", [], [], []⟩ := by cbv
  exact .single (@Proceeds.loads _ (importCode "c") _ mainModule "c" "c" 4 0 0 1 [] _ _ [] [] _ rfl rfl (by cbv) rfl
    (by cbv) hfind hcode)

end Script.Session

open Script Script.Session in
/-- The other module can be imported, and is executed with no closed name in the table. The module in the package can
neither be imported nor run. -/
theorem blocked_stays_closed_package :
    let d : Dispatcher Machine Unit := ⟨{}, blockedPackage, host 5, {}, fun _ _ s => (⟨[], []⟩, s)⟩
    let s : RunState Machine Unit :=
      ⟨⟨"run", ⟨"run"⟩, ⟨"/"⟩, {}, [], .script, none, [], [], [], .executing⟩, {}, (), {}⟩
    ((importing "c").run frozenOnly {} {}).1 = .ok () ∧
    (after frozenOnly {} [importing "a.b", importing "c"]).Only blockedPackage.Open ∧
    startOfC.config.machine.Only blockedPackage.Open ∧
    ∃ reason text, d.execute (.module "a.b") s =
      (.error (.resolution (ResolutionError.couldNotRun "a.b" reason).message),
        { s with streams := s.streams.tell text }) := by
  intro d s
  obtain ⟨hsession, hrun⟩ := blocked_stays_closed blockedPackage
  refine ⟨by cbv, (hsession frozenOnly {} _ rfl).1, ?_, hrun d "a.b" "a" rfl rfl (.inr ⟨"b", rfl⟩) s⟩
  exact ((hsession frozenOnly {} [] rfl).2 _ _ _ starts_importing comes_startOfC).2

end Launcher
