import Mathlib.Data.Finset.Card
import Launcher.Proofs.Names
import Launcher.Proofs.Script.Loading
import Launcher.Proofs.Script.Sessions

/-!
# Modules whose code is started

A module is in the table before its code is started, and only a failure takes it off again, after which nothing more is
executed. So no code of a module is started twice in a run of the main program, and no module is executed inside itself,
which bounds how deep imports nest.
-/

namespace Launcher.Script

open Launcher.Action (Keeps)

open Session (mainModule)

/-! ## Every module once -/

/-- The main module is loaded and no import started it, and all modules that imports started are loaded. -/
structure Once (loaded started : List String) : Prop where
  main : mainModule ∈ loaded
  notMain : mainModule ∉ started
  nodup : started.Nodup
  stays : started ⊆ loaded

/-- Imports started no module twice, and the main module not at all. -/
def NotAgain (_loaded started : List String) : Prop := mainModule ∉ started ∧ started.Nodup

theorem survives_once : Survives Once NotAgain where
  start := by
    intro loaded started name h hname
    have hmain : mainModule ≠ name := fun heq => hname (heq ▸ h.main)
    have hfresh : name ∉ started := fun hin => hname (h.stays hin)
    refine ⟨List.mem_append_left _ h.main, ?_, List.nodup_cons.mpr ⟨hfresh, h.nodup⟩, ?_⟩
    · exact fun hin => (List.mem_cons.mp hin).elim hmain h.notMain
    · refine List.cons_subset.mpr ⟨List.mem_concat_self, ?_⟩
      exact List.subset_append_of_subset_left _ h.stays
  failure := fun h => ⟨h.notMain, h.nodup⟩
  removal := fun _ h => h

namespace Exec

variable {env : Surroundings} {a b c : Moment} {chain : List String}

/-! ## Imports inside imports -/

/-- The import that is to be carried out has loaded the modules `before` and starts the code of the next. -/
inductive Enters (env : Surroundings) : Moment → Moment → Prop where
  | loads {code code' : Code} {module dotted name : String} {fuel pos k line : Nat} {stack : List Value}
      {m m' : Machine} {before after : List String} {found : LocatedModule} :
      code.body[pos]? = some ⟨.importName k, line⟩ → nameAt code k = .ok dotted →
      throughNames dotted = before ++ name :: after → importAll env (nested env fuel) before m = (.ok (), m') →
      m'.modules.has name = false → env.find name = .ok found → codeOf env found = .ok code' →
      Enters env ⟨code, module, ⟨fuel + 1, pos, stack, m⟩⟩
        (.start code' name fuel ((m'.enter name found.origin).noteStart name))

/-- An execution comes from one moment to another, at which the code of the listed modules is being executed, that of
each inside an import of the next. -/
inductive Descends (env : Surroundings) (a : Moment) : List String → Moment → Prop where
  | here : Descends env a [a.module] a
  | goes {chain : List String} {code : Code} {module : String} {c c' : Config} :
      Descends env a chain ⟨code, module, c⟩ → Goes env code module c c' → Descends env a chain ⟨code, module, c'⟩
  | enters {chain : List String} {b c : Moment} :
      Descends env a chain b → Enters env b c → Descends env a (c.module :: chain) c

theorem Enters.proceeds (h : Enters env a b) : Proceeds env a b := by
  cases h with
  | loads hs hname hthrough hbefore hhas hfind hcode =>
      exact .loads hs hname hthrough hbefore hhas hfind hcode

theorem comes_iff_descends : Comes env a b ↔ ∃ chain, Descends env a chain b := by
  constructor
  · intro h
    induction h with
    | refl => exact ⟨_, .here⟩
    | tail _ hproceeds ih =>
        obtain ⟨chain, hdescends⟩ := ih
        cases hproceeds with
        | goes hgoes => exact ⟨chain, .goes hdescends hgoes⟩
        | loads hs hname hthrough hbefore hhas hfind hcode =>
            exact ⟨_, .enters hdescends (.loads hs hname hthrough hbefore hhas hfind hcode)⟩
  · rintro ⟨chain, h⟩
    induction h with
    | here => exact .refl
    | goes _ hgoes ih => exact .tail ih (.goes hgoes)
    | enters _ henters ih => exact .tail ih henters.proceeds

variable {P Q : List String → List String → Prop}

/-- A module is entered on a machine that has what the imports in front of it keep, and on which it is not loaded. -/
theorem Enters.exists_before (h : Enters env a b) : ∃ (m : Machine) (file : String),
    (∀ {P Q}, Survives P Q → a.config.machine.Has P → m.Has P) ∧ b.module ∉ m.loaded ∧
      b.config.machine = (m.enter b.module file).noteStart b.module := by
  cases h with
  | @loads code code' module dotted name fuel pos k line stack m m' before after found _ _ _ hbefore hhas _ _ =>
      refine ⟨m', found.origin, fun hs ha => ?_, Machine.has_eq_false_iff.mp hhas, rfl⟩
      exact (importAll_keeps hs (nested_keeps hs fuel) before).of_ok ha hbefore

theorem Goes.has (hs : Survives P Q) {code : Code} {module : String} {c c' : Config} (h : Goes env code module c c')
    (hc : c.machine.Has P) : c'.machine.Has P := by
  cases h with
  | @step fuel pos stack m m' s next _ hstep =>
      exact (step_keeps hs (nested_keeps hs fuel) s stack).of_ok hc hstep

theorem Enters.has (hs : Survives P Q) (h : Enters env a b) (ha : a.config.machine.Has P) :
    b.config.machine.Has P := by
  obtain ⟨m, file, hkeeps, hnew, hb⟩ := h.exists_before
  rw [hb]
  exact (hkeeps hs ha).start hs hnew file

theorem Enters.not_mem (h : Enters env a b) (hchain : a.config.machine.Has (AllLoaded chain)) : b.module ∉ chain := by
  obtain ⟨m, file, hkeeps, hnew, _⟩ := h.exists_before
  exact fun hin => hnew (hkeeps (survives_allLoaded chain) hchain hin)

theorem Enters.loaded (h : Enters env a b) : b.module ∈ b.config.machine.loaded := by
  obtain ⟨m, file, _, hnew, hb⟩ := h.exists_before
  rw [hb, Machine.loaded_start hnew]
  exact List.mem_concat_self

theorem Descends.has (hs : Survives P Q) (h : Descends env a chain b) (ha : a.config.machine.Has P) :
    b.config.machine.Has P := by
  induction h with
  | here => exact ha
  | goes _ hgoes ih => exact hgoes.has hs ih
  | enters _ henters ih => exact henters.has hs ih

/-- The modules that are being executed at a moment are loaded, and no two of them are the same. -/
theorem Descends.chain_loaded (h : Descends env a chain b) (ha : a.module ∈ a.config.machine.loaded) :
    chain.Nodup ∧ b.config.machine.Has (AllLoaded chain) := by
  induction h with
  | here => exact ⟨List.nodup_singleton _, List.cons_subset.mpr ⟨ha, List.nil_subset _⟩⟩
  | goes _ hgoes ih => exact ⟨ih.1, hgoes.has (survives_allLoaded _) ih.2⟩
  | enters _ henters ih =>
      obtain ⟨hnodup, hloaded⟩ := ih
      refine ⟨List.nodup_cons.mpr ⟨henters.not_mem hloaded, hnodup⟩, ?_⟩
      exact List.cons_subset.mpr ⟨henters.loaded, henters.has (survives_allLoaded _) hloaded⟩

theorem Descends.length_le (h : Descends env a chain b) (ha : a.module ∈ a.config.machine.loaded) :
    chain.length ≤ b.config.machine.loaded.toFinset.card := by
  obtain ⟨hnodup, hloaded⟩ := h.chain_loaded ha
  rw [← List.toFinset_card_of_nodup hnodup]
  refine Finset.card_le_card fun name hname => ?_
  exact List.mem_toFinset.mpr (hloaded (List.mem_toFinset.mp hname))

end Exec

/-! ## The main program -/

namespace Session

open Exec

/-- The code of the main program is about to be executed by a machine that has executed nothing yet. -/
def startOfMain (fuel : Nat) (code : Code) (file : String) (channels : Channels) : Moment :=
  .start code mainModule fuel (Machine.enter mainModule file { channels })

theorem startOfMain_loaded (fuel : Nat) (code : Code) (file : String) (channels : Channels) :
    mainModule ∈ (startOfMain fuel code file channels).config.machine.loaded := by
  have hloaded : (startOfMain fuel code file channels).config.machine.loaded = [mainModule] :=
    Machine.loaded_enter List.not_mem_nil
  exact hloaded ▸ List.mem_singleton_self _

theorem startOfMain_once (fuel : Nat) (code : Code) (file : String) (channels : Channels) :
    (startOfMain fuel code file channels).config.machine.Has Once := by
  have hstarted : (startOfMain fuel code file channels).config.machine.started = [] := Machine.started_enter _ _ _
  rw [Machine.Has, hstarted]
  exact ⟨startOfMain_loaded fuel code file channels, List.not_mem_nil, List.nodup_nil, List.nil_subset _⟩

variable {env : Surroundings} {fuel : Nat} {bytes : Bytes} {code : Code} {file : String} {channels : Channels}

theorem runMain_of_code (hcode : Code.ofBytes bytes = .ok code) :
    runMain env fuel bytes file { channels } =
      (startOfMain fuel code file channels).config.run env code mainModule := by
  have henter : (startOfMain fuel code file channels).config.machine.enter mainModule code.file =
      (startOfMain fuel code file channels).config.machine :=
    Machine.enter_of_mem (startOfMain_loaded fuel code file channels)
  have hrun : runMain env fuel bytes file { channels } = runFrom env fuel code mainModule 0 []
      ((startOfMain fuel code file channels).config.machine.enter mainModule code.file) := by
    simp only [runMain, hcode]
    rfl
  rw [hrun, henter]
  rfl

theorem runMain_of_badCode {e : TargetError} (hcode : Code.ofBytes bytes = .error e) :
    runMain env fuel bytes file { channels } = (.error (.raised e), { channels }) := by
  simp only [runMain, hcode]
  rfl

theorem runMain_notAgain (env : Surroundings) (fuel : Nat) (bytes : Bytes) (file : String) (channels : Channels) :
    (runMain env fuel bytes file { channels }).2.Has NotAgain ∧
      ((runMain env fuel bytes file { channels }).1 = .ok () →
        (runMain env fuel bytes file { channels }).2.Has Once) := by
  cases hcode : Code.ofBytes bytes with
  | error e =>
      rw [runMain_of_badCode hcode]
      exact ⟨⟨List.not_mem_nil, List.nodup_nil⟩, nofun⟩
  | ok code =>
      have hstart := startOfMain_once fuel code file channels
      have hkeeps : Keeps (Machine.Has Once) (Machine.Has NotAgain) (runFrom env fuel code mainModule 0 []) :=
        runFrom_keeps survives_once fuel code mainModule 0 []
      rw [runMain_of_code hcode]
      rcases hx : (startOfMain fuel code file channels).config.run env code mainModule with ⟨e | _, x⟩
      · exact ⟨hkeeps.of_error hstart hx, nofun⟩
      · have hend : x.Has Once := hkeeps.of_ok hstart hx
        exact ⟨survives_once.failure hend, fun _ => hend⟩

/-- In the run of a main program imports start the code of no module twice, and that of the main module not at all.
Where the run ends well all modules whose code was started are loaded. At no moment of it are more modules being
executed, one inside the other, than are loaded. -/
theorem runMain_startsOnce (env : Surroundings) (fuel : Nat) (bytes : Bytes) (file : String) (channels : Channels) :
    let r := (host fuel).runMain bytes file env {} channels
    r.2.1.started.Nodup ∧ mainModule ∉ r.2.1.started ∧ (r.1 = .ok () → r.2.1.started ⊆ r.2.1.loaded) ∧
      ∀ code, Code.ofBytes bytes = .ok code →
        ∀ chain b, Descends env (startOfMain fuel code file channels) chain b →
          b.config.machine.started.Nodup ∧ chain.length ≤ b.config.machine.loaded.toFinset.card := by
  obtain ⟨⟨hmain, hnodup⟩, honce⟩ := runMain_notAgain env fuel bytes file channels
  refine ⟨hnodup, hmain, fun hend => (honce hend).stays, fun code _ chain b hdescends => ⟨?_, ?_⟩⟩
  · exact (hdescends.has survives_once (startOfMain_once fuel code file channels)).nodup
  · exact hdescends.length_le (startOfMain_loaded fuel code file channels)

/-! ### A circle of imports -/

/-- A package that imports a module in it, which imports the package. -/
def circle : Table.FrozenTable where
  entries := [.unit "a" (importsOf "a" ["a.b"]).toBytes true, .unit "a.b" (importsOf "b" ["a"]).toBytes false]

def inCircle : Surroundings := ⟨(Finder.ofConfig {} circle [] [0x4D, 0x49, 0x4E, 0x49]).find {}, [], {}⟩

/-- The machine after the start of the package, and after that of the module in it. -/
def packageStarted : Machine := ((Machine.enter mainModule "main" {}).enter "a" "<frozen>").noteStart "a"

def moduleStarted : Machine := (packageStarted.enter "a.b" "<frozen>").noteStart "a.b"

theorem descends_circle : Descends inCircle (startOfMain 9 (importsOf "main" ["a"]) "main" {}) ["a.b", "a", mainModule]
    (.start (importsOf "b" ["a"]) "a.b" 7 moduleStarted) := by
  have hpackage : Enters inCircle (startOfMain 9 (importsOf "main" ["a"]) "main" {})
      (.start (importsOf "a" ["a.b"]) "a" 8 packageStarted) := by
    have hfind : inCircle.find "a" = .ok ⟨"a", "<frozen>", true, .compiled (importsOf "a" ["a.b"]).toBytes⟩ := by cbv
    exact @Enters.loads _ _ _ _ "a" "a" _ _ 0 1 _ _ _ [] [] _ rfl rfl (by cbv) rfl (by cbv) hfind (by cbv)
  have hmodule : Enters inCircle (.start (importsOf "a" ["a.b"]) "a" 8 packageStarted)
      (.start (importsOf "b" ["a"]) "a.b" 7 moduleStarted) := by
    have hfind : inCircle.find "a.b" =
        .ok ⟨"a.b", "<frozen>", false, .compiled (importsOf "b" ["a"]).toBytes⟩ := by cbv
    exact @Enters.loads _ _ _ _ "a.b" "a.b" _ _ 0 1 _ _ _ ["a"] [] _ rfl rfl (by cbv) (by cbv) (by cbv) hfind (by cbv)
  exact .enters (.enters .here hpackage) hmodule

/-- The run ends well, and while the code of the inner module is executed three modules are loaded. -/
theorem runMain_startsOnce_circle :
    let r := (host 9).runMain (importsOf "main" ["a"]).toBytes "main" inCircle {} {}
    r.1 = .ok () ∧ r.2.1.started.Nodup ∧ r.2.1.started ⊆ r.2.1.loaded ∧ moduleStarted.started = ["a.b", "a"] ∧
      ["a.b", "a", mainModule].length ≤ moduleStarted.loaded.toFinset.card := by
  intro r
  have hend : r.1 = .ok () := by cbv
  have hcode : Code.ofBytes (importsOf "main" ["a"]).toBytes = .ok (importsOf "main" ["a"]) := by cbv
  obtain ⟨hnodup, _, hloaded, hmoments⟩ := runMain_startsOnce inCircle 9 (importsOf "main" ["a"]).toBytes "main" {}
  exact ⟨hend, hnodup, hloaded hend, rfl, (hmoments _ hcode _ _ descends_circle).2⟩

end Session

end Launcher.Script
