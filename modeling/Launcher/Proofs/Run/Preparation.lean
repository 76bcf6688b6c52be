import Launcher.Proofs.Action
import Launcher.Run.Dispatcher

/-!
# The launcher's own part of a run

A run is cut where the host comes in. Before that the launcher chooses a mode, settles the search path and loads the
target, or has answered or refused the command line; behind it the target is run, or interactive mode is.
-/

namespace Launcher

/-- What the host is to do for a run. -/
inductive Task where
  | interactive
  /-- There is a target that does not compile. -/
  | uncompiled (e : TargetError)
  | target (t : LoadedTarget)
deriving DecidableEq, Repr

/-- A task, with the mode it comes from, the finder for its imports, and whether interactive mode is to follow. -/
structure Job where
  mode : ExecutionMode
  task : Task
  finder : Finder
  inspect : Bool

namespace Dispatcher

variable {σ τ : Type} (d : Dispatcher σ τ)

/-! ## Before the host comes in -/

/-- Take account of the switches for output, and show the configuration. -/
def openRun : Boot σ τ Unit := do
  let s ← Action.get
  if s.context.flags.unbuffered then
    whenDebug 2 (log "Enabling unbuffered mode")
    Action.modify fun s => { s with streams := s.streams.setUnbuffered }
  whenDebug 1 (writeErr (Usage.debugInfo s.context d.config))
  setContext (·.enter .dispatching)

/-- Record the mode and what follows from it. -/
def settle (env : Environment) (mode : ExecutionMode) (argv : List String) : Boot σ τ Unit := do
  setContext fun c => { c with mode := some mode, argv }
  d.setupSearchPath env mode
  setContext (·.enter .executing)

/-- From a command line to the mode, with all settled for it. -/
def ready (i : Invocation) (line : ParsedCommandLine) : Boot σ τ ExecutionMode := do
  d.openRun
  let (mode, argv) ← d.selectMode line
  d.settle i.env mode argv
  Action.pure mode

/-- What is to be done once a target was loaded, or was not. -/
def jobOfLoading (mode : ExecutionMode) (inspect : Bool) (loading : Loading) : Boot σ τ Job :=
  match loading.result with
  | .ok none => Action.pure ⟨mode, .interactive, loading.finder, inspect⟩
  | .ok (some t) => Action.pure ⟨mode, .target t, loading.finder, inspect⟩
  | .error (.resolution e) => Action.fail (.resolution e.message)
  | .error (.target e) => Action.pure ⟨mode, .uncompiled e, loading.finder, inspect⟩

def announce (c : Context) (mode : ExecutionMode) : Boot σ τ Unit :=
  match announcement c mode with
  | some line => if 0 < c.flags.verbose then log line else Action.pure ()
  | none => Action.pure ()

/-- Load the target of a mode. -/
def loadJob (mode : ExecutionMode) : Boot σ τ Job := do
  let s ← Action.get
  let c := s.context
  announce c mode
  let loading := d.load c (Finder.ofConfig d.config d.table c.searchPath d.host.magic) mode
  setContext fun c => { c with argv := loading.argv }
  jobOfLoading mode c.flags.inspect loading

def jobOf (i : Invocation) (line : ParsedCommandLine) : Boot σ τ (Option Job) := do
  let mode ← d.ready i line
  let job ← d.loadJob mode
  Action.pure (some job)

/-- What a run of that name does for a command line. There is no job where the command line is answered. -/
def respond (i : Invocation) (program : String) : Except CommandLineError ParseOutcome → Boot σ τ (Option Job)
  | .error e => Action.fail (.ofCommandLine e)
  | .ok .help => do
    writeErr (Usage.help d.config)
    Action.pure none
  | .ok .version => do
    transfer (Streams.outLine d.config.versionLine)
    Action.pure none
  | .ok (.run line) => do
    line.warnings.forM fun w => writeErr (program ++ " warning: " ++ w ++ "\n")
    let interactive := line.positional.isEmpty && line.payload.isNone && i.stdinIsTerminal
    setContext fun c => { c with runMode := if interactive then .interactive else .script }
    d.jobOf i line

/-- All that a run does before the host comes in. -/
def prepare (i : Invocation) : Boot σ τ (Option Job) := do
  let s ← Action.get
  let c := s.context
  if !d.config.isRuntimeName c.programName then
    setContext fun c => { c with runMode := .appSelf }
    d.jobOf i { positional := i.args }
  else
    let (outcome, options) := CommandLine.parse c.flags c.filters i.args
    setContext fun c => { c with flags := options.flags, filters := options.filters }
    d.respond i c.programName outcome

/-! ## With the host -/

/-- What comes after the target. -/
def conclude (job : Job) : Ending → Boot σ τ Int
  | .ok () => if job.inspect then d.interact job.finder (Usage.banner d.config) else Action.pure 0
  | .error (.raised e) =>
    if job.inspect then do
      writeErr e.report
      d.interact job.finder ""
    else Action.fail (.target e)
  | ending => Action.ofExcept (statusOf ending)

def carryOut (job : Job) : Boot σ τ Int :=
  match job.task with
  | .interactive => d.interact job.finder (Usage.banner d.config)
  | .uncompiled e => d.conclude job (.error (.raised e))
  | .target t => d.runTarget job.finder job.mode t >>= d.conclude job

def complete : Option Job → Boot σ τ Int
  | none => Action.pure 0
  | some job => d.carryOut job

/-! ## Both parts together -/

theorem jobOfLoading_carryOut (mode : ExecutionMode) (inspect : Bool) (loading : Loading) :
    (jobOfLoading mode inspect loading : Boot σ τ Job) >>= d.carryOut =
      match loading.result with
      | .ok none => d.interact loading.finder (Usage.banner d.config)
      | .ok (some t) => d.runTarget loading.finder mode t >>= d.conclude ⟨mode, .target t, loading.finder, inspect⟩
      | .error (.resolution e) => Action.fail (.resolution e.message)
      | .error (.target e) => d.conclude ⟨mode, .uncompiled e, loading.finder, inspect⟩ (.error (.raised e)) := by
  unfold jobOfLoading
  rcases loading.result with (e | e) | (_ | t) <;> rfl

theorem execute_eq (mode : ExecutionMode) : d.execute mode = d.loadJob mode >>= d.carryOut := by
  unfold execute loadJob announce
  rw [Action.bind_assoc]
  congr 1
  funext s
  simp only [Action.bind_assoc, jobOfLoading_carryOut]
  rcases (d.load s.context (Finder.ofConfig d.config d.table s.context.searchPath d.host.magic) mode).result with
    (e | e) | (_ | t)
  all_goals
    rcases announcement s.context mode with _ | line
    · rfl
    · dsimp only
      split <;> rfl

theorem dispatch_eq_jobOf (i : Invocation) (line : ParsedCommandLine) :
    d.dispatch i line = d.jobOf i line >>= d.complete := by
  have hjob : d.jobOf i line >>= d.complete = d.ready i line >>= d.execute := by
    rw [funext d.execute_eq, jobOf]
    simp only [Action.bind_assoc]
    rfl
  rw [hjob]
  unfold dispatch ready openRun settle
  simp only [Action.bind_assoc]
  congr 1
  funext s
  -- The switch for output decides how the steps behind it associate.
  split
  · simp only [Action.bind_assoc]
    rfl
  · simp only [Action.bind_assoc]
    rfl

theorem bootstrap_eq (i : Invocation) : d.bootstrap i = d.prepare i >>= d.complete := by
  unfold bootstrap prepare
  rw [Action.bind_assoc]
  congr 1
  funext s
  dsimp only
  split
  · rw [Action.bind_assoc, funext (d.dispatch_eq_jobOf i)]
  · rw [Action.bind_assoc]
    congr 1
    funext _
    rcases (CommandLine.parse s.context.flags s.context.filters i.args).1 with e | line | _ | _
    · rfl
    · simp only [respond, Action.bind_assoc, dispatch_eq_jobOf]
    · rfl
    · simp only [respond, Action.bind_assoc]
      rfl

/-! ## Diagnostics change nothing but the streams -/

section Diagnostics

variable {x : Boot σ τ Unit}

/-- The computation comes to an end, and changes nothing but the streams. -/
def Talks (x : Boot σ τ Unit) : Prop := ∀ s, ∃ streams, x s = (.ok (), { s with streams })

theorem Talks.followedBy {α : Type} (hx : Talks x) (f : Unit → Boot σ τ α) (s : RunState σ τ) :
    ∃ streams, (x >>= f) s = f () { s with streams } := by
  obtain ⟨streams, hs⟩ := hx s
  exact ⟨streams, Action.bind_of_ok hs⟩

theorem writeErr_talks (text : String) : Talks (writeErr text : Boot σ τ Unit) := fun _ => ⟨_, rfl⟩

theorem log_talks (line : String) : Talks (log line : Boot σ τ Unit) := fun _ => ⟨_, rfl⟩

theorem logAll_talks (lines : List String) : Talks (logAll lines : Boot σ τ Unit) := by
  induction lines with
  | nil => exact fun s => ⟨s.streams, rfl⟩
  | cons line lines ih =>
      intro s
      obtain ⟨streams, hs⟩ := (log_talks line).followedBy (fun _ => logAll lines) s
      obtain ⟨streams', hs'⟩ := ih { s with streams }
      exact ⟨streams', hs.trans hs'⟩

theorem whenDebug_talks (hx : Talks x) (level : Nat) : Talks (whenDebug level x) := by
  intro s
  unfold whenDebug
  split
  · exact hx s
  · exact ⟨s.streams, rfl⟩

theorem announce_talks (c : Context) (mode : ExecutionMode) : Talks (announce c mode : Boot σ τ Unit) := by
  unfold announce
  split
  · split
    · exact log_talks _
    · exact fun s => ⟨s.streams, rfl⟩
  · exact fun s => ⟨s.streams, rfl⟩

end Diagnostics

/-! ## Loading -/

variable {d}

/-- Only interactive mode has nothing to load. -/
theorem load_interactive {c : Context} {f : Finder} {mode : ExecutionMode} (h : (d.load c f mode).result = .ok none) :
    mode = .interactive := by
  have hmap (loaded : Except LoadFailure LoadedTarget) : loaded.map some ≠ .ok none := by cases loaded <;> nofun
  cases mode with
  | interactive => rfl
  | script path => exact absurd h (hmap _)
  | codeFile path => exact absurd h (hmap _)
  | inlineString source => exact absurd h (hmap _)
  | codeString bytes => exact absurd h (hmap _)
  | module name =>
      unfold load at h
      dsimp only at h
      split at h
      · cases h
      · exact absurd h (hmap _)
  | pathEntry path =>
      unfold load at h
      dsimp only at h
      split at h <;> cases h
  | appSelf =>
      unfold load at h
      dsimp only at h
      split at h <;> cases h

/-- The errors of the target in what was loaded are errors of its compilation. -/
def FromCompiler {α : Type} (d : Dispatcher σ τ) (optimize : Nat) (loaded : Except LoadFailure α) : Prop :=
  ∀ e, loaded = .error (.target e) → ∃ source file, d.host.compile source file optimize = .error e

namespace FromCompiler

variable {α β : Type} {optimize : Nat}

theorem ok (a : α) : FromCompiler d optimize (.ok a) := nofun

theorem resolution (e : ResolutionError) : FromCompiler d optimize (.error (.resolution e) : Except LoadFailure α) :=
  nofun

theorem compile (source file : String) :
    FromCompiler d optimize ((d.host.compile source file optimize).mapError LoadFailure.target) := by
  intro e he
  rcases hcompile : d.host.compile source file optimize with e' | code
  · rw [hcompile] at he
    cases he
    exact ⟨source, file, hcompile⟩
  · rw [hcompile] at he
    cases he

theorem error {loaded : Except LoadFailure α} {e : LoadFailure} (h : FromCompiler d optimize loaded)
    (hfailed : loaded = .error e) : FromCompiler d optimize (.error e : Except LoadFailure β) := by
  intro e' he
  cases he
  exact h e' hfailed

theorem map {loaded : Except LoadFailure α} (h : FromCompiler d optimize loaded) (f : α → β) :
    FromCompiler d optimize (loaded.map f) := by
  cases loaded with
  | error e => exact h.error rfl
  | ok a => exact .ok _

theorem bind {loaded : Except LoadFailure α} {f : α → Except LoadFailure β} (h : FromCompiler d optimize loaded)
    (hf : ∀ a, FromCompiler d optimize (f a)) : FromCompiler d optimize (loaded >>= f) := by
  cases loaded with
  | error e => exact h.error rfl
  | ok a => exact hf a

end FromCompiler

theorem codeFromBytes_fromCompiler (optimize : Nat) (compiled : Bool) (origin : String) (content : Bytes) :
    FromCompiler d optimize (d.codeFromBytes optimize compiled origin content) := by
  unfold codeFromBytes
  split
  · split
    · exact .ok _
    · exact .resolution _
  · split
    · exact .compile _ _
    · exact .resolution _

theorem loadDirectory_fromCompiler (optimize : Nat) (path : Path) :
    FromCompiler d optimize (d.loadDirectory optimize path) := by
  unfold loadDirectory
  split
  · exact .resolution _
  · dsimp only
    split
    · exact .resolution _
    · exact (codeFromBytes_fromCompiler _ _ _ _).map _

theorem loadArchive_fromCompiler (optimize : Nat) (path : Path) (a : Zip.Archive) :
    FromCompiler d optimize (d.loadArchive optimize path a) := by
  unfold loadArchive
  split
  · exact .resolution _
  · dsimp only
    split
    · exact .resolution _
    · exact (codeFromBytes_fromCompiler _ _ _ _).map _

theorem loadPath_fromCompiler (optimize : Nat) (app : Bool) (path : Path) (f : Finder) :
    FromCompiler d optimize (d.loadPath optimize app path f) := by
  unfold loadPath
  split
  · exact (loadDirectory_fromCompiler _ _).map _
  · split
    · exact .resolution _
    · split
      · exact .resolution _
      · split
        · exact (loadArchive_fromCompiler _ _ _).map _
        · split
          · exact .resolution _
          · exact (codeFromBytes_fromCompiler _ _ _ _).map _

theorem moduleCode_fromCompiler (optimize : Nat) (name : String) (found : LocatedModule) :
    FromCompiler d optimize (d.moduleCode optimize name found) := by
  unfold moduleCode
  split
  · exact .ok _
  · exact (FromCompiler.compile _ _).map _
  · exact .resolution _

theorem checkEnclosing_fromCompiler (optimize : Nat) (f : Finder) (name : String) (parents : List String) :
    FromCompiler d optimize (d.checkEnclosing f name parents) := by
  induction parents with
  | nil => exact .ok _
  | cons parent parents ih =>
      unfold checkEnclosing
      split
      · exact .resolution _
      · split
        · exact ih
        · exact .resolution _

theorem locateMain_fromCompiler (optimize : Nat) (f : Finder) (name : String) :
    FromCompiler d optimize (d.locateMain f name) := by
  refine (checkEnclosing_fromCompiler optimize f name _).bind fun _ => ?_
  split
  · exact .resolution _
  · split
    · exact .ok _
    · dsimp only
      split
      · exact .ok _
      · exact .resolution _

theorem load_fromCompiler (c : Context) (f : Finder) (mode : ExecutionMode) :
    FromCompiler d c.flags.optimize (d.load c f mode).result := by
  cases mode with
  | interactive => exact .ok _
  | script path =>
      refine FromCompiler.map ?_ some
      split
      · exact .resolution _
      · exact (FromCompiler.compile _ _).map _
  | codeFile path =>
      refine FromCompiler.map ?_ some
      split
      · exact .resolution _
      · split
        · exact .ok _
        · exact .resolution _
  | inlineString source => exact ((FromCompiler.compile _ _).map _).map some
  | codeString bytes =>
      refine FromCompiler.map ?_ some
      split
      · exact .ok _
      · exact .resolution _
  | module name =>
      unfold load
      dsimp only
      split
      · rename_i hfailed
        exact (locateMain_fromCompiler _ f name).error hfailed
      · exact (moduleCode_fromCompiler _ _ _).map some
  | pathEntry path =>
      unfold load
      dsimp only
      split
      · exact .ok _
      · rename_i hfailed
        exact (loadPath_fromCompiler _ false path f).error hfailed
  | appSelf =>
      unfold load
      dsimp only
      split
      · exact .ok _
      · rename_i hfailed
        exact (loadPath_fromCompiler _ true c.executable f).error hfailed

/-! ## The job and the record -/

/-- A job is what the record of the run says, and what is said not to compile does not. -/
structure Suits (d : Dispatcher σ τ) (job : Job) (c : Context) : Prop where
  mode : c.mode = some job.mode
  inspect : c.flags.inspect = job.inspect
  interactive : job.task = .interactive → job.mode = .interactive
  uncompiled : ∀ e, job.task = .uncompiled e →
    ∃ source file, d.host.compile source file c.flags.optimize = .error e

variable {s t : RunState σ τ} {i : Invocation}

theorem setupSearchPath_mode {env : Environment} {mode : ExecutionMode} {u : Unit}
    (h : d.setupSearchPath env mode s = (.ok u, t)) : t.context.mode = s.context.mode := by
  obtain ⟨_, _, hget, h⟩ := Action.bind_eq_ok.mp h
  cases hget
  obtain ⟨_, _, hsite, h⟩ := Action.bind_eq_ok.mp h
  cases hsite
  obtain ⟨_, _, hdebug, h⟩ := Action.bind_eq_ok.mp h
  obtain ⟨streams, htalk⟩ := whenDebug_talks (logAll_talks _) 2 _
  cases hdebug.symm.trans htalk
  cases h
  rfl

theorem settle_mode {env : Environment} {mode : ExecutionMode} {argv : List String} {u : Unit}
    (h : d.settle env mode argv s = (.ok u, t)) : t.context.mode = some mode := by
  obtain ⟨_, _, hmode, h⟩ := Action.bind_eq_ok.mp h
  cases hmode
  obtain ⟨_, _, hpath, h⟩ := Action.bind_eq_ok.mp h
  cases h
  exact setupSearchPath_mode hpath

theorem ready_mode {line : ParsedCommandLine} {mode : ExecutionMode} (h : d.ready i line s = (.ok mode, t)) :
    t.context.mode = some mode := by
  obtain ⟨_, _, -, h⟩ := Action.bind_eq_ok.mp h
  obtain ⟨⟨mode', argv⟩, _, -, h⟩ := Action.bind_eq_ok.mp h
  obtain ⟨_, _, hsettle, h⟩ := Action.bind_eq_ok.mp h
  cases h
  exact settle_mode hsettle

theorem jobOfLoading_eq_ok {mode : ExecutionMode} {inspect : Bool} {loading : Loading} {job : Job}
    (h : jobOfLoading mode inspect loading s = (.ok job, t)) :
    t = s ∧ job.mode = mode ∧ job.inspect = inspect ∧ (job.task = .interactive → loading.result = .ok none) ∧
      ∀ e, job.task = .uncompiled e → loading.result = .error (.target e) := by
  unfold jobOfLoading at h
  rcases hresult : loading.result with (e | e) | (_ | target) <;> rw [hresult] at h <;> cases h
  · exact ⟨rfl, rfl, rfl, nofun, fun e' he => by cases he; rfl⟩
  · exact ⟨rfl, rfl, rfl, fun _ => rfl, nofun⟩
  · exact ⟨rfl, rfl, rfl, nofun, nofun⟩

theorem loadJob_suits {mode : ExecutionMode} {job : Job} (hs : s.context.mode = some mode)
    (h : d.loadJob mode s = (.ok job, t)) : d.Suits job t.context := by
  obtain ⟨_, _, hget, h⟩ := Action.bind_eq_ok.mp h
  cases hget
  obtain ⟨_, _, hannounce, h⟩ := Action.bind_eq_ok.mp h
  obtain ⟨streams, htalk⟩ := announce_talks s.context mode s
  cases hannounce.symm.trans htalk
  obtain ⟨_, _, hargv, h⟩ := Action.bind_eq_ok.mp h
  cases hargv
  obtain ⟨rfl, hmode, hinspect, hinteractive, huncompiled⟩ := jobOfLoading_eq_ok h
  exact ⟨hmode ▸ hs, hinspect.symm, fun htask => hmode.trans (load_interactive (hinteractive htask)),
    fun e he => load_fromCompiler s.context _ _ e (huncompiled e he)⟩

theorem jobOf_suits {line : ParsedCommandLine} {job : Option Job} (h : d.jobOf i line s = (.ok job, t)) :
    ∃ j, job = some j ∧ d.Suits j t.context := by
  obtain ⟨mode, _, hready, h⟩ := Action.bind_eq_ok.mp h
  obtain ⟨j, _, hload, h⟩ := Action.bind_eq_ok.mp h
  cases h
  exact ⟨j, rfl, loadJob_suits (ready_mode hready) hload⟩

/-- Standard output takes the version. -/
def TakesVersion (d : Dispatcher σ τ) (streams : Streams) : Prop :=
  (Streams.outLine d.config.versionLine streams).1 = .ok ()

/-- The command line is answered by itself, with the help text or with the version, which standard output takes. -/
def Answers (d : Dispatcher σ τ) (i : Invocation) (s : RunState σ τ) : Prop :=
  d.config.isRuntimeName s.context.programName = true ∧
    ((CommandLine.parse s.context.flags s.context.filters i.args).1 = .ok .help ∨
      (CommandLine.parse s.context.flags s.context.filters i.args).1 = .ok .version ∧ d.TakesVersion s.streams)

theorem transfer_of_ok {α : Type} {x : Streams.Transfer α} {a : α} (h : (x s.streams).1 = .ok a) :
    transfer x s = (.ok a, { s with streams := (x s.streams).2 }) := by
  rw [transfer]
  dsimp only
  rw [h]
  rfl

theorem transfer_of_error {α : Type} {x : Streams.Transfer α} {message : String}
    (h : (x s.streams).1 = .error message) :
    transfer x s = (.error (.streams message), { s with streams := (x s.streams).2 }) := by
  rw [transfer]
  dsimp only
  rw [h]
  rfl

theorem respond_version_iff {program : String} :
    (d.respond i program (.ok .version) s).1 = .ok none ↔ d.TakesVersion s.streams := by
  unfold TakesVersion
  simp only [respond]
  rcases h : (Streams.outLine d.config.versionLine s.streams).1 with message | _
  · rw [Action.bind_of_error (transfer_of_error h)]
    exact ⟨nofun, nofun⟩
  · rw [Action.bind_of_ok (transfer_of_ok h)]
    exact ⟨fun _ => rfl, fun _ => rfl⟩

theorem respond_none_iff {program : String} {outcome : Except CommandLineError ParseOutcome} :
    (d.respond i program outcome s).1 = .ok none ↔
      outcome = .ok .help ∨ outcome = .ok .version ∧ d.TakesVersion s.streams := by
  rcases outcome with e | line | _ | _
  · exact ⟨nofun, nofun⟩
  · refine ⟨fun h => ?_, nofun⟩
    obtain ⟨_, _, -, h⟩ := Action.bind_eq_ok.mp (Prod.ext h rfl)
    obtain ⟨_, _, -, h⟩ := Action.bind_eq_ok.mp h
    obtain ⟨_, hnone, -⟩ := jobOf_suits h
    cases hnone
  · exact ⟨fun _ => .inl rfl, fun _ => rfl⟩
  · rw [respond_version_iff]
    exact ⟨fun h => .inr ⟨rfl, h⟩, fun h => (h.resolve_left nofun).2⟩

theorem respond_suits {program : String} {outcome : Except CommandLineError ParseOutcome} {job : Job}
    (h : d.respond i program outcome s = (.ok (some job), t)) : d.Suits job t.context := by
  rcases outcome with e | line | _ | _
  · cases h
  · obtain ⟨_, _, -, h⟩ := Action.bind_eq_ok.mp h
    obtain ⟨_, _, -, h⟩ := Action.bind_eq_ok.mp h
    obtain ⟨_, hsome, hsuits⟩ := jobOf_suits h
    cases hsome
    exact hsuits
  · cases h
  · obtain ⟨_, _, -, h⟩ := Action.bind_eq_ok.mp h
    cases h

theorem prepare_of_runtime (h : d.config.isRuntimeName s.context.programName = true) :
    ∃ c, c.programName = s.context.programName ∧
      d.prepare i s = d.respond i s.context.programName
        (CommandLine.parse s.context.flags s.context.filters i.args).1 { s with context := c } := by
  unfold prepare
  rw [Action.bind_of_ok (Action.get_apply s)]
  dsimp only
  rw [h]
  exact ⟨{ s.context with
    flags := (CommandLine.parse s.context.flags s.context.filters i.args).2.flags
    filters := (CommandLine.parse s.context.flags s.context.filters i.args).2.filters }, rfl, rfl⟩

theorem prepare_of_app (h : ¬d.config.isRuntimeName s.context.programName = true) :
    d.prepare i s =
      d.jobOf i { positional := i.args } { s with context := { s.context with runMode := .appSelf } } := by
  unfold prepare
  rw [Action.bind_of_ok (Action.get_apply s)]
  dsimp only
  rw [Bool.eq_false_iff.mpr h]
  rfl

theorem prepare_none_iff : (d.prepare i s).1 = .ok none ↔ d.Answers i s := by
  by_cases hname : d.config.isRuntimeName s.context.programName = true
  · obtain ⟨_, -, hprepare⟩ := prepare_of_runtime (i := i) hname
    rw [hprepare, respond_none_iff]
    exact ⟨fun h => ⟨hname, h⟩, fun h => h.2⟩
  · have hprepare := prepare_of_app (i := i) hname
    refine ⟨fun h => ?_, fun h => absurd h.1 hname⟩
    rw [hprepare] at h
    obtain ⟨_, hnone, -⟩ := jobOf_suits (Prod.ext h rfl)
    cases hnone

theorem prepare_suits {job : Job} (h : d.prepare i s = (.ok (some job), t)) : d.Suits job t.context := by
  by_cases hname : d.config.isRuntimeName s.context.programName = true
  · obtain ⟨_, -, hprepare⟩ := prepare_of_runtime (i := i) hname
    exact respond_suits (hprepare.symm.trans h)
  · have hprepare := prepare_of_app (i := i) hname
    obtain ⟨_, hsome, hsuits⟩ := jobOf_suits (hprepare.symm.trans h)
    cases hsome
    exact hsuits

end Dispatcher

end Launcher
