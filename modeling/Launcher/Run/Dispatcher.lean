import Launcher.Action
import Launcher.Run.Error
import Launcher.Run.Usage
import Launcher.Search.Finder
import Launcher.Search.SearchPath

/-!
A run of the launcher. An executable with the name of the runtime reads its command line and runs
a script, a module or a text, or goes interactive; any other runs the archive appended to itself.
The search path is settled before the target is loaded. An error that the target does not catch
ends the run or, where that is asked for, is reported and followed by interactive mode.
-/
namespace Launcher

/-- What stays the same from run to run. `τ` is the state of the site expander. -/
structure Dispatcher (σ τ : Type) where
  config : Config
  table : Table.FrozenTable
  host : Host σ
  files : FileSystem
  site : SearchPath.Expander τ

/-- What a run changes. -/
structure RunState (σ τ : Type) where
  context : Context
  host : σ
  site : τ
  streams : Streams

/-- A step of a run. -/
abbrev Boot (σ τ α : Type) : Type := Action BootstrapError (RunState σ τ) α

/-- The status of a finished run and the record of it. -/
structure Completion where
  status : Int
  context : Context
deriving DecidableEq, Repr

/-- Code that is ready to run, and the name it goes by. -/
structure LoadedTarget where
  code : Bytes
  file : String
deriving DecidableEq, Repr

/-- Why there is no code: what is to be run is missing, or it does not compile. -/
inductive LoadFailure where
  | resolution (e : ResolutionError)
  | target (e : TargetError)
deriving DecidableEq, Repr

namespace Dispatcher

variable {σ τ : Type}

/-! ## Diagnostics -/

/-- Write a text to standard error. Whether it is taken makes no difference. -/
def writeErr (text : String) : Boot σ τ Unit :=
  Action.modify fun s => { s with streams := s.streams.tell text }

/-- Do something with the streams of the launcher. A failure of them ends the run. -/
def transfer {α : Type} (x : Streams.Transfer α) : Boot σ τ α := fun s =>
  let (result, streams) := x s.streams
  (result.mapError BootstrapError.streams, { s with streams })

def setContext (f : Context → Context) : Boot σ τ Unit :=
  Action.modify fun s => { s with context := f s.context }

def log (line : String) : Boot σ τ Unit := fun s =>
  writeErr (s.context.programName ++ ": " ++ line ++ "\n") s

def logAll (lines : List String) : Boot σ τ Unit :=
  match lines with
  | [] => Action.pure ()
  | line :: lines => do
    log line
    logAll lines

def whenDebug (level : Nat) (x : Boot σ τ Unit) : Boot σ τ Unit := fun s =>
  if level ≤ s.context.flags.debug then x s else (.ok (), s)

/-- The report of an error that ends a run. -/
def report (config : Config) (program : String) (e : BootstrapError) : String :=
  if e.wantsUsage then Usage.help config ++ "*** Error: " ++ e.message ++ "\n"
  else
    match e with
    | .target e => e.report
    | e => program ++ " error: " ++ e.message ++ "\n"

/-! ## Choosing what to run -/

/-- The mode and the target's arguments where a command line was read. The standard input is the
target if none is named. -/
def scriptMode (d : Dispatcher σ τ) (line : ParsedCommandLine) :
    Boot σ τ (ExecutionMode × List String) := do
  let s ← Action.get
  match line.payload with
  | some (.inlineString source) => Action.pure (.inlineString source, "-c" :: line.positional)
  | some (.module name) => Action.pure (.module name, name :: line.positional)
  | none =>
    match line.positional with
    | reference :: _ =>
      if reference = "-" then fromStdin s.context.flags line.positional
      else
        Action.pure (.ofReference d.config s.context.flags.bytecode reference, line.positional)
    | [] => fromStdin s.context.flags [""]
where
  /-- The target is what standard input holds. -/
  fromStdin (flags : Flags) (argv : List String) : Boot σ τ (ExecutionMode × List String) := do
    let bytes ← transfer Streams.readAll
    setContext fun c => { c with argv }
    if flags.bytecode then Action.pure (.codeString bytes, argv)
    else
      match Utf8.decode? bytes with
      | some source => Action.pure (.inlineString source, argv)
      | none => Action.fail (.resolution ResolutionError.stdinNotText.message)

/-- The mode and the target's arguments. -/
def selectMode (d : Dispatcher σ τ) (line : ParsedCommandLine) :
    Boot σ τ (ExecutionMode × List String) := do
  let s ← Action.get
  match s.context.runMode with
  | .appSelf => Action.pure (.appSelf, s.context.executable.text :: line.positional)
  | .interactive => Action.pure (.interactive, [""])
  | .script | .undetermined => d.scriptMode line

/-- Settle the search path. -/
def setupSearchPath (d : Dispatcher σ τ) (env : Environment) (mode : ExecutionMode) :
    Boot σ τ Unit := do
  let s ← Action.get
  let c := s.context
  let script := if mode = .appSelf then some c.executable else mode.scriptReference?
  let inputs : PathInputs :=
    { script, cwd := c.cwd, env, names := d.config.env, flags := c.flags
      installation := Installation.locate d.files c.executable d.config env.home? }
  let (resolved, site) := SearchPath.resolve d.files d.site inputs s.site
  Action.modify fun s => { s with site }
  whenDebug 2 <| logAll <|
    ["Setting up search path", "  search path before cleanup:"] ++
    resolved.candidates.map (fun p => "    " ++ p.text) ++
    ["  search path final version:"] ++
    resolved.entries.map (fun p => "    " ++ p.text) ++
    resolved.directives.map (fun line => "  site directive not executed: " ++ line)
  setContext fun c =>
    { c with searchPath := resolved.entries, directives := resolved.directives }

/-! ## Loading -/

/-- Code from the content of a file. -/
def codeFromBytes (d : Dispatcher σ τ) (optimize : Nat) (compiled : Bool) (origin : String)
    (content : Bytes) : Except LoadFailure Bytes :=
  if compiled then
    match stripHeader? d.host.magic content with
    | some code => .ok code
    | none => .error (.resolution (.incompatibleFile origin))
  else
    match Utf8.decode? content with
    | some source => (d.host.compile source origin optimize).mapError .target
    | none => .error (.resolution (.notText origin))

/-- The files that can be the entry point of a directory or an archive, and whether they are
compiled. -/
def entryFiles (d : Dispatcher σ τ) : List (String × Bool) :=
  d.config.sourceSuffixes.map (fun s => (d.config.entryPoint ++ s, false)) ++
    d.config.bytecodeSuffixes.map (fun s => (d.config.entryPoint ++ s, true))

def missingEntry (d : Dispatcher σ τ) (path : Path) : LoadFailure :=
  .resolution (.missingEntry path.text d.config.entryPoint)

/-- The entry point of a directory. -/
def loadDirectory (d : Dispatcher σ τ) (optimize : Nat) (path : Path) :
    Except LoadFailure LoadedTarget :=
  match d.entryFiles.find? fun (file, _) => d.files.isFile (path.join file) with
  | none => .error (d.missingEntry path)
  | some (file, compiled) =>
    let origin := (path.join file).text
    match d.files.read (path.join file) with
    | .error _ => .error (.resolution (.unreadableScript origin))
    | .ok content =>
      (d.codeFromBytes optimize compiled origin content).map fun code => ⟨code, origin⟩

/-- The entry point of an archive. -/
def loadArchive (d : Dispatcher σ τ) (optimize : Nat) (path : Path) (a : Zip.Archive) :
    Except LoadFailure LoadedTarget :=
  match d.entryFiles.find? fun (member, _) => a.contains member with
  | none => .error (d.missingEntry path)
  | some (member, compiled) =>
    let origin := path.text ++ "/" ++ member
    match a.read path.text member with
    | .error e => .error (.resolution (.couldNotRun path.text e.message))
    | .ok content =>
      (d.codeFromBytes optimize compiled origin content).map fun code => ⟨code, origin⟩

/-- A directory or an archive, which then heads the search path, or a file of another type. -/
def loadPath (d : Dispatcher σ τ) (optimize : Nat) (app : Bool) (path : Path) (f : Finder) :
    Except LoadFailure (LoadedTarget × Finder) :=
  if d.files.isDir path then
    (d.loadDirectory optimize path).map fun t => (t, f.prepend path)
  else if !d.files.isFile path then .error (.resolution (.unreadableScript path.text))
  else
    match d.files.read path with
    | .error e => .error (.resolution (.unreadableArchive path.text e.message))
    | .ok content =>
      match Zip.Archive.ofBytes? content with
      | some a => (d.loadArchive optimize path a).map fun t => (t, f.prepend path)
      | none =>
        if app then .error (.resolution (.missingArchive path.text))
        else
          (d.codeFromBytes optimize false path.text content).map fun code =>
            (⟨code, path.text⟩, f)

/-- The names of the packages that enclose a module, the outermost first. -/
def enclosing (name : String) : List String :=
  let components := name.splitOn "."
  (List.range (components.length - 1)).map fun i => ".".intercalate (components.take (i + 1))

/-- Every enclosing package must be found and be a package. -/
def checkEnclosing (d : Dispatcher σ τ) (f : Finder) (name : String) :
    List String → Except LoadFailure Unit
  | [] => .ok ()
  | parent :: parents =>
    match f.find d.files parent with
    | .error e => .error (.resolution (.couldNotRun name e.message))
    | .ok found =>
      if found.isPackage then checkEnclosing d f name parents
      else
        .error (.resolution (.couldNotRun name
          ("No module named '" ++ name ++ "'; '" ++ parent ++ "' is not a package")))

/-- The module that is run for a name: the module itself or, for a package, its entry point. -/
def locateMain (d : Dispatcher σ τ) (f : Finder) (name : String) :
    Except LoadFailure LocatedModule := do
  d.checkEnclosing f name (enclosing name)
  match f.find d.files name with
  | .error e => .error (.resolution (.couldNotRun name e.message))
  | .ok found =>
    if !found.isPackage then .ok found
    else
      let main := name ++ "." ++ d.config.entryPoint
      match f.find d.files main with
      | .ok found => .ok found
      | .error _ =>
        .error (.resolution (.couldNotRun name
          ("No module named '" ++ main ++ "'; '" ++ name ++
            "' is a package and cannot be directly executed")))

/-- The code of the module that is run for a name. -/
def moduleCode (d : Dispatcher σ τ) (optimize : Nat) (name : String) (found : LocatedModule) :
    Except LoadFailure LoadedTarget :=
  match found.code with
  | .compiled code => .ok ⟨code, found.origin⟩
  | .source text =>
    ((d.host.compile text found.origin optimize).mapError .target).map fun code =>
      ⟨code, found.origin⟩
  | .namespacePackage =>
    .error (.resolution (.couldNotRun name
      ("'" ++ found.name ++ "' is a namespace package without code")))

/-- Put the place of a module in front of the target's arguments. -/
def replaceFirst (argv : List String) (origin : String) : List String :=
  match argv with
  | [] => []
  | _ :: rest => origin :: rest

/-- How a mode is announced. -/
def announcement (c : Context) : ExecutionMode → Option String
  | .interactive => none
  | .script path => some ("Running '" ++ path.text ++ "' as script")
  | .codeFile path => some ("Running '" ++ path.text ++ "' as bytecode file")
  | .inlineString _ => some "Running inline string"
  | .codeString _ => some "Running bytecode string"
  | .module name => some ("Running '" ++ name ++ "' as module")
  | .pathEntry path => some ("Running '" ++ path.text ++ "' as path")
  | .appSelf => some ("Running '" ++ c.executable.text ++ "' as path")

/-- What is loaded: nothing in interactive mode, else code, the finder for its imports and its
arguments. The arguments change also when the code of a module does not compile. -/
structure Loading where
  result : Except LoadFailure (Option LoadedTarget)
  finder : Finder
  argv : List String

/-- Load the target. -/
def load (d : Dispatcher σ τ) (c : Context) (f : Finder) (mode : ExecutionMode) : Loading :=
  let optimize := c.flags.optimize
  let plain (result : Except LoadFailure LoadedTarget) : Loading := ⟨result.map some, f, c.argv⟩
  let fromPath (result : Except LoadFailure (LoadedTarget × Finder)) : Loading :=
    match result with
    | .ok (target, f) => ⟨.ok (some target), f, c.argv⟩
    | .error e => ⟨.error e, f, c.argv⟩
  match mode with
  | .interactive => ⟨.ok none, f, c.argv⟩
  | .script path => plain <|
    match (d.files.read path).toOption.bind Utf8.decode? with
    | none => .error (.resolution (.unreadableScript path.text))
    | some source =>
      ((d.host.compile source path.text optimize).mapError .target).map fun code =>
        ⟨code, path.text⟩
  | .codeFile path => plain <|
    match d.files.read path with
    | .error _ => .error (.resolution (.unreadableScript path.text))
    | .ok content =>
      match stripHeader? d.host.magic content with
      | some code => .ok ⟨code, path.text⟩
      | none => .error (.resolution (.incompatibleFile path.text))
  | .inlineString source =>
    let file := if c.argv.head? = some "-c" then "<string>" else "<stdin>"
    plain (((d.host.compile source file optimize).mapError .target).map fun code => ⟨code, file⟩)
  | .codeString bytes => plain <|
    match stripHeader? d.host.magic bytes with
    | some code => .ok ⟨code, "<stdin>"⟩
    | none => .error (.resolution .incompatibleString)
  | .module name =>
    match d.locateMain f name with
    | .error e => ⟨.error e, f, c.argv⟩
    | .ok found =>
      ⟨(d.moduleCode optimize name found).map some, f, replaceFirst c.argv found.origin⟩
  | .pathEntry path => fromPath (d.loadPath optimize false path f)
  | .appSelf => fromPath (d.loadPath optimize true c.executable f)

/-! ## Execution -/

/-- Let the host work with the streams and the warning filters of the run. -/
def lend (x : σ → Channels → Ending × σ × Channels) : Boot σ τ Ending := fun s =>
  let (ending, host, channels) := x s.host ⟨s.context.filters, s.streams⟩
  let context := { s.context with filters := channels.filters }
  (.ok ending, { s with host := host, streams := channels.streams, context := context })

def surroundings (d : Dispatcher σ τ) (c : Context) (f : Finder) : Surroundings :=
  ⟨f.find d.files, c.argv, c.flags⟩

/-- The status of an ending, or the error that ends the run. -/
def statusOf : Ending → Except BootstrapError Int
  | .ok () => .ok 0
  | .error (.exit status) => .ok status
  | .error (.raised e) => .error (.target e)
  | .error .exhausted => .error .exhausted

/-- Interactive mode. -/
def interact (d : Dispatcher σ τ) (f : Finder) (banner : String) : Boot σ τ Int := do
  let s ← Action.get
  let ending ← lend (d.host.interact banner (d.surroundings s.context f))
  Action.ofExcept (statusOf ending)

/-- Run code that was loaded. -/
def runTarget (d : Dispatcher σ τ) (f : Finder) (mode : ExecutionMode) (t : LoadedTarget) :
    Boot σ τ Ending := do
  let s ← Action.get
  whenDebug 2 <| logAll
    ["Executing '" ++ t.file ++ "' in mode '" ++ mode.kind ++ "'",
      "  argv=" ++ debugList s.context.argv,
      "  path=" ++ debugList (f.searchPath.map Path.text)]
  lend (d.host.runMain t.code t.file (d.surroundings s.context f))

/-- Load the target and run it. -/
def execute (d : Dispatcher σ τ) (mode : ExecutionMode) : Boot σ τ Int := do
  let s ← Action.get
  let c := s.context
  let f := Finder.ofConfig d.config d.table c.searchPath d.host.magic
  match announcement c mode with
  | some line => if 0 < c.flags.verbose then log line
  | none => Action.pure ()
  let loading := d.load c f mode
  setContext fun c => { c with argv := loading.argv }
  let f := loading.finder
  let banner := Usage.banner d.config
  let ending ←
    match loading.result with
    | .ok none => return ← d.interact f banner
    | .ok (some target) => d.runTarget f mode target
    | .error (.resolution e) => Action.fail (.resolution e.message)
    | .error (.target e) => Action.pure (.error (.raised e))
  match ending with
  | .ok () => if c.flags.inspect then d.interact f banner else Action.pure 0
  | .error (.raised e) =>
    if c.flags.inspect then do
      writeErr e.report
      d.interact f ""
    else Action.fail (.target e)
  | ending => Action.ofExcept (statusOf ending)

/-! ## The run -/

/-- Choose a mode for a command line and carry it out. -/
def dispatch (d : Dispatcher σ τ) (i : Invocation) (line : ParsedCommandLine) : Boot σ τ Int := do
  let s ← Action.get
  if s.context.flags.unbuffered then
    whenDebug 2 (log "Enabling unbuffered mode")
    Action.modify fun s => { s with streams := s.streams.setUnbuffered }
  whenDebug 1 (writeErr (Usage.debugInfo s.context d.config))
  setContext (·.enter .dispatching)
  let (mode, argv) ← d.selectMode line
  setContext fun c => { c with mode := some mode, argv }
  d.setupSearchPath i.env mode
  setContext (·.enter .executing)
  d.execute mode

/-- From the start to the status. -/
def bootstrap (d : Dispatcher σ τ) (i : Invocation) : Boot σ τ Int := do
  let s ← Action.get
  let c := s.context
  if !d.config.isRuntimeName c.programName then
    setContext fun c => { c with runMode := .appSelf }
    d.dispatch i { positional := i.args }
  else
    let (outcome, options) := CommandLine.parse c.flags c.filters i.args
    setContext fun c => { c with flags := options.flags, filters := options.filters }
    match outcome with
    | .error e => Action.fail (.ofCommandLine e)
    | .ok .help =>
      writeErr (Usage.help d.config)
      Action.pure 0
    | .ok .version =>
      transfer (Streams.outLine d.config.versionLine)
      Action.pure 0
    | .ok (.run line) =>
      line.warnings.forM fun w => writeErr (c.programName ++ " warning: " ++ w ++ "\n")
      let interactive := line.positional.isEmpty && line.payload.isNone && i.stdinIsTerminal
      setContext fun c => { c with runMode := if interactive then .interactive else .script }
      d.dispatch i line

/-- The record that a run starts with. -/
def startContext (d : Dispatcher σ τ) (i : Invocation) : Context :=
  { programName := i.executable.fileName?.getD d.config.name
    executable := i.executable
    cwd := i.cwd
    flags := Flags.ofEnvironment i.env d.config.env }

/-- Run once, from the given states of host, site expander and streams on. At the end all output is passed on. Whether
it is taken makes no difference. -/
def run (d : Dispatcher σ τ) (i : Invocation) (host : σ) (site : τ) (streams : Streams) :
    Completion × RunState σ τ :=
  let finish (status : Int) (s : RunState σ τ) : Completion × RunState σ τ :=
    let s := { s with context := s.context.enter .exited, streams := (Streams.flush s.streams).2 }
    (⟨status, s.context⟩, s)
  match d.bootstrap i ⟨d.startContext i, host, site, streams⟩ with
  | (.ok status, s) => finish status s
  | (.error e, s) =>
    let text := report d.config s.context.programName e
    finish e.exitCode { s with streams := s.streams.tell text }

end Dispatcher

end Launcher
