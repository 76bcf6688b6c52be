import Launcher.Search.Installation
import Launcher.Search.Site

/-!
The search path of a run: the directory of the script, the elements of the path variable, the
library and its native extensions, and the site directories.
-/
namespace Launcher

/-- What the search path depends on. -/
structure PathInputs where
  /-- What is run, if it has a place in the file system. -/
  script : Option Path
  cwd : Path
  env : Environment
  names : EnvNames
  flags : Flags
  installation : Installation

structure ResolvedPath where
  /-- All paths that were named. -/
  candidates : List Path := []
  /-- Those that exist. -/
  entries : List Path := []
  directives : List String := []
deriving DecidableEq, Repr

namespace SearchPath

/-- Expands site directories: the directory, the paths that are known, and a state. -/
abbrev Expander (σ : Type) := Path → List Path → σ → SiteExpansion × σ

def normalizeIn (i : PathInputs) (text : String) : Path := Path.normalize i.cwd i.env.home? text

/-- The directory that holds the script, or the working directory. -/
def scriptBlock (i : PathInputs) : List Path :=
  if i.flags.safePath then []
  else
    match i.script with
    | some script =>
      let script := normalizeIn i script.text
      [script.parent?.getD script]
    | none => [normalizeIn i i.cwd.text]

def variableBlock (i : PathInputs) : List Path :=
  if i.flags.ignoreEnvironment then []
  else
    match i.env.get? i.names.path with
    | some value => (value.splitOn ":").map (normalizeIn i)
    | none => []

def libraryBlock (i : PathInputs) : List Path :=
  [normalizeIn i i.installation.lib.text, normalizeIn i i.installation.libDynload.text]

def siteDirectories (i : PathInputs) : List Path :=
  let user :=
    if i.flags.skipSiteMain ∨ i.flags.skipUserSite then [] else i.installation.userSite.toList
  normalizeIn i i.installation.sitePackages.text :: user

/-- Add the members of `more` that are not there yet. -/
def addNew (paths more : List Path) : List Path :=
  more.foldl (fun paths p => if Site.isKnown paths p then paths else paths ++ [p]) paths

/-- Add site directories, as they are or expanded. -/
def addSites {σ : Type} (expander : Expander σ) (verbatim : Bool) :
    List Path → List Path × List String → σ → (List Path × List String) × σ
  | [], found, s => (found, s)
  | dir :: dirs, (paths, directives), s =>
    if verbatim then addSites expander verbatim dirs (paths ++ [dir], directives) s
    else
      let (e, s) := expander dir paths s
      addSites expander verbatim dirs (addNew paths e.directories, directives ++ e.directives) s

/-- The search path, with site directories expanded by `expander`. -/
def resolve {σ : Type} (fs : FileSystem) (expander : Expander σ) (i : PathInputs) (s : σ) :
    ResolvedPath × σ :=
  let start := scriptBlock i ++ variableBlock i ++ libraryBlock i
  let ((candidates, directives), s) :=
    addSites expander i.flags.ignorePthFiles (siteDirectories i) (start, []) s
  (⟨candidates, candidates.filter fs.pathExists, directives⟩, s)

/-- Expands a site directory by the path files in it. -/
def pthExpander (fs : FileSystem) : Expander Unit := fun dir known _ =>
  (Site.expand fs dir known, ())

end SearchPath

end Launcher
