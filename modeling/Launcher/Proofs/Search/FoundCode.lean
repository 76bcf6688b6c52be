import Launcher.Proofs.Search.Shelves

/-!
# The code that is found on one shelf

With one entry on the search path, the code for a name depends only on the files of the shelf in which a module is
looked for: a directory without code is found there or not, but has none.
-/

namespace Launcher.Finder

/-- The code of a module that was found, and whether it is a package. Directories of modules have none. -/
def foundCode : Except ImportError LocatedModule → Option (Bool × ModuleCode)
  | .ok m => if m.code = .namespacePackage then none else some (m.isPackage, m.code)
  | .error _ => none

theorem foundCode_outcome (r : Except ImportError LocatedModule) : foundCode (outcome r) = foundCode r := by
  cases r <;> rfl

section

variable {f : Finder} {fs fs' : FileSystem} {name relative : String} {s s' : Shelf} {entry entry' : Path}

theorem foundCode_search_nil (package : Option String) : foundCode (f.search fs name relative package []) = none := by
  cases package <;> rfl

/-- The code of the first file that could hold the module. -/
theorem foundCode_search (h : shelf? fs entry = .ok (some s)) :
    foundCode (f.search fs name relative none [entry]) =
      ((f.candidates relative).find? (s.hasFile ·.file)).bind fun c =>
        match s.read c.file with
        | .ok content => foundCode (f.located name (s.origin c.file) c content)
        | .error _ => none := by
  rw [search_of_shelf h, onShelf]
  cases (f.candidates relative).find? (s.hasFile ·.file) with
  | none => exact foundCode_search_nil _
  | some c =>
      simp only [Option.bind_some]
      cases s.read c.file with
      | error e => rfl
      | ok content => simp only [afterShelf_map_some]

/-- Shelves with the same files in which the module is looked for have the same code for it. -/
theorem foundCode_search_congr (hs : shelf? fs entry = .ok (some s)) (hs' : shelf? fs' entry' = .ok (some s'))
    (hfile : ∀ c ∈ f.candidates relative, s.hasFile c.file = s'.hasFile c.file)
    (hread : ∀ c ∈ f.candidates relative, s.hasFile c.file = true → s.read c.file = s'.read c.file) :
    foundCode (f.search fs name relative none [entry]) = foundCode (f.search fs' name relative none [entry']) := by
  rw [foundCode_search hs, foundCode_search hs', ← List.find?_congr hfile]
  cases hc : (f.candidates relative).find? (s.hasFile ·.file) with
  | none => rfl
  | some c =>
      have hthere : s.hasFile c.file = true := by simpa using List.find?_some hc
      simp only [Option.bind_some, ← hread c (List.mem_of_find?_eq_some hc) hthere]
      cases s.read c.file with
      | error e => rfl
      | ok content =>
          have hsame := congrArg foundCode (f.outcome_located name (s.origin c.file) (s'.origin c.file) c content)
          rwa [foundCode_outcome, foundCode_outcome] at hsame

end

end Launcher.Finder
