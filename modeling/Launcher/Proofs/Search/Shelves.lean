import Launcher.Search.Finder
import Mathlib.Data.List.Find
import Mathlib.Data.List.Forall2

/-!
# Search paths with the same on their shelves

What is found for a name depends on what is on the shelves of the search path, and not on how it is stored there.
Only the places that are shown may be others.
-/

namespace Launcher

def ImportError.withoutOrigin : ImportError → ImportError
  | .badBytecode _ => .badBytecode ""
  | .unreadable _ error => .unreadable "" error
  | e => e

def LocatedModule.withoutOrigin (m : LocatedModule) : LocatedModule := { m with origin := "" }

namespace Finder

/-- What is found, or the error, apart from the place that is shown. -/
def outcome (r : Except ImportError LocatedModule) : Except ImportError LocatedModule :=
  (r.map LocatedModule.withoutOrigin).mapError ImportError.withoutOrigin

@[simp] theorem outcome_ok (m : LocatedModule) : outcome (.ok m) = .ok m.withoutOrigin := rfl

@[simp] theorem outcome_error (e : ImportError) : outcome (.error e) = .error e.withoutOrigin := rfl

theorem outcome_located (f : Finder) (name origin origin' : String) (c : Candidate) (content : Bytes) :
    outcome (f.located name origin c content) = outcome (f.located name origin' c content) := by
  unfold located
  split <;> split <;> rfl

/-- The shelves have the same in the places where a module can be. -/
structure Shelf.Agrees (f : Finder) (relative : String) (s s' : Shelf) : Prop where
  hasFile : ∀ c ∈ f.candidates relative, s.hasFile c.file = s'.hasFile c.file
  read : ∀ c ∈ f.candidates relative, s.hasFile c.file = true → s.read c.file = s'.read c.file
  hasDir : s.hasDir relative = s'.hasDir relative

variable {f : Finder} {fs : FileSystem} {name relative : String} {s s' : Shelf} {package package' : Option String}
  {entry entry' : Path} {entries entries' : List Path}

theorem Shelf.Agrees.refl (f : Finder) (relative : String) (s : Shelf) : s.Agrees f relative s :=
  ⟨fun _ _ => rfl, fun _ _ _ => rfl, rfl⟩

theorem shelf?_directory (hdir : fs.isDir entry = true) : shelf? fs entry = .ok (some (directoryShelf fs entry)) := by
  rw [shelf?, if_pos hdir]

theorem search_of_error {e : ImportError} (h : shelf? fs entry = .error e) :
    f.search fs name relative package (entry :: entries) = .error e := by
  cases package <;> simp only [search, h] <;> rfl

theorem search_of_none (h : shelf? fs entry = .ok none) :
    f.search fs name relative package (entry :: entries) = f.search fs name relative package entries := by
  cases package <;> simp only [search, h] <;> rfl

/-- How a search goes on after a shelf. -/
def afterShelf (f : Finder) (fs : FileSystem) (name relative : String) (package : Option String) (entries : List Path)
    (s : Shelf) : Except ImportError (Option LocatedModule) → Except ImportError LocatedModule
  | .error e => .error e
  | .ok (some found) => .ok found
  | .ok none =>
    f.search fs name relative (package.or (if s.hasDir relative then some (s.origin relative) else none)) entries

theorem search_of_shelf (h : shelf? fs entry = .ok (some s)) :
    f.search fs name relative package (entry :: entries) =
      afterShelf f fs name relative package entries s (f.onShelf name relative s) := by
  cases package <;> simp only [search, h, bind, Except.bind] <;>
    rcases f.onShelf name relative s with e | _ | found <;> rfl

theorem afterShelf_map_some (r : Except ImportError LocatedModule) :
    afterShelf f fs name relative package entries s (r.map some) = r := by
  cases r <;> rfl

/-- Behind shelves that agree, searches go on in the same way. -/
theorem outcome_afterShelf (hs : s.Agrees f relative s')
    (hrest : ∀ package package' : Option String, package.isSome = package'.isSome →
      outcome (f.search fs name relative package entries) = outcome (f.search fs name relative package' entries'))
    (hpackage : package.isSome = package'.isSome) :
    outcome (afterShelf f fs name relative package entries s (f.onShelf name relative s)) =
      outcome (afterShelf f fs name relative package' entries' s' (f.onShelf name relative s')) := by
  have hfind : (f.candidates relative).find? (s'.hasFile ·.file) = (f.candidates relative).find? (s.hasFile ·.file) :=
    List.find?_congr fun c hc => (hs.hasFile c hc).symm
  cases hc : (f.candidates relative).find? (s.hasFile ·.file) with
  | none =>
      simp only [onShelf, hfind, hc]
      refine hrest _ _ ?_
      rw [Option.isSome_or, Option.isSome_or, hpackage, hs.hasDir]
      split <;> rfl
  | some c =>
      have hhas : s.hasFile c.file = true := by simpa using List.find?_some hc
      have hread := hs.read c (List.mem_of_find?_eq_some hc) hhas
      simp only [onShelf, hfind, hc, ← hread]
      cases s.read c.file with
      | error e => rfl
      | ok content =>
          simp only [afterShelf_map_some]
          exact f.outcome_located name (s.origin c.file) (s'.origin c.file) c content

/-- The entries are the same, or have shelves that agree. -/
def Alike (f : Finder) (fs : FileSystem) (relative : String) (entry entry' : Path) : Prop :=
  entry = entry' ∨ ∃ s s', shelf? fs entry = .ok (some s) ∧ shelf? fs entry' = .ok (some s') ∧ s.Agrees f relative s'

theorem outcome_search (h : List.Forall₂ (Alike f fs relative) entries entries')
    (hpackage : package.isSome = package'.isSome) :
    outcome (f.search fs name relative package entries) = outcome (f.search fs name relative package' entries') := by
  induction h generalizing package package' with
  | nil => cases package <;> cases package' <;> first | rfl | cases hpackage
  | @cons entry _ _ _ hentry _ ih =>
      rcases hentry with rfl | ⟨s, s', hs, hs', hagrees⟩
      · rcases hshelf : shelf? fs entry with e | _ | s
        · rw [search_of_error hshelf, search_of_error hshelf]
        · rw [search_of_none hshelf, search_of_none hshelf]
          exact ih hpackage
        · rw [search_of_shelf hshelf, search_of_shelf hshelf]
          exact outcome_afterShelf (.refl f relative s) (fun _ _ h => ih h) hpackage
      · rw [search_of_shelf hs, search_of_shelf hs']
        exact outcome_afterShelf hagrees (fun _ _ h => ih h) hpackage

/-- A search is told which entries to look through. -/
theorem search_searchPath (searchPath : List Path) :
    search { f with searchPath } fs name relative package entries = f.search fs name relative package entries := by
  induction entries generalizing package with
  | nil => cases package <;> rfl
  | cons entry entries ih =>
      rcases hshelf : shelf? fs entry with e | _ | s
      · rw [search_of_error hshelf, search_of_error hshelf]
      · rw [search_of_none hshelf, search_of_none hshelf, ih]
      · rw [search_of_shelf hshelf, search_of_shelf hshelf]
        have honShelf : onShelf { f with searchPath } name relative s = f.onShelf name relative s := rfl
        rw [honShelf]
        rcases f.onShelf name relative s with e | _ | found
        · rfl
        · exact ih
        · rfl

end Finder

end Launcher
