import Launcher.Proofs.Search.Shelves

/-!
# Search paths one behind the other

A search path in two parts is searched from left to right. Code, or an error on the way to it, ends the search; a
directory without code gives way to both; and where the first part has nothing the second alone counts. So an entry that
is put in front matters only for names that are found there.
-/

namespace Launcher

namespace Finder

/-- No entry further on can change the result: it is a module with code, or an error other than that there is none. -/
def decides : Except ImportError LocatedModule → Bool
  | .ok found => found.code ≠ .namespacePackage
  | .error (.notFound _) => false
  | .error _ => true

/-- What is found where `r` comes first, and then `r'`. -/
def before (r r' : Except ImportError LocatedModule) : Except ImportError LocatedModule :=
  if decides r then r
  else
    match r with
    | .ok _ => if decides r' then r' else r
    | .error _ => r'

variable {f : Finder} {fs : FileSystem} {name relative : String} {package : Option String} {entry : Path}
  {entries paths more : List Path} {r r' : Except ImportError LocatedModule} {s : Shelf} {e : ImportError}
  {found : LocatedModule}

theorem before_of_decides (h : decides r = true) : before r r' = r := if_pos h

theorem before_notFound (n : String) : before (.error (.notFound n)) r' = r' := rfl

theorem before_namespacePackage (h : found.code = .namespacePackage) :
    before (.ok found) r' = if decides r' then r' else .ok found := by
  rw [before, if_neg (by simp [decides, h])]

/-! ## What an entry gives -/

theorem decides_of_located {origin : String} {c : Candidate} {content : Bytes} :
    decides (f.located name origin c content) = true := by
  unfold located
  split <;> split <;> rfl

theorem decides_of_shelf? (h : shelf? fs entry = .error e) : decides (.error e) = true := by
  unfold shelf? at h
  split at h
  · cases h
  · split at h
    · split at h <;> cases h
      rfl
    · cases h

/-- What a shelf gives is a module with code or an error on the way to it. -/
theorem decides_of_onShelf (h : f.onShelf name relative s = r.map some) : decides r = true := by
  have hmap {x y : Except ImportError LocatedModule} (h : x.map some = y.map some) : x = y := by
    cases x <;> cases y <;> cases h <;> rfl
  unfold onShelf at h
  split at h
  · cases r <;> cases h
  · split at h
    · exact hmap h ▸ decides_of_located
    · cases r <;> cases h
      rfl

/-! ## Two searches in one -/

/-- A directory that was seen before gives way to what the rest decides, and to nothing else. -/
theorem search_some (origin : String) :
    f.search fs name relative (some origin) entries =
      before (.ok ⟨name, origin, true, .namespacePackage⟩) (f.search fs name relative none entries) := by
  rw [before_namespacePackage rfl]
  induction entries generalizing origin with
  | nil => rfl
  | cons entry entries ih =>
      rcases hshelf : shelf? fs entry with e | _ | s
      · rw [search_of_error hshelf, search_of_error hshelf, if_pos (decides_of_shelf? hshelf)]
      · rw [search_of_none hshelf, search_of_none hshelf, ih]
      · rw [search_of_shelf hshelf, search_of_shelf hshelf]
        rcases honShelf : f.onShelf name relative s with e | _ | found
        · exact (if_pos (decides_of_onShelf (r := .error e) honShelf)).symm
        · rw [afterShelf, afterShelf, Option.some_or, Option.none_or, ih origin]
          cases s.hasDir relative with
          | false => rfl
          | true =>
              rw [if_pos rfl, ih (s.origin relative)]
              cases hrest : decides (f.search fs name relative none entries) with
              | true => rw [if_pos rfl, if_pos rfl, hrest, if_pos rfl]
              | false => rfl
        · exact (if_pos (decides_of_onShelf (r := .ok found) honShelf)).symm

/-- A search through two parts of a path is one through the first, and then one through the second. -/
theorem search_append (package : Option String) :
    f.search fs name relative package (entries ++ more) =
      before (f.search fs name relative package entries) (f.search fs name relative none more) := by
  induction entries generalizing package with
  | nil =>
      cases package with
      | none => rfl
      | some origin => exact search_some origin
  | cons entry entries ih =>
      rw [List.cons_append]
      rcases hshelf : shelf? fs entry with e | _ | s
      · rw [search_of_error hshelf, search_of_error hshelf, before_of_decides (decides_of_shelf? hshelf)]
      · rw [search_of_none hshelf, search_of_none hshelf, ih]
      · rw [search_of_shelf hshelf, search_of_shelf hshelf]
        rcases honShelf : f.onShelf name relative s with e | _ | found
        · exact (before_of_decides (decides_of_onShelf (r := .error e) honShelf)).symm
        · exact ih _
        · exact (before_of_decides (decides_of_onShelf (r := .ok found) honShelf)).symm

/-- What is found for a name over a search path. -/
def findOver (f : Finder) (fs : FileSystem) (name : String) (paths : List Path) : Except ImportError LocatedModule :=
  find { f with searchPath := paths } fs name

theorem findOver_append (f : Finder) (fs : FileSystem) (name : String) (paths more : List Path) :
    f.findOver fs name (paths ++ more) = before (f.findOver fs name paths) (f.findOver fs name more) := by
  simp only [findOver, find, search_searchPath]
  cases f.table.find name with
  | found _ code isPackage => rfl
  | forcedFailure => rfl
  | notFound =>
      dsimp only
      split
      · rfl
      · exact search_append none

/-- Search paths compose from left to right. Of two parts the first counts where it gives a module with code or an error
other than that there is none, the second where the first gives none, and a directory without code in the first gives
way to what the second decides. An entry in front changes nothing for a name of which it has nothing on its own. -/
theorem find_append (f : Finder) (fs : FileSystem) (name : String) (paths more : List Path) :
    (decides (f.findOver fs name paths) = true → f.findOver fs name (paths ++ more) = f.findOver fs name paths) ∧
    (∀ n, f.findOver fs name paths = .error (.notFound n) →
      f.findOver fs name (paths ++ more) = f.findOver fs name more) ∧
    (∀ found, f.findOver fs name paths = .ok found → found.code = .namespacePackage →
      f.findOver fs name (paths ++ more) =
        if decides (f.findOver fs name more) then f.findOver fs name more else .ok found) ∧
    ∀ entry, (f.prepend entry).find fs name ≠ f.find fs name →
      ∀ n, f.findOver fs name [entry] ≠ .error (.notFound n) := by
  rw [findOver_append]
  refine ⟨fun h => before_of_decides h, fun n h => ?_, fun found h hcode => ?_, fun entry hne n h => hne ?_⟩
  · rw [h, before_notFound]
  · rw [h, before_namespacePackage hcode]
  · have hprepend : (f.prepend entry).find fs name = f.findOver fs name ([entry] ++ f.searchPath) := rfl
    rw [hprepend, findOver_append, h, before_notFound]
    rfl

end Finder

end Launcher
