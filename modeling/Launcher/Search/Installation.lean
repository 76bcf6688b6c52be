import Launcher.Config
import Launcher.Files.FileSystem

/-!
The directories of an installed launcher, derived from the place of its executable.
-/
namespace Launcher

structure Installation where
  executable : Path
  bindir : Path
  /-- The directory that holds `bindir`. -/
  base : Path
  lib : Path
  libDynload : Path
  sitePackages : Path
  /-- The user's site directory, if there is a home directory. -/
  userSite : Option Path
deriving DecidableEq, Repr

namespace Installation

/-- The library is below `lib` beside `bindir` if it is there, and else below `lib` in it. -/
def locate (fs : FileSystem) (executable : Path) (config : Config) (home : Option Path) :
    Installation :=
  let bindir := executable.parent?.getD ⟨"."⟩
  let base := bindir.parent?.getD bindir
  let installed := (base.join "lib").join config.libName
  let lib := if fs.isDir installed then installed else (bindir.join "lib").join config.libName
  { executable, bindir, base, lib
    libDynload := lib.join "lib-dynload"
    sitePackages := lib.join "site-packages"
    userSite := home.map fun h =>
      (((h.join ".local").join "lib").join config.libName).join "site-packages" }

end Installation

end Launcher
