/-!
The switches of the launcher.
-/
namespace Launcher

/-- Values of the switches. Levels count how often a switch was given, up to 255. -/
structure Flags where
  verbose : Nat := 0
  debug : Nat := 0
  optimize : Nat := 0
  /-- Go on interactively after the target has finished or failed. -/
  inspect : Bool := false
  unbuffered : Bool := false
  /-- Ignore the path variable. -/
  ignoreEnvironment : Bool := false
  /-- Take site directories as they are, without reading the path files in them. -/
  ignorePthFiles : Bool := false
  /-- Leave out the user's site directory; set together with `ignorePthFiles`. -/
  skipSiteMain : Bool := false
  /-- Leave out the user's site directory, whatever becomes of path files. -/
  skipUserSite : Bool := false
  /-- Do not search the script's directory. -/
  safePath : Bool := false
  dontWriteBytecode : Bool := false
  /-- The reference is precompiled bytecode. -/
  bytecode : Bool := false
  httpsVerify : Bool := true
deriving DecidableEq, Repr

end Launcher
