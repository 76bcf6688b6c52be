import Launcher.Run.Context
import Launcher.Text.Quoted

/-!
The texts that the launcher shows about itself.
-/
namespace Launcher.Usage

/-- The help text. -/
def help (c : Config) : String :=
  "Usage: " ++ c.name ++ " [options] [<script>] [parameters]\n" ++
  "\n" ++
  "Version: " ++ c.version ++ " (release " ++ c.release ++ ")\n" ++
  "\n" ++
  "Available options:\n" ++
  "\n" ++
  "-b:       run the given <script> file as bytecode\n" ++
  "-c:       compile and run <script> directly as code\n" ++
  "-d:       enable debug mode (-dd for level 2)\n" ++
  "-h:       show this help text\n" ++
  "-i:       enable interactive inspection mode\n" ++
  "-m:       import and run a module <script> available on the search path\n" ++
  "-s:       ignore user site\n" ++
  "-u:       open stdout/stderr in unbuffered mode\n" ++
  "-v:       run in verbose mode (-vv for level 2)\n" ++
  "-B:       don't write byte code files\n" ++
  "-E:       ignore environment variables (only " ++ c.env.path ++ ")\n" ++
  "-I:       isolate from environment: same as -E -s\n" ++
  "-O:       run in optimized mode (-OO for level 2)\n" ++
  "-P:       don't add script or current dir to the search path\n" ++
  "-R:       not implemented; hash randomization is not supported\n" ++
  "-S:       skip site initialisation and disable support for .pth files\n" ++
  "-V:       print the version and exit\n" ++
  "-W arg:   add arg as warning filter\n" ++
  "-3:       not implemented; only for compatibility\n" ++
  "-X arg:   not implemented; only for compatibility\n" ++
  "\n" ++
  "Without options, the given <script> file is loaded and run. Parameters\n" ++
  "are passed to the script as its argument vector.\n" ++
  "\n" ++
  "Interactive mode is started if no <script> file is given.\n"

/-- The banner of interactive mode. -/
def banner (c : Config) : String :=
  c.versionLine ++ "\nType exit() or end-of-input to leave."

def setting (name value : String) : String := name ++ " = " ++ value ++ "\n"

/-- The record of a run, as debug mode shows it. -/
def debugInfo (x : Context) (c : Config) : String :=
  let switch (name : String) (on : Bool) : String := setting name (if on then "true" else "false")
  let level (name : String) (n : Nat) : String := setting name (toString n)
  let f := x.flags
  "### " ++ c.name ++ " debug information\n" ++
  "\n# Name and version\n" ++
  setting "name" (debugQuoted c.name) ++
  setting "version" (debugQuoted c.version) ++
  setting "release" (debugQuoted c.release) ++
  "\n# Files and directories\n" ++
  setting "executable" (debugQuoted x.executable.text) ++
  setting "cwd" (debugQuoted x.cwd.text) ++
  setting "run_mode" x.runMode.name ++
  "\n# Options\n" ++
  level "verbose" f.verbose ++
  level "debug" f.debug ++
  level "optimize" f.optimize ++
  switch "bytecode" f.bytecode ++
  switch "inspect" f.inspect ++
  switch "unbuffered" f.unbuffered ++
  switch "ignore_environment" f.ignoreEnvironment ++
  switch "ignore_pth_files" f.ignorePthFiles ++
  switch "skip_site_main" f.skipSiteMain ++
  switch "skip_user_site" f.skipUserSite ++
  switch "safe_path" f.safePath ++
  switch "dont_write_bytecode" f.dontWriteBytecode ++
  switch "https_verify" f.httpsVerify ++
  setting "warning_filters" (debugList (x.filters.map WarningFilter.text))

end Launcher.Usage
