import Launcher.Flags
import Launcher.Warning

/-!
The command line. Options are letters behind a dash, alone or several together, and end at the
first argument that is none, at `--`, or with `-c` and `-m`, which take what is to be run. Flags
are set as they are read, also when an error follows.
-/
namespace Launcher

/-- What `-c` and `-m` give. -/
inductive Payload where
  | inlineString (source : String)
  | module (name : String)
deriving DecidableEq, Repr

/-- A command line that runs something: the arguments for it, and complaints that do not stop
it. -/
structure ParsedCommandLine where
  positional : List String := []
  payload : Option Payload := none
  warnings : List String := []
deriving DecidableEq, Repr

inductive ParseOutcome where
  | run (line : ParsedCommandLine)
  | help
  | version
deriving DecidableEq, Repr

inductive CommandLineError where
  | unknownOption (option : String)
  | missingArgument (flag : Char)
  | hashRandomization
deriving DecidableEq, Repr

namespace CommandLineError

def message : CommandLineError → String
  | unknownOption option => "Unknown option " ++ option
  | missingArgument flag => "Missing argument for -" ++ String.singleton flag
  | hashRandomization => "Hash randomization (-R) is not supported"

end CommandLineError

/-- What the command line is read into: the flags, the warning filters, the complaints so far, and
how often each level was raised. -/
structure OptionState where
  flags : Flags
  filters : WarningFilters := []
  warnings : List String := []
  verbose : Nat := 0
  debug : Nat := 0
  optimize : Nat := 0
deriving DecidableEq, Repr

namespace CommandLine

/-- What a letter asks for, apart from those that take a value. -/
inductive Effect where
  | state (s : OptionState)
  | help
  | version
  | error (e : CommandLineError)

/-- One more, up to 255. -/
def bump (n : Nat) : Nat := min (n + 1) 255

/-- The effect of a letter that takes no value. -/
def letter (s : OptionState) (c : Char) : Effect :=
  let f := s.flags
  match c with
  | 'v' =>
    .state { s with verbose := bump s.verbose, flags := { f with verbose := bump s.verbose } }
  | 'd' => .state { s with debug := bump s.debug, flags := { f with debug := bump s.debug } }
  | 'O' =>
    .state { s with optimize := bump s.optimize, flags := { f with optimize := bump s.optimize } }
  | 'b' => .state { s with flags := { f with bytecode := true } }
  | 'i' => .state { s with flags := { f with inspect := true } }
  | 'u' => .state { s with flags := { f with unbuffered := true } }
  | 'E' => .state { s with flags := { f with ignoreEnvironment := true } }
  | 's' => .state { s with flags := { f with skipUserSite := true } }
  | 'S' => .state { s with flags := { f with ignorePthFiles := true, skipSiteMain := true } }
  | 'I' => .state { s with flags := { f with ignoreEnvironment := true, skipUserSite := true } }
  | 'P' => .state { s with flags := { f with safePath := true } }
  | 'B' => .state { s with flags := { f with dontWriteBytecode := true } }
  | '3' => .state s
  | 'h' | '?' => .help
  | 'V' => .version
  | 'R' => .error .hashRandomization
  | c => .error (.unknownOption ("-" ++ String.singleton c))

/-- A letter that takes the text behind it, or else the next argument, as its value. -/
def takesValue (c : Char) : Bool := c == 'W' || c == 'X' || c == 'c' || c == 'm'

/-- The effect of a value that does not end the options: a warning filter, or an option that is
not supported. -/
def valueEffect (s : OptionState) (flag : Char) (value : String) : OptionState :=
  if flag = 'W' then
    match WarningFilter.parse value with
    | .ok f => { s with filters := s.filters.add f }
    | .error e => { s with warnings := s.warnings ++ ["Invalid -W option ignored: " ++ e.reason] }
  else if 0 < s.flags.debug then
    { s with warnings := s.warnings ++
        ["Command line option -X " ++ value ++ " is not supported. Ignoring the option."] }
  else s

/-- Where the reading of an option argument ends. -/
inductive ClusterEnd where
  /-- All letters were read; these arguments are left. -/
  | next (s : OptionState) (rest : List String)
  | done (s : OptionState) (outcome : Except CommandLineError ParseOutcome)

/-- The letters of an option argument, with the arguments behind it. -/
def cluster (s : OptionState) (rest : List String) : List Char → ClusterEnd
  | [] => .next s rest
  | c :: cs =>
    if takesValue c then
      let taken : Option (String × List String) :=
        if cs.isEmpty then
          match rest with
          | [] => none
          | value :: rest => some (value, rest)
        else some (String.ofList cs, rest)
      match taken with
      | none => .done s (.error (.missingArgument c))
      | some (value, rest) =>
        if c = 'c' then .done s (.ok (.run ⟨rest, some (.inlineString value), s.warnings⟩))
        else if c = 'm' then .done s (.ok (.run ⟨rest, some (.module value), s.warnings⟩))
        else .next (valueEffect s c value) rest
    else
      match letter s c with
      | .state s => cluster s rest cs
      | .help => .done s (.ok .help)
      | .version => .done s (.ok .version)
      | .error e => .done s (.error e)

/-- Read arguments, of which there are at most `rounds`. -/
def options (s : OptionState) :
    (rounds : Nat) → List String → Except CommandLineError ParseOutcome × OptionState
  | 0, args => (.ok (.run ⟨args, none, s.warnings⟩), s)
  | _ + 1, [] => (.ok (.run ⟨[], none, s.warnings⟩), s)
  | rounds + 1, arg :: args =>
    if arg = "--" then (.ok (.run ⟨args, none, s.warnings⟩), s)
    else
      match arg.toList with
      | '-' :: '-' :: _ => (.error (.unknownOption arg), s)
      | '-' :: c :: cs =>
        match cluster s args (c :: cs) with
        | .next s rest => options s rounds rest
        | .done s outcome => (outcome, s)
      | _ => (.ok (.run ⟨arg :: args, none, s.warnings⟩), s)

/-- Read a command line without the name of the program, from the given flags and filters on. -/
def parse (flags : Flags) (filters : WarningFilters) (args : List String) :
    Except CommandLineError ParseOutcome × OptionState :=
  options { flags, filters } args.length args

end CommandLine

end Launcher
