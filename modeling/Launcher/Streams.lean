import Launcher.Action
import Launcher.Bytes.Utf8

/-!
The standard streams of a run: what is still to be read, and what has been written so far. Standard output holds bytes
back until there are too many of them, standard error does not. Interactive lines come from a console if there is one,
else from standard input. All that the streams lead to can fail: a read gives a message in place of bytes, and an output
takes only a part of what it is given.
-/
namespace Launcher

/-- A failure of what an output leads to, once it has taken so many bytes. -/
structure OutputFault where
  taken : Nat
  message : String
deriving DecidableEq, Repr

/-- What asking for a line gives. -/
inductive Streams.Line where
  | line (text : String)
  | endOfInput
  | failed (message : String)
deriving DecidableEq, Repr

structure Streams where
  /-- What can be read up to the next failure, or to the end if there is none. -/
  stdin : Bytes := []
  /-- The failures of standard input that are to come: the message, and what can be read behind it. -/
  stdinFaults : List (String × Bytes) := []
  /-- What a console still answers, if there is one. Behind that its input ends. -/
  console : Option (List Streams.Line) := none
  /-- What standard output has passed on. -/
  passed : Bytes := []
  /-- What standard output still holds back. -/
  held : Bytes := []
  stderr : Bytes := []
  /-- Output is passed on after every write. -/
  unbuffered : Bool := false
  /-- How it goes when standard output next passes something on, and then, and so on: well, or with a failure. Behind
  the list all goes well. -/
  outFaults : List (Option OutputFault) := []
  /-- How it goes with what is next written to standard error, and so on. -/
  errFaults : List (Option OutputFault) := []
deriving DecidableEq, Repr

namespace Streams

/-- Something that is done with the streams, or fails with a message. -/
abbrev Transfer (α : Type) : Type := Action String Streams α

/-! ## Output -/

/-- All that standard output has taken. -/
def stdout (s : Streams) : Bytes := s.passed ++ s.held

/-- How it goes when standard output next passes something on. -/
def outFault? (s : Streams) : Option OutputFault := s.outFaults.head?.join

/-- How it goes with what is next written to standard error. -/
def errFault? (s : Streams) : Option OutputFault := s.errFaults.head?.join

/-- The bytes that standard output can hold back. -/
def room : Nat := 8192

/-- Pass on what standard output holds back, and some bytes behind it. In a failure it goes on to hold back what was not
taken of what it held, and the bytes that were to go behind that are lost. -/
def passOn (bytes : Bytes) : Transfer Unit := fun s =>
  let all := s.held ++ bytes
  let faults := s.outFaults.tail
  match s.outFault? with
  | none => (.ok (), { s with passed := s.passed ++ all, held := [], outFaults := faults })
  | some fault =>
    let passed := s.passed ++ all.take fault.taken
    (.error fault.message, { s with passed, held := s.held.drop fault.taken, outFaults := faults })

/-- Pass on what standard output holds back. -/
def flush : Transfer Unit := passOn []

/-- Add bytes to those that are held back. -/
def keep (bytes : Bytes) : Transfer Unit := Action.modify fun s => { s with held := s.held ++ bytes }

/-- Hold bytes back if there is room for them, perhaps after what is held back already has been passed on. -/
def hold (bytes : Bytes) : Transfer Unit := fun s =>
  if room ≤ bytes.length then passOn bytes s
  else if s.held.length + bytes.length ≤ room then keep bytes s
  else (flush >>= fun _ => keep bytes) s

/-- Write bytes to standard output. No bytes need no writing. -/
def write (bytes : Bytes) : Transfer Unit := fun s =>
  if bytes.isEmpty then (.ok (), s)
  else if s.unbuffered then (hold bytes >>= fun _ => flush) s
  else hold bytes s

def out (text : String) : Transfer Unit := write (Bytes.ofString text)

/-- A line goes out in two writes. -/
def outLine (line : String) : Transfer Unit := do
  out line
  out "\n"

/-- What an output takes of some bytes when it goes so. -/
def taken (fault : Option OutputFault) (bytes : Bytes) : Bytes :=
  match fault with
  | none => bytes
  | some fault => bytes.take fault.taken

/-- Write a text to standard error. -/
def err (text : String) : Transfer Unit := fun s =>
  if text.isEmpty then (.ok (), s)
  else
    let stderr := s.stderr ++ taken s.errFault? (Bytes.ofString text)
    let after := { s with stderr, errFaults := s.errFaults.tail }
    match s.errFault? with
    | none => (.ok (), after)
    | some fault => (.error fault.message, after)

/-- Write a text to standard error, whether or not it is taken. -/
def tell (s : Streams) (text : String) : Streams := (err text s).2

def setUnbuffered (s : Streams) : Streams := { s with unbuffered := true }

/-! ## Input -/

/-- The bytes up to and with the first newline, and the rest. -/
def splitLine : Bytes → Bytes × Bytes
  | [] => ([], [])
  | b :: bs =>
    if b = 10 then ([b], bs)
    else
      let (line, rest) := splitLine bs
      (b :: line, rest)

/-- A line without the newlines and carriage returns at its end. -/
def chop (line : String) : String :=
  String.ofList (line.toList.reverse.dropWhile fun c => c = '\n' ∨ c = '\r').reverse

/-- The line that bytes spell. -/
def Line.ofBytes (bytes : Bytes) : Line :=
  if bytes.isEmpty then .endOfInput
  else
    match Utf8.decode? bytes with
    | some text => .line (chop text)
    | none => .failed "stream did not contain valid UTF-8"

/-- Take a line off standard input. Where that fails on the way, the bytes in front are lost. -/
def takeLine (s : Streams) : Line × Streams :=
  let (bytes, rest) := splitLine s.stdin
  if bytes.getLast? = some 10 then (.ofBytes bytes, { s with stdin := rest })
  else
    match s.stdinFaults with
    | [] => (.ofBytes bytes, { s with stdin := rest })
    | (message, behind) :: faults => (.failed message, { s with stdin := behind, stdinFaults := faults })

/-- Ask for a line, once all output has been passed on. The prompt goes to standard error, except with a console, which
shows it itself. -/
def readLine (s : Streams) (prompt : String) : Line × Streams :=
  match flush s with
  | (.error message, s) => (.failed message, s)
  | (.ok (), s) =>
    match s.console with
    | some (l :: ls) => (l, { s with console := some ls })
    | some [] => (.endOfInput, s)
    | none =>
      match err prompt s with
      | (.error message, s) => (.failed message, s)
      | (.ok (), s) => s.takeLine

/-- Take all that is left of standard input. Where that fails, the bytes in front are lost. -/
def readAll : Transfer Bytes := fun s =>
  match s.stdinFaults with
  | [] => (.ok s.stdin, { s with stdin := [] })
  | (message, behind) :: faults => (.error message, { s with stdin := behind, stdinFaults := faults })

end Streams

end Launcher
