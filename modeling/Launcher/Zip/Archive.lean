import Launcher.Import.Module
import Launcher.Zip.Directory
import Launcher.Zip.Inflate

/-!
Zip archives: the members by their names, and what is in them. The header in front of a member's
content is looked at only when the content is read.
-/
namespace Launcher.Zip

structure Archive where
  bytes : Bytes
  members : List Member

namespace Archive

/-- The archive that bytes hold, if they hold one. -/
def ofBytes? (bytes : Bytes) : Option Archive :=
  (directory? bytes).map fun members => ⟨bytes, members⟩

/-- The member of a name; of several the last. -/
def member? (a : Archive) (name : String) : Option Member :=
  a.members.reverse.find? (·.name = name)

def contains (a : Archive) (name : String) : Bool := (a.member? name).isSome

/-- Whether a member is below a directory. -/
def containsDir (a : Archive) (dir : String) : Bool :=
  let below := String.ofList (dir.toList.reverse.dropWhile (· = '/')).reverse ++ "/"
  a.members.any (·.name.startsWith below)

def invalid (message : String) : ReadError := ⟨.invalidData, message⟩

def unsupported (message : String) : ReadError := invalid ("unsupported Zip archive: " ++ message)

/-- The bytes of a member as they stand in the archive, behind its header. -/
def raw (a : Archive) (m : Member) : Except ReadError Bytes :=
  match recordAt? a.bytes localSignature 30 m.header with
  | some r =>
    .ok ((a.bytes.drop (m.header + 30 + field r 26 2 + field r 28 2)).take m.compressedSize)
  | none => .error (invalid "invalid Zip archive: Invalid local file header")

/-- What the bytes of a member are by its method, stored or deflated. -/
def expand (m : Member) (bs : Bytes) : Except ReadError Bytes :=
  if m.method = 0 then .ok bs
  else
    match Inflate.inflate bs with
    | .ok content => .ok content
    | .error .corrupt => .error ⟨.invalidInput, "corrupt deflate stream"⟩
    | .error .cutOff => .error ⟨.unexpectedEof, "incomplete deflate stream"⟩

/-- The content of a member. -/
def content (a : Archive) (m : Member) : Except ReadError Bytes := do
  if m.encrypted then .error (unsupported "Password required to decrypt file")
  let bs ← a.raw m
  if m.method ≠ 0 ∧ m.method ≠ 8 then .error (unsupported "Compression method not supported")
  if m.sealed then .error (invalid "The password provided is incorrect")
  let content ← expand m bs
  if (Crc32.checksum content).toNat = m.checksum then .ok content
  else .error (invalid "Invalid checksum")

/-- The content of the member of a name, in the archive at `path`. -/
def read (a : Archive) (path name : String) : Except ReadError Bytes :=
  match a.member? name with
  | some m => a.content m
  | none => .error ⟨.notFound, name ++ " not in " ++ path⟩

end Archive

end Launcher.Zip
