import Launcher.Zip.Directory

/-!
Zip archives written with all members stored as they are, behind bytes that stand in front of
them.
-/
namespace Launcher.Zip

/-- The fields that a member has in both of its headers, from the version on: it is stored, named
in UTF-8 and dated at the beginning of time. -/
def commonFields (name content : Bytes) : Bytes :=
  Bytes.encodeLE 2 20 ++ Bytes.encodeLE 2 0x800 ++ Bytes.encodeLE 2 0 ++ Bytes.encodeLE 2 0 ++
    Bytes.encodeLE 2 0x21 ++ Bytes.encodeLE 4 (Crc32.checksum content).toNat ++
    Bytes.encodeLE 4 content.length ++ Bytes.encodeLE 4 content.length ++
    Bytes.encodeLE 2 name.length ++ Bytes.encodeLE 2 0

/-- A member with the header in front of it. -/
def encodeMember (name : String) (content : Bytes) : Bytes :=
  let name := Bytes.ofString name
  localSignature ++ commonFields name content ++ name ++ content

/-- The directory entry of a member whose header is at `offset`. -/
def encodeEntry (offset : Nat) (name : String) (content : Bytes) : Bytes :=
  let name := Bytes.ofString name
  centralSignature ++ Bytes.encodeLE 2 20 ++ commonFields name content ++ Bytes.encodeLE 2 0 ++
    Bytes.encodeLE 2 0 ++ Bytes.encodeLE 2 0 ++ Bytes.encodeLE 4 0 ++ Bytes.encodeLE 4 offset ++
    name

/-- Directory entries of members that stand one behind the other from `offset` on. -/
def encodeDirectory (offset : Nat) : List (String × Bytes) → Bytes
  | [] => []
  | (name, content) :: members =>
    encodeEntry offset name content ++
      encodeDirectory (offset + (encodeMember name content).length) members

/-- The bytes in front and the archive of the members behind them. -/
def append (front : Bytes) (members : List (String × Bytes)) : Bytes :=
  let body := members.flatMap fun (name, content) => encodeMember name content
  let entries := encodeDirectory front.length members
  front ++ body ++ entries ++ endSignature ++ Bytes.encodeLE 2 0 ++ Bytes.encodeLE 2 0 ++
    Bytes.encodeLE 2 members.length ++ Bytes.encodeLE 2 members.length ++
    Bytes.encodeLE 4 entries.length ++ Bytes.encodeLE 4 (front.length + body.length) ++
    Bytes.encodeLE 2 0

end Launcher.Zip
