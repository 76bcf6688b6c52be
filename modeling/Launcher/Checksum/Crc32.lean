import Launcher.Bytes.Basic

/-!
The cyclic redundancy check of 32 bits with the reflected polynomial `0xEDB88320`, complemented at
the start and at the end.
-/
namespace Launcher.Crc32

/-- One bit of the division. -/
def shift (c : UInt32) : UInt32 :=
  if c &&& 1 = 1 then (c >>> 1) ^^^ 0xEDB88320 else c >>> 1

/-- Eight bits of the division. -/
def shift8 (c : UInt32) : UInt32 :=
  shift (shift (shift (shift (shift (shift (shift (shift c)))))))

/-- The state after one more byte. -/
def step (c : UInt32) (b : UInt8) : UInt32 := shift8 (c ^^^ b.toUInt32)

/-- The checksum of a byte string. -/
def checksum (bs : Bytes) : UInt32 := bs.foldl step 0xFFFFFFFF ^^^ 0xFFFFFFFF

end Launcher.Crc32
