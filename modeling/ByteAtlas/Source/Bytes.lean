/-!
# Bytes

The content of a file or buffer, and what a read at an offset gives: the bytes that are there, so
fewer than asked for at the end and none outside (`Bytes.read`). `zeroFilled` makes up the rest.
-/

namespace ByteAtlas

/-- The content of a file or buffer. -/
abbrev Bytes := Array UInt8

/-- The bytes from `offset` on that are there, at most `length`. -/
def Bytes.read (bytes : Bytes) (offset length : Nat) : List UInt8 :=
  (bytes.extract offset (offset + length)).toList

/-- The same at a signed offset. Nothing is there before the start. -/
def Bytes.readAt (bytes : Bytes) (offset : Int64) (length : Nat) : List UInt8 :=
  if offset < 0 then [] else bytes.read offset.toInt.toNat length

/-- A buffer of `length` bytes that starts with the bytes read and holds `filler` after them. -/
def filledWith (filler : UInt8) (length : Nat) (read : List UInt8) : List UInt8 :=
  read ++ List.replicate (length - read.length) filler

/-- A buffer of `length` bytes that starts with the bytes read and holds zeros after them. -/
def zeroFilled (length : Nat) (read : List UInt8) : List UInt8 :=
  filledWith 0 length read

theorem Bytes.length_read (bytes : Bytes) (offset length : Nat) :
    (bytes.read offset length).length = min length (bytes.size - offset) := by
  simp only [Bytes.read, Array.length_toList, Array.size_extract]
  omega

/-- A read never gives more than was asked for. -/
theorem Bytes.length_read_le (bytes : Bytes) (offset length : Nat) :
    (bytes.read offset length).length ≤ length := by
  rw [Bytes.length_read]
  omega

end ByteAtlas
