import ByteAtlas.Scalar.Basic
import ByteAtlas.Scalar.Decimal

/-!
# Scalar values and their previews

A scalar is decoded from the bytes of one element (`Scalar.decode`), has an integer reading
(`Scalar.toInt`) and a preview (`Scalar.preview`). A field's preview joins those of its elements
(`joinPreviews`): elements are taken until the text is `previewLimit` bytes long, and a text that
is longer, or empty, ends in three dots.
-/

namespace ByteAtlas

/-! ## 1. Values -/

/-- One decoded element. -/
inductive Scalar where
  | pad
  | char (byte : UInt8)
  | int (value : Int64)
  | float (value : Binary64)
  deriving DecidableEq, Repr, Inhabited

namespace Scalar

/-- **The element at the front of `bytes`.** A float of 32 bits is widened. -/
def decode (type : ScalarType) (bytes : List UInt8) : Scalar :=
  match type with
  | .pad => pad
  | .char => char (bytes.headD 0)
  | .int t => int (t.decode bytes)
  | .f32 => float (Binary64.ofBinary32 (UInt32.ofNat (littleEndian (bytes.take 4))))
  | .f64 => float ⟨UInt64.ofNat (littleEndian (bytes.take 8))⟩

/-- **The integer reading**: a character is a signed byte, a float loses its fraction. -/
def toInt : Scalar → Int64
  | pad => 0
  | char b => Int64.ofInt ((b.toNat : Int).bmod 256)
  | int n => n
  | float x => x.trunc

end Scalar

/-! ## 2. Previews -/

/-- The text of an integer. -/
def decimalText (n : Int64) : String :=
  toString n.toInt

/-- A lower case hexadecimal digit. -/
def hexDigit (n : Nat) : Char :=
  Nat.digitChar n

/-- A printable character as it is, and any other byte as `\x` and two hexadecimal digits. -/
def escapeByte (b : UInt8) : String :=
  let n := b.toNat
  if 0x20 ≤ n ∧ n < 0x7f then String.singleton (Char.ofNat n)
  else String.ofList ['\\', 'x', hexDigit (n / 16), hexDigit (n % 16)]

/-- The preview of one element. Padding has none. -/
def Scalar.preview : Scalar → String
  | pad => ""
  | char b => escapeByte b
  | int n => decimalText n
  | float x => x.text

/-! ## 3. Joined previews -/

/-- A joined preview takes no further element once it is this many bytes long. -/
def previewLimit : Nat := 24

/-- The preview of a field that is not resolved yet. -/
def notLoadedPreview : String := "<?>"

/-- The preview of a field whose condition does not hold. -/
def notPresentPreview : String := "<not present>"

/-- What stands before the next element's preview, if `joined` holds those before it. -/
def previewSeparator (separated first : Bool) : String :=
  if separated && !first then ", " else ""

/-- The elements' previews in a row, up to the limit or the first empty one. -/
def gatherPreviews (separated : Bool) : (first : Bool) → String → List String → String
  | _, joined, [] => joined
  | first, joined, p :: ps =>
    if p.isEmpty then joined
    else
      let longer := joined ++ previewSeparator separated first ++ p
      if longer.utf8ByteSize ≥ previewLimit then longer
      else gatherPreviews separated false longer ps

/-- **The preview of a field**, from the previews of its elements. -/
def joinPreviews (separated : Bool) (previews : List String) : String :=
  let joined := gatherPreviews separated true "" previews
  if joined.utf8ByteSize > previewLimit ∨ joined.isEmpty then joined ++ "..." else joined

end ByteAtlas
