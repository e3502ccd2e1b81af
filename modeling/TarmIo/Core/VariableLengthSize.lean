import TarmIo.Foundation.Words

/-!
# The variable-length size of `core/VariableLengthSize.cpp`

Both words of the class and its bit operations, as the source has them. The top
byte of the decoded word holds the complete flag, the fail flag and, while a size
is being read, the number of bytes seen.
-/

namespace TarmIo.Core

structure VariableLengthSize where
  encodedValue : UInt64 := 0
  decodedValue : UInt64 := 0
deriving DecidableEq

namespace VariableLengthSize

def invalidValue : UInt64 := 0xFFFFFFFFFFFFFFFF
def maxValue : UInt64 := (0xFFFFFFFFFFFFFFFF : UInt64) >>> 8
def isCompleteMask : UInt64 := (1 : UInt64) <<< 63
def isFailMask : UInt64 := (1 : UInt64) <<< 62

def isComplete (s : VariableLengthSize) : Bool := s.decodedValue &&& isCompleteMask != 0

def fail (s : VariableLengthSize) : Bool := s.decodedValue &&& isFailMask != 0

def value (s : VariableLengthSize) : UInt64 :=
  if s.isComplete then s.decodedValue &&& 0xFFFFFFFFFFFFFF else invalidValue

def reset (_ : VariableLengthSize) : VariableLengthSize := {}

/-! ## Encoding -/

/-- The `do`-`while` loop of `encode_impl`. Ten rounds shift out a whole word, so
the bound given by `encodeImpl` is never what ends it. -/
def encodeLoop (v : UInt64) : Nat → UInt64 → UInt64 → UInt64
  | 0, encoded, _ => encoded
  | rounds + 1, encoded, current =>
      let chunk := current &&& 0x7F
      let encoded :=
        if current ≠ v then (encoded <<< 8) ||| (chunk ||| 0x80) else encoded ||| chunk
      let current := current >>> 7
      if current ≠ 0 then encodeLoop v rounds encoded current else encoded

def encodeImpl (encoded v : UInt64) : UInt64 :=
  if v &&& ~~~0x7F ≠ 0 then encodeLoop v 10 encoded v else v

/-- The constructors from `unsigned long` and `unsigned long long`. -/
def ofUInt64 (value : UInt64) : VariableLengthSize :=
  if value ≤ maxValue then
    { encodedValue := encodeImpl 0 value, decodedValue := value ||| isCompleteMask }
  else {}

def ofUInt32 (value : UInt32) : VariableLengthSize := ofUInt64 value.toUInt64
def ofUInt16 (value : UInt16) : VariableLengthSize := ofUInt64 value.toUInt64
def ofUInt8 (value : UInt8) : VariableLengthSize := ofUInt64 value.toUInt64

/-- The constructors from `long` and `long long`. The upper bound is compared
after conversion to unsigned, and only for values that are not negative. -/
def ofInt64 (value : Int64) : VariableLengthSize :=
  if 0 ≤ value ∧ value.toUInt64 ≤ maxValue then
    { encodedValue := encodeImpl 0 value.toUInt64
      decodedValue := value.toUInt64 ||| isCompleteMask }
  else {}

def ofInt32 (value : Int32) : VariableLengthSize := ofInt64 value.toInt64
def ofInt16 (value : Int16) : VariableLengthSize := ofInt64 value.toInt64
def ofInt8 (value : Int8) : VariableLengthSize := ofInt64 value.toInt64

def bytesCount (s : VariableLengthSize) : Nat :=
  let allMBitsValue := 0x8080808080808080 &&& s.encodedValue
  if allMBitsValue = 0 then if s.isComplete then 1 else 0
  else if allMBitsValue = 0x0000000000000080 then 2
  else if allMBitsValue = 0x0000000000008080 then 3
  else if allMBitsValue = 0x0000000000808080 then 4
  else if allMBitsValue = 0x0000000080808080 then 5
  else if allMBitsValue = 0x0000008080808080 then 6
  else if allMBitsValue = 0x0000808080808080 then 7
  else if allMBitsValue = 0x0080808080808080 then 8
  else 0

/-- `bytes()`: the encoded word as it lies in the memory of a little-endian host. -/
def bytes (s : VariableLengthSize) : List UInt8 :=
  ([0, 8, 16, 24, 32, 40, 48, 56] : List UInt64).map fun shift =>
    (s.encodedValue >>> shift).toUInt8

/-! ## Decoding -/

def setIsComplete (s : VariableLengthSize) : VariableLengthSize :=
  { s with decodedValue := s.decodedValue ||| isCompleteMask }

def setIsFail (s : VariableLengthSize) : VariableLengthSize :=
  { s with decodedValue := s.decodedValue ||| isFailMask }

def decodedCount (s : VariableLengthSize) : UInt64 :=
  (s.decodedValue &&& 0x0F00000000000000) >>> 56

def addByte (s : VariableLengthSize) (b : UInt8) : Bool × VariableLengthSize :=
  if s.isComplete then (false, s)
  else if s.fail then (false, s)
  else
    let count := s.decodedCount
    let shouldStop := b &&& 0x80 = 0
    if count = 7 ∧ ¬ shouldStop then (false, s.setIsFail)
    else
      let encoded := (s.encodedValue >>> 8) ||| (b.toUInt64 <<< 56)
      let chunk := (b &&& 0x7F).toUInt64
      let decoded := (((s.decodedValue <<< 7) &&& ~~~isCompleteMask) ||| ((count + 1) <<< 56)) |||
        chunk
      let read : VariableLengthSize := { encodedValue := encoded, decodedValue := decoded }
      if shouldStop then
        (true, { read.setIsComplete with encodedValue := encoded >>> (8 * (8 - count - 1)) })
      else (true, read)

def addBytesLoop : VariableLengthSize → List UInt8 → Nat × VariableLengthSize
  | s, [] => (0, s)
  | s, b :: bs =>
      if (s.addByte b).1 then
        let r := addBytesLoop (s.addByte b).2 bs
        (r.1 + 1, r.2)
      else (0, (s.addByte b).2)

/-- `add_bytes`; `none` is the null pointer. -/
def addBytes (s : VariableLengthSize) (bs : Option (List UInt8)) : Nat × VariableLengthSize :=
  match bs with
  | none => (0, s)
  | some bs => addBytesLoop s bs

end VariableLengthSize

end TarmIo.Core
