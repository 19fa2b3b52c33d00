import Cairn.Bytecode.Instruction
import Cairn.Text.Utf8

/-!
# Cairn — bytecode as bytes

Unsigned numbers are written in groups of seven bits, least significant group
first, and every byte but the last one has its top bit set. Signed numbers are
turned into unsigned ones first, so that small ones stay short. A choice is
written as its position, a list or a text behind its length, and a floating
point number as its eight bytes, least significant first.

Reading gives the value and the bytes behind it. Numbers need not be written
in the shortest way, but must fit the width that is read.

## Main definitions

* `Wire.write`, `Wire.read` — code to bytes and back.
-/

namespace Cairn

/-- Why bytes are not bytecode. -/
inductive WireFault where
  | endOfBytes
  | badNumber
  | badBool
  | badText
  | unknownChoice
deriving DecidableEq, Repr

/-- The wording of the fault. -/
def WireFault.message : WireFault → String
  | .endOfBytes => "Hit the end of buffer, expected more data"
  | .badNumber => "Found a varint that didn't terminate. Is the usize too big for this platform?"
  | .badBool => "Found a bool that wasn't 0 or 1"
  | .badText => "Tried to parse invalid utf-8"
  | .unknownChoice => "Serde Deserialization Error"

namespace Wire

-- ---------------------------------------------------------------------------
-- Writing
-- ---------------------------------------------------------------------------

/-- A number in at most `groups` groups of seven bits. -/
def writeGroups : Nat → Nat → List UInt8
  | 0, _ => []
  | groups + 1, n =>
    if n < 128 then [UInt8.ofNat n]
    else UInt8.ofNat (n % 128 + 128) :: writeGroups groups (n / 128)

/-- An unsigned number of up to 64 bits. -/
def writeNat (n : Nat) : List UInt8 :=
  writeGroups 10 n

/-- A signed number as an unsigned one: `0, -1, 1, -2, …`. -/
def zigzag (i : Int) : Nat :=
  if 0 ≤ i then 2 * i.toNat else 2 * i.natAbs - 1

/-- The signed number that was so written. -/
def unzigzag (n : Nat) : Int :=
  if n % 2 = 0 then (n / 2 : Nat) else -((n / 2 : Nat) + 1)

/-- A text behind its length in bytes. -/
def writeText (s : String) : List UInt8 :=
  let bytes := utf8Bytes s
  writeNat bytes.length ++ bytes

/-- The lowest `count` bytes of a number, lowest first. -/
def writeFixed : Nat → Nat → List UInt8
  | 0, _ => []
  | count + 1, n => UInt8.ofNat (n % 256) :: writeFixed count (n / 256)

/-- The position of a tag. -/
def writeTag : Tag → List UInt8
  | .int => writeNat 0
  | .float => writeNat 1
  | .bool => writeNat 2
  | .string => writeNat 3

/-- The position of the value's type, and the value. -/
def writeValue : Value → List UInt8
  | .int i => writeNat 0 ++ writeNat (zigzag i.toInt)
  | .float x => writeNat 1 ++ writeFixed 8 x.bits.toNat
  | .bool b => writeNat 2 ++ [if b then 1 else 0]
  | .str s => writeNat 3 ++ writeText s

/-- The position of the instruction, and its operands. -/
def writeInstruction : Instruction → List UInt8
  | .push value => writeNat 0 ++ writeValue value
  | .pop => writeNat 1
  | .load name => writeNat 2 ++ writeText name
  | .save name => writeNat 3 ++ writeText name
  | .label id => writeNat 4 ++ writeNat id.toNat
  | .jmp id => writeNat 5 ++ writeNat id.toNat
  | .fjmp id => writeNat 6 ++ writeNat id.toNat
  | .print count => writeNat 7 ++ writeNat count.toNat
  | .read tag => writeNat 8 ++ writeTag tag
  | .binary (.add tag) => writeNat 9 ++ writeTag tag
  | .binary (.sub tag) => writeNat 10 ++ writeTag tag
  | .binary (.mul tag) => writeNat 11 ++ writeTag tag
  | .binary (.div tag) => writeNat 12 ++ writeTag tag
  | .binary .mod => writeNat 13
  | .unary .uminus => writeNat 14
  | .binary .concat => writeNat 15
  | .binary .and => writeNat 16
  | .binary .or => writeNat 17
  | .binary .gt => writeNat 18
  | .binary .lt => writeNat 19
  | .binary .eq => writeNat 20
  | .unary .not => writeNat 21
  | .unary .itof => writeNat 22

/-- The number of instructions, and the instructions. -/
def write (code : Code) : List UInt8 :=
  writeNat code.length ++ code.flatMap writeInstruction

-- ---------------------------------------------------------------------------
-- Reading
-- ---------------------------------------------------------------------------

/-- Reads a value from the front of some bytes and gives the bytes behind it. -/
abbrev Reader (α : Type) := StateT (List UInt8) (Except WireFault) α

/-- The next byte. -/
def byte : Reader UInt8 := do
  match ← get with
  | [] => throw .endOfBytes
  | b :: rest =>
    set rest
    return b

/-- The next `n` bytes. -/
def take (n : Nat) : Reader (List UInt8) := do
  let bytes ← get
  if bytes.length < n then throw .endOfBytes
  else
    set (bytes.drop n)
    return bytes.take n

/-- A number in at most `groups` groups, of which the last possible one may be
at most `last`. -/
def readGroups (last : Nat) : Nat → Reader Nat
  | 0 => throw .badNumber
  | groups + 1 => do
    let b ← byte
    if b.toNat < 128 then
      if groups = 0 ∧ last < b.toNat then throw .badNumber
      else return b.toNat
    else
      let rest ← readGroups last groups
      return b.toNat % 128 + 128 * rest

/-- An unsigned number of 32 bits. -/
def readNat32 : Reader Nat :=
  readGroups 0x0f 5

/-- An unsigned number of 64 bits. -/
def readNat64 : Reader Nat :=
  readGroups 0x01 10

/-- A text behind its length. -/
def readText : Reader String := do
  let length ← readNat64
  let bytes ← take length
  match ofUtf8? bytes with
  | some s => return s
  | none => throw .badText

/-- The number that bytes stand for, lowest first. -/
def fixedValue (bytes : List UInt8) : Nat :=
  bytes.foldr (fun b n => b.toNat + 256 * n) 0

/-- A tag. -/
def readTag : Reader Tag := do
  match ← readNat32 with
  | 0 => return .int
  | 1 => return .float
  | 2 => return .bool
  | 3 => return .string
  | _ => throw .unknownChoice

/-- A truth value. -/
def readBool : Reader Bool := do
  let b ← byte
  if b = 0 then return false
  else if b = 1 then return true
  else throw .badBool

/-- A value. -/
def readValue : Reader Value := do
  match ← readTag with
  | .int => return .int (Int64.ofInt (unzigzag (← readNat64)))
  | .float => return .float ⟨UInt64.ofNat (fixedValue (← take 8))⟩
  | .bool => return .bool (← readBool)
  | .string => return .str (← readText)

/-- An instruction. -/
def readInstruction : Reader Instruction := do
  match ← readNat32 with
  | 0 => return .push (← readValue)
  | 1 => return .pop
  | 2 => return .load (← readText)
  | 3 => return .save (← readText)
  | 4 => return .label (UInt32.ofNat (← readNat32))
  | 5 => return .jmp (UInt32.ofNat (← readNat32))
  | 6 => return .fjmp (UInt32.ofNat (← readNat32))
  | 7 => return .print (UInt64.ofNat (← readNat64))
  | 8 => return .read (← readTag)
  | 9 => return .binary (.add (← readTag))
  | 10 => return .binary (.sub (← readTag))
  | 11 => return .binary (.mul (← readTag))
  | 12 => return .binary (.div (← readTag))
  | 13 => return .binary .mod
  | 14 => return .unary .uminus
  | 15 => return .binary .concat
  | 16 => return .binary .and
  | 17 => return .binary .or
  | 18 => return .binary .gt
  | 19 => return .binary .lt
  | 20 => return .binary .eq
  | 21 => return .unary .not
  | 22 => return .unary .itof
  | _ => throw .unknownChoice

/-- The given number of instructions. -/
def readInstructions : Nat → Reader Code
  | 0 => return []
  | n + 1 => do
    let i ← readInstruction
    let rest ← readInstructions n
    return i :: rest

/-- Reads code from the front of some bytes; what follows it is ignored. -/
def read (bytes : List UInt8) : Except WireFault Code :=
  ((do
    let count ← readNat64
    readInstructions count) : Reader Code).run' bytes

end Wire

end Cairn
