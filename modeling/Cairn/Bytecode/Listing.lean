import Cairn.Bytecode.Instruction
import Cairn.Text.Blank
import Cairn.Text.Lines

/-!
# Cairn — bytecode as text

A listing has one instruction a line: its name, then its operands, with white
space between them. Texts stand in quotes, in which a quote, a backslash and
three control characters are escaped. Blank lines are skipped when a listing
is read.

## Main definitions

* `Listing.line`, `Listing.write` — the text of an instruction and of code.
* `Listing.readLine`, `Listing.read` — the way back.
-/

namespace Cairn

-- ---------------------------------------------------------------------------
-- Writing
-- ---------------------------------------------------------------------------

namespace Listing

/-- The line of an instruction. -/
def line (i : Instruction) : String :=
  match i with
  | .push value => "push " ++ value.operand
  | .load name => "load " ++ name
  | .save name => "save " ++ name
  | .label id => "label " ++ unsignedText id.toNat
  | .jmp id => "jmp " ++ unsignedText id.toNat
  | .fjmp id => "fjmp " ++ unsignedText id.toNat
  | .print count => "print " ++ unsignedText count.toNat
  | .read tag => "read " ++ tag.letter
  | .binary op =>
    match op.tag? with
    | some tag => op.mnemonic ++ " " ++ tag.letter
    | none => op.mnemonic
  | i => i.mnemonic

/-- The listing of a piece of code; every line is ended. -/
def write (code : Code) : String :=
  String.join (code.map fun i => line i ++ "\n")

end Listing

-- ---------------------------------------------------------------------------
-- Faults
-- ---------------------------------------------------------------------------

/-- Why a line is not an instruction. -/
inductive LineFault where
  | empty
  | unknownMnemonic (text : String)
  | operandCount (mnemonic : String) (expected found : Nat)
  | badOperand (mnemonic operand : String)
  | unclosedString
  | badEscape (c : Char)
deriving DecidableEq, Repr

/-- The wording of the fault. -/
def LineFault.message : LineFault → String
  | .empty => "empty instruction"
  | .unknownMnemonic text => s!"unknown mnemonic '{text}'"
  | .operandCount mnemonic expected found =>
    s!"'{mnemonic}' expects {expected} operand(s), found {found}"
  | .badOperand mnemonic operand => s!"invalid operand '{operand}' for '{mnemonic}'"
  | .unclosedString => "unterminated string literal"
  | .badEscape c => "invalid escape sequence '\\" ++ String.singleton c ++ "'"

/-- A fault and the number of the line it is on. -/
structure ListingError where
  line : Nat
  fault : LineFault
deriving DecidableEq, Repr

/-- The wording of the fault behind the line's number. -/
def ListingError.message (e : ListingError) : String :=
  s!"line {e.line}: {e.fault.message}"

namespace Listing

-- ---------------------------------------------------------------------------
-- Words of a line
-- ---------------------------------------------------------------------------

/-- A word of a line, and whether it stood in quotes. -/
structure Token where
  text : String
  quoted : Bool
deriving DecidableEq, Repr

/-- What the characters ahead belong to, with what was read of it so far, last
character first. -/
inductive TokenState where
  | between
  | word (read : List Char)
  | quote (read : List Char)

/-- The character that an escape stands for. -/
def unescapeChar? (c : Char) : Option Char :=
  match c with
  | '"' => some '"'
  | '\\' => some '\\'
  | 'n' => some '\n'
  | 'r' => some '\r'
  | 't' => some '\t'
  | _ => none

/-- The words of the rest of a line. -/
def tokensFrom : TokenState → List Char → Except LineFault (List Token)
  | .between, [] => .ok []
  | .between, c :: cs =>
    if isWhite c then tokensFrom .between cs
    else if c = '"' then tokensFrom (.quote []) cs
    else tokensFrom (.word [c]) cs
  | .word read, [] => .ok [⟨String.ofList read.reverse, false⟩]
  | .word read, c :: cs =>
    if isWhite c then
      (tokensFrom .between cs).map fun rest => ⟨String.ofList read.reverse, false⟩ :: rest
    else tokensFrom (.word (c :: read)) cs
  | .quote _, [] => .error .unclosedString
  | .quote read, '"' :: cs =>
    (tokensFrom .between cs).map fun rest => ⟨String.ofList read.reverse, true⟩ :: rest
  | .quote _, ['\\'] => .error .unclosedString
  | .quote read, '\\' :: c :: cs =>
    match unescapeChar? c with
    | some c => tokensFrom (.quote (c :: read)) cs
    | none => .error (.badEscape c)
  | .quote read, c :: cs => tokensFrom (.quote (c :: read)) cs

/-- The words of a line. -/
def tokens (cs : List Char) : Except LineFault (List Token) :=
  tokensFrom .between cs

-- ---------------------------------------------------------------------------
-- Operands
-- ---------------------------------------------------------------------------

/-- The operand as a word that is not in quotes. -/
def Token.plain? (t : Token) : Option String :=
  if t.quoted then none else some t.text

/-- The operand as a name. -/
def Token.name? (t : Token) : Option String :=
  if t.quoted || t.text.isEmpty then none else some t.text

/-- The operand as the number of a label. -/
def Token.label? (t : Token) : Option UInt32 :=
  t.plain?.bind fun text => (readUnsigned? UInt32.size text.toList).map UInt32.ofNat

/-- The operand as a count. -/
def Token.count? (t : Token) : Option UInt64 :=
  t.plain?.bind fun text => (readUnsigned? UInt64.size text.toList).map UInt64.ofNat

/-- The operand as a tag. -/
def Token.tag? (t : Token) : Option Tag :=
  t.plain?.bind Tag.ofLetter?

/-- The operand as the tag of a number. -/
def Token.numericTag? (t : Token) : Option Tag :=
  t.tag?.filter fun tag => tag == .int || tag == .float

/-- The operand as a value with the given tag. -/
def Token.value? (tag : Tag) (t : Token) : Option Value :=
  match tag with
  | .string => if t.quoted then some (.str t.text) else none
  | .int => t.plain?.bind fun text => (readSigned? text.toList).map .int
  | .float => t.plain?.bind fun text => (Double.read? text.toList).map .float
  | .bool => t.plain?.bind fun text =>
    if text = "true" then some (.bool true)
    else if text = "false" then some (.bool false)
    else none

-- ---------------------------------------------------------------------------
-- Reading
-- ---------------------------------------------------------------------------

/-- Reads the only operand of an instruction. -/
def readOne {α : Type} (mnemonic : String) (operands : List Token) (read? : Token → Option α)
    (make : α → Instruction) : Except LineFault Instruction :=
  match operands with
  | [t] =>
    match read? t with
    | some a => .ok (make a)
    | none => .error (.badOperand mnemonic t.text)
  | _ => .error (.operandCount mnemonic 1 operands.length)

/-- Reads the tag and the value of a constant. -/
def readPush (operands : List Token) : Except LineFault Instruction :=
  match operands with
  | [tag, value] =>
    match tag.tag? with
    | none => .error (.badOperand "push" tag.text)
    | some tag =>
      match value.value? tag with
      | none => .error (.badOperand "push" value.text)
      | some value => .ok (.push value)
  | _ => .error (.operandCount "push" 2 operands.length)

/-- The instructions without operands. -/
def bare : List Instruction :=
  [.pop, .binary .mod, .unary .uminus, .binary .concat, .binary .and, .binary .or, .binary .gt,
    .binary .lt, .binary .eq, .unary .not, .unary .itof]

/-- Reads an instruction without operands. -/
def readBare (mnemonic : String) (operands : List Token) : Except LineFault Instruction :=
  match bare.find? fun i => i.mnemonic == mnemonic with
  | none => .error (.unknownMnemonic mnemonic)
  | some i => if operands.isEmpty then .ok i else .error (.operandCount mnemonic 0 operands.length)

/-- Reads the instruction with the given name. -/
def readInstruction (mnemonic : String) (operands : List Token) : Except LineFault Instruction :=
  match mnemonic with
  | "push" => readPush operands
  | "load" => readOne mnemonic operands Token.name? .load
  | "save" => readOne mnemonic operands Token.name? .save
  | "label" => readOne mnemonic operands Token.label? .label
  | "jmp" => readOne mnemonic operands Token.label? .jmp
  | "fjmp" => readOne mnemonic operands Token.label? .fjmp
  | "print" => readOne mnemonic operands Token.count? .print
  | "read" => readOne mnemonic operands Token.tag? .read
  | "add" => readOne mnemonic operands Token.numericTag? fun tag => .binary (.add tag)
  | "sub" => readOne mnemonic operands Token.numericTag? fun tag => .binary (.sub tag)
  | "mul" => readOne mnemonic operands Token.numericTag? fun tag => .binary (.mul tag)
  | "div" => readOne mnemonic operands Token.numericTag? fun tag => .binary (.div tag)
  | _ => readBare mnemonic operands

/-- Reads one line. -/
def readLine (cs : List Char) : Except LineFault Instruction :=
  match tokens cs with
  | .error e => .error e
  | .ok [] => .error .empty
  | .ok (head :: operands) =>
    if head.quoted then .error (.unknownMnemonic head.text)
    else readInstruction head.text operands

/-- Reads lines, of which the first one has the given number. -/
def readLines (number : Nat) : List (List Char) → Except ListingError Code
  | [] => .ok []
  | cs :: rest =>
    if cs.all isWhite then readLines (number + 1) rest
    else
      match readLine cs with
      | .error fault => .error ⟨number, fault⟩
      | .ok i => (readLines (number + 1) rest).map (i :: ·)

/-- Reads a listing. -/
def read (text : String) : Except ListingError Code :=
  readLines 1 (lines text.toList)

end Listing

end Cairn
