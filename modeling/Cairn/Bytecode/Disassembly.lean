import Cairn.Bytecode.Listing

/-!
# Cairn — disassembly

A listing for people: every instruction has its address, labels stand out, and
jumps say where they go.
-/

namespace Cairn.Disassembly

/-- A text behind as many blanks as fill it up to `width` characters. -/
def alignRight (width : Nat) (s : String) : String :=
  String.ofList (List.replicate (width - s.length) ' ') ++ s

/-- The mark of a label. -/
def mark : Instruction → String
  | .label id => "L" ++ unsignedText id.toNat ++ ":"
  | _ => ""

/-- Where a jump goes. -/
def destination (code : Code) (i : Instruction) : String :=
  match i.target? with
  | none => ""
  | some id =>
    match Code.labelIndex? code id with
    | some index => s!" (to @{index})"
    | none => " (to unresolved)"

/-- The line of the instruction at an address. -/
def line (code : Code) (address : Nat) (i : Instruction) : String :=
  "    " ++ alignRight 4 (unsignedText address) ++ " " ++ alignRight 5 (mark i) ++ "  " ++
    Listing.line i ++ destination code i ++ "\n"

/-- The lines of instructions from an address on. -/
def linesFrom (code : Code) (address : Nat) : Code → List String
  | [] => []
  | i :: rest => line code address i :: linesFrom code (address + 1) rest

/-- The whole disassembly. -/
def write (code : Code) : String :=
  "Code \x7b\n  instructions:\n" ++ String.join (linesFrom code 0 code) ++ "\x7d"

end Cairn.Disassembly
