import Cairn.Bytecode.Listing
import Cairn.Bytecode.Wire

/-!
# Cairn — stored bytecode

Bytecode is stored in one of two forms, and either one may turn out to be
unreadable.
-/

namespace Cairn

/-- Why stored bytecode cannot be read. -/
inductive DecodeError where
  | listing (error : ListingError)
  | wire (fault : WireFault)
deriving DecidableEq, Repr

namespace DecodeError

/-- The wording of the error. -/
def message : DecodeError → String
  | .listing error => error.message
  | .wire fault => "invalid binary bytecode: " ++ fault.message

/-- The wording of what caused the error. -/
def cause : DecodeError → String
  | .listing error => error.fault.message
  | .wire fault => fault.message

end DecodeError

/-- The form in which bytecode is stored. -/
inductive Form where
  | text
  | binary
deriving DecidableEq, Repr

namespace Form

/-- How the names of files in this form end. -/
def extension : Form → String
  | .text => "pbc"
  | .binary => "pbin"

/-- The bytes to store. -/
def encode (form : Form) (code : Code) : List UInt8 :=
  match form with
  | .text => utf8Bytes (Listing.write code)
  | .binary => Wire.write code

end Form

/-- Reads a listing. -/
def decodeText (text : String) : Except DecodeError Code :=
  (Listing.read text).mapError .listing

/-- Reads the binary form. -/
def decodeBinary (bytes : List UInt8) : Except DecodeError Code :=
  (Wire.read bytes).mapError .wire

end Cairn
