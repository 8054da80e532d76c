/-
What can be wrong with a stored text that a codec reads.
-/
import RecordFilter.Text.Utf8

namespace RecordFilter

inductive SerializedFault where
  /-- Another byte stands where this one has to. -/
  | expected (byte : UInt8) (position : Nat)
  /-- The value that starts here has no end. -/
  | unterminated (position : Nat)
  | unexpectedEnd
  | invalidBoolean (text : String)
  | invalidInteger (text : String)
  | invalidFloat (text : String)
  | invalidStringLength (text : String)
  | invalidArrayLength (text : String)
  | unknownTag (tag : UInt8)
  | stringPastEnd
  | tooDeep (limit : Nat)
  /-- A key that is neither an integer nor a string. -/
  | invalidKey (typeName : String)
  | trailingData (position : Nat)
  | notText (fault : Text.Utf8.Fault)
deriving DecidableEq, Repr

namespace SerializedFault

def byteText (b : UInt8) : String :=
  String.singleton (Char.ofNat b.toNat)

def message : SerializedFault → String
  | .expected b position => "Expected '" ++ byteText b ++ "' at " ++ toString position
  | .unterminated position => "Unterminated value starting at " ++ toString position
  | .unexpectedEnd => "Unexpected end of input"
  | .invalidBoolean text => "Invalid boolean '" ++ text ++ "'"
  | .invalidInteger text => "Invalid integer '" ++ text ++ "'"
  | .invalidFloat text => "Invalid float '" ++ text ++ "'"
  | .invalidStringLength text => "Invalid string length '" ++ text ++ "'"
  | .invalidArrayLength text => "Invalid array length '" ++ text ++ "'"
  | .unknownTag tag => "Unknown type tag '" ++ byteText tag ++ "'"
  | .stringPastEnd => "String runs past end of input"
  | .tooDeep limit => "Arrays nested deeper than " ++ toString limit
  | .invalidKey typeName => "Invalid array key of type " ++ typeName
  | .trailingData position => "Trailing data at " ++ toString position
  | .notText fault => fault.message

end SerializedFault

inductive CodecFault where
  /-- The text is not JSON, or its value is out of bounds. -/
  | json
  | serialized (fault : SerializedFault)
deriving DecidableEq, Repr

def CodecFault.message : CodecFault → String
  | .json => "not a JSON value"
  | .serialized fault => fault.message

end RecordFilter
