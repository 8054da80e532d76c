/-
Codecs: how a column that holds structured values keeps them as text. The type of the column says
which codec it has, if any.
-/
import RecordFilter.Codec.Serialized
import RecordFilter.Schema.Basic
import RecordFilter.Value.Json

namespace RecordFilter

inductive Codec where
  | json
  | serialized
deriving DecidableEq, Repr

namespace Codec

def encode : Codec → Value → String
  | .json, v => v.jsonText
  | .serialized, v => String.ofList (Serialized.write v)

def decode? : Codec → String → Except CodecFault Value
  | .json, text =>
      match Value.readJson? text.toList with
      | some v => .ok v
      | none => .error .json
  | .serialized, text =>
      match Serialized.read text.toList with
      | .ok v => .ok v
      | .error fault => .error (.serialized fault)

/-- The value that a text keeps in a field; the field is named if the text keeps none. -/
def decode (codec : Codec) (field text : String) : Except Error Value :=
  match codec.decode? text with
  | .ok v => .ok v
  | .error fault => .error (.codec field fault)

end Codec

def DataType.codec? : DataType → Option Codec
  | .json => some .json
  | .serialized => some .serialized
  | .text | .int | .float | .bool => none

end RecordFilter
