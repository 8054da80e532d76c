/-
The inspected form of a text: quoted, and with everything that would not be visible as itself
written as an escape, so that a log line or an error shows exactly what the text holds.
-/
import RecordFilter.Text.Word
import RecordFilter.Text.InspectRanges

namespace RecordFilter
namespace Text

/-- A character that stands for itself in an inspected text, the quote and the backslash aside. -/
def isVisible (c : Char) : Bool :=
  if c.toNat < 0x80 then 0x20 ≤ c.toNat && c.toNat < 0x7F
  else !(inRanges extenderRanges c.toNat || inRanges unprintableRanges c.toNat)

def inspectChar (c : Char) : List Char :=
  if c == '"' then ['\\', '"']
  else if c == '\\' then ['\\', '\\']
  else if c == '\n' then ['\\', 'n']
  else if c == '\r' then ['\\', 'r']
  else if c == '\t' then ['\\', 't']
  else if c == '\x00' then ['\\', '0']
  else if isVisible c then [c]
  else ['\\', 'u', '\x7b'] ++ Nat.toDigits 16 c.toNat ++ ['\x7d']

def inspect (text : String) : String :=
  String.ofList ('"' :: text.toList.flatMap inspectChar ++ ['"'])

end Text
end RecordFilter
