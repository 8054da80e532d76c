/-
Comparison operators and where they stand in a fragment. Several spellings share their first
characters, so at each position the longer ones are tried first; the word LIKE counts only where it
stands alone. Quoted literals hide operators, and a literal that is left open runs to the end.
-/
import RecordFilter.Template.Quote

namespace RecordFilter

inductive Operator where
  | eq
  | ne
  | lt
  | le
  | gt
  | ge
  | like
deriving DecidableEq, Repr

namespace Operator

def symbol : Operator → String
  | .eq => "="
  | .ne => "!="
  | .lt => "<"
  | .le => "<="
  | .gt => ">"
  | .ge => ">="
  | .like => "like"

structure Spelling where
  text : List Char
  operator : Operator
deriving DecidableEq, Repr

def spellings : List Spelling :=
  [⟨['<', '='], .le⟩, ⟨['>', '='], .ge⟩, ⟨['<', '>'], .ne⟩, ⟨['<'], .lt⟩, ⟨['>'], .gt⟩,
    ⟨['!', '='], .ne⟩, ⟨['=', '='], .eq⟩, ⟨['='], .eq⟩, ⟨['l', 'i', 'k', 'e'], .like⟩]

/-- A spelling stands at the start of a text, after the given character. -/
def Spelling.standsAt (s : Spelling) (before : Option Char) (text : List Char) : Bool :=
  match s.operator with
  | .like => Text.standsAlone s.text before text
  | _ => s.text.isPrefixOf text

def spellingAt? (before : Option Char) (text : List Char) : Option Spelling :=
  spellings.find? fun s => s.standsAt before text

/-- An operator in a fragment, with the byte offsets of its spelling. -/
structure Located where
  start : Nat
  stop : Nat
  operator : Operator
deriving DecidableEq, Repr

/-- The leftmost operator of a text that starts at a byte offset, behind a character, in a
literal. -/
def findFrom (offset : Nat) (before opened : Option Char) : List Char → Option Located
  | [] => none
  | c :: rest =>
      match (if opened.isNone then spellingAt? before (c :: rest) else none) with
      | some s => some { start := offset, stop := offset + s.text.length, operator := s.operator }
      | none => findFrom (offset + c.utf8Size) (some c) (Quote.step opened c) rest

def find? (fragment : List Char) : Option Located :=
  findFrom 0 none none fragment

end Operator
end RecordFilter
