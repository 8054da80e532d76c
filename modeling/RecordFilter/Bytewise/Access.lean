/-
Access to bytes by position.  Reading what is written at a position, taking the part between two
positions and going back from one can all fail: the position may lie outside, the two may be out of
order, or one may lie inside a character.  A computation that does such a thing stops without an
answer, `outside`, which is not one of the faults that it may report.

The readers of templates, clauses and stored texts are written out here a second time, in these
terms: with a position into the bytes of a text that goes up and down, and with everything taken
from the text by position.  They are the readers that the rest of the library has in terms of
characters; so no position is ever outside, and every fault is one that those readers report.
-/
import RecordFilter.Text.Bytes
import RecordFilter.Text.Utf8

namespace RecordFilter
namespace Bytewise

/-- How a computation ends without a result: it has gone outside of what there is, or it reports a
fault. -/
inductive Stop (ε : Type) where
  | outside
  | fault (cause : ε)
deriving DecidableEq, Repr

variable {ε α : Type}

/-- A computation that never goes outside. -/
def lift : Except ε α → Except (Stop ε) α
  | .ok a => .ok a
  | .error e => .error (.fault e)

def found : Option α → Except (Stop ε) α
  | some a => .ok a
  | none => .error .outside

/-! ## Lists -/

/-- What is at a position. -/
def itemAt (items : List α) (position : Nat) : Except (Stop ε) α :=
  found items[position]?

/-- What is between two positions. -/
def between (items : List α) (start stop : Nat) : Except (Stop ε) (List α) :=
  if start ≤ stop ∧ stop ≤ items.length then .ok ((items.take stop).drop start)
  else .error .outside

def upTo (items : List α) (stop : Nat) : Except (Stop ε) (List α) :=
  between items 0 stop

def onFrom (items : List α) (start : Nat) : Except (Stop ε) (List α) :=
  between items start items.length

/-! ## Texts -/

/-- The text between two byte positions. -/
def textBetween (text : List Char) (start stop : Nat) : Except (Stop ε) (List Char) :=
  found (Text.slice? text start stop)

def textUpTo (text : List Char) (stop : Nat) : Except (Stop ε) (List Char) :=
  textBetween text 0 stop

def textOnFrom (text : List Char) (start : Nat) : Except (Stop ε) (List Char) :=
  textBetween text start (Text.byteLength text)

/-- The character of one byte. -/
def char (b : UInt8) : Char :=
  Char.ofNat b.toNat

/-! ## Numbers -/

/-- A number that is smaller by another one. -/
def minus (m n : Nat) : Except (Stop ε) Nat :=
  if n ≤ m then .ok (m - n) else .error .outside

end Bytewise
end RecordFilter
