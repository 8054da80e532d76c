/-
Patterns as regular expressions. A pattern is handed to engines as the source of a regular
expression in which the needle is escaped and the ends of the text are marked as the anchor asks.
The sources that arise this way make a small language of their own, literal characters between
optional end marks; reading it gives the meaning by which a pattern is matched here.

Escaping, compiling and matching are the work of the `regex` library, and `Regex` stands for the
part of it that patterns reach. Four things are taken from its documentation: `regex::escape` puts a
backslash in front of the characters of `isMeta` and of no others; an escaped one stands for itself,
as does any character that is not one of them; outside of multi-line mode `^` and `$` match at the
ends of the text only; and an expression without an end mark matches anywhere in it.

It is assumed that the library compiles every such source. In fact it refuses one whose compiled
form is larger than its size limit. That limit is left out: a needle so long matches nothing there,
and here it is matched like any other.
-/
import RecordFilter.Pattern.Basic

namespace RecordFilter
namespace Regex

/-- A character that means something in a regular expression, and is escaped to stand for
itself. -/
def isMeta (c : Char) : Bool :=
  ['\\', '.', '+', '*', '?', '(', ')', '|', '[', ']', '\x7b', '\x7d', '^', '$', '#', '&', '-',
    '~'].contains c

/-- A text as the source of a regular expression that matches it and nothing else. -/
def escape : List Char → List Char
  | [] => []
  | c :: rest => if isMeta c then '\\' :: c :: escape rest else c :: escape rest

/-- A regular expression of literal characters, possibly tied to the ends of the text. -/
structure Literal where
  atStart : Bool
  needle : List Char
  atEnd : Bool
deriving DecidableEq, Repr

/-- Reads literal characters up to the end of the source or a mark for the end of the text. -/
def readNeedle? : List Char → Option (List Char × Bool)
  | [] => some ([], false)
  | ['$'] => some ([], true)
  | '\\' :: c :: rest =>
      if isMeta c then (readNeedle? rest).map fun (needle, atEnd) => (c :: needle, atEnd)
      else none
  | c :: rest =>
      if isMeta c then none
      else (readNeedle? rest).map fun (needle, atEnd) => (c :: needle, atEnd)

/-- Reads the source of a regular expression; none if it is not a literal one. -/
def read? (source : List Char) : Option Literal :=
  let (atStart, rest) := match source with
    | '^' :: rest => (true, rest)
    | rest => (false, rest)
  (readNeedle? rest).map fun (needle, atEnd) => { atStart, needle, atEnd }

def occursIn (needle : List Char) : List Char → Bool
  | [] => needle.isEmpty
  | c :: rest => needle.isPrefixOf (c :: rest) || occursIn needle rest

def Literal.matchesText (r : Literal) (text : List Char) : Bool :=
  match r.atStart, r.atEnd with
  | true, true => r.needle == text
  | true, false => r.needle.isPrefixOf text
  | false, true => r.needle.isSuffixOf text
  | false, false => occursIn r.needle text

end Regex

namespace Pattern

/-- The source of the regular expression that stands for a pattern. -/
def regexSource (p : Pattern) : List Char :=
  let needle := Regex.escape p.needle.toList
  match p.anchor with
  | .contains => needle
  | .startsWith => '^' :: needle
  | .endsWith => needle ++ ['$']
  | .exact => '^' :: needle ++ ['$']

def escapeSlashes : List Char → List Char
  | [] => []
  | c :: rest => if c = '/' then '\\' :: c :: escapeSlashes rest else c :: escapeSlashes rest

/-- The regular expression of a pattern between slashes, the slashes inside it escaped. -/
def delimited (p : Pattern) : List Char :=
  '/' :: escapeSlashes p.regexSource ++ ['/']

/-- A text matches a pattern if it matches the regular expression that stands for it. -/
def matchesText (p : Pattern) (text : List Char) : Bool :=
  (Regex.read? p.regexSource).any fun r => r.matchesText text

end Pattern
end RecordFilter
