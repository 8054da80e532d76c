/-
Filters by position: the condition is read by position, and so are the fragments that a flat file
is handed as they were written.
-/
import RecordFilter.Backend.Dispatch
import RecordFilter.Bytewise.Clause

namespace RecordFilter
namespace Bytewise

open FlatFile (Expression)
open Grouping (Frame Item Level)

/-! ## Conditions -/

def countPlaceholders (template : List Char) : List Token → Except (Stop Error) Nat
  | [] => .ok 0
  | token :: rest =>
      match token.kind with
      | .fragment => do
          let text ← tokenText template token
          let more ← countPlaceholders template rest
          return Quote.placeholders text + more
      | _ => countPlaceholders template rest

def resolve (template : List Char) : List Token → List Value → Except (Stop Error) (List Item)
  | [], _ => .ok []
  | token :: rest, values =>
      match token.kind with
      | .openParen => (resolve template rest values).map (.opening token.start :: ·)
      | .closeParen => (resolve template rest values).map (.closing token.start :: ·)
      | .and => (resolve template rest values).map (.and :: ·)
      | .or => (resolve template rest values).map (.or :: ·)
      | .fragment => do
          let text ← tokenText template token
          let (clause, values) ← readFragment text values
          (resolve template rest values).map (.leaf clause :: ·)

/-- The tree of a level that is complete; a level of one operand is what stands at its start. -/
def levelTree (l : Level) (template : String) : Except (Stop Error) Tree :=
  if l.children.isEmpty then .error (.fault .emptyGroup)
  else if l.sawAnd then .ok (.all l.children)
  else if l.sawOr then .ok (.any l.children)
  else if l.children.length = 1 then itemAt l.children 0
  else .error (.fault (.malformedClause template))

/-- The tree of the rest of the items, read into a level inside the interrupted ones. -/
def group (template : String) (level : Level) (stack : List Frame) :
    List Item → Except (Stop Error) Tree
  | [] =>
      match stack with
      | [] => levelTree level template
      | frame :: _ => .error (.fault (.unbalancedParens frame.position))
  | item :: rest =>
      match item with
      | .and => group template { level with sawAnd := true } stack rest
      | .or => group template { level with sawOr := true } stack rest
      | .leaf clause => group template (level.push (.leaf clause)) stack rest
      | .opening position =>
          if stack.length = Grouping.nestingLimit then
            .error (.fault (.nestingTooDeep Grouping.nestingLimit))
          else group template .empty ({ position, level } :: stack) rest
      | .closing position =>
          match stack with
          | [] => .error (.fault (.unbalancedParens position))
          | frame :: stack => do
              let t ← levelTree level template
              group template (frame.level.push t) stack rest

def parse (c : Condition) : Except (Stop Error) (Option Tree) := do
  let template := c.template.toList
  match ← tokens template with
  | [] => return none
  | toks =>
      let placeholders ← countPlaceholders template toks
      if placeholders ≠ c.values.length then
        throw (.fault (.placeholderMismatch placeholders c.values.length))
      let items ← resolve template toks c.values
      let tree ← group c.template .empty [] items
      return some tree

/-! ## Expressions -/

/-- What a word is replaced with, by the groups of its match: the match itself and the word. -/
def sigil (groups : List (List Char)) : Except (Stop Error) (List Char) := do
  let word ← itemAt groups 1
  return if FlatFile.isLiteralWord word then word else '@' :: word

/-- Replaces the words of a text that start like a field, behind a word character or not. -/
def markWordsFrom (inWord : Bool) (text : List Char) : Except (Stop Error) (List Char) :=
  match text with
  | [] => .ok []
  | c :: rest =>
      if !inWord && (Text.isAsciiLetter c || c == '_') then do
        let word := c :: rest.takeWhile Text.isWord
        let replacement ← sigil [word, word]
        let more ← markWordsFrom true (rest.dropWhile Text.isWord)
        return replacement ++ more
      else (markWordsFrom (Text.isWord c) rest).map (c :: ·)
termination_by text.length
decreasing_by
  · have hle := (List.dropWhile_sublist (l := rest) Text.isWord).length_le
    simp only [List.length_cons]
    omega
  · simp only [List.length_cons]
    omega

/-- The position behind a literal that opens with this byte at this position, or the end. -/
def literalStop (bytes : List UInt8) (quote : UInt8) (start : Nat) : Except (Stop Error) Nat := do
  let behind ← onFrom bytes (start + 1)
  return match behind.findIdx? (· == quote) with
  | none => bytes.length
  | some offset => start + offset + 2

theorem lt_literalStop {bytes : List UInt8} {quote : UInt8} {start stop : Nat}
    (hlt : start < bytes.length) (h : literalStop bytes quote start = .ok stop) : start < stop := by
  obtain ⟨behind, _, h⟩ := bind_eq_ok_iff.mp h
  cases hfind : behind.findIdx? (· == quote) with
  | none =>
      rw [hfind] at h
      cases h
      exact hlt
  | some offset =>
      rw [hfind] at h
      cases h
      show start < start + offset + 2
      omega

/-- Marks the fields of a text from a position on, of which the part from `start` is still to be
marked. -/
def markFieldsFrom (text : List Char) (start current : Nat) : Except (Stop Error) (List Char) :=
  if _h : current < (Text.encode text).length then
    match itemAt (Text.encode text) current with
    | .error e => .error e
    | .ok b =>
        if Quote.isQuote (char b) then do
          let words ← textBetween text start current
          let marked ← markWordsFrom false words
          match _hstop : literalStop (Text.encode text) b current with
          | .error e => .error e
          | .ok stop =>
              let literal ← textBetween text current stop
              let more ← markFieldsFrom text stop stop
              return marked ++ literal ++ more
        else markFieldsFrom text start (current + 1)
  else do
    let words ← textOnFrom text start
    markWordsFrom false words
termination_by (Text.encode text).length - current
decreasing_by
  · have hlt := lt_literalStop _h _hstop
    omega
  · omega

def markFields (text : List Char) : Except (Stop Error) (List Char) :=
  markFieldsFrom text 0 0

def clauseExpression : Clause → Except (Stop Error) Expression
  | .bare text => (markFields text.toList).map .ofText
  | clause => .ok (FlatFile.clauseExpression clause)

mutual
def treeExpression : Tree → Except (Stop Error) Expression
  | .leaf clause => clauseExpression clause
  | .all children => joined FlatFile.andText children
  | .any children => joined FlatFile.orText children

def operandExpression : Tree → Except (Stop Error) Expression
  | .leaf clause => clauseExpression clause
  | .all children => (joined FlatFile.andText children).map FlatFile.parenthesised
  | .any children => (joined FlatFile.orText children).map FlatFile.parenthesised

def joined (joiner : List Char) : List Tree → Except (Stop Error) Expression
  | [] => .ok (.ofText [])
  | t :: rest => do
      let first ← operandExpression t
      let more ← joinedAfter joiner rest
      return first ++ more

def joinedAfter (joiner : List Char) : List Tree → Except (Stop Error) Expression
  | [] => .ok (.ofText [])
  | t :: rest => do
      let first ← operandExpression t
      let more ← joinedAfter joiner rest
      return .ofText joiner ++ first ++ more
end

/-! ## Filters -/

def filterOfTree (s : Storage) (c : Condition) (tree : Tree) : Except (Stop Error) Filter :=
  match s.backend with
  | .flatFile => do
      let e ← treeExpression tree
      return .expression (String.ofList e.text) e.values
  | .relational => do
      let values ← lift (Relational.values s.schema c tree)
      return .template c.template values
  | .document => do
      let doc ← lift (Document.treeDocument tree)
      return .document doc

/-- The filter of a condition for a backend. -/
def filterFor (s : Storage) (c : Condition) : Except (Stop Error) (Option Filter) := do
  match ← parse c with
  | none => return none
  | some tree =>
      let filter ← filterOfTree s c tree
      return some filter

end Bytewise
end RecordFilter
