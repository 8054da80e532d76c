/-
From a flat sequence of clauses, keywords and parentheses to a tree. Each parenthesised group, and
the whole condition, is one level; a level with an AND is a conjunction of its operands, a level
with only ORs a disjunction, and a level with one operand and no keyword is that operand. A level
that mixes the keywords says nothing about how they bind: it is taken as a conjunction, and
reported.

The sequence is read once, with the levels that are still open kept on a stack, so that the
outcome after any part of it depends on the rest alone.
-/
import RecordFilter.Condition.Tree
import RecordFilter.Error

namespace RecordFilter
namespace Grouping

/-- How deep parentheses may nest. What later walks over the tree goes one step down a level, so
this bounds its depth as well. -/
def nestingLimit : Nat := 64

/-- A token with its fragment resolved. Parentheses carry their byte offsets. -/
inductive Item where
  | opening (position : Nat)
  | closing (position : Nat)
  | and
  | or
  | leaf (clause : Clause)
deriving DecidableEq

/-- A level as far as it has been read: its operands in order, and which keywords it holds. -/
structure Level where
  children : List Tree
  sawAnd : Bool
  sawOr : Bool
deriving DecidableEq

namespace Level

def empty : Level :=
  { children := [], sawAnd := false, sawOr := false }

def push (l : Level) (t : Tree) : Level :=
  { l with children := l.children ++ [t] }

/-- The tree of a level that is complete. Operands without a keyword between them make no tree. -/
def tree (l : Level) (template : String) : Except Error Tree :=
  match l.children with
  | [] => .error .emptyGroup
  | first :: rest =>
      if l.sawAnd then .ok (.all (first :: rest))
      else if l.sawOr then .ok (.any (first :: rest))
      else
        match rest with
        | [] => .ok first
        | _ :: _ => .error (.malformedClause template)

/-- A level that holds operands and both keywords. -/
def isMixed (l : Level) : Bool :=
  !l.children.isEmpty && l.sawAnd && l.sawOr

end Level

/-- A level that an open parenthesis interrupts, with the offset of the parenthesis. -/
structure Frame where
  position : Nat
  level : Level
deriving DecidableEq

/-- The outcome of grouping: the tree, and every mixed level that was completed, in the order of
completion. A level is known by the parenthesis that opened it, the outermost one by none. -/
structure Grouped where
  tree : Except Error Tree
  mixed : List (Option Nat)

def Grouped.fail (e : Error) : Grouped :=
  { tree := .error e, mixed := [] }

/-- Puts a level in front of the mixed ones, if it is mixed. -/
def Grouped.report (l : Level) (position : Option Nat) (g : Grouped) : Grouped :=
  if l.isMixed then { g with mixed := position :: g.mixed } else g

/-- Reads the rest of the items into a level, inside the interrupted levels of the stack, the
innermost first. -/
def run (template : String) (level : Level) (stack : List Frame) : List Item → Grouped
  | [] =>
      match stack with
      | [] => Grouped.report level none { tree := level.tree template, mixed := [] }
      | frame :: _ => .fail (.unbalancedParens frame.position)
  | item :: rest =>
      match item with
      | .and => run template { level with sawAnd := true } stack rest
      | .or => run template { level with sawOr := true } stack rest
      | .leaf clause => run template (level.push (.leaf clause)) stack rest
      | .opening position =>
          if stack.length = nestingLimit then .fail (.nestingTooDeep nestingLimit)
          else run template .empty ({ position, level } :: stack) rest
      | .closing position =>
          match stack with
          | [] => .fail (.unbalancedParens position)
          | frame :: stack =>
              match level.tree template with
              | .error e => .fail e
              | .ok t =>
                  (run template (frame.level.push t) stack rest).report level frame.position

def group (template : String) (items : List Item) : Grouped :=
  run template .empty [] items

end Grouping
end RecordFilter
