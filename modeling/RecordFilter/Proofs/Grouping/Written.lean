/-
Writing a tree as a template.  Children are joined with AND or OR, and every child that is itself a
conjunction or disjunction stands in parentheses.  By `textOf_level` the template is the marks of the
tree's level written one after the other.

Marks that are written so can be told apart again: `cut_textOf` says that their text is cut into the
lexeme of each.  All it takes is that no operand follows a clause, since the text of a clause would
otherwise run on.
-/
import RecordFilter.Proofs.Clause.Written
import RecordFilter.Proofs.Grouping.Nesting

namespace RecordFilter

open Grouping

namespace Tree

/-- The text of a tree as an operand: a composite one stands in parentheses. -/
def enclose (text : List Char) : Tree → List Char
  | .leaf _ => text
  | .all _ | .any _ => '(' :: (text ++ [')'])

mutual
/-- The template that a tree is written as. -/
def written : Tree → List Char
  | .leaf clause => clause.text.toList
  | .all children => [' ', 'A', 'N', 'D', ' '].intercalate (operandTexts children)
  | .any children => [' ', 'O', 'R', ' '].intercalate (operandTexts children)

def operandTexts : List Tree → List (List Char)
  | [] => []
  | t :: rest => t.enclose (written t) :: operandTexts rest
end

end Tree

namespace Grouping

open Template Text

/-! ## The text of marks -/

def Mark.lexeme : Mark → Lexeme
  | .opening => { kind := .openParen, text := ['('] }
  | .closing => { kind := .closeParen, text := [')'] }
  | .and => { kind := .and, text := ['A', 'N', 'D'] }
  | .or => { kind := .or, text := ['O', 'R'] }
  | .leaf clause => { kind := .fragment, text := clause.text.toList }

/-- The text of a mark.  Keywords have a blank on either side. -/
def Mark.written : Mark → List Char
  | .and => [' ', 'A', 'N', 'D', ' ']
  | .or => [' ', 'O', 'R', ' ']
  | mark => mark.lexeme.text

def textOf (marks : List Mark) : List Char :=
  marks.flatMap Mark.written

@[simp] theorem textOf_nil : textOf [] = [] := rfl

@[simp] theorem textOf_cons (mark : Mark) (rest : List Mark) :
    textOf (mark :: rest) = mark.written ++ textOf rest := rfl

@[simp] theorem textOf_append (left right : List Mark) :
    textOf (left ++ right) = textOf left ++ textOf right :=
  List.flatMap_append

/-- Parts with a keyword between them are written as their texts with the keyword between them. -/
theorem textOf_intersperse {keyword : Part} {mark : Mark} (hkeyword : keyword.marks = [mark])
    (parts : List Part) :
    textOf (Part.marksOf (parts.intersperse keyword)) =
      mark.written.intercalate (parts.map fun part => textOf part.marks) := by
  induction parts with
  | nil => rfl
  | cons first rest ih =>
      cases rest with
      | nil => simp [Part.marksOf]
      | cons second rest =>
          rw [List.map_cons] at ih
          rw [List.intersperse_cons_cons, Part.marksOf, Part.marksOf, hkeyword, List.map_cons,
            List.map_cons, List.intercalate_cons_cons, ← ih]
          simp

/-! ## Operands stand apart -/

/-- An operand comes first. -/
def startsOperand : List Mark → Bool
  | .opening :: _ | .leaf _ :: _ => true
  | _ => false

/-- Nowhere does an operand follow a clause. -/
def Spaced : List Mark → Prop
  | [] => True
  | .leaf _ :: rest => startsOperand rest = false ∧ Spaced rest
  | _ :: rest => Spaced rest

/-- What may follow a clause starts a new piece: its text goes on with no word, and only layout can
come before the next delimiter. -/
theorem cut_of_startsOperand {marks : List Mark} (h : startsOperand marks = false) :
    Apart (textOf marks) ∧ (cut (textOf marks)).front.all isLayout = true := by
  match marks, h with
  | [], _ => exact ⟨fun c hc => (by cases hc), rfl⟩
  | .closing :: rest, _ => exact ⟨apart_cons (by decide) _, rfl⟩
  | .and :: rest, _ =>
      refine ⟨apart_cons (by decide) _, ?_⟩
      have hfront : (cut (textOf (.and :: rest))).front = [' '] := rfl
      rw [hfront]
      rfl
  | .or :: rest, _ =>
      refine ⟨apart_cons (by decide) _, ?_⟩
      have hfront : (cut (textOf (.or :: rest))).front = [' '] := rfl
      rw [hfront]
      rfl

/-- Marks whose operands stand apart are cut into their lexemes, and no literal is opened. -/
theorem cut_textOf {marks : List Mark} (hspaced : Spaced marks)
    (hprintable : ∀ clause ∈ Part.clausesOf marks, clause.Printable) (before : Option Char) :
    (cutFrom 0 before none (textOf marks)).lexemes = marks.map Mark.lexeme ∧
      (cutFrom 0 before none (textOf marks)).unclosed = none := by
  induction marks generalizing before with
  | nil => exact ⟨rfl, rfl⟩
  | cons mark rest ih =>
      cases mark with
      | opening =>
          have hcut : cutFrom 0 before none (textOf (.opening :: rest)) =
              (cutFrom 0 (some '(') none (textOf rest)).pushDelimiter .openParen ['('] := rfl
          obtain ⟨hlexemes, hunclosed⟩ := ih hspaced hprintable (some '(')
          rw [hcut, Cut.lexemes_pushDelimiter, Cut.unclosed_pushDelimiter, hlexemes]
          exact ⟨rfl, hunclosed⟩
      | closing =>
          have hcut : cutFrom 0 before none (textOf (.closing :: rest)) =
              (cutFrom 0 (some ')') none (textOf rest)).pushDelimiter .closeParen [')'] := rfl
          obtain ⟨hlexemes, hunclosed⟩ := ih hspaced hprintable (some ')')
          rw [hcut, Cut.lexemes_pushDelimiter, Cut.unclosed_pushDelimiter, hlexemes]
          exact ⟨rfl, hunclosed⟩
      | and =>
          have hcut : cutFrom 0 before none (textOf (.and :: rest)) =
              (((cutFrom 0 (some ' ') none (textOf rest)).pushChar ' ').pushDelimiter .and
                ['A', 'N', 'D']).pushChar ' ' := rfl
          obtain ⟨hlexemes, hunclosed⟩ := ih hspaced hprintable (some ' ')
          rw [hcut, Cut.lexemes_pushChar_of_layout rfl, Cut.lexemes_pushDelimiter,
            Cut.lexemes_pushChar_of_layout rfl, hlexemes]
          exact ⟨rfl, by simpa using hunclosed⟩
      | or =>
          have hcut : cutFrom 0 before none (textOf (.or :: rest)) =
              (((cutFrom 0 (some ' ') none (textOf rest)).pushChar ' ').pushDelimiter .or
                ['O', 'R']).pushChar ' ' := rfl
          obtain ⟨hlexemes, hunclosed⟩ := ih hspaced hprintable (some ' ')
          rw [hcut, Cut.lexemes_pushChar_of_layout rfl, Cut.lexemes_pushDelimiter,
            Cut.lexemes_pushChar_of_layout rfl, hlexemes]
          exact ⟨rfl, by simpa using hunclosed⟩
      | leaf clause =>
          have hclause : clause.Printable := hprintable clause List.mem_cons_self
          obtain ⟨hne, hhead, hlast⟩ := Clause.text_trimmed hclause
          obtain ⟨hapart, hfront⟩ := cut_of_startsOperand hspaced.1
          obtain ⟨hlexemes, hunclosed⟩ := ih hspaced.2
            (fun clause hmem => hprintable clause (List.mem_cons_of_mem _ hmem)) none
          have hcut : cutFrom 0 before none (textOf (.leaf clause :: rest)) =
              (cut (textOf rest)).push clause.text.toList :=
            Clause.cutFrom_text hclause hapart before
          rw [hcut, Cut.unclosed_push, Cut.lexemes_push hne
            (fun c hc => isLayout_of_not_blank (hhead c hc))
            (fun c hc => isLayout_of_not_blank (hlast c hc)) hfront, cut, hlexemes]
          exact ⟨rfl, hunclosed⟩

end Grouping

namespace Tree

/-! ## The text of a level -/

theorem operandTexts_eq_map (ts : List Tree) :
    operandTexts ts = ts.map fun t => t.enclose t.written := by
  induction ts with
  | nil => rfl
  | cons t rest ih => rw [operandTexts, ih, List.map_cons]

theorem textOf_asPart {t : Tree} (h : textOf (Part.marksOf t.level) = t.written) :
    textOf (t.asPart t.level).marks = t.enclose t.written := by
  cases t with
  | leaf clause => exact h
  | all children =>
      show textOf (.opening :: (Part.marksOf (level (.all children)) ++ [.closing])) = _
      rw [textOf_cons, textOf_append, h]
      rfl
  | any children =>
      show textOf (.opening :: (Part.marksOf (level (.any children)) ++ [.closing])) = _
      rw [textOf_cons, textOf_append, h]
      rfl

theorem textOf_level (t : Tree) : textOf (Part.marksOf t.level) = t.written := by
  have hoperands : ∀ children : List Tree,
      (∀ t ∈ children, textOf (Part.marksOf t.level) = t.written) →
      (operands children).map (fun part => textOf part.marks) = operandTexts children := by
    intro children h
    rw [operands_eq_map, operandTexts_eq_map, List.map_map]
    exact List.map_congr_left fun t ht => textOf_asPart (h t ht)
  induction t using Tree.induction with
  | leaf clause => exact List.append_nil _
  | all children ih => rw [level, textOf_intersperse rfl, hoperands children ih]; rfl
  | any children ih => rw [level, textOf_intersperse rfl, hoperands children ih]; rfl

/-- A level goes on with a keyword, or ends, behind each of its operands. -/
theorem spaced_intersperse_append {keyword : Part} {mark : Mark} (hkeyword : keyword.marks = [mark])
    (hmark : mark = .and ∨ mark = .or) {parts : List Part}
    (hparts : ∀ part ∈ parts, ∀ rest, Spaced rest → startsOperand rest = false →
      Spaced (part.marks ++ rest)) {rest : List Mark} (hrest : Spaced rest)
    (hstart : startsOperand rest = false) :
    Spaced (Part.marksOf (parts.intersperse keyword) ++ rest) := by
  have hstop : ∀ more, startsOperand (mark :: more) = false := by
    intro more
    rcases hmark with rfl | rfl <;> rfl
  have hskip : ∀ more, Spaced more → Spaced (mark :: more) := by
    intro more hmore
    rcases hmark with rfl | rfl <;> exact hmore
  induction parts with
  | nil => exact hrest
  | cons first others ih =>
      have hfirst := hparts first List.mem_cons_self
      cases others with
      | nil =>
          rw [List.intersperse_singleton, Part.marksOf, Part.marksOf, List.append_nil]
          exact hfirst rest hrest hstart
      | cons second others =>
          have hmore := ih fun part hpart => hparts part (List.mem_cons_of_mem first hpart)
          rw [List.intersperse_cons_cons, Part.marksOf, Part.marksOf, hkeyword, List.append_assoc,
            List.append_assoc]
          exact hfirst _ (hskip _ hmore) (hstop _)

theorem spaced_asPart_append {t : Tree}
    (ht : ∀ rest, Spaced rest → startsOperand rest = false → Spaced (Part.marksOf t.level ++ rest))
    {rest : List Mark} (hrest : Spaced rest) (hstart : startsOperand rest = false) :
    Spaced ((t.asPart t.level).marks ++ rest) := by
  have hclosed : Spaced (Part.marksOf t.level ++ .closing :: rest) := ht _ hrest rfl
  cases t with
  | leaf clause => exact ⟨hstart, hrest⟩
  | all children =>
      show Spaced (.opening :: (Part.marksOf (level (.all children)) ++ [.closing] ++ rest))
      rw [List.append_assoc]
      exact hclosed
  | any children =>
      show Spaced (.opening :: (Part.marksOf (level (.any children)) ++ [.closing] ++ rest))
      rw [List.append_assoc]
      exact hclosed

theorem spaced_level_append (t : Tree) {rest : List Mark} (hrest : Spaced rest)
    (hstart : startsOperand rest = false) : Spaced (Part.marksOf t.level ++ rest) := by
  have hoperands : ∀ children : List Tree,
      (∀ t ∈ children, ∀ rest, Spaced rest → startsOperand rest = false →
        Spaced (Part.marksOf t.level ++ rest)) →
      ∀ part ∈ operands children, ∀ rest, Spaced rest → startsOperand rest = false →
        Spaced (part.marks ++ rest) := by
    intro children h part hpart rest hrest hstart
    rw [operands_eq_map] at hpart
    obtain ⟨t, ht, rfl⟩ := List.mem_map.mp hpart
    exact spaced_asPart_append (h t ht) hrest hstart
  induction t using Tree.induction generalizing rest with
  | leaf clause => exact ⟨hstart, hrest⟩
  | all children ih =>
      exact spaced_intersperse_append rfl (Or.inl rfl)
        (hoperands children fun t ht rest => ih t ht) hrest hstart
  | any children ih =>
      exact spaced_intersperse_append rfl (Or.inr rfl)
        (hoperands children fun t ht rest => ih t ht) hrest hstart

theorem spaced_level (t : Tree) : Spaced (Part.marksOf t.level) := by
  have hspaced : Spaced (Part.marksOf t.level ++ []) := spaced_level_append t trivial rfl
  rw [List.append_nil] at hspaced
  exact hspaced

end Tree
end RecordFilter
