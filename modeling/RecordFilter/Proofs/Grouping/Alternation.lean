/-
Levels on which operands and keywords take turns.  Grouping keeps no order of the two: it asks for
an operand, and for a keyword if there are several.  Taking turns is more than that, and
`EveryLevel.complete` says that levels which do so are complete.

Whether they do can be seen from the tokens alone, without nesting.  `Linked` asks of each token
that it fits the one in front of it: an operand is over in front of a keyword and of a closing
parenthesis, and nowhere else.  `everyLevel_alternates_iff_linked` is the equivalence.
-/
import Mathlib.Data.List.Chain
import RecordFilter.Proofs.Grouping.Parts

namespace RecordFilter
namespace Grouping

namespace Part

/-! ## Every level -/

mutual
/-- All levels inside a part have a property. -/
def Within (p : List Part → Prop) : Part → Prop
  | .group parts => p parts ∧ WithinOf p parts
  | _ => True

def WithinOf (p : List Part → Prop) : List Part → Prop
  | [] => True
  | part :: rest => Within p part ∧ WithinOf p rest
end

/-- A level and all levels inside it have a property. -/
def EveryLevel (p : List Part → Prop) (parts : List Part) : Prop :=
  p parts ∧ WithinOf p parts

theorem innerOf_of_withinOf {p : List Part → Prop} (hp : ∀ parts, p parts → Proper parts)
    {parts : List Part} (h : WithinOf p parts) : InnerOf parts := by
  induction parts using level_induction with
  | nil => trivial
  | leaf clause rest ih => exact ⟨trivial, ih h.2⟩
  | and rest ih => exact ⟨trivial, ih h.2⟩
  | or rest ih => exact ⟨trivial, ih h.2⟩
  | group parts rest ih ihRest =>
      obtain ⟨⟨hlevel, hinner⟩, hrest⟩ := h
      exact ⟨⟨hp parts hlevel, ih hinner⟩, ihRest hrest⟩

/-- Levels with a property that makes them proper are complete. -/
theorem EveryLevel.complete {p : List Part → Prop} (hp : ∀ parts, p parts → Proper parts)
    {parts : List Part} (h : EveryLevel p parts) : Complete parts :=
  ⟨hp parts h.1, innerOf_of_withinOf hp h.2⟩

/-! ## Taking turns -/

/-- A clause or a group, and not a keyword. -/
def isOperand : Part → Bool
  | .leaf _ | .group _ => true
  | .and | .or => false

/-- Operands and keywords take turns at a level, with an operand at either end. -/
inductive Alternates : List Part → Prop
  | last {operand : Part} (hoperand : operand.isOperand = true) : Alternates [operand]
  | more {operand keyword : Part} {rest : List Part} (hoperand : operand.isOperand = true)
      (hkeyword : keyword.isOperand = false) (hrest : Alternates rest) :
      Alternates (operand :: keyword :: rest)

theorem operandsOf_ne_nil {operand : Part} (h : operand.isOperand = true) (rest : List Part) :
    operandsOf (operand :: rest) ≠ [] := by
  cases operand with
  | leaf clause => exact List.cons_ne_nil _ _
  | group parts => exact List.cons_ne_nil _ _
  | and => cases h
  | or => cases h

theorem proper_of_alternates {parts : List Part} (h : Alternates parts) : Proper parts := by
  cases h with
  | @last operand hoperand =>
      refine ⟨operandsOf_ne_nil hoperand [], ?_⟩
      intro hmany
      have hone : (operandsOf [operand]).length ≤ 1 := by
        rw [operandsOf, operandsOf, List.append_nil]
        exact Option.length_toList_le
      omega
  | @more operand keyword rest hoperand hkeyword _ =>
      refine ⟨operandsOf_ne_nil hoperand _, ?_⟩
      intro _
      cases keyword with
      | and => exact Or.inl (by simp [isAnd])
      | or => exact Or.inr (by simp [isOr])
      | leaf clause => cases hkeyword
      | group parts => cases hkeyword

/-- Reads a level behind an operand or behind a keyword.  The outcome says which of them the level
ends with; there is none if two of a kind meet. -/
def turn : Bool → List Part → Option Bool
  | behind, [] => some behind
  | behind, part :: rest =>
      if part.isOperand = behind then none else turn part.isOperand rest

theorem turn_cons {behind : Bool} {part : Part} {rest : List Part} {outcome : Bool} :
    turn behind (part :: rest) = some outcome ↔
      part.isOperand = !behind ∧ turn (!behind) rest = some outcome := by
  rw [turn]
  cases behind <;> cases part.isOperand <;> simp

theorem turn_of_alternates {parts : List Part} (h : Alternates parts) :
    turn false parts = some true := by
  induction h with
  | last hoperand => exact turn_cons.mpr ⟨hoperand, rfl⟩
  | more hoperand hkeyword _ ih =>
      exact turn_cons.mpr ⟨hoperand, turn_cons.mpr ⟨hkeyword, ih⟩⟩

theorem alternates_of_turn : ∀ {parts : List Part}, turn false parts = some true →
    Alternates parts
  | [], h => by cases h
  | [operand], h => .last (turn_cons.mp h).1
  | operand :: keyword :: rest, h => by
      obtain ⟨hoperand, hmore⟩ := turn_cons.mp h
      obtain ⟨hkeyword, hrest⟩ := turn_cons.mp hmore
      exact .more hoperand hkeyword (alternates_of_turn hrest)

theorem alternates_iff_turn {parts : List Part} :
    Alternates parts ↔ turn false parts = some true :=
  ⟨turn_of_alternates, alternates_of_turn⟩

end Part

/-! ## Neighbours -/

/-- An operand is over behind a token of this kind. -/
def endsOperand : TokenKind → Bool
  | .fragment | .closeParen => true
  | .openParen | .and | .or => false

/-- A token of this kind stands behind an operand. -/
def followsOperand : TokenKind → Bool
  | .and | .or | .closeParen => true
  | .openParen | .fragment => false

def Fits (left right : TokenKind) : Prop :=
  endsOperand left = followsOperand right

instance : DecidableRel Fits := fun _ _ =>
  inferInstanceAs (Decidable (_ = _))

/-- Every token fits the one in front of it.  A template begins as a group does and ends as one. -/
def Linked (kinds : List TokenKind) : Prop :=
  List.IsChain Fits (.openParen :: (kinds ++ [.closeParen]))

instance (kinds : List TokenKind) : Decidable (Linked kinds) :=
  inferInstanceAs (Decidable (List.IsChain _ _))

namespace Part

/-- A part that is one token fits what is in front of it exactly if it takes its turn. -/
theorem isChain_cons_token {part : Part} {parts : List Part} {left kind : TokenKind}
    {kinds : List TokenKind} {outcome : Bool} {after : Prop}
    (hfollows : followsOperand kind = !part.isOperand) (hinner : Within Alternates part)
    (hrest : List.IsChain Fits (kind :: kinds) ↔
      WithinOf Alternates parts ∧ turn part.isOperand parts = some outcome ∧ after) :
    List.IsChain Fits (left :: kind :: kinds) ↔
      WithinOf Alternates (part :: parts) ∧
        turn (endsOperand left) (part :: parts) = some outcome ∧ after := by
  rw [List.isChain_cons_cons, hrest, WithinOf, turn_cons, Fits, hfollows]
  cases endsOperand left <;> cases part.isOperand <;> simp [hinner]

/-- The tokens of a level fit each other, and the tokens around it, exactly if the parts take turns
from one of these to the other and so do the parts of every level inside.  The tokens around it are
any two, since a group is read between its own parentheses. -/
theorem isChain_kindsOf_append {parts : List Part} {left right : TokenKind}
    {rest : List TokenKind} :
    List.IsChain Fits (left :: (kindsOf parts ++ right :: rest)) ↔
      WithinOf Alternates parts ∧
        turn (endsOperand left) parts = some (followsOperand right) ∧
        List.IsChain Fits (right :: rest) := by
  induction parts using level_induction generalizing left right rest with
  | nil =>
      show List.IsChain Fits (left :: right :: rest) ↔ _
      rw [List.isChain_cons_cons, turn, WithinOf, Option.some_inj, Fits, true_and]
  | leaf clause parts ih => exact isChain_cons_token rfl trivial ih
  | and parts ih => exact isChain_cons_token rfl trivial ih
  | or parts ih => exact isChain_cons_token rfl trivial ih
  | group inner parts ih ihParts =>
      rw [kindsOf_group, List.cons_append, List.append_assoc, List.cons_append,
        List.isChain_cons_cons, ih, ihParts, WithinOf, Within, turn_cons, alternates_iff_turn]
      show endsOperand left = false ∧ _ ∧ turn false inner = some true ∧ _ ∧
        turn true parts = _ ∧ _ ↔ _ ∧ (true = !endsOperand left ∧ _) ∧ _
      cases endsOperand left with
      | false =>
          show _ ↔ _ ∧ (_ ∧ turn true parts = _) ∧ _
          tauto
      | true => simp

theorem everyLevel_alternates_iff_linked {parts : List Part} :
    EveryLevel Alternates parts ↔ Linked (kindsOf parts) := by
  rw [Linked, isChain_kindsOf_append, EveryLevel, alternates_iff_turn]
  show _ ↔ _ ∧ turn false parts = some true ∧ List.IsChain Fits [.closeParen]
  have hend : List.IsChain Fits [.closeParen] := List.IsChain.singleton _
  constructor
  · rintro ⟨hturn, hinner⟩
    exact ⟨hinner, hturn, hend⟩
  · rintro ⟨hinner, hturn, _⟩
    exact ⟨hturn, hinner⟩

end Part
end Grouping
end RecordFilter
