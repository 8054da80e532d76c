/-
The shape of the tree that a level stands for.  The clauses of the parts are the leaves of the tree
in the same order, every conjunction and disjunction of it has a child, and a path through it has
at most one such node for each level of the parts.
-/
import RecordFilter.Proofs.Grouping.Parts

namespace RecordFilter

namespace Tree

mutual
/-- The greatest number of conjunctions and disjunctions on a path through a tree. -/
def height : Tree → Nat
  | .leaf _ => 0
  | .all children => heightOf children + 1
  | .any children => heightOf children + 1

def heightOf : List Tree → Nat
  | [] => 0
  | t :: rest => max (height t) (heightOf rest)
end

mutual
/-- Every conjunction and disjunction in a tree has at least so many children. -/
def Branches (least : Nat) : Tree → Prop
  | .leaf _ => True
  | .all children => least ≤ children.length ∧ BranchesOf least children
  | .any children => least ≤ children.length ∧ BranchesOf least children

def BranchesOf (least : Nat) : List Tree → Prop
  | [] => True
  | t :: rest => Branches least t ∧ BranchesOf least rest
end

@[simp] theorem leavesOf_append (left right : List Tree) :
    leavesOf (left ++ right) = leavesOf left ++ leavesOf right := by
  induction left with
  | nil => rfl
  | cons t rest ih => rw [List.cons_append, leavesOf, leavesOf, ih, List.append_assoc]

end Tree

namespace Grouping
namespace Part

/-! ## One level -/

/-- A proper level without keywords has one operand, and its tree is that operand. -/
theorem treeOf_cases {parts : List Part} (h : Proper parts) :
    treeOf parts = .all (operandsOf parts) ∨ treeOf parts = .any (operandsOf parts) ∨
      operandsOf parts = [treeOf parts] := by
  rw [treeOf, join]
  by_cases hand : parts.any isAnd = true
  · exact Or.inl (by rw [if_pos hand])
  · by_cases hor : parts.any isOr = true
    · exact Or.inr (Or.inl (by rw [if_neg hand, if_pos hor]))
    · refine Or.inr (Or.inr ?_)
      rw [if_neg hand, if_neg hor]
      obtain ⟨hne, hkeyword⟩ := h
      match hoperands : operandsOf parts with
      | [] => exact absurd hoperands hne
      | [operand] => rfl
      | _ :: _ :: _ =>
          have hmany : 2 ≤ (operandsOf parts).length := by rw [hoperands]; simp
          exact absurd (hkeyword hmany) (by simp [hand, hor])

theorem leaves_treeOf {parts : List Part} (h : Proper parts) :
    (treeOf parts).leaves = Tree.leavesOf (operandsOf parts) := by
  rcases treeOf_cases h with hall | hany | hone
  · rw [hall, Tree.leaves]
  · rw [hany, Tree.leaves]
  · rw [hone, Tree.leavesOf, Tree.leavesOf, List.append_nil]

theorem height_treeOf {parts : List Part} (h : Proper parts) :
    (treeOf parts).height ≤ Tree.heightOf (operandsOf parts) + 1 := by
  rcases treeOf_cases h with hall | hany | hone
  · exact Nat.le_of_eq (by rw [hall, Tree.height])
  · exact Nat.le_of_eq (by rw [hany, Tree.height])
  · rw [hone, Tree.heightOf, Tree.heightOf]
    omega

theorem branches_treeOf {parts : List Part} (h : Proper parts)
    (hoperands : Tree.BranchesOf 1 (operandsOf parts)) : (treeOf parts).Branches 1 := by
  have hpos : 1 ≤ (operandsOf parts).length := List.length_pos_iff.mpr h.1
  rcases treeOf_cases h with hall | hany | hone
  · rw [hall, Tree.Branches]
    exact ⟨hpos, hoperands⟩
  · rw [hany, Tree.Branches]
    exact ⟨hpos, hoperands⟩
  · rw [hone, Tree.BranchesOf] at hoperands
    exact hoperands.1

/-! ## All levels -/

def clausesOf (marks : List Mark) : List Clause :=
  marks.filterMap Mark.clause?

theorem leavesOf_operandsOf {parts : List Part} (h : InnerOf parts) :
    Tree.leavesOf (operandsOf parts) = clausesOf (marksOf parts) := by
  induction parts using level_induction with
  | nil => rfl
  | leaf clause rest ih =>
      show clause :: Tree.leavesOf (operandsOf rest) = clause :: clausesOf (marksOf rest)
      rw [ih h.2]
  | and rest ih => exact ih h.2
  | or rest ih => exact ih h.2
  | group parts rest ih ihRest =>
      obtain ⟨⟨hproper, hinner⟩, hrest⟩ := h
      have hmarks : clausesOf (marksOf (.group parts :: rest)) =
          clausesOf (marksOf parts) ++ clausesOf (marksOf rest) := by
        simp [clausesOf, marksOf, marks, List.filterMap_cons, Mark.clause?]
      rw [hmarks, ← ih hinner, ← ihRest hrest, ← leaves_treeOf hproper]
      rfl

/-- The leaves of the tree of a complete level are the clauses of its parts in order. -/
theorem leaves_treeOf_of_complete {parts : List Part} (h : Complete parts) :
    (treeOf parts).leaves = clausesOf (marksOf parts) := by
  rw [leaves_treeOf h.1, leavesOf_operandsOf h.2]

theorem heightOf_operandsOf {parts : List Part} (h : InnerOf parts) :
    Tree.heightOf (operandsOf parts) ≤ depthOf parts := by
  induction parts using level_induction with
  | nil => exact Nat.le_refl 0
  | leaf clause rest ih =>
      show max 0 (Tree.heightOf (operandsOf rest)) ≤ max 0 (depthOf rest)
      have := ih h.2
      omega
  | and rest ih => exact Nat.le_trans (ih h.2) (Nat.le_max_right _ _)
  | or rest ih => exact Nat.le_trans (ih h.2) (Nat.le_max_right _ _)
  | group parts rest ih ihRest =>
      obtain ⟨⟨hproper, hinner⟩, hrest⟩ := h
      show max (treeOf parts).height (Tree.heightOf (operandsOf rest)) ≤
        max (depthOf parts + 1) (depthOf rest)
      have hlevel := height_treeOf hproper
      have hin := ih hinner
      have hout := ihRest hrest
      omega

theorem height_treeOf_of_complete {parts : List Part} (h : Complete parts) :
    (treeOf parts).height ≤ depthOf parts + 1 := by
  have hlevel := height_treeOf h.1
  have hoperands := heightOf_operandsOf h.2
  omega

theorem branchesOf_operandsOf {parts : List Part} (h : InnerOf parts) :
    Tree.BranchesOf 1 (operandsOf parts) := by
  induction parts using level_induction with
  | nil => trivial
  | leaf clause rest ih => exact ⟨trivial, ih h.2⟩
  | and rest ih => exact ih h.2
  | or rest ih => exact ih h.2
  | group parts rest ih ihRest =>
      obtain ⟨⟨hproper, hinner⟩, hrest⟩ := h
      exact ⟨branches_treeOf hproper (ih hinner), ihRest hrest⟩

theorem branches_treeOf_of_complete {parts : List Part} (h : Complete parts) :
    (treeOf parts).Branches 1 :=
  branches_treeOf h.1 (branchesOf_operandsOf h.2)

end Part
end Grouping
end RecordFilter
