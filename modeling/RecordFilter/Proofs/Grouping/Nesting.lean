/-
The levels that a tree is written with.  `Tree.level` puts a keyword between the children of a
conjunction or disjunction and makes a group of every child that is itself composite, so that each
composite node has a level of its own.

If every composite node has two children or more, the level has a keyword and nothing is lost:
`treeOf_level` says that the tree of the level is the one it was made from, and `complete_level`
that no level inside it is refused.  The groups nest one less deep than the tree is high, since the
root is not parenthesised.
-/
import RecordFilter.Proofs.Grouping.Shape

namespace RecordFilter

namespace Grouping
namespace Part

theorem operandsOf_eq_filterMap (parts : List Part) :
    operandsOf parts = parts.filterMap operand? := by
  induction parts with
  | nil => rfl
  | cons part rest ih =>
      rw [operandsOf, ih, List.filterMap_cons]
      cases operand? part <;> rfl

theorem innerOf_iff {parts : List Part} : InnerOf parts ↔ ∀ part ∈ parts, Inner part := by
  induction parts with
  | nil => simp [InnerOf]
  | cons part rest ih => rw [InnerOf, ih, List.forall_mem_cons]

theorem depthOf_le_iff {parts : List Part} {n : Nat} :
    depthOf parts ≤ n ↔ ∀ part ∈ parts, depth part ≤ n := by
  induction parts with
  | nil => simp [depthOf]
  | cons part rest ih => rw [depthOf, List.forall_mem_cons, ← ih, Nat.max_le]

/-! ## Keywords between operands -/

variable {keyword : Part} {parts : List Part}

theorem mem_intersperse {part : Part} (h : part ∈ parts.intersperse keyword) :
    part = keyword ∨ part ∈ parts := by
  induction parts with
  | nil => exact Or.inr h
  | cons first rest ih =>
      cases rest with
      | nil => exact Or.inr h
      | cons second rest =>
          rw [List.intersperse_cons_cons] at h
          rcases List.mem_cons.mp h with rfl | h
          · exact Or.inr List.mem_cons_self
          · rcases List.mem_cons.mp h with rfl | h
            · exact Or.inl rfl
            · exact (ih h).imp id (List.mem_cons_of_mem first)

theorem operandsOf_intersperse (hkeyword : operand? keyword = none) (parts : List Part) :
    operandsOf (parts.intersperse keyword) = operandsOf parts := by
  induction parts with
  | nil => rfl
  | cons first rest ih =>
      cases rest with
      | nil => rfl
      | cons second rest =>
          rw [List.intersperse_cons_cons, operandsOf, operandsOf, ih, hkeyword, operandsOf]
          rfl

theorem any_intersperse {p : Part → Bool} (hkeyword : p keyword = true)
    (hmany : 2 ≤ parts.length) : (parts.intersperse keyword).any p = true := by
  match parts, hmany with
  | first :: second :: rest, _ =>
      rw [List.intersperse_cons_cons, List.any_cons, List.any_cons, hkeyword, Bool.true_or,
        Bool.or_true]

theorem any_intersperse_eq_false {p : Part → Bool} (hkeyword : p keyword = false)
    (hparts : ∀ part ∈ parts, p part = false) : (parts.intersperse keyword).any p = false := by
  rw [List.any_eq_false]
  intro part hpart
  rcases mem_intersperse hpart with rfl | hmem
  · rw [hkeyword]
    exact Bool.false_ne_true
  · rw [hparts part hmem]
    exact Bool.false_ne_true

/-- Several operands with one keyword between them are a proper level. -/
theorem proper_intersperse (hkeyword : operand? keyword = none)
    (hword : isAnd keyword = true ∨ isOr keyword = true)
    (hmany : 2 ≤ (operandsOf parts).length) : Proper (parts.intersperse keyword) := by
  have hlength : 2 ≤ parts.length := by
    rw [operandsOf_eq_filterMap] at hmany
    exact Nat.le_trans hmany (List.length_filterMap_le _ _)
  refine ⟨?_, fun _ => hword.imp (any_intersperse · hlength) (any_intersperse · hlength)⟩
  rw [operandsOf_intersperse hkeyword]
  intro hnil
  rw [hnil] at hmany
  cases hmany

end Part
end Grouping

namespace Tree

open Grouping

theorem induction {motive : Tree → Prop} (leaf : ∀ clause, motive (.leaf clause))
    (all : ∀ children, (∀ t ∈ children, motive t) → motive (.all children))
    (any : ∀ children, (∀ t ∈ children, motive t) → motive (.any children)) (t : Tree) :
    motive t :=
  t.rec leaf all any (fun _ h => (by cases h)) fun _ _ ht hrest _ h =>
    (List.mem_cons.mp h).elim (fun heq => heq ▸ ht) (hrest _)

theorem branchesOf_iff {least : Nat} {ts : List Tree} :
    BranchesOf least ts ↔ ∀ t ∈ ts, Branches least t := by
  induction ts with
  | nil => simp [BranchesOf]
  | cons t rest ih => rw [BranchesOf, ih, List.forall_mem_cons]

theorem height_le_heightOf {ts : List Tree} {t : Tree} (h : t ∈ ts) : t.height ≤ heightOf ts := by
  induction ts with
  | nil => cases h
  | cons first rest ih =>
      rw [heightOf]
      rcases List.mem_cons.mp h with rfl | hrest
      · omega
      · have := ih hrest
        omega

/-! ## The level of a tree -/

/-- A tree as a part of the level above it, given its own level. -/
def asPart (level : List Part) : Tree → Part
  | .leaf clause => .leaf clause
  | .all _ | .any _ => .group level

mutual
/-- The level that a tree is written with. -/
def level : Tree → List Part
  | .leaf clause => [.leaf clause]
  | .all children => (operands children).intersperse .and
  | .any children => (operands children).intersperse .or

def operands : List Tree → List Part
  | [] => []
  | t :: rest => t.asPart (level t) :: operands rest
end

theorem operands_eq_map (ts : List Tree) : operands ts = ts.map fun t => t.asPart t.level := by
  induction ts with
  | nil => rfl
  | cons t rest ih => rw [operands, ih, List.map_cons]

theorem forall_mem_operands {p : Part → Prop} {ts : List Tree} :
    (∀ part ∈ operands ts, p part) ↔ ∀ t ∈ ts, p (t.asPart t.level) := by
  rw [operands_eq_map, List.forall_mem_map]

theorem isAnd_asPart (t : Tree) (level : List Part) : (t.asPart level).isAnd = false := by
  cases t <;> rfl

theorem operand?_asPart {t : Tree} (h : Part.treeOf t.level = t) :
    Part.operand? (t.asPart t.level) = some t := by
  cases t with
  | leaf clause => rfl
  | all children => exact congrArg some h
  | any children => exact congrArg some h

/-- The operands of a level are the trees that its parts were made from. -/
theorem operandsOf_operands {ts : List Tree} (h : ∀ t ∈ ts, Part.treeOf t.level = t) :
    Part.operandsOf (operands ts) = ts := by
  induction ts with
  | nil => rfl
  | cons t rest ih =>
      rw [operands, Part.operandsOf, operand?_asPart (h t List.mem_cons_self),
        ih fun u hu => h u (List.mem_cons_of_mem t hu)]
      rfl

theorem treeOf_level {t : Tree} (h : t.Branches 2) : Part.treeOf t.level = t := by
  induction t using Tree.induction with
  | leaf clause => rfl
  | all children ih =>
      rw [Branches, branchesOf_iff] at h
      have hoperands := operandsOf_operands fun t ht => ih t ht (h.2 t ht)
      have hlength : 2 ≤ (operands children).length := by
        rw [operands_eq_map, List.length_map]
        exact h.1
      rw [level, Part.treeOf, Part.any_intersperse rfl hlength, Part.operandsOf_intersperse rfl,
        hoperands]
      rfl
  | any children ih =>
      rw [Branches, branchesOf_iff] at h
      have hoperands := operandsOf_operands fun t ht => ih t ht (h.2 t ht)
      have hlength : 2 ≤ (operands children).length := by
        rw [operands_eq_map, List.length_map]
        exact h.1
      have hnone : ((operands children).intersperse .or).any Part.isAnd = false :=
        Part.any_intersperse_eq_false rfl
          (forall_mem_operands.mpr fun t _ => isAnd_asPart t t.level)
      rw [level, Part.treeOf, hnone, Part.any_intersperse rfl hlength,
        Part.operandsOf_intersperse rfl, hoperands]
      rfl

theorem inner_asPart {t : Tree} (h : Part.Complete t.level) : Part.Inner (t.asPart t.level) := by
  cases t with
  | leaf clause => trivial
  | all children => exact h
  | any children => exact h

theorem complete_intersperse {keyword : Part} {children : List Tree}
    (hkeyword : Part.operand? keyword = none) (hinner : Part.Inner keyword)
    (hword : keyword.isAnd = true ∨ keyword.isOr = true) (hmany : 2 ≤ children.length)
    (hbranches : ∀ t ∈ children, t.Branches 2)
    (hcomplete : ∀ t ∈ children, Part.Complete t.level) :
    Part.Complete ((operands children).intersperse keyword) := by
  have hoperands := operandsOf_operands fun t ht => treeOf_level (hbranches t ht)
  refine ⟨Part.proper_intersperse hkeyword hword (by rw [hoperands]; exact hmany),
    Part.innerOf_iff.mpr fun part hpart => ?_⟩
  rcases Part.mem_intersperse hpart with rfl | hmem
  · exact hinner
  · exact forall_mem_operands.mpr (fun t ht => inner_asPart (hcomplete t ht)) part hmem

theorem complete_level {t : Tree} (h : t.Branches 2) : Part.Complete t.level := by
  induction t using Tree.induction with
  | leaf clause =>
      refine ⟨⟨?_, ?_⟩, trivial, trivial⟩
      · intro hnil
        cases hnil
      · intro hmany
        have hone : (Part.operandsOf (level (.leaf clause))).length = 1 := rfl
        omega
  | all children ih =>
      rw [Branches, branchesOf_iff] at h
      exact complete_intersperse rfl trivial (Or.inl rfl) h.1 h.2 fun t ht => ih t ht (h.2 t ht)
  | any children ih =>
      rw [Branches, branchesOf_iff] at h
      exact complete_intersperse rfl trivial (Or.inr rfl) h.1 h.2 fun t ht => ih t ht (h.2 t ht)

theorem depth_asPart {t : Tree} (h : Part.depthOf t.level ≤ t.height - 1) :
    (t.asPart t.level).depth ≤ t.height := by
  cases t with
  | leaf clause => exact Nat.le_refl 0
  | all children =>
      have hpos : 0 < height (.all children) := by rw [height]; omega
      show Part.depthOf (level (.all children)) + 1 ≤ _
      omega
  | any children =>
      have hpos : 0 < height (.any children) := by rw [height]; omega
      show Part.depthOf (level (.any children)) + 1 ≤ _
      omega

theorem depthOf_intersperse {keyword : Part} {children : List Tree} (hkeyword : keyword.depth = 0)
    (h : ∀ t ∈ children, Part.depthOf t.level ≤ t.height - 1) :
    Part.depthOf ((operands children).intersperse keyword) ≤ heightOf children := by
  rw [Part.depthOf_le_iff]
  intro part hpart
  rcases Part.mem_intersperse hpart with rfl | hmem
  · omega
  · rw [operands_eq_map] at hmem
    obtain ⟨t, ht, rfl⟩ := List.mem_map.mp hmem
    exact Nat.le_trans (depth_asPart (h t ht)) (height_le_heightOf ht)

/-- The root of a tree needs no parentheses, and every other composite node needs one pair. -/
theorem depthOf_level (t : Tree) : Part.depthOf t.level ≤ t.height - 1 := by
  induction t using Tree.induction with
  | leaf clause => exact Nat.le_refl 0
  | all children ih =>
      rw [level, height, Nat.add_sub_cancel]
      exact depthOf_intersperse rfl ih
  | any children ih =>
      rw [level, height, Nat.add_sub_cancel]
      exact depthOf_intersperse rfl ih

end Tree
end RecordFilter
