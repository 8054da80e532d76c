/-
The tree of a filter: clauses at the leaves, conjunctions and disjunctions above them.
-/
import RecordFilter.Clause.Basic

namespace RecordFilter

/-- A filter as a tree of clauses. -/
inductive Tree where
  | leaf (clause : Clause)
  | all (children : List Tree)
  | any (children : List Tree)
deriving Inhabited

instance : Inhabited Clause := ⟨.bare ""⟩

namespace Tree

mutual
/-- The clauses of a tree from left to right, which is the order of their placeholders. -/
def leaves : Tree → List Clause
  | .leaf clause => [clause]
  | .all children => leavesOf children
  | .any children => leavesOf children

def leavesOf : List Tree → List Clause
  | [] => []
  | t :: rest => leaves t ++ leavesOf rest
end

mutual
def leafCount : Tree → Nat
  | .leaf _ => 1
  | .all children => leafCountOf children
  | .any children => leafCountOf children

def leafCountOf : List Tree → Nat
  | [] => 0
  | t :: rest => leafCount t + leafCountOf rest
end

mutual
def same : Tree → Tree → Bool
  | .leaf a, .leaf b => a == b
  | .all as, .all bs => sameList as bs
  | .any as, .any bs => sameList as bs
  | _, _ => false

def sameList : List Tree → List Tree → Bool
  | [], [] => true
  | a :: as, b :: bs => same a b && sameList as bs
  | _, _ => false
end

mutual
theorem same_iff_eq (a b : Tree) : same a b = true ↔ a = b := by
  match a, b with
  | .all as, .all bs => simp [same, sameList_iff_eq as bs]
  | .any as, .any bs => simp [same, sameList_iff_eq as bs]
  | .leaf _, b => cases b <;> simp [same]
  | .all _, .leaf _ | .all _, .any _ => simp [same]
  | .any _, .leaf _ | .any _, .all _ => simp [same]

theorem sameList_iff_eq (as bs : List Tree) : sameList as bs = true ↔ as = bs := by
  match as, bs with
  | [], [] => simp [sameList]
  | [], _ :: _ | _ :: _, [] => simp [sameList]
  | a :: as, b :: bs => simp [sameList, same_iff_eq a b, sameList_iff_eq as bs]
end

instance : DecidableEq Tree := fun a b =>
  decidable_of_iff (same a b = true) (same_iff_eq a b)

mutual
theorem length_leaves (t : Tree) : (leaves t).length = leafCount t := by
  match t with
  | .leaf _ => rfl
  | .all children => exact length_leavesOf children
  | .any children => exact length_leavesOf children

theorem length_leavesOf (ts : List Tree) : (leavesOf ts).length = leafCountOf ts := by
  match ts with
  | [] => rfl
  | t :: rest =>
      rw [leavesOf, leafCountOf, List.length_append, length_leaves t, length_leavesOf rest]
end

end Tree
end RecordFilter
