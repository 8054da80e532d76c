/-
What grouping makes of parts.  `Grouping.run` reads items from the left with the interrupted levels
on a stack.  `tree_run_append` says what reading all parts of one level amounts to: the level gains
their operands and keywords and the stack is as it was, provided that every level inside the parts
is proper and that there is room for their depth above the stack.  The statement is for any level,
any stack and any items behind, since a group is read on a stack with one frame more.

A sequence that is not written by parts is no condition, by `closes_of_tree_run`, and so
`tree_group_eq_ok_iff` covers every sequence.
-/
import RecordFilter.Proofs.Grouping.Parts

namespace RecordFilter
namespace Grouping

/-! ## Levels -/

/-- The level that has read some parts more. -/
def Level.extend (l : Level) (parts : List Part) : Level :=
  { children := l.children ++ Part.operandsOf parts
    sawAnd := l.sawAnd || parts.any Part.isAnd
    sawOr := l.sawOr || parts.any Part.isOr }

theorem Level.extend_nil (l : Level) : l.extend [] = l := by
  simp [Level.extend, Part.operandsOf]

theorem Level.extend_leaf (l : Level) (clause : Clause) (rest : List Part) :
    l.extend (.leaf clause :: rest) = (l.push (.leaf clause)).extend rest := by
  simp [Level.extend, Level.push, Part.operandsOf, Part.operand?, Part.isAnd, Part.isOr]

theorem Level.extend_and (l : Level) (rest : List Part) :
    l.extend (.and :: rest) = Level.extend { l with sawAnd := true } rest := by
  simp [Level.extend, Part.operandsOf, Part.operand?, Part.isAnd, Part.isOr]

theorem Level.extend_or (l : Level) (rest : List Part) :
    l.extend (.or :: rest) = Level.extend { l with sawOr := true } rest := by
  simp [Level.extend, Part.operandsOf, Part.operand?, Part.isAnd, Part.isOr]

theorem Level.extend_group (l : Level) (parts rest : List Part) :
    l.extend (.group parts :: rest) = (l.push (Part.treeOf parts)).extend rest := by
  simp [Level.extend, Level.push, Part.operandsOf, Part.operand?, Part.isAnd, Part.isOr,
    Part.treeOf]

/-- A level that has read some parts, and nothing else, has a tree exactly if they are proper. -/
theorem Level.tree_extend_empty (template : String) {parts : List Part} {t : Tree} :
    (Level.empty.extend parts).tree template = .ok t ↔
      Part.Proper parts ∧ Part.treeOf parts = t := by
  rw [Part.Proper, Part.treeOf, Part.join]
  simp only [Level.extend, Level.empty, Level.tree, List.nil_append, Bool.false_or]
  cases hoperands : Part.operandsOf parts with
  | nil => simp
  | cons first rest =>
      by_cases hand : parts.any Part.isAnd = true
      · simp [hand]
      · by_cases hor : parts.any Part.isOr = true
        · simp [hand, hor]
        · cases rest with
          | nil => simp [hand, hor]
          | cons second rest => simp [hand, hor]

@[simp] theorem tree_report (l : Level) (position : Option Nat) (g : Grouped) :
    (g.report l position).tree = g.tree := by
  rw [Grouped.report]
  split <;> rfl

/-! ## Reading parts -/

/-- The items that write a group are those inside of it, between its parentheses. -/
theorem exists_items_of_group {inner parts : List Part} {items : List Item}
    (h : items.map Item.mark = Part.marksOf (.group inner :: parts)) :
    ∃ first last inside after,
      items = .opening first :: (inside ++ .closing last :: after) ∧
        inside.map Item.mark = Part.marksOf inner ∧ after.map Item.mark = Part.marksOf parts := by
  have hmarks : items.map Item.mark =
      .opening :: (Part.marksOf inner ++ .closing :: Part.marksOf parts) := by
    simpa [Part.marksOf, Part.marks] using h
  obtain ⟨item, items, rfl, hitem, htail⟩ := List.map_eq_cons_iff.mp hmarks
  obtain ⟨inside, more, rfl, hinside, hmore⟩ := List.map_eq_append_iff.mp htail
  obtain ⟨closing, after, rfl, hclosing, hafter⟩ := List.map_eq_cons_iff.mp hmore
  obtain ⟨first, rfl⟩ : ∃ first, item = .opening first := by
    cases item <;> simp_all [Item.mark]
  obtain ⟨last, rfl⟩ : ∃ last, closing = .closing last := by
    cases closing <;> simp_all [Item.mark]
  exact ⟨first, last, inside, after, rfl, hinside, hafter⟩

theorem tree_run_append {template : String} {parts : List Part} {level : Level}
    {stack : List Frame} {items rest : List Item} {t : Tree}
    (hitems : items.map Item.mark = Part.marksOf parts) (hstack : stack.length ≤ nestingLimit) :
    (run template level stack (items ++ rest)).tree = .ok t ↔
      Part.InnerOf parts ∧ stack.length + Part.depthOf parts ≤ nestingLimit ∧
        (run template (level.extend parts) stack rest).tree = .ok t := by
  induction parts using Part.level_induction generalizing level stack items rest with
  | nil =>
      obtain rfl : items = [] := by simpa [Part.marksOf] using hitems
      simp [Part.InnerOf, Part.depthOf, Level.extend_nil, hstack]
  | leaf clause parts ih =>
      obtain ⟨item, items, rfl, hitem, htail⟩ := List.map_eq_cons_iff.mp hitems
      obtain rfl : item = .leaf clause := by cases item <;> simp_all [Item.mark]
      rw [List.cons_append, run, ih htail hstack, Level.extend_leaf]
      simp [Part.InnerOf, Part.Inner, Part.depthOf, Part.depth]
  | and parts ih =>
      obtain ⟨item, items, rfl, hitem, htail⟩ := List.map_eq_cons_iff.mp hitems
      obtain rfl : item = .and := by cases item <;> simp_all [Item.mark]
      rw [List.cons_append, run, ih htail hstack, Level.extend_and]
      simp [Part.InnerOf, Part.Inner, Part.depthOf, Part.depth]
  | or parts ih =>
      obtain ⟨item, items, rfl, hitem, htail⟩ := List.map_eq_cons_iff.mp hitems
      obtain rfl : item = .or := by cases item <;> simp_all [Item.mark]
      rw [List.cons_append, run, ih htail hstack, Level.extend_or]
      simp [Part.InnerOf, Part.Inner, Part.depthOf, Part.depth]
  | group inner parts ih ihParts =>
      obtain ⟨position, last, inside, after, rfl, hinside, hafter⟩ := exists_items_of_group hitems
      have hdepth : Part.depthOf (.group inner :: parts) =
          max (Part.depthOf inner + 1) (Part.depthOf parts) := rfl
      have hinner : Part.InnerOf (.group inner :: parts) ↔
          (Part.Proper inner ∧ Part.InnerOf inner) ∧ Part.InnerOf parts := Iff.rfl
      have happend : Item.opening position :: (inside ++ Item.closing last :: after) ++ rest =
          Item.opening position :: (inside ++ Item.closing last :: (after ++ rest)) := by simp
      rw [happend, run]
      by_cases hfull : stack.length = nestingLimit
      · -- No room for one more frame: the parenthesis is refused, and the depth is too great.
        rw [if_pos hfull, hdepth]
        refine ⟨fun h => (by cases h), fun h => ?_⟩
        have := h.2.1
        omega
      · have hroom : ({ position, level } :: stack : List Frame).length ≤ nestingLimit := by
          rw [List.length_cons]
          omega
        rw [if_neg hfull, ih hinside hroom, run, hinner, hdepth, List.length_cons,
          Level.extend_group]
        -- The group is complete: its level has a tree exactly if it is proper.
        cases htree : (Level.empty.extend inner).tree template with
        | error e =>
            have hnot : ¬ Part.Proper inner := by
              intro hproper
              have hok := (Level.tree_extend_empty template).mpr ⟨hproper, rfl⟩
              rw [htree] at hok
              cases hok
            refine ⟨fun h => (by cases h.2.2), fun h => absurd h.1.1.1 hnot⟩
        | ok tree =>
            obtain ⟨hproper, htreeOf⟩ := (Level.tree_extend_empty template).mp htree
            rw [tree_report, ihParts hafter hstack, ← htreeOf]
            constructor
            · rintro ⟨hin, hroom', hout, hroomOut, hrun⟩
              exact ⟨⟨⟨hproper, hin⟩, hout⟩, by omega, hrun⟩
            · rintro ⟨⟨⟨_, hin⟩, hout⟩, hroom', hrun⟩
              exact ⟨hin, by omega, hout, by omega, hrun⟩

/-! ## Errors -/

/-- What grouping can report. -/
inductive Refuses (template : String) : Error → Prop where
  | unbalanced (position : Nat) : Refuses template (.unbalancedParens position)
  | tooDeep : Refuses template (.nestingTooDeep nestingLimit)
  | empty : Refuses template .emptyGroup
  | unjoined : Refuses template (.malformedClause template)

theorem Level.refuses_of_tree {template : String} {l : Level} {e : Error}
    (h : l.tree template = .error e) : Refuses template e := by
  rw [Level.tree] at h
  split at h
  · cases h
    exact .empty
  · split at h
    · cases h
    · split at h
      · cases h
      · split at h
        · cases h
        · cases h
          exact .unjoined

theorem refuses_of_run {template : String} {level : Level} {stack : List Frame}
    {items : List Item} {e : Error} (h : (run template level stack items).tree = .error e) :
    Refuses template e := by
  induction items generalizing level stack with
  | nil =>
      cases stack with
      | nil =>
          rw [run, tree_report] at h
          exact Level.refuses_of_tree h
      | cons frame stack =>
          cases h
          exact .unbalanced frame.position
  | cons item rest ih =>
      cases item with
      | leaf clause => exact ih h
      | and => exact ih h
      | or => exact ih h
      | opening position =>
          rw [run] at h
          split at h
          · cases h
            exact .tooDeep
          · exact ih h
      | closing position =>
          cases stack with
          | nil =>
              cases h
              exact .unbalanced position
          | cons frame stack =>
              rw [run] at h
              split at h
              · rename_i e' htree
                cases h
                exact Level.refuses_of_tree htree
              · rw [tree_report] at h
                exact ih h

/-! ## Balance -/

/-- Items that make a tree close the parentheses of the stack, and no others. -/
theorem closes_of_tree_run {template : String} {level : Level} {stack : List Frame}
    {items : List Item} {t : Tree} (h : (run template level stack items).tree = .ok t) :
    openCount ((items.map Item.mark).map Mark.kind) = -(stack.length : Int) ∧
      Throughout (0 ≤ ·) stack.length ((items.map Item.mark).map Mark.kind) := by
  induction items generalizing level stack with
  | nil =>
      cases stack with
      | nil => exact ⟨rfl, throughout_nil.mpr (Int.le_refl 0)⟩
      | cons frame stack => rw [run] at h; cases h
  | cons item rest ih =>
      rw [List.map_cons, List.map_cons, openCount_cons, throughout_cons]
      have hstart : (0 : Int) ≤ stack.length := by omega
      cases item with
      | leaf clause =>
          rw [run] at h
          simpa [Item.mark, Mark.kind, rise, hstart] using ih h
      | and =>
          rw [run] at h
          simpa [Item.mark, Mark.kind, rise, hstart] using ih h
      | or =>
          rw [run] at h
          simpa [Item.mark, Mark.kind, rise, hstart] using ih h
      | opening position =>
          rw [run] at h
          split at h
          · cases h
          · obtain ⟨hcount, hfront⟩ := ih h
            rw [List.length_cons] at hcount hfront
            refine ⟨?_, hstart, hfront⟩
            show (1 : Int) + _ = _
            omega
      | closing position =>
          cases stack with
          | nil => rw [run] at h; cases h
          | cons frame stack =>
              rw [run] at h
              split at h
              · cases h
              · rw [tree_report] at h
                obtain ⟨hcount, hfront⟩ := ih h
                have hback : ((frame :: stack).length : Int) + rise .closeParen = stack.length := by
                  rw [List.length_cons]
                  show ((stack.length + 1 : Nat) : Int) + -1 = _
                  omega
                refine ⟨?_, hstart, ?_⟩
                · rw [List.length_cons]
                  show (-1 : Int) + _ = _
                  omega
                · rw [Item.mark, Mark.kind, hback]
                  exact hfront

/-- A sequence of items has a tree exactly if it is written by parts that are complete and nest
within the limit, and then it has the tree of those parts. -/
theorem tree_group_of_marksOf {template : String} {items : List Item} {parts : List Part}
    {t : Tree} (hparts : Part.marksOf parts = items.map Item.mark) :
    (group template items).tree = .ok t ↔
      Part.Complete parts ∧ Part.depthOf parts ≤ nestingLimit ∧ Part.treeOf parts = t := by
  have hrun : (run template .empty [] (items ++ [])).tree = .ok t ↔
      Part.InnerOf parts ∧ ([] : List Frame).length + Part.depthOf parts ≤ nestingLimit ∧
        (run template (Level.empty.extend parts) [] []).tree = .ok t :=
    tree_run_append hparts.symm (Nat.zero_le _)
  rw [List.append_nil, List.length_nil, Nat.zero_add] at hrun
  rw [group, hrun, run, tree_report, Level.tree_extend_empty, Part.Complete]
  constructor
  · rintro ⟨hinner, hdepth, hproper, htree⟩
    exact ⟨⟨hproper, hinner⟩, hdepth, htree⟩
  · rintro ⟨⟨hproper, hinner⟩, hdepth, htree⟩
    exact ⟨hinner, hdepth, hproper, htree⟩

theorem tree_group_eq_ok_iff {template : String} {items : List Item} {t : Tree} :
    (group template items).tree = .ok t ↔
      ∃ parts, Part.marksOf parts = items.map Item.mark ∧ Part.Complete parts ∧
        Part.depthOf parts ≤ nestingLimit ∧ Part.treeOf parts = t := by
  constructor
  · intro h
    obtain ⟨hcount, hfront⟩ := closes_of_tree_run h
    obtain ⟨parts, hparts⟩ := Part.exists_marksOf_iff.mpr ⟨by simpa using hcount, hfront⟩
    exact ⟨parts, hparts, (tree_group_of_marksOf hparts).mp h⟩
  · rintro ⟨parts, hparts, h⟩
    exact (tree_group_of_marksOf hparts).mpr h

end Grouping
end RecordFilter
