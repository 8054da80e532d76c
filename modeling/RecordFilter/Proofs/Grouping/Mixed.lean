/-
Levels in the order in which they close.  A level that has both keywords is reported at the parenthesis
that closes it, so the levels inside it are reported in front of it.  `Closes` says which levels some
items have, each with its parts and its parentheses, and lists them in this order.  `run_of_closes` says
that grouping reports those of them that are mixed, one after the other, and nothing else.

The tree of a level is a part of the tree of any level around it, by `Closes.partOf`, and the tree of a
mixed one is a conjunction of its operands.
-/
import RecordFilter.Proofs.Grouping.Shape
import RecordFilter.Proofs.Grouping.Unpaired

namespace RecordFilter

namespace Tree

/-- A tree that stands somewhere in another one, or is all of it. -/
inductive PartOf : Tree → Tree → Prop where
  | refl (t : Tree) : PartOf t t
  | all {s t : Tree} {children : List Tree} (hchild : t ∈ children) (h : PartOf s t) :
      PartOf s (.all children)
  | any {s t : Tree} {children : List Tree} (hchild : t ∈ children) (h : PartOf s t) :
      PartOf s (.any children)

theorem PartOf.trans {s t u : Tree} (hst : s.PartOf t) (htu : t.PartOf u) : s.PartOf u := by
  induction htu with
  | refl => exact hst
  | all hchild _ ih => exact .all hchild ih
  | any hchild _ ih => exact .any hchild ih

end Tree

namespace Grouping

namespace Part

/-- The operands of a level stand in its tree. -/
theorem partOf_treeOf {parts : List Part} (h : Proper parts) {operand : Tree}
    (hmem : operand ∈ operandsOf parts) : operand.PartOf (treeOf parts) := by
  rcases treeOf_cases h with hall | hany | hone
  · rw [hall]
    exact .all hmem (.refl operand)
  · rw [hany]
    exact .any hmem (.refl operand)
  · rw [hone, List.mem_singleton] at hmem
    rw [hmem]
    exact .refl _

theorem treeOf_of_and {parts : List Part} (hand : parts.any isAnd = true) :
    treeOf parts = .all (operandsOf parts) := by
  rw [treeOf, join, if_pos hand]

end Part

/-! ## Levels and where they close -/

/-- A level with the offsets of its parentheses.  The outermost one has no opening parenthesis, and
closes where the template ends. -/
structure Site where
  opening : Option Nat
  closing : Nat
  parts : List Part

/-- Both keywords stand directly at the level. -/
def Site.isMixed (site : Site) : Bool :=
  site.parts.any Part.isAnd && site.parts.any Part.isOr

/-- The items write these parts.  The levels are the ones inside of the parts, in the order in which
they close. -/
inductive Closes : List Item → List Part → List Site → Prop where
  | nil : Closes [] [] []
  | leaf {items : List Item} {parts : List Part} {sites : List Site} {clause : Clause}
      (h : Closes items parts sites) : Closes (.leaf clause :: items) (.leaf clause :: parts) sites
  | and {items : List Item} {parts : List Part} {sites : List Site}
      (h : Closes items parts sites) : Closes (.and :: items) (.and :: parts) sites
  | or {items : List Item} {parts : List Part} {sites : List Site}
      (h : Closes items parts sites) : Closes (.or :: items) (.or :: parts) sites
  | group {inside items : List Item} {inner parts : List Part} {nested sites : List Site}
      {first last : Nat} (hinside : Closes inside inner nested) (h : Closes items parts sites) :
      Closes (.opening first :: (inside ++ .closing last :: items)) (.group inner :: parts)
        (nested ++ { opening := some first, closing := last, parts := inner } :: sites)

/-- Items that parts write have levels. -/
theorem exists_closes {parts : List Part} {items : List Item}
    (hparts : items.map Item.mark = Part.marksOf parts) : ∃ sites, Closes items parts sites := by
  induction parts using Part.level_induction generalizing items with
  | nil =>
      obtain rfl : items = [] := by simpa [Part.marksOf] using hparts
      exact ⟨[], .nil⟩
  | leaf clause parts ih =>
      obtain ⟨item, items, rfl, hitem, htail⟩ := List.map_eq_cons_iff.mp hparts
      obtain rfl : item = .leaf clause := by cases item <;> simp_all [Item.mark]
      obtain ⟨sites, hsites⟩ := ih htail
      exact ⟨sites, .leaf hsites⟩
  | and parts ih =>
      obtain ⟨item, items, rfl, hitem, htail⟩ := List.map_eq_cons_iff.mp hparts
      obtain rfl : item = .and := by cases item <;> simp_all [Item.mark]
      obtain ⟨sites, hsites⟩ := ih htail
      exact ⟨sites, .and hsites⟩
  | or parts ih =>
      obtain ⟨item, items, rfl, hitem, htail⟩ := List.map_eq_cons_iff.mp hparts
      obtain rfl : item = .or := by cases item <;> simp_all [Item.mark]
      obtain ⟨sites, hsites⟩ := ih htail
      exact ⟨sites, .or hsites⟩
  | group inner parts ih ihParts =>
      obtain ⟨first, last, inside, after, rfl, hinside, hafter⟩ := exists_items_of_group hparts
      obtain ⟨nested, hnested⟩ := ih hinside
      obtain ⟨sites, hsites⟩ := ihParts hafter
      exact ⟨_, .group hnested hsites⟩

section Closes

variable {items : List Item} {parts : List Part} {sites : List Site}

def Item.closing? : Item → Option Nat
  | .closing position => some position
  | _ => none

/-- There is a level for every closing parenthesis, in the same order. -/
theorem Closes.closings (h : Closes items parts sites) :
    sites.map Site.closing = items.filterMap Item.closing? := by
  induction h with
  | nil => rfl
  | leaf _ ih => exact ih
  | and _ ih => exact ih
  | or _ ih => exact ih
  | group _ _ ihInside ih =>
      rw [List.map_append, List.map_cons, ihInside, ih, List.filterMap_cons_none rfl,
        List.filterMap_append]
      rfl

theorem closings_of_stands {toks : List Token} (h : List.Forall₂ Stands toks items) :
    items.filterMap Item.closing? =
      (toks.filter fun token => token.kind = .closeParen).map Token.start := by
  induction h with
  | nil => rfl
  | @cons token item toks items hitem _ ih =>
      cases item with
      | closing position =>
          obtain ⟨hkind, rfl⟩ := hitem
          have hclosing : Item.closing? (.closing token.start) = some token.start := rfl
          rw [List.filterMap_cons_some hclosing, List.filter_cons_of_pos (by simp [hkind]),
            List.map_cons, ih]
      | opening position =>
          rw [List.filterMap_cons_none rfl, List.filter_cons_of_neg (by simp [hitem.1]), ih]
      | leaf clause =>
          have hkind : token.kind = .fragment := hitem
          rw [List.filterMap_cons_none rfl, List.filter_cons_of_neg (by simp [hkind]), ih]
      | and =>
          have hkind : token.kind = .and := hitem
          rw [List.filterMap_cons_none rfl, List.filter_cons_of_neg (by simp [hkind]), ih]
      | or =>
          have hkind : token.kind = .or := hitem
          rw [List.filterMap_cons_none rfl, List.filter_cons_of_neg (by simp [hkind]), ih]

/-- The level is read from the items between its parentheses, and these are the levels inside of it. -/
def Site.Surrounds (site : Site) (items : List Item) (nested : List Site) : Prop :=
  ∃ front first inside back,
    items = front ++ .opening first :: (inside ++ .closing site.closing :: back) ∧
      site.opening = some first ∧ Closes inside site.parts nested

theorem Site.Surrounds.within {site : Site} {nested : List Site} (h : site.Surrounds items nested)
    (left right : List Item) : site.Surrounds (left ++ (items ++ right)) nested := by
  obtain ⟨front, first, inside, back, rfl, hopening, hinside⟩ := h
  refine ⟨left ++ front, first, inside, back ++ right, ?_, hopening, hinside⟩
  simp only [List.append_assoc, List.cons_append]

theorem Site.Surrounds.behind {site : Site} {nested : List Site} (h : site.Surrounds items nested)
    (left : List Item) : site.Surrounds (left ++ items) nested := by
  have hmore := h.within left []
  rw [List.append_nil] at hmore
  exact hmore

/-- The levels inside of a level close right before it. -/
theorem Closes.surrounds (h : Closes items parts sites) {site : Site} {front behind : List Site}
    (hsplit : sites = front ++ site :: behind) :
    ∃ before nested, front = before ++ nested ∧ site.Surrounds items nested := by
  induction h generalizing front behind with
  | nil => exact absurd hsplit.symm (List.append_ne_nil_of_right_ne_nil front (List.cons_ne_nil _ _))
  | leaf _ ih =>
      obtain ⟨before, nested, hfront, hsurrounds⟩ := ih hsplit
      exact ⟨before, nested, hfront, hsurrounds.behind [_]⟩
  | and _ ih =>
      obtain ⟨before, nested, hfront, hsurrounds⟩ := ih hsplit
      exact ⟨before, nested, hfront, hsurrounds.behind [_]⟩
  | or _ ih =>
      obtain ⟨before, nested, hfront, hsurrounds⟩ := ih hsplit
      exact ⟨before, nested, hfront, hsurrounds.behind [_]⟩
  | @group inside items inner parts nested sites first last hinside _ ihInside ih =>
      have hgroup : Site.Surrounds { opening := some first, closing := last, parts := inner }
          (.opening first :: (inside ++ .closing last :: items)) nested :=
        ⟨[], first, inside, items, rfl, rfl, hinside⟩
      -- The level is behind the group, or it is the group, or it is inside of it.
      rcases List.append_eq_append_iff.mp hsplit with ⟨more, rfl, hrest⟩ | ⟨more, hnested, hrest⟩
      · cases more with
        | nil =>
            cases hrest
            rw [List.append_nil]
            exact ⟨[], nested, rfl, hgroup⟩
        | cons group more =>
            obtain ⟨rfl, hsites⟩ := List.cons.inj hrest
            obtain ⟨before, deeper, rfl, hsurrounds⟩ := ih hsites
            have hmore := hsurrounds.behind (.opening first :: (inside ++ [.closing last]))
            rw [List.cons_append, List.append_assoc, List.singleton_append] at hmore
            exact ⟨_, deeper, by rw [← List.cons_append, ← List.append_assoc], hmore⟩
      · cases more with
        | nil =>
            cases hrest
            rw [List.append_nil] at hnested
            rw [← hnested]
            exact ⟨[], nested, rfl, hgroup⟩
        | cons deeper more =>
            obtain ⟨rfl, _⟩ := List.cons.inj hrest
            obtain ⟨before, deeper, hfront, hsurrounds⟩ := ihInside hnested
            have hmore := hsurrounds.within [.opening first] (.closing last :: items)
            exact ⟨before, deeper, hfront, hmore⟩

/-- The tree of each level stands in an operand of the level around it. -/
theorem Closes.partOf (h : Closes items parts sites) (hinner : Part.InnerOf parts) :
    ∀ site ∈ sites, ∃ operand ∈ Part.operandsOf parts,
      (Part.treeOf site.parts).PartOf operand := by
  induction h with
  | nil => exact fun _ hsite => (by cases hsite)
  | leaf _ ih =>
      intro site hsite
      obtain ⟨operand, hmem, hpart⟩ := ih hinner.2 site hsite
      exact ⟨operand, List.mem_cons_of_mem _ hmem, hpart⟩
  | and _ ih => exact ih hinner.2
  | or _ ih => exact ih hinner.2
  | @group inside items inner parts nested sites first last _ _ ihInside ih =>
      obtain ⟨⟨hproper, hdeeper⟩, hrest⟩ := hinner
      have hgroup : Part.treeOf inner ∈ Part.operandsOf (.group inner :: parts) :=
        List.mem_cons_self
      intro site hsite
      rcases List.mem_append.mp hsite with hnested | hother
      · obtain ⟨operand, hmem, hpart⟩ := ihInside hdeeper site hnested
        exact ⟨_, hgroup, hpart.trans (Part.partOf_treeOf hproper hmem)⟩
      · rcases List.mem_cons.mp hother with rfl | hsites
        · exact ⟨_, hgroup, .refl _⟩
        · obtain ⟨operand, hmem, hpart⟩ := ih hrest site hsites
          exact ⟨operand, List.mem_cons_of_mem _ hmem, hpart⟩

end Closes

/-! ## What is reported -/

theorem mixed_report (l : Level) (position : Option Nat) (g : Grouped) :
    (g.report l position).mixed = (if l.isMixed then [position] else []) ++ g.mixed := by
  rw [Grouped.report]
  split <;> rfl

theorem Level.isMixed_extend_empty {parts : List Part} (h : Part.Proper parts) :
    (Level.empty.extend parts).isMixed = (parts.any Part.isAnd && parts.any Part.isOr) := by
  have hne : (Part.operandsOf parts).isEmpty = false :=
    Bool.eq_false_iff.mpr fun hempty => h.1 (List.isEmpty_iff.mp hempty)
  simp [Level.isMixed, Level.extend, Level.empty, hne]

/-- The offsets that the mixed ones among some levels are reported with. -/
def reports (sites : List Site) : List (Option Nat) :=
  (sites.filter Site.isMixed).map Site.opening

theorem reports_append (left right : List Site) :
    reports (left ++ right) = reports left ++ reports right := by
  rw [reports, List.filter_append, List.map_append]
  rfl

theorem reports_cons (site : Site) (rest : List Site) :
    reports (site :: rest) = (if site.isMixed then [site.opening] else []) ++ reports rest := by
  rw [reports, List.filter_cons]
  split <;> rfl

/-- A level that is complete is reported if it is mixed. -/
theorem mixed_report_of_proper {parts : List Part} (h : Part.Proper parts) (opening : Option Nat)
    (closing : Nat) (g : Grouped) :
    (g.report (Level.empty.extend parts) opening).mixed =
      reports [⟨opening, closing, parts⟩] ++ g.mixed := by
  rw [mixed_report, Level.isMixed_extend_empty h, reports_cons, List.append_assoc]
  rfl

/-- Reading the items reports the mixed ones among their levels, and then goes on with the rest. -/
theorem run_of_closes {items : List Item} {parts : List Part} {sites : List Site}
    (h : Closes items parts sites) {template : String} {level : Level} {stack : List Frame}
    {rest : List Item} {t : Tree}
    (hrun : (run template level stack (items ++ rest)).tree = .ok t) :
    (run template (level.extend parts) stack rest).tree = .ok t ∧
      (run template level stack (items ++ rest)).mixed =
        reports sites ++ (run template (level.extend parts) stack rest).mixed := by
  induction h generalizing level stack rest with
  | nil =>
      rw [Level.extend_nil]
      exact ⟨hrun, rfl⟩
  | leaf _ ih =>
      rw [Level.extend_leaf]
      exact ih hrun
  | and _ ih =>
      rw [Level.extend_and]
      exact ih hrun
  | or _ ih =>
      rw [Level.extend_or]
      exact ih hrun
  | @group inside items inner parts nested sites first last _ _ ihInside ih =>
      have happend : Item.opening first :: (inside ++ Item.closing last :: items) ++ rest =
          Item.opening first :: (inside ++ Item.closing last :: (items ++ rest)) := by simp
      rw [happend, run] at hrun ⊢
      by_cases hfull : stack.length = nestingLimit
      · rw [if_pos hfull] at hrun
        cases hrun
      · rw [if_neg hfull] at hrun ⊢
        obtain ⟨hinside, hnested⟩ := ihInside hrun
        rw [hnested]
        rw [run] at hinside ⊢
        cases htree : (Level.empty.extend inner).tree template with
        | error e =>
            rw [htree] at hinside
            cases hinside
        | ok tree =>
            obtain ⟨hproper, rfl⟩ := (Level.tree_extend_empty template).mp htree
            rw [htree, tree_report] at hinside
            obtain ⟨hrest, hmixed⟩ := ih hinside
            rw [Level.extend_group, List.append_cons, reports_append, reports_append]
            refine ⟨hrest, ?_⟩
            show reports nested ++ Grouped.mixed (Grouped.report _ _ _) = _
            rw [mixed_report_of_proper hproper _ last, hmixed, List.append_assoc, List.append_assoc]

/-- All mixed levels are reported, each when it closes, and the outermost one at the end. -/
theorem mixed_group {items : List Item} {parts : List Part} {sites : List Site}
    (h : Closes items parts sites) {template : String} {t : Tree}
    (hgroup : (group template items).tree = .ok t) (stop : Nat) :
    (group template items).mixed = reports (sites ++ [⟨none, stop, parts⟩]) := by
  rw [group, ← List.append_nil items] at hgroup ⊢
  obtain ⟨htree, hmixed⟩ := run_of_closes h hgroup
  rw [run, tree_report] at htree
  obtain ⟨hproper, _⟩ := (Level.tree_extend_empty template).mp htree
  rw [hmixed, run, mixed_report_of_proper hproper none stop, reports_append, List.append_nil]

end Grouping
end RecordFilter
