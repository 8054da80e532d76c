/-
The levels of a condition as nested lists.  The grouping of a condition reads a flat sequence of
items; here the same sequence is a list of parts, in which a parenthesised group is one part that
holds the parts of its own level.  `marksOf` writes parts out flat again, without offsets.

Which flat sequences come from parts is a matter of counting: `exists_marksOf_iff` says that they
are the ones whose parentheses are balanced.  The count of open parentheses behind every initial
part also gives the depth of the parts, by `nestsWithin_kindsOf`.
-/
import RecordFilter.Condition.Grouping
import RecordFilter.Template.Token

namespace RecordFilter
namespace Grouping

/-! ## Marks -/

/-- An item without its offset. -/
inductive Mark where
  | opening
  | closing
  | and
  | or
  | leaf (clause : Clause)
deriving DecidableEq

def Item.mark : Item → Mark
  | .opening _ => .opening
  | .closing _ => .closing
  | .and => .and
  | .or => .or
  | .leaf clause => .leaf clause

def Mark.kind : Mark → TokenKind
  | .opening => .openParen
  | .closing => .closeParen
  | .and => .and
  | .or => .or
  | .leaf _ => .fragment

def Mark.clause? : Mark → Option Clause
  | .leaf clause => some clause
  | _ => none

/-! ## Parts -/

/-- What stands at one level: a clause, a keyword, or a group with a level of its own. -/
inductive Part where
  | leaf (clause : Clause)
  | and
  | or
  | group (parts : List Part)

namespace Part

/-- Induction over the parts of a level and of all levels inside it. -/
theorem level_induction {motive : List Part → Prop} (nil : motive [])
    (leaf : ∀ clause rest, motive rest → motive (.leaf clause :: rest))
    (and : ∀ rest, motive rest → motive (.and :: rest))
    (or : ∀ rest, motive rest → motive (.or :: rest))
    (group : ∀ parts rest, motive parts → motive rest → motive (.group parts :: rest)) :
    ∀ parts, motive parts
  | [] => nil
  | .leaf clause :: rest => leaf clause rest (level_induction nil leaf and or group rest)
  | .and :: rest => and rest (level_induction nil leaf and or group rest)
  | .or :: rest => or rest (level_induction nil leaf and or group rest)
  | .group parts :: rest =>
      group parts rest (level_induction nil leaf and or group parts)
        (level_induction nil leaf and or group rest)

mutual
def marks : Part → List Mark
  | .leaf clause => [.leaf clause]
  | .and => [.and]
  | .or => [.or]
  | .group parts => .opening :: (marksOf parts ++ [.closing])

/-- The flat sequence that the parts of a level write. -/
def marksOf : List Part → List Mark
  | [] => []
  | part :: rest => marks part ++ marksOf rest
end

mutual
def depth : Part → Nat
  | .group parts => depthOf parts + 1
  | _ => 0

def depthOf : List Part → Nat
  | [] => 0
  | part :: rest => max (depth part) (depthOf rest)
end

def isAnd : Part → Bool
  | .and => true
  | _ => false

def isOr : Part → Bool
  | .or => true
  | _ => false

/-- The tree that a level stands for: its operands in order under AND if it has that keyword,
otherwise under OR if it has that one, and otherwise its sole operand. -/
def join (sawAnd sawOr : Bool) (operands : List Tree) : Tree :=
  if sawAnd then .all operands
  else if sawOr then .any operands
  else operands.headD default

mutual
def operand? : Part → Option Tree
  | .leaf clause => some (.leaf clause)
  | .and | .or => none
  | .group parts => some (join (parts.any isAnd) (parts.any isOr) (operandsOf parts))

def operandsOf : List Part → List Tree
  | [] => []
  | part :: rest => (operand? part).toList ++ operandsOf rest
end

def treeOf (parts : List Part) : Tree :=
  join (parts.any isAnd) (parts.any isOr) (operandsOf parts)

/-- A level has an operand, and where it has several it has a keyword. -/
def Proper (parts : List Part) : Prop :=
  operandsOf parts ≠ [] ∧
    (2 ≤ (operandsOf parts).length → parts.any isAnd = true ∨ parts.any isOr = true)

mutual
def Inner : Part → Prop
  | .group parts => Proper parts ∧ InnerOf parts
  | _ => True

def InnerOf : List Part → Prop
  | [] => True
  | part :: rest => Inner part ∧ InnerOf rest
end

/-- A level and all levels inside it are proper. -/
def Complete (parts : List Part) : Prop :=
  Proper parts ∧ InnerOf parts

end Part

/-! ## Counting parentheses -/

/-- By how many a token changes the number of open parentheses. -/
def rise : TokenKind → Int
  | .openParen => 1
  | .closeParen => -1
  | _ => 0

/-- The number of parentheses that are open behind a sequence. -/
def openCount : List TokenKind → Int
  | [] => 0
  | kind :: rest => rise kind + openCount rest

/-- The number of open parentheses has a property behind every initial part of a sequence, which
starts with `a` of them open. -/
def Throughout (p : Int → Prop) (a : Int) (kinds : List TokenKind) : Prop :=
  ∀ front, front <+: kinds → p (a + openCount front)

/-- Every parenthesis has its partner. -/
def Balanced (kinds : List TokenKind) : Prop :=
  openCount kinds = 0 ∧ Throughout (0 ≤ ·) 0 kinds

/-- Nowhere are more parentheses open than the limit. -/
def NestsWithin (limit : Nat) (kinds : List TokenKind) : Prop :=
  Throughout (· ≤ limit) 0 kinds

@[simp] theorem openCount_nil : openCount [] = 0 := rfl

@[simp] theorem openCount_cons (kind : TokenKind) (rest : List TokenKind) :
    openCount (kind :: rest) = rise kind + openCount rest := rfl

@[simp] theorem openCount_append (left right : List TokenKind) :
    openCount (left ++ right) = openCount left + openCount right := by
  induction left with
  | nil => simp
  | cons kind rest ih => rw [List.cons_append, openCount_cons, ih, openCount_cons, Int.add_assoc]

theorem throughout_nil {p : Int → Prop} {a : Int} : Throughout p a [] ↔ p a := by
  simp [Throughout]

/-- One step of a count: the property holds at the start, and from there on. -/
theorem throughout_cons {p : Int → Prop} {a : Int} {kind : TokenKind} {rest : List TokenKind} :
    Throughout p a (kind :: rest) ↔ p a ∧ Throughout p (a + rise kind) rest := by
  constructor
  · intro h
    refine ⟨by simpa using h [] (List.nil_prefix), fun front hfront => ?_⟩
    have hstep : p (a + openCount (kind :: front)) :=
      h (kind :: front) ((List.prefix_cons_inj kind).mpr hfront)
    rw [openCount_cons, ← Int.add_assoc] at hstep
    exact hstep
  · rintro ⟨hstart, hrest⟩ front hfront
    rcases List.prefix_cons_iff.mp hfront with rfl | ⟨tail, rfl, htail⟩
    · simpa using hstart
    · have hstep := hrest tail htail
      rw [openCount_cons, ← Int.add_assoc]
      exact hstep

theorem throughout_append {p : Int → Prop} {a : Int} {left right : List TokenKind} :
    Throughout p a (left ++ right) ↔
      Throughout p a left ∧ Throughout p (a + openCount left) right := by
  induction left generalizing a with
  | nil =>
      have hstart : Throughout p a right → p a := fun h => by simpa using h [] List.nil_prefix
      simp only [List.nil_append, throughout_nil, openCount_nil, Int.add_zero]
      exact ⟨fun h => ⟨hstart h, h⟩, fun h => h.2⟩
  | cons kind rest ih =>
      rw [List.cons_append, throughout_cons, throughout_cons, ih, openCount_cons, and_assoc,
        Int.add_assoc]

instance decidableThroughout {p : Int → Prop} [DecidablePred p] (a : Int) :
    (kinds : List TokenKind) → Decidable (Throughout p a kinds)
  | [] => decidable_of_iff (p a) throughout_nil.symm
  | kind :: rest =>
      have := decidableThroughout (p := p) (a + rise kind) rest
      decidable_of_iff (p a ∧ Throughout p (a + rise kind) rest) throughout_cons.symm

instance (kinds : List TokenKind) : Decidable (Balanced kinds) :=
  inferInstanceAs (Decidable (openCount kinds = 0 ∧ Throughout (0 ≤ ·) 0 kinds))

instance (limit : Nat) (kinds : List TokenKind) : Decidable (NestsWithin limit kinds) :=
  inferInstanceAs (Decidable (Throughout (· ≤ (limit : Int)) 0 kinds))

namespace Part

def kindsOf (parts : List Part) : List TokenKind :=
  (marksOf parts).map Mark.kind

theorem kindsOf_group (parts rest : List Part) :
    kindsOf (.group parts :: rest) = .openParen :: (kindsOf parts ++ .closeParen :: kindsOf rest) := by
  simp [kindsOf, marksOf, marks, Mark.kind]

theorem openCount_kindsOf (parts : List Part) : openCount (kindsOf parts) = 0 := by
  induction parts using level_induction with
  | nil => rfl
  | leaf clause rest ih => exact (Int.zero_add _).trans ih
  | and rest ih => exact (Int.zero_add _).trans ih
  | or rest ih => exact (Int.zero_add _).trans ih
  | group parts rest ih ihRest =>
      rw [kindsOf_group, openCount_cons, openCount_append, openCount_cons, ih, ihRest]
      rfl

theorem throughout_cons_of_flat {p : Int → Prop} {a : Int} {kind : TokenKind}
    {rest : List TokenKind} (hflat : rise kind = 0) :
    Throughout p a (kind :: rest) ↔ Throughout p a rest := by
  rw [throughout_cons, hflat, Int.add_zero]
  exact ⟨fun h => h.2, fun h => ⟨by simpa using h [] List.nil_prefix, h⟩⟩

/-- The property has to hold up to the depth of the parts: a count over them takes every value
between the one that it starts with and that many more, and no other. -/
theorem throughout_kindsOf {p : Int → Prop} {parts : List Part} {a : Int} :
    Throughout p a (kindsOf parts) ↔ ∀ n : Nat, n ≤ depthOf parts → p (a + n) := by
  induction parts using level_induction generalizing a with
  | nil =>
      simp only [kindsOf, marksOf, List.map_nil, throughout_nil, depthOf]
      refine ⟨fun h n hn => ?_, fun h => by simpa using h 0 (Nat.le_refl 0)⟩
      obtain rfl : n = 0 := by omega
      simpa using h
  | leaf clause rest ih =>
      have hdepth : depthOf (.leaf clause :: rest) = depthOf rest := Nat.zero_max _
      rw [hdepth, ← ih]
      exact throughout_cons_of_flat rfl
  | and rest ih =>
      have hdepth : depthOf (.and :: rest) = depthOf rest := Nat.zero_max _
      rw [hdepth, ← ih]
      exact throughout_cons_of_flat rfl
  | or rest ih =>
      have hdepth : depthOf (.or :: rest) = depthOf rest := Nat.zero_max _
      rw [hdepth, ← ih]
      exact throughout_cons_of_flat rfl
  | group parts rest ih ihRest =>
      have hdepth : depthOf (.group parts :: rest) = max (depthOf parts + 1) (depthOf rest) := rfl
      have hback : a + rise .openParen + openCount (kindsOf parts) + rise .closeParen = a := by
        rw [openCount_kindsOf]
        show a + 1 + 0 + -1 = a
        omega
      rw [kindsOf_group, throughout_cons, throughout_append, throughout_cons, hback, ih, ihRest,
        openCount_kindsOf, hdepth]
      show p a ∧ (∀ n : Nat, n ≤ depthOf parts → p (a + 1 + n)) ∧ p (a + 1 + 0) ∧
        (∀ n : Nat, n ≤ depthOf rest → p (a + n)) ↔ _
      constructor
      · rintro ⟨_, hin, _, hrest⟩ n hn
        rcases Nat.lt_or_ge (depthOf rest) n with hgt | hle
        · obtain ⟨m, rfl⟩ : ∃ m, n = m + 1 := ⟨n - 1, by omega⟩
          have hmove : a + ((m + 1 : Nat) : Int) = a + 1 + (m : Int) := by omega
          rw [hmove]
          exact hin m (by omega)
        · exact hrest n hle
      · intro h
        have hstep : ∀ n : Nat, n ≤ depthOf parts → p (a + 1 + n) := by
          intro n hn
          have hmove : a + 1 + (n : Int) = a + ((n + 1 : Nat) : Int) := by omega
          rw [hmove]
          exact h (n + 1) (by omega)
        refine ⟨by simpa using h 0 (Nat.zero_le _), hstep, ?_, fun n hn => h n (by omega)⟩
        simpa using hstep 0 (Nat.zero_le _)

theorem balanced_kindsOf (parts : List Part) : Balanced (kindsOf parts) :=
  ⟨openCount_kindsOf parts, throughout_kindsOf.mpr fun n _ => by omega⟩

theorem nestsWithin_kindsOf {limit : Nat} {parts : List Part} :
    NestsWithin limit (kindsOf parts) ↔ depthOf parts ≤ limit := by
  rw [NestsWithin, throughout_kindsOf]
  refine ⟨fun h => ?_, fun h n hn => by omega⟩
  have hdeepest := h (depthOf parts) (Nat.le_refl _)
  omega

/-- A sequence that closes `n` more parentheses than it opens, and never more, consists of
parts with that many closing parentheses between them. -/
theorem exists_marksOf_append {n : Nat} {marks : List Mark}
    (hcount : openCount (marks.map Mark.kind) = -(n : Int))
    (hfront : Throughout (0 ≤ ·) n (marks.map Mark.kind)) :
    ∃ (parts : List Part) (outer : List (List Part)), outer.length = n ∧
      marks = marksOf parts ++ outer.flatMap fun parts => .closing :: marksOf parts := by
  induction marks generalizing n with
  | nil =>
      have hzero : n = 0 := by
        have h : (0 : Int) = -(n : Int) := hcount
        omega
      exact ⟨[], [], hzero.symm, rfl⟩
  | cons mark rest ih =>
      rw [List.map_cons, openCount_cons] at hcount
      rw [List.map_cons, throughout_cons] at hfront
      cases mark with
      | leaf clause =>
          obtain ⟨parts, outer, hlength, hrest⟩ := ih (n := n)
            (by simpa [Mark.kind, rise] using hcount) (by simpa [Mark.kind, rise] using hfront.2)
          exact ⟨.leaf clause :: parts, outer, hlength, by rw [hrest]; rfl⟩
      | and =>
          obtain ⟨parts, outer, hlength, hrest⟩ := ih (n := n)
            (by simpa [Mark.kind, rise] using hcount) (by simpa [Mark.kind, rise] using hfront.2)
          exact ⟨.and :: parts, outer, hlength, by rw [hrest]; rfl⟩
      | or =>
          obtain ⟨parts, outer, hlength, hrest⟩ := ih (n := n)
            (by simpa [Mark.kind, rise] using hcount) (by simpa [Mark.kind, rise] using hfront.2)
          exact ⟨.or :: parts, outer, hlength, by rw [hrest]; rfl⟩
      | opening =>
          have hone : (1 : Int) + openCount (rest.map Mark.kind) = -(n : Int) := hcount
          obtain ⟨parts, outer, hlength, hrest⟩ := ih (n := n + 1)
            (by omega) (by simpa [Mark.kind, rise] using hfront.2)
          match outer, hlength with
          | after :: outer, hlength =>
              refine ⟨.group parts :: after, outer, by simpa using hlength, ?_⟩
              rw [hrest]
              simp [marksOf, Part.marks]
      | closing =>
          have hone : (-1 : Int) + openCount (rest.map Mark.kind) = -(n : Int) := hcount
          have hpos : (0 : Int) ≤ n + -1 := by
            simpa [Mark.kind, rise] using hfront.2 [] List.nil_prefix
          obtain ⟨before, rfl⟩ : ∃ before, n = before + 1 := ⟨n - 1, by omega⟩
          have hback : ((before + 1 : Nat) : Int) + rise .closeParen = (before : Int) := by
            show ((before + 1 : Nat) : Int) + -1 = (before : Int)
            omega
          have hrestFront := hfront.2
          rw [Mark.kind, hback] at hrestFront
          obtain ⟨parts, outer, hlength, hrest⟩ := ih (n := before) (by omega) hrestFront
          exact ⟨[], parts :: outer, by rw [List.length_cons, hlength], by rw [hrest]; rfl⟩

/-- Parts write the sequences with balanced parentheses, and no others. -/
theorem exists_marksOf_iff {marks : List Mark} :
    (∃ parts, marksOf parts = marks) ↔ Balanced (marks.map Mark.kind) := by
  constructor
  · rintro ⟨parts, rfl⟩
    exact balanced_kindsOf parts
  · rintro ⟨hcount, hfront⟩
    obtain ⟨parts, outer, hlength, hmarks⟩ :=
      exists_marksOf_append (n := 0) (by simpa using hcount) (by simpa using hfront)
    obtain rfl : outer = [] := List.eq_nil_of_length_eq_zero hlength
    exact ⟨parts, by simpa using hmarks.symm⟩

end Part

end Grouping
end RecordFilter
