/-
Parentheses without a partner.  If the parentheses of some tokens are not balanced, one of them is to
blame: the first closing one that no open one is left for, or, if every closing one has a partner, the
last opening one that has none.  `Unpaired` says so of the tokens alone.

Grouping finds this parenthesis on its stack.  `StillOpen` is what the stack amounts to after any part
of the tokens: behind each parenthesis on it there are only pairs up to the next one.  Every token keeps
this up, and so `unpaired_of_run` knows the parenthesis wherever the run ends.
-/
import Mathlib.Data.List.Forall2
import RecordFilter.Proofs.Grouping.Run

namespace RecordFilter
namespace Grouping

/-! ## Pairs -/

theorem Throughout.raise {a b : Int} {kinds : List TokenKind}
    (h : Throughout (0 ≤ ·) a kinds) (hle : a ≤ b) : Throughout (0 ≤ ·) b kinds := by
  intro front hfront
  have hnonneg := h front hfront
  omega

theorem balanced_nil : Balanced [] :=
  ⟨rfl, throughout_nil.mpr (Int.le_refl 0)⟩

theorem balanced_append {left right : List TokenKind} (hleft : Balanced left)
    (hright : Balanced right) : Balanced (left ++ right) := by
  refine ⟨by rw [openCount_append, hleft.1, hright.1, Int.add_zero], ?_⟩
  rw [throughout_append, hleft.1]
  exact ⟨hleft.2, hright.2⟩

theorem balanced_of_flat {kind : TokenKind} (hflat : rise kind = 0) : Balanced [kind] := by
  refine ⟨by rw [openCount_cons, hflat, openCount_nil, Int.add_zero], ?_⟩
  rw [throughout_cons, hflat, throughout_nil]
  exact ⟨Int.le_refl 0, Int.le_refl 0⟩

theorem balanced_pair {inner : List TokenKind} (h : Balanced inner) :
    Balanced (.openParen :: (inner ++ [.closeParen])) := by
  constructor
  · rw [openCount_cons, openCount_append, h.1]
    rfl
  · rw [throughout_cons, throughout_append, throughout_cons, throughout_nil, h.1]
    exact ⟨Int.le_refl 0, h.2.raise (by decide), by decide, by decide⟩

/-! ## The parenthesis to blame -/

/-- The parenthesis at this offset has no partner among the tokens: it closes, behind tokens that are
all paired, or it opens and only pairs follow, while every closing parenthesis has its partner. -/
inductive Unpaired : List Token → Nat → Prop where
  | closing {front back : List Token} {token : Token} (hkind : token.kind = .closeParen)
      (hfront : Balanced (front.map Token.kind)) : Unpaired (front ++ token :: back) token.start
  | opening {front back : List Token} {token : Token} (hkind : token.kind = .openParen)
      (hclosed : Throughout (0 ≤ ·) 0 ((front ++ token :: back).map Token.kind))
      (hback : Balanced (back.map Token.kind)) : Unpaired (front ++ token :: back) token.start

/-- The parentheses that are open behind some tokens, by their offsets, the innermost first. -/
inductive StillOpen : List Token → List Nat → Prop where
  | none {toks : List Token} (hpaired : Balanced (toks.map Token.kind)) : StillOpen toks []
  | more {front back : List Token} {token : Token} {opened : List Nat}
      (hfront : StillOpen front opened) (hkind : token.kind = .openParen)
      (hback : Balanced (back.map Token.kind)) :
      StillOpen (front ++ token :: back) (token.start :: opened)

section StillOpen

variable {toks : List Token} {opened : List Nat} {token : Token}

theorem StillOpen.append (h : StillOpen toks opened) {more : List Token}
    (hmore : Balanced (more.map Token.kind)) : StillOpen (toks ++ more) opened := by
  cases h with
  | none hpaired =>
      refine .none ?_
      rw [List.map_append]
      exact balanced_append hpaired hmore
  | more hfront hkind hback =>
      rw [List.append_assoc, List.cons_append]
      refine .more hfront hkind ?_
      rw [List.map_append]
      exact balanced_append hback hmore

theorem StillOpen.flat (h : StillOpen toks opened) (hflat : rise token.kind = 0) :
    StillOpen (toks ++ [token]) opened :=
  h.append (balanced_of_flat hflat)

theorem StillOpen.push (h : StillOpen toks opened) (hkind : token.kind = .openParen) :
    StillOpen (toks ++ [token]) (token.start :: opened) :=
  .more h hkind balanced_nil

/-- A closing parenthesis makes a pair with the innermost open one. -/
theorem StillOpen.pop {position : Nat} (h : StillOpen toks (position :: opened))
    (hkind : token.kind = .closeParen) : StillOpen (toks ++ [token]) opened := by
  cases h with
  | @more front back opening _ hfront hopening hback =>
      have hpair : Balanced ((opening :: (back ++ [token])).map Token.kind) := by
        rw [List.map_cons, List.map_append, List.map_singleton, hopening, hkind]
        exact balanced_pair hback
      rw [List.append_assoc, List.cons_append]
      exact hfront.append hpair

/-- Every closing parenthesis has had its partner. -/
theorem StillOpen.counts (h : StillOpen toks opened) :
    openCount (toks.map Token.kind) = opened.length ∧
      Throughout (0 ≤ ·) 0 (toks.map Token.kind) := by
  induction h with
  | none hpaired => exact hpaired
  | @more front back token opened _ hkind hback ih =>
      obtain ⟨hcount, hfront⟩ := ih
      have hrise : rise token.kind = 1 := by
        rw [hkind]
        rfl
      rw [List.map_append, List.map_cons]
      constructor
      · rw [openCount_append, openCount_cons, hcount, hrise, hback.1, List.length_cons]
        omega
      · rw [throughout_append, throughout_cons, hcount, hrise]
        exact ⟨hfront, by omega, hback.2.raise (by omega)⟩

end StillOpen

/-! ## Where a run ends -/

/-- The item of a token.  Only parentheses keep the offset. -/
def Stands (token : Token) : Item → Prop
  | .opening position => token.kind = .openParen ∧ token.start = position
  | .closing position => token.kind = .closeParen ∧ token.start = position
  | .and => token.kind = .and
  | .or => token.kind = .or
  | .leaf _ => token.kind = .fragment

theorem Level.tree_ne_unbalanced (l : Level) (template : String) (position : Nat) :
    l.tree template ≠ .error (.unbalancedParens position) := by
  intro h
  rw [Level.tree] at h
  split at h
  · cases h
  · split at h
    · cases h
    · split at h
      · cases h
      · split at h <;> cases h

/-- If a run ends for a parenthesis without a partner, it is the one that all tokens have.  The tokens
in front have been read already, and the stack is what is open behind them. -/
theorem unpaired_of_run {template : String} {front toks : List Token} {items : List Item}
    {level : Level} {stack : List Frame} {position : Nat} (hstands : List.Forall₂ Stands toks items)
    (hopen : StillOpen front (stack.map Frame.position))
    (h : (run template level stack items).tree = .error (.unbalancedParens position)) :
    Unpaired (front ++ toks) position := by
  induction hstands generalizing front level stack with
  | nil =>
      cases stack with
      | nil =>
          rw [run, tree_report] at h
          exact absurd h (level.tree_ne_unbalanced template position)
      | cons frame stack =>
          cases h
          rw [List.append_nil]
          have hclosed := hopen.counts.2
          generalize hopened : (frame :: stack).map Frame.position = opened at hopen
          cases hopen with
          | none _ => cases hopened
          | more _ hkind hback =>
              rw [List.map_cons, List.cons.injEq] at hopened
              rw [hopened.1]
              exact .opening hkind hclosed hback
  | @cons token item toks items hitem _ ih =>
      -- The token moves to those that have been read.
      have hnext : ∀ {level stack}, StillOpen (front ++ [token]) (stack.map Frame.position) →
          (run template level stack items).tree = .error (.unbalancedParens position) →
          Unpaired (front ++ token :: toks) position := by
        intro level stack hopen hrun
        rw [List.append_cons]
        exact ih hopen hrun
      cases item with
      | leaf clause => exact hnext (hopen.flat (by rw [hitem]; rfl)) h
      | and => exact hnext (hopen.flat (by rw [hitem]; rfl)) h
      | or => exact hnext (hopen.flat (by rw [hitem]; rfl)) h
      | opening offset =>
          obtain ⟨hkind, rfl⟩ := hitem
          rw [run] at h
          split at h
          · cases h
          · have hpush : StillOpen (front ++ [token])
                (({ position := token.start, level } :: stack : List Frame).map Frame.position) :=
              hopen.push hkind
            exact hnext hpush h
      | closing offset =>
          obtain ⟨hkind, rfl⟩ := hitem
          cases stack with
          | nil =>
              cases h
              generalize hopened : ([] : List Frame).map Frame.position = opened at hopen
              cases hopen with
              | none hpaired => exact .closing hkind hpaired
              | more _ _ _ => cases hopened
          | cons frame stack =>
              rw [run] at h
              split at h
              · rename_i e htree
                cases h
                exact absurd htree (level.tree_ne_unbalanced template position)
              · rw [tree_report] at h
                exact hnext (hopen.pop hkind) h

end Grouping
end RecordFilter
