/-
Which tokens a template has.  A token is a delimiter that stands in the template, or a fragment, the
text of a gap between two delimiters without the layout at its ends.  `Spans` says this of the parts
of a template without saying how the parts are found, and `tokens_exact` says that the tokens of a
template are all that span a part of it, from left to right, unless the template ends in a literal.

The tokens of the text behind a delimiter are taken together: `mem_tokensAt` goes from one delimiter
to the next, along `CutsTo`.  For that it has to be known that a gap between delimiters is one gap,
which is `lies_gap`, and that nothing else stands where a delimiter does, which is `lies_delimiter`.
-/
import RecordFilter.Proofs.Template.Delimiters
import Mathlib.Data.List.Sort

namespace RecordFilter
namespace Template

open Text

/-! ## The parts of a template -/

/-- A gap can start behind this text: it is empty, or ends with a delimiter. -/
def StartsGap (left right : List Char) : Prop :=
  left = [] ∨ ∃ kind front word, left = front ++ word ∧ Delimits kind front word right

/-- A gap can end in front of this text: it is empty, or starts with a delimiter. -/
def EndsGap (left right : List Char) : Prop :=
  right = [] ∨ ∃ kind word behind, right = word ++ behind ∧ Delimits kind left word behind

/-- The middle part is what stands between two delimiters, or between one and an end of the text. -/
structure Gap (left gap right : List Char) : Prop where
  starts : StartsGap left (gap ++ right)
  ends : EndsGap (left ++ gap) right
  undelimited : Undelimited left gap right

/-- A text starts and ends with layout, and this is left without it. -/
structure Trims (text lead kept : List Char) : Prop where
  text_eq : ∃ trail, text = lead ++ (kept ++ trail) ∧ trail.all isLayout = true
  lead_layout : lead.all isLayout = true
  kept_ne_nil : kept ≠ []
  head_kept : ∀ c ∈ kept.head?, isLayout c = false
  last_kept : ∀ c ∈ kept.getLast?, isLayout c = false

/-- A token spans the middle part: it is the delimiter there, or the fragment of the gap. -/
inductive Spans (left middle right : List Char) : Token → Prop where
  | delimiter {kind : TokenKind} (h : Delimits kind left middle right) :
      Spans left middle right
        { kind, start := byteLength left, stop := byteLength left + byteLength middle }
  | fragment {lead kept : List Char} (hgap : Gap left middle right) (htrims : Trims middle lead kept) :
      Spans left middle right
        { kind := .fragment, start := byteLength left + byteLength lead
          stop := byteLength left + byteLength lead + byteLength kept }

/-- A token spans some part of the second text. -/
def Lies (left right : List Char) (token : Token) : Prop :=
  ∃ front middle behind, right = front ++ (middle ++ behind) ∧ Spans (left ++ front) middle behind token

theorem byteLength_pos {text : List Char} (h : text ≠ []) : 0 < byteLength text := by
  cases text with
  | nil => exact absurd rfl h
  | cons c rest =>
      have hpos := Char.utf8Size_pos c
      rw [byteLength_cons]
      omega

theorem Spans.start_lt_stop {left middle right : List Char} {token : Token}
    (h : Spans left middle right token) : token.start < token.stop := by
  cases h with
  | delimiter h =>
      have hpos := byteLength_pos h.delimiter.ne_nil
      show byteLength left < byteLength left + byteLength middle
      omega
  | @fragment lead kept hgap htrims =>
      have hpos := byteLength_pos htrims.kept_ne_nil
      show byteLength left + byteLength lead < byteLength left + byteLength lead + byteLength kept
      omega

theorem Spans.middle_ne_nil {left middle right : List Char} {token : Token}
    (h : Spans left middle right token) : middle ≠ [] := by
  cases h with
  | delimiter h => exact h.delimiter.ne_nil
  | fragment hgap htrims =>
      obtain ⟨trail, htext, _⟩ := htrims.text_eq
      rw [htext]
      exact List.append_ne_nil_of_right_ne_nil _
        (List.append_ne_nil_of_left_ne_nil htrims.kept_ne_nil trail)

/-! ## Delimiters do not overlap -/

/-- Of two delimiters, the one that does not start first is the same one or stands behind it. -/
theorem Delimits.eq_or_behind {kind kind' : TokenKind}
    {left word right front word' right' : List Char}
    (h : Delimits kind left word right) (h' : Delimits kind' (left ++ front) word' right')
    (htext : word ++ right = front ++ (word' ++ right')) :
    (front = [] ∧ kind = kind' ∧ word = word' ∧ right = right') ∨
      ∃ between, front = word ++ between := by
  rcases List.append_eq_append_iff.mp htext with ⟨between, hfront, _⟩ | ⟨inner, hword, hinner⟩
  · exact Or.inr ⟨between, hfront⟩
  · by_cases hnil : front = []
    · rw [hnil, List.append_nil] at h'
      rw [hnil, List.nil_append] at htext
      exact Or.inl ⟨hnil, h.delimiter.unique h'.delimiter htext⟩
    · by_cases hinner' : inner = []
      · exact Or.inr ⟨[], by rw [hword, hinner', List.append_nil, List.append_nil]⟩
      · rw [hword] at h
        exact absurd h' (h.noneAt_inside hnil hinner' kind' word' right' hinner.symm)

/-- Two delimiters of one text are the same, or one stands behind the other. -/
theorem Delimits.disjoint {kind kind' : TokenKind} {left word right left' word' right' : List Char}
    (h : Delimits kind left word right) (h' : Delimits kind' left' word' right')
    (htext : left ++ (word ++ right) = left' ++ (word' ++ right')) :
    (left = left' ∧ word = word') ∨ (∃ between, left' = left ++ word ++ between) ∨
      ∃ between, left = left' ++ word' ++ between := by
  rcases List.append_eq_append_iff.mp htext with ⟨front, hfront, hright⟩ | ⟨front, hfront, hright⟩
  · rw [hfront] at h'
    rcases h.eq_or_behind h' hright with ⟨hnil, _, hword, _⟩ | ⟨between, hbetween⟩
    · exact Or.inl ⟨by rw [hfront, hnil, List.append_nil], hword⟩
    · exact Or.inr (Or.inl ⟨between, by rw [hfront, hbetween, List.append_assoc]⟩)
  · rw [hfront] at h
    rcases h'.eq_or_behind h hright with ⟨hnil, _, hword, _⟩ | ⟨between, hbetween⟩
    · exact Or.inl ⟨by rw [hfront, hnil, List.append_nil], hword.symm⟩
    · exact Or.inr (Or.inr ⟨between, by rw [hfront, hbetween, List.append_assoc]⟩)

/-! ## Gaps do not overlap -/

/-- A gap that starts inside another one starts with it. -/
theorem StartsGap.eq_nil {left front right : List Char} (hstart : StartsGap left (front ++ right))
    (hfront : Undelimited left front right) (h : StartsGap (left ++ front) right) : front = [] := by
  by_contra hne
  have hpos := List.length_pos_iff.mpr hne
  rcases h with hnil | ⟨kind, first, word, hsplit, hdelimits⟩
  · exact hne (List.append_eq_nil_iff.mp hnil).2
  · have hlengths := congrArg List.length hsplit
    have hinside : ∀ part, first ≠ left ++ part := by
      rintro part rfl
      rw [List.append_assoc] at hsplit
      exact hfront part word (List.append_cancel_left hsplit) hdelimits.delimiter.ne_nil _ _ _ rfl
        hdelimits
    rcases hstart with rfl | ⟨kind', first', word', rfl, hdelimits'⟩
    · exact hinside first rfl
    · have htext : first ++ (word ++ right) = first' ++ (word' ++ (front ++ right)) := by
        rw [← List.append_assoc, ← hsplit, List.append_assoc, List.append_assoc]
      simp only [List.length_append] at hlengths
      rcases hdelimits.disjoint hdelimits' htext with ⟨rfl, rfl⟩ | ⟨between, rfl⟩ | ⟨between, hfirst⟩
      · omega
      · simp only [List.length_append] at hlengths
        omega
      · exact hinside between hfirst

/-- No gap starts inside a delimiter. -/
theorem StartsGap.eq_nil_of_delimits {kind : TokenKind} {left front rest right : List Char}
    (h : StartsGap (left ++ front) (rest ++ right))
    (hdelimits : Delimits kind left (front ++ rest) right)
    (hrest : rest ≠ []) : front = [] := by
  have hpos := List.length_pos_iff.mpr hrest
  rcases h with hempty | ⟨kind', first, word, hsplit, hword⟩
  · exact (List.append_eq_nil_iff.mp hempty).2
  · have hlengths := congrArg List.length hsplit
    have htext : left ++ (front ++ rest ++ right) = first ++ (word ++ (rest ++ right)) := by
      rw [← List.append_assoc first, ← hsplit, List.append_assoc, List.append_assoc]
    simp only [List.length_append] at hlengths
    apply List.length_eq_zero_iff.mp
    rcases hdelimits.disjoint hword htext with ⟨rfl, rfl⟩ | ⟨between, rfl⟩ | ⟨between, hleft⟩
    · simp only [List.length_append] at hlengths
      omega
    · simp only [List.length_append] at hlengths
      omega
    · have hlengths' := congrArg List.length hleft
      simp only [List.length_append] at hlengths'
      omega

/-- A gap that ends inside another one ends with it. -/
theorem Undelimited.eq_nil {left gap rest right : List Char}
    (hgap : Undelimited left (gap ++ rest) right) (hends : EndsGap (left ++ gap) (rest ++ right)) :
    rest = [] := by
  by_contra hne
  rcases hends with hnil | ⟨kind, word, behind, htext, hdelimits⟩
  · exact hne (List.append_eq_nil_iff.mp hnil).1
  · exact hgap gap rest rfl hne kind word behind htext hdelimits

/-- Two gaps that start together end together. -/
theorem Gap.unique {left gap right gap' right' : List Char} (h : Gap left gap right)
    (h' : Gap left gap' right') (htext : gap ++ right = gap' ++ right') :
    gap = gap' ∧ right = right' := by
  rcases List.append_eq_append_iff.mp htext with ⟨rest, hgap, hright⟩ | ⟨rest, hgap, hright⟩
  · have hundelimited := h'.undelimited
    have hends := h.ends
    rw [hgap] at hundelimited
    rw [hright] at hends
    have hnil := hundelimited.eq_nil hends
    rw [hnil] at hgap hright
    exact ⟨by rw [hgap, List.append_nil], hright⟩
  · have hundelimited := h.undelimited
    have hends := h'.ends
    rw [hgap] at hundelimited
    rw [hright] at hends
    have hnil := hundelimited.eq_nil hends
    rw [hnil] at hgap hright
    exact ⟨by rw [hgap, List.append_nil], hright.symm⟩

/-! ## What lies in a text, from the left -/

theorem not_lies_nil (left : List Char) (token : Token) : ¬ Lies left [] token := by
  rintro ⟨front, middle, behind, htext, hspans⟩
  have hmiddle := (List.append_eq_nil_iff.mp htext.symm).2
  exact hspans.middle_ne_nil (List.append_eq_nil_iff.mp hmiddle).1

theorem lies_append {left front right : List Char} {token : Token}
    (h : Lies (left ++ front) right token) : Lies left (front ++ right) token := by
  obtain ⟨front', middle, behind, rfl, hspans⟩ := h
  rw [List.append_assoc] at hspans
  exact ⟨front ++ front', middle, behind, by rw [List.append_assoc], hspans⟩

/-- In a gap lies its fragment. -/
theorem lies_gap {left gap right : List Char} {token : Token} (hgap : Gap left gap right) :
    Lies left (gap ++ right) token ↔
      (∃ lead kept, Trims gap lead kept ∧
        token = { kind := .fragment, start := byteLength left + byteLength lead
                  stop := byteLength left + byteLength lead + byteLength kept }) ∨
      Lies (left ++ gap) right token := by
  constructor
  · rintro ⟨front, middle, behind, htext, hspans⟩
    rcases List.append_eq_append_iff.mp htext with ⟨rest, hfront, hright⟩ | ⟨rest, hfront, hright⟩
    · rw [hfront, ← List.append_assoc] at hspans
      exact Or.inr ⟨rest, middle, behind, hright, hspans⟩
    · by_cases hnil : rest = []
      · rw [hnil, List.append_nil] at hfront
        rw [hnil, List.nil_append] at hright
        rw [← hfront, ← List.append_nil (left ++ gap)] at hspans
        exact Or.inr ⟨[], middle, behind, hright.symm, hspans⟩
      · have hundelimited := hgap.undelimited
        have hstarts := hgap.starts
        rw [hfront] at hundelimited hstarts
        cases hspans with
        | delimiter h =>
            exact absurd h (hundelimited front rest rfl hnil _ middle behind hright.symm)
        | fragment hother htrims =>
            rw [List.append_assoc] at hstarts
            have hother' := hother.starts
            rw [hright] at hother'
            obtain rfl : front = [] := hstarts.eq_nil hundelimited.of_append.1 hother'
            rw [List.append_nil] at hother ⊢
            obtain ⟨rfl, rfl⟩ := hgap.unique hother htext
            exact Or.inl ⟨_, _, htrims, rfl⟩
  · rintro (⟨lead, kept, htrims, rfl⟩ | hlies)
    · refine ⟨[], gap, right, rfl, ?_⟩
      have hspans := Spans.fragment hgap htrims
      rw [List.append_nil]
      exact hspans
    · exact lies_append hlies

/-- Where a delimiter stands nothing else lies. -/
theorem lies_delimiter {left word right : List Char} {kind : TokenKind} {token : Token}
    (hdelimits : Delimits kind left word right) :
    Lies left (word ++ right) token ↔
      token = { kind, start := byteLength left, stop := byteLength left + byteLength word } ∨
      Lies (left ++ word) right token := by
  constructor
  · rintro ⟨front, middle, behind, htext, hspans⟩
    rcases List.append_eq_append_iff.mp htext with ⟨rest, hfront, hright⟩ | ⟨rest, hfront, hright⟩
    · rw [hfront, ← List.append_assoc] at hspans
      exact Or.inr ⟨rest, middle, behind, hright, hspans⟩
    · by_cases hnil : rest = []
      · rw [hnil, List.append_nil] at hfront
        rw [hnil, List.nil_append] at hright
        rw [← hfront, ← List.append_nil (left ++ word)] at hspans
        exact Or.inr ⟨[], middle, behind, hright.symm, hspans⟩
      · have hlengths := congrArg List.length hfront
        have hpos := List.length_pos_iff.mpr hnil
        rw [List.length_append] at hlengths
        cases hspans with
        | delimiter h =>
            rcases hdelimits.eq_or_behind h htext with ⟨rfl, rfl, rfl, rfl⟩ | ⟨between, rfl⟩
            · rw [List.append_nil]
              exact Or.inl rfl
            · rw [List.length_append] at hlengths
              omega
        | fragment hother htrims =>
            have hstarts := hother.starts
            rw [hfront] at hdelimits
            rw [hright] at hstarts
            obtain rfl : front = [] := hstarts.eq_nil_of_delimits hdelimits hnil
            have hnone := hother.undelimited [] middle rfl (Spans.fragment hother htrims).middle_ne_nil
            rw [List.append_nil, List.append_nil] at hnone
            rw [← hfront] at hdelimits
            exact absurd hdelimits (hnone kind word right htext.symm)
  · rintro (rfl | hlies)
    · refine ⟨[], word, right, rfl, ?_⟩
      have hspans := Spans.delimiter hdelimits
      rw [List.append_nil]
      exact hspans
    · exact lies_append hlies

/-! ## The tokens of a text, from the left -/

/-- The token of a gap that starts at the given byte offset, if not all of it is layout. -/
def fragment? (start : Nat) (gap : List Char) : Option Token :=
  let kept := trim isLayout gap
  let first := start + byteLength (gap.takeWhile isLayout)
  if kept.isEmpty then none
  else some { kind := .fragment, start := first, stop := first + byteLength kept }

theorem trims_trim {text : List Char} (h : trim isLayout text ≠ []) :
    Trims text (text.takeWhile isLayout) (trim isLayout text) where
  text_eq := by
    obtain ⟨trail, htext, htrail⟩ := exists_trim_append isLayout text
    exact ⟨trail, htext, htrail⟩
  lead_layout := List.all_takeWhile
  kept_ne_nil := h
  head_kept := head_trim isLayout text
  last_kept := last_trim isLayout text

theorem Trims.unique {text lead kept : List Char} (h : Trims text lead kept) :
    lead = text.takeWhile isLayout ∧ kept = trim isLayout text := by
  obtain ⟨trail, rfl, htrail⟩ := h.text_eq
  rw [trim_append h.lead_layout htrail h.head_kept h.last_kept]
  refine ⟨?_, rfl⟩
  rw [List.takeWhile_append_of_pos (List.all_eq_true.mp h.lead_layout)]
  cases hkept : kept with
  | nil => exact absurd hkept h.kept_ne_nil
  | cons c rest =>
      have hc : isLayout c = false := h.head_kept c (by rw [hkept]; rfl)
      rw [List.cons_append, List.takeWhile_cons_of_neg (by rw [hc]; exact Bool.false_ne_true),
        List.append_nil]

theorem mem_fragment? {start : Nat} {gap : List Char} {token : Token} :
    token ∈ fragment? start gap ↔
      ∃ lead kept, Trims gap lead kept ∧
        token = { kind := .fragment, start := start + byteLength lead
                  stop := start + byteLength lead + byteLength kept } := by
  constructor
  · intro h
    rw [fragment?] at h
    by_cases hempty : (trim isLayout gap).isEmpty = true
    · simp [hempty] at h
    · simp only [hempty, if_false, Option.mem_def, Option.some.injEq, Bool.false_eq_true] at h
      exact ⟨_, _, trims_trim (fun hnil => hempty (by rw [hnil]; rfl)), h.symm⟩
  · rintro ⟨lead, kept, htrims, rfl⟩
    obtain ⟨rfl, hkept⟩ := htrims.unique
    have hne := htrims.kept_ne_nil
    rw [hkept] at hne ⊢
    simp [fragment?, hne]

theorem map_token_place_gap (start : Nat) (gap : List Char) (rest : List Piece) :
    (place start (.gap gap :: rest)).map Placed.token =
      (fragment? start gap).toList ++ (place (start + byteLength gap) rest).map Placed.token := by
  rw [place, fragment?]
  by_cases hempty : (trim isLayout gap).isEmpty = true
  · simp only [hempty, if_true, Option.toList_none, List.nil_append]
  · simp only [hempty, if_false, Bool.false_eq_true, Option.toList_some, List.map_cons,
      List.singleton_append]

/-- The tokens of a cut are the one of the gap in front and those of the pieces behind it. -/
theorem map_token_place (start : Nat) (cut : Cut) :
    (place start cut.pieces).map Placed.token =
      (fragment? start cut.front).toList ++
        (place (start + byteLength cut.front) cut.behind).map Placed.token := by
  rw [Cut.front, Cut.behind]
  cases cut.pieces with
  | nil => rfl
  | cons piece rest =>
      cases piece with
      | delimiter kind text => rfl
      | gap gap => exact map_token_place_gap start gap rest

/-- The tokens of a cut span the parts of the text that is cut. -/
theorem CutsTo.mem_place {left right : List Char} {cut : Cut} {token : Token}
    (h : CutsTo left right cut) (hstarts : StartsGap left right) (hunclosed : cut.unclosed = none) :
    token ∈ (place (byteLength left) cut.pieces).map Placed.token ↔ Lies left right token := by
  induction h with
  | @last left gap hclosed hgap =>
      have hlies := @lies_gap left gap [] token
        ⟨by rw [List.append_nil]; exact hstarts, Or.inl rfl, hgap⟩
      rw [List.append_nil] at hlies
      rw [hlies, ← mem_fragment?, map_token_place, List.mem_append, Option.mem_toList,
        Cut.front_push, Cut.behind_push]
      show token ∈ fragment? _ (gap ++ []) ∨ token ∈ [] ↔ _
      simp only [List.append_nil, List.not_mem_nil, not_lies_nil]
  | opened _ _ _ _ =>
      rw [Cut.unclosed_push] at hunclosed
      cases hunclosed
  | @delimiter left gap word rest kind cut hgap hdelimits _ ih =>
      have hends : EndsGap (left ++ gap) (word ++ rest) := Or.inr ⟨kind, word, rest, rfl, hdelimits⟩
      rw [Cut.unclosed_push, Cut.unclosed_pushDelimiter] at hunclosed
      have hrest := ih (Or.inr ⟨kind, left ++ gap, word, rfl, hdelimits⟩) hunclosed
      rw [lies_gap ⟨hstarts, hends, hgap⟩, lies_delimiter hdelimits, ← hrest, ← mem_fragment?,
        map_token_place, List.mem_append, Option.mem_toList, Cut.front_push, Cut.behind_push,
        Cut.front_pushDelimiter, Cut.behind_pushDelimiter, List.append_nil, place, List.map_cons,
        List.mem_cons]
      simp only [byteLength_append, Option.mem_def]

/-! ## The order of tokens, and what they cover -/

/-- The tokens of pieces are within the pieces, from left to right. -/
theorem place_ordered (start : Nat) (pieces : List Piece) :
    (∀ token ∈ (place start pieces).map Placed.token, start ≤ token.start) ∧
      ((place start pieces).map Placed.token).Pairwise fun a b => a.stop ≤ b.start := by
  induction pieces generalizing start with
  | nil => exact ⟨fun _ h => absurd h List.not_mem_nil, List.Pairwise.nil⟩
  | cons piece rest ih =>
      obtain ⟨hstart, hordered⟩ := ih (start + byteLength piece.text)
      cases piece with
      | delimiter kind text =>
          rw [place, List.map_cons]
          refine ⟨fun token htoken => ?_, List.Pairwise.cons hstart hordered⟩
          rcases List.mem_cons.mp htoken with rfl | hmem
          · exact Nat.le_refl start
          · have hle := hstart token hmem
            omega
      | gap gap =>
          rw [map_token_place_gap]
          refine ⟨fun token htoken => ?_, List.pairwise_append.mpr ⟨?_, hordered, ?_⟩⟩
          · rcases List.mem_append.mp htoken with hmem | hmem
            · obtain ⟨lead, kept, _, rfl⟩ := mem_fragment?.mp (Option.mem_toList.mp hmem)
              exact Nat.le_add_right start (byteLength lead)
            · have hle := hstart token hmem
              omega
          · cases fragment? start gap with
            | none => exact List.Pairwise.nil
            | some token => exact List.pairwise_singleton _ token
          · intro token htoken other hother
            obtain ⟨lead, kept, htrims, rfl⟩ := mem_fragment?.mp (Option.mem_toList.mp htoken)
            obtain ⟨trail, rfl, _⟩ := htrims.text_eq
            have hle := hstart other hother
            simp only [Piece.text, byteLength_append] at hle
            show start + byteLength lead + byteLength kept ≤ other.start
            omega

/-- A character of two texts together is in the one or in the other. -/
theorem append_eq_append_cons {a b left right : List Char} {c : Char}
    (h : a ++ b = left ++ c :: right) :
    (∃ between, left = a ++ between ∧ b = between ++ c :: right) ∨
      ∃ between, a = left ++ c :: between := by
  rcases List.append_eq_append_iff.mp h with hright | ⟨between, hleft, hbetween⟩
  · exact Or.inl hright
  · cases between with
    | nil =>
        rw [List.append_nil] at hleft
        exact Or.inl ⟨[], by rw [hleft, List.append_nil], hbetween.symm⟩
    | cons d between =>
        obtain ⟨rfl, _⟩ := List.cons.inj hbetween
        exact Or.inr ⟨between, hleft⟩

/-- A character that is not layout is in what is left of a text without the layout at its ends. -/
theorem exists_trims {left right : List Char} {c : Char} (hc : isLayout c = false) :
    ∃ lead kept, Trims (left ++ c :: right) lead kept ∧ byteLength lead ≤ byteLength left ∧
      byteLength left + c.utf8Size ≤ byteLength lead + byteLength kept := by
  have hne : trim isLayout (left ++ c :: right) ≠ [] := by
    intro hnil
    have hall := trim_eq_nil_iff.mp hnil
    rw [List.all_append, List.all_cons, hc, Bool.false_and, Bool.and_false] at hall
    cases hall
  have htrims := trims_trim hne
  obtain ⟨trail, htext, htrail⟩ := htrims.text_eq
  refine ⟨_, _, htrims, ?_, ?_⟩
  · rcases append_eq_append_cons htext.symm with ⟨between, hleft, _⟩ | ⟨between, hlead⟩
    · conv_rhs => rw [hleft]
      rw [byteLength_append]
      exact Nat.le_add_right _ _
    · have hall := htrims.lead_layout
      rw [hlead, List.all_append, List.all_cons, hc, Bool.false_and, Bool.and_false] at hall
      cases hall
  · rw [← List.append_assoc] at htext
    rcases append_eq_append_cons htext.symm with ⟨between, _, hright⟩ | ⟨between, hkept⟩
    · rw [hright, List.all_append, List.all_cons, hc, Bool.false_and, Bool.and_false] at htrail
      cases htrail
    · rw [← byteLength_append, hkept, byteLength_append, byteLength_cons]
      omega

/-- A character that is not layout is in a token of the piece it is in. -/
theorem place_covers {start : Nat} {pieces : List Piece} {left right : List Char} {c : Char}
    (htext : pieces.flatMap Piece.text = left ++ c :: right) (hc : isLayout c = false) :
    ∃ token ∈ (place start pieces).map Placed.token, token.start ≤ start + byteLength left ∧
      start + byteLength left + c.utf8Size ≤ token.stop := by
  induction pieces generalizing start left with
  | nil => cases left <;> cases htext
  | cons piece rest ih =>
      rw [List.flatMap_cons] at htext
      rcases append_eq_append_cons htext with ⟨between, hleft, hrest⟩ | ⟨between, hpiece⟩
      · obtain ⟨token, hmem, hstart, hstop⟩ := @ih (start + byteLength piece.text) _ hrest
        rw [hleft, byteLength_append, ← Nat.add_assoc]
        refine ⟨token, ?_, hstart, hstop⟩
        cases piece with
        | delimiter kind text => exact List.mem_cons_of_mem _ hmem
        | gap gap =>
            rw [map_token_place_gap]
            exact List.mem_append_right _ hmem
      · cases piece with
        | delimiter kind text =>
            obtain rfl : text = left ++ c :: between := hpiece
            refine ⟨_, List.mem_cons_self, Nat.le_add_right start _, ?_⟩
            show start + byteLength left + c.utf8Size ≤ start + byteLength (left ++ c :: between)
            rw [byteLength_append, byteLength_cons]
            omega
        | gap gap =>
            obtain rfl : gap = left ++ c :: between := hpiece
            obtain ⟨lead, kept, htrims, hlead, hkept⟩ := @exists_trims left between c hc
            rw [map_token_place_gap]
            have hmem := (@mem_fragment? start _ _).mpr ⟨lead, kept, htrims, rfl⟩
            refine ⟨_, List.mem_append_left _ (Option.mem_toList.mpr hmem), ?_, ?_⟩
            · show start + byteLength lead ≤ start + byteLength left
              omega
            · show start + byteLength left + c.utf8Size ≤ start + byteLength lead + byteLength kept
              omega

/-! ## Literals without an end -/

/-- The scan ends in a literal, which opens behind this text with this quote. -/
structure OpensLast (template left : List Char) (q : Char) (tail : List Char) : Prop where
  template_eq : template = left ++ q :: tail
  unquoted : Quote.after none left = none
  quote : Quote.isQuote q = true
  unclosed : q ∉ tail

theorem OpensLast.after_eq_some {template left tail : List Char} {q : Char}
    (h : OpensLast template left q tail) : Quote.after none template = some q := by
  rw [h.template_eq, Quote.after_append, h.unquoted, Quote.after_open h.quote h.unclosed]

/-- Behind the quote that opens the last literal everything is in that literal. -/
theorem OpensLast.eq_nil {template left tail between rest : List Char} {q : Char}
    (h : OpensLast template left q tail) (hsplit : q :: tail = between ++ rest)
    (hunquoted : Quote.after none (left ++ between) = none) : between = [] := by
  cases between with
  | nil => rfl
  | cons c between =>
      obtain ⟨rfl, htail⟩ := List.cons.inj hsplit
      have hmem : q ∉ between := fun hmem => h.unclosed (htail ▸ List.mem_append_left _ hmem)
      rw [Quote.after_append, h.unquoted, Quote.after_open h.quote hmem] at hunquoted
      cases hunquoted

theorem OpensLast.unique {template left left' tail tail' : List Char} {q q' : Char}
    (h : OpensLast template left q tail) (h' : OpensLast template left' q' tail') : left = left' := by
  have htext : left ++ q :: tail = left' ++ q' :: tail' := by rw [← h.template_eq, h'.template_eq]
  rcases List.append_eq_append_iff.mp htext with ⟨between, hleft, hrest⟩ | ⟨between, hleft, hrest⟩
  · have hunquoted := h'.unquoted
    rw [hleft] at hunquoted
    rw [hleft, h.eq_nil hrest hunquoted, List.append_nil]
  · have hunquoted := h.unquoted
    rw [hleft] at hunquoted
    rw [hleft, h'.eq_nil hrest hunquoted, List.append_nil]

/-- A cut leaves a literal open if the scan ends in one. -/
theorem CutsTo.unclosed {left right : List Char} {cut : Cut} (h : CutsTo left right cut) :
    (Quote.after none (left ++ right) = none ∧ cut.unclosed = none) ∨
      ∃ front q tail, right = front ++ q :: tail ∧ OpensLast (left ++ right) (left ++ front) q tail ∧
        cut.unclosed = some (q :: tail) := by
  induction h with
  | last hclosed _ => exact Or.inl ⟨hclosed, Cut.unclosed_push _ _⟩
  | @opened left gap tail q hclosed hquote htail _ =>
      refine Or.inr ⟨gap, q, tail, rfl, ⟨?_, hclosed, hquote, htail⟩, Cut.unclosed_push _ _⟩
      rw [List.append_assoc]
  | @delimiter left gap word rest kind cut _ _ _ ih =>
      rw [Cut.unclosed_push, Cut.unclosed_pushDelimiter]
      simp only [List.append_assoc] at ih
      rcases ih with hclosed | ⟨front, q, tail, hrest, hopens, hsome⟩
      · exact Or.inl hclosed
      · refine Or.inr ⟨gap ++ (word ++ front), q, tail, ?_, hopens, hsome⟩
        rw [hrest]
        simp only [List.append_assoc]

/-! ## The tokens of a template -/

/-- These are the tokens of a template that the scan leaves without an open literal. -/
def placed (template : List Char) : List Token :=
  (place 0 (cut template).pieces).map Placed.token

theorem tokens_of_closed {template : List Char} (h : Quote.after none template = none) :
    tokens template = .ok (placed template) ∧ (cut template).unclosed = none := by
  have hcuts : CutsTo [] template (cut template) := cutsTo_cutFrom [] template rfl
  rcases hcuts.unclosed with ⟨_, hnone⟩ | ⟨front, q, tail, _, hopens, _⟩
  · refine ⟨?_, hnone⟩
    simp only [tokens, unclosedAt?, readable, hnone, Option.map_none]
    rfl
  · rw [List.nil_append, List.nil_append] at hopens
    rw [hopens.after_eq_some] at h
    cases h

theorem tokens_of_open {template : List Char} (h : Quote.after none template ≠ none) :
    ∃ left q tail, OpensLast template left q tail ∧
      tokens template = .error (.unterminatedString (byteLength left)) := by
  have hcuts : CutsTo [] template (cut template) := cutsTo_cutFrom [] template rfl
  rcases hcuts.unclosed with ⟨hclosed, _⟩ | ⟨left, q, tail, htext, hopens, hsome⟩
  · exact absurd hclosed h
  · rw [List.nil_append, List.nil_append] at hopens
    refine ⟨left, q, tail, hopens, ?_⟩
    have hlength : byteLength template = byteLength left + byteLength (q :: tail) := by
      rw [htext, byteLength_append]
    simp only [tokens, unclosedAt?, hsome, Option.map_some, hlength, Nat.add_sub_cancel]

theorem closed_of_tokens {template : List Char} {toks : List Token} (h : tokens template = .ok toks) :
    Quote.after none template = none ∧ toks = placed template := by
  by_cases hclosed : Quote.after none template = none
  · rw [(tokens_of_closed hclosed).1] at h
    cases h
    exact ⟨hclosed, rfl⟩
  · obtain ⟨left, q, tail, _, herror⟩ := tokens_of_open hclosed
    rw [herror] at h
    cases h

theorem mem_placed {template : List Char} (h : Quote.after none template = none) (token : Token) :
    token ∈ placed template ↔
      ∃ left middle right, template = left ++ (middle ++ right) ∧ Spans left middle right token :=
  (cutsTo_cutFrom [] template rfl).mem_place (Or.inl rfl) (tokens_of_closed h).2

theorem placed_proper {template : List Char} (h : Quote.after none template = none) :
    ∀ token ∈ placed template, token.start < token.stop := by
  intro token htoken
  obtain ⟨left, middle, right, _, hspans⟩ := (mem_placed h token).mp htoken
  exact hspans.start_lt_stop

theorem placed_ordered (template : List Char) :
    (placed template).Pairwise fun a b => a.stop ≤ b.start :=
  (place_ordered 0 _).2

theorem placed_covers {template left right : List Char} {c : Char}
    (htext : template = left ++ c :: right) (hc : isLayout c = false) :
    ∃ token ∈ placed template,
      token.start ≤ byteLength left ∧ byteLength left + c.utf8Size ≤ token.stop := by
  rw [← flatMap_text_cut template] at htext
  obtain ⟨token, htoken, hstart, hstop⟩ := @place_covers 0 _ left right c htext hc
  rw [Nat.zero_add] at hstart hstop
  exact ⟨token, htoken, hstart, hstop⟩

/-- Tokens in order are determined by which tokens they are. -/
theorem eq_of_mem_iff {toks others : List Token}
    (hordered : toks.Pairwise fun a b => a.stop ≤ b.start)
    (hothers : others.Pairwise fun a b => a.stop ≤ b.start)
    (hproper : ∀ token ∈ toks, token.start < token.stop)
    (hmem : ∀ token, token ∈ toks ↔ token ∈ others) : toks = others := by
  let before : Token → Token → Prop := fun a b => a.start < b.start
  have hstarts : toks.Pairwise before :=
    hordered.imp_of_mem fun {a b} ha _ hle => Nat.lt_of_lt_of_le (hproper a ha) hle
  have hstarts' : others.Pairwise before :=
    hothers.imp_of_mem fun {a b} ha _ hle => Nat.lt_of_lt_of_le (hproper a ((hmem a).mpr ha)) hle
  have hirrefl : Std.Irrefl before := ⟨fun a => Nat.lt_irrefl a.start⟩
  have hantisymm : Std.Antisymm before := ⟨fun a b hab hba => absurd hab (Nat.lt_asymm hba)⟩
  exact hstarts.eq_of_mem_iff hstarts' hmem

/-- There are no tokens exactly if the scan ends in a literal, which is reported where it opens.
Otherwise the tokens are the delimiters and the fragments of the gaps between them, from left to
right; so none of them is empty, no two overlap, and what is in none of them is layout. -/
theorem tokens_exact (template : List Char) :
    (∀ e, tokens template = .error e ↔
      ∃ left q tail, OpensLast template left q tail ∧ e = .unterminatedString (byteLength left)) ∧
    (∀ toks, tokens template = .ok toks ↔
      Quote.after none template = none ∧ (toks.Pairwise fun a b => a.stop ≤ b.start) ∧
        ∀ token, token ∈ toks ↔
          ∃ left middle right, template = left ++ (middle ++ right) ∧ Spans left middle right token) ∧
    ∀ toks, tokens template = .ok toks →
      (∀ token ∈ toks, token.start < token.stop) ∧
      ∀ left c right, template = left ++ c :: right → isLayout c = false →
        ∃ token ∈ toks, token.start ≤ byteLength left ∧ byteLength left + c.utf8Size ≤ token.stop := by
  refine ⟨fun e => ⟨fun h => ?_, ?_⟩, fun toks => ⟨fun h => ?_, ?_⟩, fun toks h => ?_⟩
  · have hopen : Quote.after none template ≠ none := by
      intro hclosed
      rw [(tokens_of_closed hclosed).1] at h
      cases h
    obtain ⟨left, q, tail, hopens, herror⟩ := tokens_of_open hopen
    rw [herror, Except.error.injEq] at h
    exact ⟨left, q, tail, hopens, h.symm⟩
  · rintro ⟨left, q, tail, hopens, rfl⟩
    have hopen : Quote.after none template ≠ none := by
      rw [hopens.after_eq_some]
      exact Option.some_ne_none q
    obtain ⟨left', q', tail', hopens', herror⟩ := tokens_of_open hopen
    rw [herror, hopens.unique hopens']
  · obtain ⟨hclosed, rfl⟩ := closed_of_tokens h
    exact ⟨hclosed, placed_ordered template, mem_placed hclosed⟩
  · rintro ⟨hclosed, hordered, hmem⟩
    rw [(tokens_of_closed hclosed).1]
    exact congrArg Except.ok (eq_of_mem_iff (placed_ordered template) hordered (placed_proper hclosed)
      fun token => (mem_placed hclosed token).trans (hmem token).symm)
  · obtain ⟨hclosed, rfl⟩ := closed_of_tokens h
    exact ⟨placed_proper hclosed, fun left c right htext hc => placed_covers htext hc⟩

/-- A keyword in a literal or inside a word is part of a fragment. -/
example : tokens "('AND' = order AND x) ".toList = .ok
    [⟨.openParen, 0, 1⟩, ⟨.fragment, 1, 14⟩, ⟨.and, 15, 18⟩, ⟨.fragment, 19, 20⟩,
      ⟨.closeParen, 20, 21⟩] := by decide

end Template
end RecordFilter
