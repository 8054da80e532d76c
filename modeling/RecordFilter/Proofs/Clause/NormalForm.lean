/-
The text of a clause is its normal form.  A fragment in normal form has its two sides without the
blanks around them and the symbol of the operator between them; a fragment without an operator is
only trimmed.  `read_text` says that a clause is written as the normal form of the fragment that it
was read from, unless its operand was written there, and that reading the text gives the clause back.

The scan for the operator finds it again because the word in front of it is an identifier and not
LIKE, by `not_like_of_sides?`.  LIKE at the start of a fragment would have been its operator.
-/
import RecordFilter.Proofs.Clause.Grammar
import RecordFilter.Proofs.Clause.Written

namespace RecordFilter

open Text

/-! ## The word in front of an operator -/

/-- A word in front of the first operator of a text is not LIKE, or it would be that operator. -/
theorem Operator.not_like_of_find? {text name tail : List Char} {found : Operator.Located}
    (hfind : Operator.find? text = some found)
    (hfront : slice? text 0 found.start = some (name ++ tail)) (hne : name ≠ [])
    (hname : name.all isAsciiWord = true) (htail : tail.all isBlank = true) :
    sameLetters name ['l', 'i', 'k', 'e'] = false := by
  obtain ⟨front, back, s, rfl, hs, _, hfirst, rfl⟩ :=
    Operator.exists_spellingAt?_of_findFrom hfind
  obtain rfl : front = name ++ tail := by
    have hslice := slice?_append [] front back
    rw [byteLength_nil, List.nil_append] at hslice
    exact Option.some.inj (hslice.symm.trans hfront)
  -- The name ends where blanks start or the operator, which starts no word behind a word.
  have hapart : Apart (tail ++ back) := by
    intro c hc
    cases tail with
    | cons d tail =>
        cases hc
        rw [List.all_cons, Bool.and_eq_true] at htail
        exact isAsciiWord_of_isBlank htail.1
    | nil =>
        refine Bool.eq_false_iff.mpr fun hword => ?_
        obtain ⟨more, rfl⟩ : ∃ more, back = c :: more := ⟨_, List.eq_cons_of_mem_head? hc⟩
        have hbefore : isAsciiWordAt (name.getLast?.or none) = true := by
          rw [List.getLast?_eq_some_getLast hne]
          exact List.all_eq_true.mp hname _ (List.getLast_mem hne)
        rw [List.append_nil, Operator.spellingAt?_eq_none hword
          (standsAlone_of_wordBefore hbefore _ _)] at hs
        cases hs
  refine Bool.eq_false_iff.mpr fun hlike => ?_
  have hstands : standsAlone ['l', 'i', 'k', 'e'] none (name ++ (tail ++ back)) = true :=
    standsAlone_iff.mpr ⟨name, tail ++ back, rfl, hlike, rfl, isAsciiWordAt_head?_of_apart hapart⟩
  have hnone := hfirst (List.append_ne_nil_of_left_ne_nil hne _) rfl
  rw [Operator.spellingAt?, List.find?_eq_none, List.append_assoc] at hnone
  exact hnone ⟨['l', 'i', 'k', 'e'], .like⟩ (by decide) hstands

namespace Clause

variable {fragment front back : List Char} {operator : Operator} {values left : List Value}
  {clause : Clause}

theorem not_like_of_sides? (hsides : sides? fragment = some (front, operator, back))
    (hname : isIdentifier (trim isBlank front) = true) :
    sameLetters (trim isBlank front) ['l', 'i', 'k', 'e'] = false := by
  obtain ⟨found, hfind, _, hfront, _⟩ := exists_found_of_sides? hsides
  obtain ⟨tail, hsplit, htail⟩ := exists_trim_append isBlank front
  -- No blank stands in front of the name, because the fragment starts with none.
  have hstart : front.takeWhile isBlank = [] := by
    obtain ⟨front', word, back', _, hfragment, _, _, _, _, hslice, _⟩ := Operator.exists_split hfind
    cases hfront.symm.trans hslice
    cases front with
    | nil => rfl
    | cons c front =>
        have hc : isBlank c = false := head_trim isBlank fragment c (by rw [hfragment]; rfl)
        rw [List.takeWhile_cons_of_neg (by simp [hc])]
  rw [hstart, List.nil_append] at hsplit
  exact Operator.not_like_of_find? hfind (hfront.trans (congrArg some hsplit))
    (isIdentifier_ne_nil hname) (isIdentifier_word hname) htail

/-! ## The normal form -/

/-- The operand of the clause was written in the fragment. -/
def isInline : Clause → Bool
  | .compare _ _ _ .written => true
  | _ => false

/-- A fragment without the blanks around its sides and with the symbol of its operator between
spaces. -/
def normalForm (fragment : List Char) : List Char :=
  match sides? fragment with
  | none => trim isBlank fragment
  | some (front, operator, back) =>
      trim isBlank front ++ (operator.spaced ++ trim isBlank back)

theorem normalForm_of_sides? (hsides : sides? fragment = some (front, operator, back)) :
    normalForm fragment = trim isBlank front ++ (operator.spaced ++ trim isBlank back) := by
  rw [normalForm, hsides]

/-- Reading a fragment is reading its normal form. -/
theorem read_normalForm (h : read fragment values = .ok (clause, left)) :
    read (normalForm fragment) values = .ok (clause, left) := by
  rcases read_by_sides fragment values with ⟨hfind, hsides⟩ |
    ⟨front, operator, back, _, hsides, hread⟩
  · have hnormal : normalForm fragment = trim isBlank fragment := by
      rw [normalForm, hsides]
    rw [hnormal, read, trim_trim]
    exact h
  · obtain ⟨hname, side, hside, hmakes⟩ := ofSides_eq_ok_iff.mp (hread.symm.trans h)
    have hlike := not_like_of_sides? hsides hname
    have hne : trim isBlank back ≠ [] := by
      intro hnil
      rw [hnil] at hside
      cases hside
    have hhead := head_trim isBlank back
    have hlast := last_trim isBlank back
    rw [normalForm_of_sides? hsides, read_written hname hlike hne hlast, ofSides_eq_ok_iff,
      trim_left hname, trim_right hhead hlast]
    exact ⟨hname, side, hside, hmakes⟩

theorem exists_operand_of_comparison {field : String} {v : Value} {source : Source}
    (h : comparison field operator v source = .ok clause) :
    ∃ operand, clause = .compare field operator operand source := by
  cases operator with
  | like =>
      rw [comparison] at h
      split at h
      · cases h
        exact ⟨_, rfl⟩
      · cases h
  | eq | ne | lt | le | gt | ge =>
      cases h
      exact ⟨_, rfl⟩

theorem toList_of_rightSide?_field {text : List Char} {name : String}
    (h : rightSide? text = some (.field name)) : name.toList = text := by
  rw [rightSide?] at h
  split at h
  · cases h
  · split at h
    · cases h
    · split at h
      · cases h
        exact String.toList_ofList
      · cases h

/-- A clause is written as the normal form of the fragment that it was read from. -/
theorem text_eq_normalForm (h : read fragment values = .ok (clause, left))
    (hinline : clause.isInline = false) : clause.text.toList = normalForm fragment := by
  rcases read_by_sides fragment values with ⟨hfind, hsides⟩ |
    ⟨front, operator, back, _, hsides, hread⟩
  · rw [read_without_operator hfind] at h
    rw [normalForm, hsides]
    split at h
    · cases h
    · cases h
      exact String.toList_ofList
  · obtain ⟨hname, side, hside, hmakes⟩ := ofSides_eq_ok_iff.mp (hread.symm.trans h)
    have hleft : (String.ofList (trim isBlank front)).toList = trim isBlank front :=
      String.toList_ofList
    rw [normalForm_of_sides? hsides]
    cases hmakes with
    | placeholder hmade =>
        obtain ⟨operand, rfl⟩ := exists_operand_of_comparison hmade
        rw [rightSide?_eq_placeholder_iff.mp hside, text, toList_written, hleft]
        rfl
    | literal hmade =>
        obtain ⟨operand, rfl⟩ := exists_operand_of_comparison hmade
        cases hinline
    | field hlike => rw [text, toList_written, hleft, toList_of_rightSide?_field hside]

/-- The spellings of an operator become its symbol. -/
example : normalForm "a<>b".toList = "a != b".toList ∧
    normalForm " x  LIKE ? ".toList = "x like ?".toList ∧
    normalForm "a == null".toList = "a = null".toList ∧
    normalForm " active ".toList = "active".toList := by
  decide +kernel

/-- The text of a clause is the normal form of the fragment that the clause was read from, and with
the same values it is read as the same clause again and leaves the same values, unless the clause
has its operand in the fragment. -/
theorem read_text (h : read fragment values = .ok (clause, left))
    (hinline : clause.isInline = false) :
    clause.text.toList = normalForm fragment ∧
      read clause.text.toList values = .ok (clause, left) := by
  have htext := text_eq_normalForm h hinline
  exact ⟨htext, htext.symm ▸ read_normalForm h⟩

/-- A field whose name starts with the word of the operator. -/
def likesClause : Clause :=
  .compare "likes" .like (.pattern (Pattern.ofLike ['%', 'a'])) .placeholder

theorem read_text_of_likes :
    read "\u00a0likes\tLIKE ? ".toList [.str "%a", .null] = .ok (likesClause, [.null]) ∧
      likesClause.text = "likes like ?" ∧
      read likesClause.text.toList [.str "%a", .null] = .ok (likesClause, [.null]) := by
  have hread : read "\u00a0likes\tLIKE ? ".toList [.str "%a", .null] =
      .ok (likesClause, [.null]) := rfl
  exact ⟨hread, rfl, (read_text hread rfl).2⟩

end Clause
end RecordFilter
