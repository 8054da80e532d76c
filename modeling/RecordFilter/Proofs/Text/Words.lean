/-
Words in a text and the blanks around it.  A word of ASCII word characters that is followed by none
of them can only stand for a keyword as a whole: `standsAlone_append`.  A text that neither starts
nor ends with a skippable character is what trimming leaves of it: `trim_append`.
-/
import RecordFilter.Text.Blank
import RecordFilter.Text.Word

namespace RecordFilter
namespace Text

/-! ## Words -/

/-- What holds of all ASCII characters, by their code points. -/
theorem of_forall_ascii {p : Char → Prop} (h : ∀ n < 0x80, p (Char.ofNat n)) {c : Char}
    (hc : c.toNat < 0x80) : p c := by
  have hn := h c.toNat hc
  rw [Char.ofNat_toNat] at hn
  exact hn

theorem ne_of_class {p : Char → Bool} {c d : Char} (hd : p d = false) (h : p c = true) : c ≠ d := by
  rintro rfl
  rw [h] at hd
  cases hd

/-- The text does not go on with a word. -/
def Apart (text : List Char) : Prop :=
  ∀ c ∈ text.head?, isAsciiWord c = false

theorem apart_cons {c : Char} (h : isAsciiWord c = false) (rest : List Char) : Apart (c :: rest) := by
  intro d hd
  cases hd
  exact h

theorem isAsciiWordAt_head?_of_apart {text : List Char} (h : Apart text) :
    isAsciiWordAt text.head? = false := by
  cases text with
  | nil => rfl
  | cons c rest => exact h c rfl

theorem lowerAscii_of_not_upper {c : Char} (h : ¬ ('A' ≤ c ∧ c ≤ 'Z')) : lowerAscii c = c := by
  rw [lowerAscii]
  simp only [Bool.and_eq_true, decide_eq_true_eq, if_neg h]

theorem isAsciiWord_of_lowerAscii {c : Char} (h : isAsciiWord (lowerAscii c) = true) :
    isAsciiWord c = true := by
  by_cases hupper : 'A' ≤ c ∧ c ≤ 'Z'
  · simp [isAsciiWord, isAsciiLetter, hupper]
  · rw [lowerAscii_of_not_upper hupper] at h
    exact h

theorem all_word_of_sameLetters {text word : List Char} (h : sameLetters text word = true)
    (hword : (lower word).all isAsciiWord = true) : text.all isAsciiWord = true := by
  rw [sameLetters, beq_iff_eq] at h
  rw [← h, lower, List.all_map, List.all_eq_true] at hword
  rw [List.all_eq_true]
  intro c hc
  exact isAsciiWord_of_lowerAscii (hword c hc)

theorem length_eq_of_sameLetters {left right : List Char} (h : sameLetters left right = true) :
    left.length = right.length := by
  rw [sameLetters, beq_iff_eq] at h
  have hlength := congrArg List.length h
  rw [lower, lower, List.length_map, List.length_map] at hlength
  exact hlength

theorem standsAlone_of_wordBefore {before : Option Char} (h : isAsciiWordAt before = true)
    (word text : List Char) : standsAlone word before text = false := by
  rw [standsAlone, h, Bool.not_true, Bool.and_false, Bool.false_and]

theorem standsAlone_iff {word text : List Char} {before : Option Char} :
    standsAlone word before text = true ↔
      ∃ name behind, text = name ++ behind ∧ sameLetters name word = true ∧
        isAsciiWordAt before = false ∧ isAsciiWordAt behind.head? = false := by
  constructor
  · intro h
    simp only [standsAlone, Bool.and_eq_true, Bool.not_eq_true'] at h
    exact ⟨_, _, (List.take_append_drop word.length text).symm, h.1.1, h.1.2, h.2⟩
  · rintro ⟨name, behind, rfl, hname, hbefore, hbehind⟩
    have hlength : word.length = name.length := (length_eq_of_sameLetters hname).symm
    simp only [standsAlone, hlength, List.take_left, List.drop_left, hname, hbefore, hbehind]
    decide

/-- A word that starts a text and stands alone in it is the whole word that the text starts with. -/
theorem standsAlone_append {word name rest : List Char} {before : Option Char}
    (hword : (lower word).all isAsciiWord = true) (hname : name.all isAsciiWord = true)
    (hrest : Apart rest) (h : standsAlone word before (name ++ rest) = true) :
    sameLetters name word = true := by
  rw [standsAlone, Bool.and_eq_true, Bool.and_eq_true] at h
  obtain ⟨⟨hsame, _⟩, hbehind⟩ := h
  have hall := all_word_of_sameLetters hsame hword
  have hlength := length_eq_of_sameLetters hsame
  rw [List.length_take] at hlength
  -- The word does not reach beyond the name, since the text behind it starts with no word.
  have hle : word.length ≤ name.length := by
    refine Nat.le_of_not_lt fun hlt => ?_
    cases rest with
    | nil =>
        rw [List.append_nil] at hlength
        omega
    | cons c rest =>
        have hmem : c ∈ (name ++ c :: rest).take word.length := by
          rw [List.take_append, List.mem_append]
          refine Or.inr ?_
          obtain ⟨n, hn⟩ : ∃ n, word.length - name.length = n + 1 :=
            ⟨word.length - name.length - 1, by omega⟩
          rw [hn, List.take_succ_cons]
          exact List.mem_cons_self
        have hc := List.all_eq_true.mp hall c hmem
        rw [hrest c rfl] at hc
        cases hc
  -- It does not end inside the name either, since the next character would belong to a word.
  have hge : name.length ≤ word.length := by
    refine Nat.le_of_not_lt fun hlt => ?_
    rw [List.drop_append_of_le_length hle, List.drop_eq_getElem_cons hlt, List.cons_append,
      List.head?_cons] at hbehind
    have hc := List.all_eq_true.mp hname name[word.length] (List.getElem_mem hlt)
    rw [isAsciiWordAt, Option.any_some, hc] at hbehind
    cases hbehind
  have heq : word.length = name.length := by omega
  rw [heq, List.take_left] at hsame
  exact hsame

/-! ## Parts -/

/-- A part between separators has none of them, and only characters of the text. -/
theorem mem_splitOn {separator : Char → Bool} {text part : List Char} {c : Char}
    (hpart : part ∈ splitOn separator text) (hc : c ∈ part) : separator c = false ∧ c ∈ text := by
  induction text generalizing part with
  | nil =>
      rw [splitOn, List.mem_singleton] at hpart
      subst hpart
      cases hc
  | cons d rest ih =>
      rw [splitOn] at hpart
      by_cases hd : separator d = true
      · rw [if_pos hd, List.mem_cons] at hpart
        rcases hpart with rfl | hpart
        · cases hc
        · obtain ⟨hnot, hmem⟩ := ih hpart hc
          exact ⟨hnot, List.mem_cons_of_mem _ hmem⟩
      · rw [if_neg hd] at hpart
        split at hpart
        · rename_i hnil
          exact absurd hnil (splitOn_ne_nil separator rest)
        · rename_i first parts hsplit
          rw [List.mem_cons] at hpart
          rcases hpart with rfl | hpart
          · rcases List.mem_cons.mp hc with rfl | hc
            · exact ⟨by simpa using hd, List.mem_cons_self⟩
            · obtain ⟨hnot, hmem⟩ := ih (hsplit ▸ List.mem_cons_self) hc
              exact ⟨hnot, List.mem_cons_of_mem _ hmem⟩
          · obtain ⟨hnot, hmem⟩ := ih (hsplit ▸ List.mem_cons_of_mem _ hpart) hc
            exact ⟨hnot, List.mem_cons_of_mem _ hmem⟩

/-- A character of a text that is no separator is in one of the parts between them. -/
theorem exists_mem_splitOn {separator : Char → Bool} {text : List Char} {c : Char} (hc : c ∈ text)
    (hsep : separator c = false) : ∃ part ∈ splitOn separator text, c ∈ part := by
  induction text with
  | nil => cases hc
  | cons d rest ih =>
      rw [splitOn]
      by_cases hd : separator d = true
      · rw [if_pos hd]
        rcases List.mem_cons.mp hc with rfl | hrest
        · rw [hsep] at hd
          cases hd
        · obtain ⟨part, hpart, hmem⟩ := ih hrest
          exact ⟨part, List.mem_cons_of_mem _ hpart, hmem⟩
      · rw [if_neg hd]
        cases hsplit : splitOn separator rest with
        | nil => exact absurd hsplit (splitOn_ne_nil separator rest)
        | cons first parts =>
            rcases List.mem_cons.mp hc with rfl | hrest
            · exact ⟨_, List.mem_cons_self, List.mem_cons_self⟩
            · obtain ⟨part, hpart, hmem⟩ := ih hrest
              rw [hsplit] at hpart
              rcases List.mem_cons.mp hpart with rfl | hmore
              · exact ⟨_, List.mem_cons_self, List.mem_cons_of_mem _ hmem⟩
              · exact ⟨part, List.mem_cons_of_mem _ hmore, hmem⟩

/-- A text without a separator is one part. -/
theorem splitOn_of_not {separator : Char → Bool} {part : List Char}
    (h : ∀ c ∈ part, separator c = false) : splitOn separator part = [part] := by
  induction part with
  | nil => rfl
  | cons c rest ih =>
      rw [List.forall_mem_cons] at h
      rw [splitOn, h.1, ih h.2]
      rfl

/-- A part ends at the first separator. -/
theorem splitOn_append {separator : Char → Bool} {part : List Char}
    (h : ∀ c ∈ part, separator c = false) {d : Char} (hd : separator d = true) (rest : List Char) :
    splitOn separator (part ++ d :: rest) = part :: splitOn separator rest := by
  induction part with
  | nil => rw [List.nil_append, splitOn, if_pos hd]
  | cons c more ih =>
      rw [List.forall_mem_cons] at h
      rw [List.cons_append, splitOn, h.1, ih h.2]
      rfl

/-- Parts that are joined by a separator are what stands between the separators. -/
theorem splitOn_intercalate {separator : Char → Bool} {d : Char} (hd : separator d = true)
    {parts : List (List Char)} (hne : parts ≠ [])
    (h : ∀ part ∈ parts, ∀ c ∈ part, separator c = false) :
    splitOn separator ([d].intercalate parts) = parts := by
  induction parts with
  | nil => exact absurd rfl hne
  | cons part rest ih =>
      rw [List.forall_mem_cons] at h
      cases rest with
      | nil => rw [List.intercalate_singleton, splitOn_of_not h.1]
      | cons next more =>
          rw [List.intercalate_cons_cons, List.append_assoc, List.singleton_append,
            splitOn_append h.1 hd, ih (List.cons_ne_nil next more) h.2]

/-! ## Words between blanks -/

theorem words_of_not_blank {word : List Char} (hne : word ≠ [])
    (h : ∀ c ∈ word, isBlank c = false) : words word = [word] := by
  rw [words, splitOn_of_not h, List.filter_cons_of_pos (by simp [hne]), List.filter_nil]

/-- A word ends at the first blank. -/
theorem words_append {word : List Char} (hne : word ≠ []) (h : ∀ c ∈ word, isBlank c = false)
    {d : Char} (hd : isBlank d = true) (rest : List Char) :
    words (word ++ d :: rest) = word :: words rest := by
  rw [words, splitOn_append h hd, List.filter_cons_of_pos (by simp [hne])]
  rfl

theorem words_of_blank_append {blanks : List Char} (h : blanks.all isBlank = true)
    (rest : List Char) : words (blanks ++ rest) = words rest := by
  induction blanks with
  | nil => rfl
  | cons d more ih =>
      rw [List.all_cons, Bool.and_eq_true] at h
      rw [List.cons_append, words, splitOn, if_pos h.1, List.filter_cons_of_neg (by simp)]
      exact ih h.2

/-- There is a word in every text that is not blank. -/
theorem words_ne_nil {text : List Char} {c : Char} (hc : c ∈ text) (hblank : isBlank c = false) :
    words text ≠ [] := by
  obtain ⟨part, hpart, hmem⟩ : ∃ part ∈ splitOn isBlank text, c ∈ part :=
    exists_mem_splitOn hc hblank
  refine List.ne_nil_of_mem (List.mem_filter.mpr ⟨hpart, ?_⟩)
  simp [List.ne_nil_of_mem hmem]

theorem ne_nil_of_mem_words {text word : List Char} (h : word ∈ words text) : word ≠ [] := by
  have hnot := (List.mem_filter.mp h).2
  rintro rfl
  cases hnot

theorem mem_words {text word : List Char} {c : Char} (hword : word ∈ words text) (hc : c ∈ word) :
    isBlank c = false ∧ c ∈ text :=
  mem_splitOn (List.mem_filter.mp hword).1 hc

/-! ## Trimming -/

theorem mem_of_mem_trim {skip : Char → Bool} {text : List Char} {c : Char}
    (h : c ∈ trim skip text) : c ∈ text := by
  obtain ⟨tail, htext, _⟩ := exists_trimEnd_append skip (text.dropWhile skip)
  have hdrop : c ∈ text.dropWhile skip := by
    rw [htext]
    exact List.mem_append_left _ h
  exact (List.dropWhile_sublist skip).mem hdrop

theorem isBlank_of_isAsciiWord {c : Char} (h : isAsciiWord c = true) : isBlank c = false := by
  exact of_forall_ascii (p := fun c => isAsciiWord c = true → isBlank c = false) (by decide)
    (toNat_lt_of_isAsciiWord h) h

theorem isAsciiWord_of_isBlank {c : Char} (h : isBlank c = true) : isAsciiWord c = false := by
  refine Bool.eq_false_iff.mpr fun hword => ?_
  rw [isBlank_of_isAsciiWord hword] at h
  cases h

theorem trimEnd_of_all {skip : Char → Bool} {text : List Char} (h : text.all skip = true) :
    trimEnd skip text = [] := by
  induction text with
  | nil => rfl
  | cons c rest ih =>
      rw [List.all_cons, Bool.and_eq_true] at h
      rw [trimEnd, ih h.2]
      simp only [h.1, if_true]

/-- Trimming leaves nothing of a text exactly if all of it can be skipped. -/
theorem trim_eq_nil_iff {skip : Char → Bool} {text : List Char} :
    trim skip text = [] ↔ text.all skip = true := by
  constructor
  · intro h
    obtain ⟨tail, hdrop, htail⟩ := exists_trimEnd_append skip (text.dropWhile skip)
    have hsplit : text.takeWhile skip ++ text.dropWhile skip = text :=
      List.takeWhile_append_dropWhile
    rw [trim] at h
    rw [h, List.nil_append] at hdrop
    rw [← hsplit, List.all_append, List.all_takeWhile, hdrop, htail]
    rfl
  · intro h
    have hdrop : (text ++ []).dropWhile skip = [] :=
      List.dropWhile_append_of_pos (List.all_eq_true.mp h)
    rw [List.append_nil] at hdrop
    rw [trim, hdrop]
    rfl

theorem trimEnd_append {skip : Char → Bool} {c : Char} {tail : List Char} (hc : skip c = false)
    (htail : tail.all skip = true) (front : List Char) :
    trimEnd skip (front ++ c :: tail) = front ++ [c] := by
  induction front with
  | nil => rw [List.nil_append, trimEnd_cons_of_not tail hc, trimEnd_of_all htail, List.nil_append]
  | cons d front ih =>
      rw [List.cons_append, trimEnd, ih]
      cases front <;> rfl

/-- The blanks around a text that has none at its ends are what trimming takes off. -/
theorem trim_append {skip : Char → Bool} {front text tail : List Char}
    (hfront : front.all skip = true) (htail : tail.all skip = true)
    (hhead : ∀ c ∈ text.head?, skip c = false) (hlast : ∀ c ∈ text.getLast?, skip c = false) :
    trim skip (front ++ (text ++ tail)) = text := by
  have hdrop : (front ++ (text ++ tail)).dropWhile skip = (text ++ tail).dropWhile skip :=
    List.dropWhile_append_of_pos (List.all_eq_true.mp hfront)
  rw [trim, hdrop]
  cases text with
  | nil => exact trim_eq_nil_iff.mpr htail
  | cons c rest =>
      have hc : skip c = false := hhead c rfl
      rw [List.cons_append, List.dropWhile_cons_of_neg (by simp [hc]), ← List.cons_append]
      obtain ⟨init, last, hsplit⟩ : ∃ init last, c :: rest = init ++ [last] :=
        ⟨_, _, (List.dropLast_concat_getLast (List.cons_ne_nil c rest)).symm⟩
      rw [hsplit] at hlast ⊢
      rw [List.append_assoc]
      exact trimEnd_append (hlast last List.getLast?_concat) htail init

/-- What trimming leaves starts with no character that can be skipped, and ends with none. -/
theorem head_trim (skip : Char → Bool) (text : List Char) :
    ∀ c ∈ (trim skip text).head?, skip c = false := by
  intro c hc
  rw [trim] at hc
  have hhead := List.head?_dropWhile_not skip text
  cases hdrop : text.dropWhile skip with
  | nil =>
      rw [hdrop] at hc
      cases hc
  | cons d rest =>
      rw [hdrop] at hc hhead
      have hd : skip d = false := by simpa using hhead
      rw [trimEnd_cons_of_not rest hd] at hc
      cases hc
      exact hd

theorem last_trimEnd (skip : Char → Bool) (text : List Char) :
    ∀ c ∈ (trimEnd skip text).getLast?, skip c = false := by
  induction text with
  | nil => intro c hc; cases hc
  | cons d rest ih =>
      intro c hc
      rw [trimEnd] at hc
      cases hkept : trimEnd skip rest with
      | nil =>
          rw [hkept] at hc
          by_cases hd : skip d = true
          · simp [hd] at hc
          · simp [hd] at hc
            simp [← hc, hd]
      | cons e kept =>
          rw [hkept] at hc ih
          exact ih c hc

theorem last_trim (skip : Char → Bool) (text : List Char) :
    ∀ c ∈ (trim skip text).getLast?, skip c = false :=
  last_trimEnd skip _

@[simp] theorem trim_trim (skip : Char → Bool) (text : List Char) :
    trim skip (trim skip text) = trim skip text := by
  have htrim : trim skip ([] ++ (trim skip text ++ [])) = trim skip text :=
    trim_append rfl rfl (head_trim skip text) (last_trim skip text)
  rw [List.nil_append, List.append_nil] at htrim
  exact htrim

end Text
end RecordFilter
