/-
Sort orders in one form.  Many texts list the same sort keys: the words may be apart by any blanks,
and a direction may be written in any case or, if it is ascending, not at all.  `orderText` is one
of them, each key with its direction, and `canonical_order` says that it can take the place of every
order that can be read.
-/
import RecordFilter.Proofs.Query.SortKeys

namespace RecordFilter

open Text

/-! ## Directions -/

namespace Direction

def word : Direction → List Char
  | .asc => ['a', 's', 'c']
  | .desc => ['d', 'e', 's', 'c']

/-- A direction can be written in any case. -/
theorem ofWord?_of_sameLetters {written : List Char} {direction : Direction}
    (h : sameLetters written direction.word = true) : ofWord? written = some direction := by
  cases direction with
  | asc => exact if_pos h
  | desc =>
      have hasc : sameLetters written ['a', 's', 'c'] = false := by
        rw [sameLetters, beq_iff_eq] at h
        rw [sameLetters, h]
        decide
      rw [ofWord?, hasc]
      exact if_pos h

theorem all_word_of_sameLetters {written : List Char} {direction : Direction}
    (h : sameLetters written direction.word = true) : written.all isAsciiWord = true := by
  refine Text.all_word_of_sameLetters h ?_
  cases direction <;> decide

theorem ne_nil_of_sameLetters {written : List Char} {direction : Direction}
    (h : sameLetters written direction.word = true) : written ≠ [] := by
  rintro rfl
  cases direction <;> cases h

end Direction

/-! ## Keys and their texts -/

namespace SortKey

/-- The field can be named in an order. -/
def Nameable (key : SortKey) : Prop :=
  key.field ≠ "" ∧ ∀ c ∈ key.field.toList, isBlank c = false ∧ c ≠ ','

/-- The field and the direction, with a space between them. -/
def text (key : SortKey) : String :=
  key.field ++ " " ++ String.ofList key.direction.word

def orderText (keys : List SortKey) : String :=
  ", ".intercalate (keys.map text)

/-- An entry that names the field and the direction, which is written in any case, with blanks
between them, and maybe more blanks around. -/
inductive Spelled (key : SortKey) : List Char → Prop
  | words {front gap written back : List Char} (hfront : front.all isBlank = true)
      (hgap : gap.all isBlank = true) (hne : gap ≠ [])
      (hwritten : sameLetters written key.direction.word = true)
      (hback : back.all isBlank = true) :
      Spelled key (front ++ ((key.field.toList ++ (gap ++ written)) ++ back))

/-- An order in which the keys are spelled one after the other, with commas between them. -/
def Lists (order : String) (keys : List SortKey) : Prop :=
  ∃ parts, List.Forall₂ Spelled keys parts ∧ order.toList = [','].intercalate parts

variable {key : SortKey} {keys : List SortKey}

theorem Nameable.ne_nil (h : key.Nameable) : key.field.toList ≠ [] := by
  intro hnil
  exact h.1 (String.toList_eq_nil_iff.mp hnil)

/-! ## Reading a spelled order -/

theorem sortKey_of_words (h : key.Nameable) {gap written : List Char}
    (hgap : gap.all isBlank = true) (hne : gap ≠ [])
    (hwritten : sameLetters written key.direction.word = true) :
    QueryOptions.sortKey (key.field.toList ++ (gap ++ written)) = .ok key := by
  have hnotBlank : ∀ c ∈ written, isBlank c = false := fun c hc =>
    isBlank_of_isAsciiWord (List.all_eq_true.mp (Direction.all_word_of_sameLetters hwritten) c hc)
  have hwords : words (key.field.toList ++ (gap ++ written)) = [key.field.toList, written] := by
    obtain ⟨d, more, rfl⟩ := List.exists_cons_of_ne_nil hne
    rw [List.all_cons, Bool.and_eq_true] at hgap
    rw [List.cons_append, words_append h.ne_nil (fun c hc => (h.2 c hc).1) hgap.1,
      words_of_blank_append hgap.2,
      words_of_not_blank (Direction.ne_nil_of_sameLetters hwritten) hnotBlank]
  rw [QueryOptions.sortKey, hwords]
  simp only [Direction.ofWord?_of_sameLetters hwritten, String.ofList_toList]

/-- What trimming leaves of the spelling of a key is read as the key. -/
theorem Spelled.trim (h : key.Nameable) {part : List Char} (hpart : key.Spelled part) :
    trim isBlank part ≠ [] ∧ QueryOptions.sortKey (Text.trim isBlank part) = .ok key := by
  obtain ⟨hfront, hgap, hne, hwritten, hback⟩ := hpart
  rename_i front gap written back
  have hwrittenNe := Direction.ne_nil_of_sameLetters hwritten
  have htrim : Text.trim isBlank (front ++ ((key.field.toList ++ (gap ++ written)) ++ back)) =
      key.field.toList ++ (gap ++ written) := by
    refine trim_append hfront hback ?_ ?_
    · intro c hc
      rw [List.head?_append_of_ne_nil _ h.ne_nil] at hc
      exact (h.2 c (List.mem_of_head? hc)).1
    · intro c hc
      rw [← List.append_assoc, List.getLast?_append_of_ne_nil _ hwrittenNe] at hc
      have hall := Direction.all_word_of_sameLetters hwritten
      exact isBlank_of_isAsciiWord (List.all_eq_true.mp hall c (List.mem_of_getLast? hc))
  rw [htrim]
  exact ⟨by simp [h.ne_nil], sortKey_of_words h hgap hne hwritten⟩

/-- No comma stands in the spelling of a key. -/
theorem Spelled.not_comma (h : key.Nameable) {part : List Char} (hpart : key.Spelled part) :
    ∀ c ∈ part, (c == ',') = false := by
  obtain ⟨hfront, hgap, _, hwritten, hback⟩ := hpart
  have hblank : ∀ {blanks : List Char}, blanks.all isBlank = true → ∀ c ∈ blanks, c ≠ ',' :=
    fun hall c hc => ne_of_class (p := isBlank) (by decide) (List.all_eq_true.mp hall c hc)
  have hword := Direction.all_word_of_sameLetters hwritten
  intro c hc
  rw [beq_eq_false_iff_ne]
  simp only [List.mem_append] at hc
  rcases hc with hc | (hc | hc | hc) | hc
  · exact hblank hfront c hc
  · exact (h.2 c hc).2
  · exact hblank hgap c hc
  · exact ne_of_class (p := isAsciiWord) (by decide) (List.all_eq_true.mp hword c hc)
  · exact hblank hback c hc

theorem not_comma_of_spelled (h : ∀ key ∈ keys, key.Nameable) {parts : List (List Char)}
    (hparts : List.Forall₂ Spelled keys parts) : ∀ part ∈ parts, ∀ c ∈ part, (c == ',') = false := by
  induction hparts with
  | nil => exact List.forall_mem_nil _
  | cons hpart _ ih =>
      rw [List.forall_mem_cons] at h
      exact List.forall_mem_cons.mpr ⟨hpart.not_comma h.1, ih h.2⟩

theorem sortKeys_of_spelled (h : ∀ key ∈ keys, key.Nameable) {parts : List (List Char)}
    (hparts : List.Forall₂ Spelled keys parts) :
    QueryOptions.sortKeys ((parts.map (trim isBlank)).filter fun e => !e.isEmpty) = .ok keys := by
  induction hparts with
  | nil => rfl
  | cons hpart _ ih =>
      rw [List.forall_mem_cons] at h
      obtain ⟨hne, hkey⟩ := hpart.trim h.1
      rw [List.map_cons, List.filter_cons_of_pos (by simp [hne]), QueryOptions.sortKeys, hkey,
        ih h.2]
      rfl

/-- An order that lists keys is read as these keys. -/
theorem sortKeys_of_lists (h : ∀ key ∈ keys, key.Nameable) {order : String}
    (horder : Lists order keys) :
    QueryOptions.sortKeys (QueryOptions.entries order.toList) = .ok keys := by
  obtain ⟨parts, hparts, htext⟩ := horder
  rw [QueryOptions.entries, htext]
  cases parts with
  | nil =>
      cases hparts
      rfl
  | cons part more =>
      have hsplit : splitOn (· == ',') ([','].intercalate (part :: more)) = part :: more :=
        splitOn_intercalate rfl (List.cons_ne_nil part more) (not_comma_of_spelled h hparts)
      rw [hsplit, sortKeys_of_spelled h hparts]

/-! ## The text of keys -/

theorem toList_text (key : SortKey) :
    key.text.toList = key.field.toList ++ ([' '] ++ key.direction.word) := by
  simp only [text, String.toList_append, String.toList_ofList, List.append_assoc]
  rfl

/-- The text of a key behind blanks. -/
theorem spelled_text (key : SortKey) {front : List Char} (hfront : front.all isBlank = true) :
    key.Spelled (front ++ key.text.toList) := by
  have hwritten : sameLetters key.direction.word key.direction.word = true := beq_self_eq_true _
  have h : key.Spelled (front ++ ((key.field.toList ++ ([' '] ++ key.direction.word)) ++ [])) :=
    .words hfront (by decide) (List.cons_ne_nil _ _) hwritten rfl
  rw [List.append_nil, ← toList_text] at h
  exact h

theorem intercalate_comma_space (first : List Char) (rest : List (List Char)) :
    [',', ' '].intercalate (first :: rest) = [','].intercalate (first :: rest.map ([' '] ++ ·)) := by
  induction rest generalizing first with
  | nil => rfl
  | cons next more ih =>
      rw [List.intercalate_cons_cons, ih, List.map_cons, List.intercalate_cons_cons]
      cases more with
      | nil => simp
      | cons => simp [List.intercalate_cons_cons]

theorem lists_orderText (keys : List SortKey) : Lists (orderText keys) keys := by
  cases keys with
  | nil => exact ⟨[], .nil, rfl⟩
  | cons first rest =>
      refine ⟨first.text.toList :: rest.map fun key => [' '] ++ key.text.toList, ?_, ?_⟩
      · have hfirst : first.Spelled ([] ++ first.text.toList) := spelled_text first rfl
        refine .cons hfirst ?_
        rw [List.forall₂_map_right_iff, List.forall₂_same]
        exact fun key _ => spelled_text key (by decide)
      · rw [orderText, String.toList_intercalate]
        show [',', ' '].intercalate (((first :: rest).map text).map String.toList) = _
        rw [List.map_cons, List.map_cons, intercalate_comma_space, List.map_map, List.map_map]
        rfl

end SortKey

namespace QueryOptions

/-! ## Orders that can be read -/

theorem field_ne_empty_of_sortKey {entry : List Char} {key : SortKey}
    (h : sortKey entry = .ok key) (hwords : words entry ≠ []) : key.field ≠ "" := by
  have hfield : ∀ {field : List Char}, field ∈ words entry → String.ofList field ≠ "" := by
    intro field hmem hempty
    exact ne_nil_of_mem_words hmem (String.ofList_eq_empty_iff.mp hempty)
  rw [sortKey] at h
  split at h
  · rename_i hnil
    exact absurd hnil hwords
  · rename_i field heq
    cases h
    exact hfield (heq ▸ List.mem_cons_self)
  · rename_i field word heq
    split at h
    · cases h
      exact hfield (heq ▸ List.mem_cons_self)
    · cases h
  · cases h

/-- Every key of an order can be named in one. -/
theorem nameable_of_orderKeys {o : QueryOptions} {keys : List SortKey} (h : o.orderKeys = .ok keys)
    {key : SortKey} (hkey : key ∈ keys) : key.Nameable := by
  refine ⟨?_, fun c hc => not_blank_of_orderKeys h hkey hc⟩
  rw [orderKeys] at h
  split at h
  · cases h
    cases hkey
  · rename_i order horder
    obtain ⟨entry, hentry, hread⟩ := exists_entry_of_sortKeys h hkey
    rw [entries, List.mem_filter, List.mem_map] at hentry
    obtain ⟨⟨part, _, rfl⟩, hne⟩ := hentry
    obtain ⟨c, rest, htrim⟩ := List.exists_cons_of_ne_nil (l := trim isBlank part) (by simpa using hne)
    have hhead : isBlank c = false := head_trim isBlank part c (by rw [htrim]; rfl)
    exact field_ne_empty_of_sortKey hread
      (words_ne_nil (by rw [htrim]; exact List.mem_cons_self) hhead)

/-- The text of the keys of an order is read as these keys again, and each of them has a field that
can be named.  All keys with such fields are read from their text, and from every other order that
lists them. -/
theorem canonical_order (o : QueryOptions) :
    (∀ (order : String) (keys : List SortKey), { o with order := some order }.orderKeys = .ok keys →
        (∀ key ∈ keys, key.Nameable) ∧
          { o with order := some (SortKey.orderText keys) }.orderKeys = .ok keys) ∧
      ∀ keys : List SortKey, (∀ key ∈ keys, key.Nameable) →
        { o with order := some (SortKey.orderText keys) }.orderKeys = .ok keys ∧
          ∀ order, SortKey.Lists order keys → { o with order := some order }.orderKeys = .ok keys := by
  have hlists : ∀ (keys : List SortKey), (∀ key ∈ keys, key.Nameable) → ∀ order,
      SortKey.Lists order keys → { o with order := some order }.orderKeys = .ok keys :=
    fun keys h order horder => SortKey.sortKeys_of_lists h horder
  refine ⟨fun order keys h => ?_, fun keys h => ⟨?_, hlists keys h⟩⟩
  · have hkeys : ∀ key ∈ keys, key.Nameable := fun key hkey => nameable_of_orderKeys h hkey
    exact ⟨hkeys, hlists keys hkeys _ (SortKey.lists_orderText keys)⟩
  · exact hlists keys h _ (SortKey.lists_orderText keys)

/-- A field that is called like a direction. -/
def directedKeys : List SortKey :=
  [{ field := "desc", direction := .asc }, { field := "x", direction := .desc }]

theorem canonical_order_of_directed :
    (ordered "desc, x DESC").orderKeys = .ok directedKeys ∧
      (ordered "desc asc, x desc").orderKeys = .ok directedKeys ∧
      SortKey.Lists "desc\taSc,x desc " directedKeys ∧
      (ordered "desc\taSc,x desc ").orderKeys = .ok directedKeys := by
  have hread : (ordered "desc, x DESC").orderKeys = .ok directedKeys := by decide +kernel
  have hlists : SortKey.Lists "desc\taSc,x desc " directedKeys := by
    have hfirst : SortKey.Spelled { field := "desc", direction := .asc }
        ([] ++ (("desc".toList ++ (['\t'] ++ ['a', 'S', 'c'])) ++ [])) :=
      .words rfl (by decide) (by decide) (by decide) rfl
    have hsecond : SortKey.Spelled { field := "x", direction := .desc }
        ([] ++ (("x".toList ++ ([' '] ++ ['d', 'e', 's', 'c'])) ++ [' '])) :=
      .words rfl (by decide) (by decide) (by decide) (by decide)
    exact ⟨["desc\taSc".toList, "x desc ".toList], .cons hfirst (.cons hsecond .nil), rfl⟩
  obtain ⟨haccepted, hlisted⟩ := canonical_order (ordered "")
  obtain ⟨hnameable, hcanonical⟩ := haccepted "desc, x DESC" directedKeys hread
  exact ⟨hread, hcanonical, hlists, (hlisted directedKeys hnameable).2 _ hlists⟩

end QueryOptions
end RecordFilter
