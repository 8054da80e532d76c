/-
Sort orders of the backends, read back.  A flat file takes the sort keys as a text and a document
database as an object from fields to 1 and -1; `BackendOptions.sortKeys?` reads either of them as
a list of keys again.

The text keeps every key in its place, because no field has a comma or a blank in it.  The object
has each field once, where it came first, with the direction that came last: `sortKeys_agree` says
so, and that the two orders are the same exactly if no field is repeated.
-/
import RecordFilter.Backend.Document
import RecordFilter.Backend.FlatFile
import RecordFilter.Proofs.Json.Members
import RecordFilter.Proofs.Text.Words

namespace RecordFilter

/-! ## Reading a sort order -/

namespace SortKey

/-- The parts of a text between commas with a space behind them. -/
def partsOf : List Char → List (List Char)
  | [] => [[]]
  | ',' :: ' ' :: rest => [] :: partsOf rest
  | c :: rest =>
      match partsOf rest with
      | [] => [[c]]
      | part :: parts => (c :: part) :: parts

/-- A key as flat files take it: what is before the first space is the field. -/
def ofText? (text : List Char) : Option SortKey :=
  let field := String.ofList (text.takeWhile (· ≠ ' '))
  let word := text.dropWhile (· ≠ ' ')
  if word = " SORT_ASC".toList then some { field, direction := .asc }
  else if word = " SORT_DESC".toList then some { field, direction := .desc }
  else none

/-- A key as document databases take it. -/
def ofMember? (member : String × Json) : Option SortKey :=
  if member.2 = .int 1 then some { field := member.1, direction := .asc }
  else if member.2 = .int (-1) then some { field := member.1, direction := .desc }
  else none

end SortKey

def SortOrder.keys? : SortOrder → Option (List SortKey)
  | .expression text => (SortKey.partsOf text.toList).mapM SortKey.ofText?
  | .document members => members.mapM SortKey.ofMember?

/-- The sort keys of options as a backend takes them; without a sort order there are none. -/
def BackendOptions.sortKeys? (o : BackendOptions) : Option (List SortKey) :=
  match o.order with
  | none => some []
  | some order => order.keys?

/-- What is written element by element is read element by element. -/
theorem mapM_map_of_forall {α β : Type} {read : β → Option α} {write : α → β} {xs : List α}
    (h : ∀ x ∈ xs, read (write x) = some x) : (xs.map write).mapM read = some xs := by
  induction xs with
  | nil => rfl
  | cons x rest ih =>
      rw [List.forall_mem_cons] at h
      rw [List.map_cons, List.mapM_cons, h.1, ih h.2]
      rfl

/-! ## The fields of sort keys -/

namespace QueryOptions

theorem mem_of_sortKey {entry : List Char} {key : SortKey} (h : sortKey entry = .ok key) {c : Char}
    (hc : c ∈ key.field.toList) : Text.isBlank c = false ∧ c ∈ entry := by
  rw [sortKey] at h
  split at h
  · cases h
    cases hc
  · rename_i field hwords
    cases h
    rw [String.toList_ofList] at hc
    exact Text.mem_words (hwords ▸ List.mem_cons_self) hc
  · rename_i field word hwords
    split at h
    · cases h
      rw [String.toList_ofList] at hc
      exact Text.mem_words (hwords ▸ List.mem_cons_self) hc
    · cases h
  · cases h

theorem exists_entry_of_sortKeys {parts : List (List Char)} {keys : List SortKey}
    (h : sortKeys parts = .ok keys) {key : SortKey} (hkey : key ∈ keys) :
    ∃ entry ∈ parts, sortKey entry = .ok key := by
  induction parts generalizing keys with
  | nil =>
      cases h
      cases hkey
  | cons entry rest ih =>
      rw [sortKeys] at h
      split at h
      · cases h
      · rename_i first hfirst
        obtain ⟨more, hmore, rfl⟩ := map_eq_ok_iff.mp h
        rcases List.mem_cons.mp hkey with rfl | hkey
        · exact ⟨entry, List.mem_cons_self, hfirst⟩
        · obtain ⟨other, hother, hread⟩ := ih hmore hkey
          exact ⟨other, List.mem_cons_of_mem _ hother, hread⟩

/-- A field to sort by has no blank in it, and no comma. -/
theorem not_blank_of_orderKeys {o : QueryOptions} {keys : List SortKey}
    (h : o.orderKeys = .ok keys) {key : SortKey} (hkey : key ∈ keys) {c : Char}
    (hc : c ∈ key.field.toList) : Text.isBlank c = false ∧ c ≠ ',' := by
  rw [orderKeys] at h
  split at h
  · cases h
    cases hkey
  · rename_i order horder
    obtain ⟨entry, hentry, hread⟩ := exists_entry_of_sortKeys h hkey
    obtain ⟨hblank, hmem⟩ := mem_of_sortKey hread hc
    rw [entries, List.mem_filter, List.mem_map] at hentry
    obtain ⟨⟨part, hpart, rfl⟩, _⟩ := hentry
    obtain ⟨hcomma, _⟩ := Text.mem_splitOn hpart (Text.mem_of_mem_trim hmem)
    exact ⟨hblank, by simpa using hcomma⟩

end QueryOptions

/-! ## The order of flat files -/

namespace FlatFile

open SortKey

theorem partsOf_cons {c : Char} (hc : c ≠ ',') (rest : List Char) :
    partsOf (c :: rest) =
      match partsOf rest with
      | [] => [[c]]
      | part :: parts => (c :: part) :: parts := by
  rw [partsOf]
  intro more h
  exact absurd h hc

theorem partsOf_of_not_mem {part : List Char} (h : ',' ∉ part) : partsOf part = [part] := by
  induction part with
  | nil => rfl
  | cons c rest ih =>
      rw [List.mem_cons, not_or] at h
      rw [partsOf_cons (Ne.symm h.1), ih h.2]

theorem partsOf_append {part : List Char} (h : ',' ∉ part) (rest : List Char) :
    partsOf (part ++ [',', ' '] ++ rest) = part :: partsOf rest := by
  induction part with
  | nil => rfl
  | cons c more ih =>
      rw [List.mem_cons, not_or] at h
      rw [List.cons_append, List.cons_append, partsOf_cons (Ne.symm h.1), ih h.2]

theorem partsOf_intercalate {parts : List (List Char)} (hne : parts ≠ [])
    (h : ∀ part ∈ parts, ',' ∉ part) : partsOf ([',', ' '].intercalate parts) = parts := by
  induction parts with
  | nil => exact absurd rfl hne
  | cons part rest ih =>
      rw [List.forall_mem_cons] at h
      cases rest with
      | nil => rw [List.intercalate_singleton, partsOf_of_not_mem h.1]
      | cons next rest =>
          rw [List.intercalate_cons_cons, partsOf_append h.1, ih (List.cons_ne_nil next rest) h.2]

theorem toList_sortKeyText (key : SortKey) :
    (sortKeyText key).toList = key.field.toList ++
      (match key.direction with
        | .asc => " SORT_ASC".toList
        | .desc => " SORT_DESC".toList) := by
  rw [sortKeyText]
  cases key.direction <;> rw [String.toList_append]

theorem ofText?_sortKeyText {key : SortKey} (h : ∀ c ∈ key.field.toList, c ≠ ' ') :
    ofText? (sortKeyText key).toList = some key := by
  have hfield : ∀ c ∈ key.field.toList, decide (c ≠ ' ') = true := by simpa using h
  rw [ofText?, toList_sortKeyText, List.takeWhile_append_of_pos hfield,
    List.dropWhile_append_of_pos hfield]
  obtain ⟨field, direction⟩ := key
  cases direction with
  | asc => simp
  | desc => simp

theorem comma_not_mem_sortKeyText {key : SortKey} (h : ∀ c ∈ key.field.toList, c ≠ ',') :
    ',' ∉ (sortKeyText key).toList := by
  rw [toList_sortKeyText, List.mem_append, not_or]
  refine ⟨fun hmem => h ',' hmem rfl, ?_⟩
  cases key.direction <;> decide

/-- The text of a sort order is read as the keys that it was written from. -/
theorem sortKeys?_options {o : QueryOptions} {keys : List SortKey} (h : o.orderKeys = .ok keys) :
    ∃ made, options o = .ok made ∧ made.sortKeys? = some keys := by
  rw [options, h]
  refine ⟨_, rfl, ?_⟩
  rw [QueryOptions.withOrder, BackendOptions.sortKeys?]
  cases keys with
  | nil => rfl
  | cons first rest =>
      have hread : ∀ key ∈ first :: rest, ofText? (sortKeyText key).toList = some key := by
        intro key hkey
        apply ofText?_sortKeyText
        rintro c hc rfl
        exact absurd (QueryOptions.not_blank_of_orderKeys h hkey hc).1 (by decide)
      have hparts : ∀ part ∈ ((first :: rest).map sortKeyText).map String.toList, ',' ∉ part := by
        intro part hpart
        rw [List.map_map, List.mem_map] at hpart
        obtain ⟨key, hkey, rfl⟩ := hpart
        exact comma_not_mem_sortKeyText fun c hc =>
          (QueryOptions.not_blank_of_orderKeys h hkey hc).2
      show (partsOf (", ".intercalate ((first :: rest).map sortKeyText)).toList).mapM ofText? = _
      rw [String.toList_intercalate]
      show (partsOf ([',', ' '].intercalate _)).mapM ofText? = _
      rw [partsOf_intercalate (by simp) hparts, List.map_map]
      exact mapM_map_of_forall hread

end FlatFile

/-! ## The order of document databases -/

namespace Document

def sortMember (key : SortKey) : String × Json :=
  (key.field, directionNumber key.direction)

theorem ofMember?_sortMember (key : SortKey) : SortKey.ofMember? (sortMember key) = some key := by
  obtain ⟨field, direction⟩ := key
  cases direction <;> rfl

theorem sortMember_injective {key other : SortKey} (h : sortMember key = sortMember other) :
    key = other := by
  have hread := congrArg SortKey.ofMember? h
  rw [ofMember?_sortMember, ofMember?_sortMember] at hread
  exact Option.some.inj hread

theorem map_fst_map_sortMember (keys : List SortKey) :
    (keys.map sortMember).map Prod.fst = keys.map SortKey.field := by
  rw [List.map_map]
  rfl

/-- The members of an object of sort keys are sort keys, a key for each field that there is. -/
theorem exists_merged (keys : List SortKey) :
    ∃ merged : List SortKey, merged.map sortMember = Json.collect (keys.map sortMember) := by
  have hall : ∀ member ∈ Json.collect (keys.map sortMember), ∃ key, sortMember key = member := by
    intro member hmember
    have hmem := List.mem_of_getLast? (Json.getLast?_of_mem_collect hmember)
    obtain ⟨key, _, hkey⟩ := List.mem_map.mp (List.mem_filter.mp hmem).1
    exact ⟨key, hkey⟩
  generalize Json.collect (keys.map sortMember) = members at hall
  induction members with
  | nil => exact ⟨[], rfl⟩
  | cons member rest ih =>
      rw [List.forall_mem_cons] at hall
      obtain ⟨key, rfl⟩ := hall.1
      obtain ⟨merged, rfl⟩ := ih hall.2
      exact ⟨key :: merged, rfl⟩

/-- The object of a sort order is read as the keys that it was made from, but each field only where
it came first, and with the direction that it came with last. -/
theorem sortKeys?_options {o : QueryOptions} {keys : List SortKey} (h : o.orderKeys = .ok keys) :
    ∃ made merged, options o = .ok made ∧ made.sortKeys? = some merged ∧
      merged.map SortKey.field = (keys.map SortKey.field).eraseDups ∧
      (∀ key ∈ merged, (keys.filter fun other => other.field = key.field).getLast? = some key) ∧
      (merged = keys ↔ (keys.map SortKey.field).Nodup) := by
  obtain ⟨merged, hmerged⟩ := exists_merged keys
  obtain ⟨made, hmade, hread⟩ : ∃ made, options o = .ok made ∧ made.sortKeys? = some merged := by
    rw [options, h]
    refine ⟨_, rfl, ?_⟩
    rw [QueryOptions.withOrder, BackendOptions.sortKeys?]
    cases keys with
    | nil =>
        rw [List.map_eq_nil_iff.mp hmerged]
        rfl
    | cons first rest =>
        show (Json.collect ((first :: rest).map sortMember)).mapM SortKey.ofMember? = _
        rw [← hmerged]
        exact mapM_map_of_forall fun key _ => ofMember?_sortMember key
  refine ⟨made, merged, hmade, hread, ?_, ?_, ?_⟩
  · rw [← map_fst_map_sortMember, hmerged, Json.map_fst_collect, map_fst_map_sortMember]
  · intro key hkey
    have hmember : sortMember key ∈ Json.collect (keys.map sortMember) := by
      rw [← hmerged]
      exact List.mem_map_of_mem hkey
    have hlast := Json.getLast?_of_mem_collect hmember
    rw [List.filter_map, List.getLast?_map, Option.map_eq_some_iff] at hlast
    obtain ⟨last, hlast, heq⟩ := hlast
    obtain rfl := sortMember_injective heq
    exact hlast
  · rw [← map_fst_map_sortMember, ← Json.collect_eq_self_iff, ← hmerged]
    exact ⟨fun heq => by rw [heq], fun heq =>
      (List.map_injective_iff.mpr fun _ _ => sortMember_injective) heq⟩

end Document

/-- Flat files sort by the keys of the query, in their order.  Document databases sort by the fields
of the keys, each in the place of its first key and in the direction of its last, which is the same
exactly if no field is repeated. -/
theorem sortKeys_agree {o : QueryOptions} {keys : List SortKey} (h : o.orderKeys = .ok keys) :
    ∃ flat document merged,
      FlatFile.options o = .ok flat ∧ flat.sortKeys? = some keys ∧
      Document.options o = .ok document ∧ document.sortKeys? = some merged ∧
      merged.map SortKey.field = (keys.map SortKey.field).eraseDups ∧
      (∀ key ∈ merged, (keys.filter fun other => other.field = key.field).getLast? = some key) ∧
      (merged = keys ↔ (keys.map SortKey.field).Nodup) := by
  obtain ⟨flat, hflat, hkeys⟩ := FlatFile.sortKeys?_options h
  obtain ⟨document, merged, hdocument, hmerged, hfields, hlast, hiff⟩ :=
    Document.sortKeys?_options h
  exact ⟨flat, document, merged, hflat, hkeys, hdocument, hmerged, hfields, hlast, hiff⟩

/-- A query for an order only. -/
def QueryOptions.ordered (order : String) : QueryOptions :=
  { order := some order, limit := none, offset := none }

def repeatedKeys : List SortKey :=
  [{ field := "x", direction := .desc }, { field := "y", direction := .asc },
    { field := "x", direction := .asc }]

theorem sortKeys_agree_of_repeated_field :
    ∃ flat document merged,
      FlatFile.options (.ordered "x desc, y, x") = .ok flat ∧ flat.sortKeys? = some repeatedKeys ∧
      Document.options (.ordered "x desc, y, x") = .ok document ∧
      document.sortKeys? = some merged ∧
      merged.map SortKey.field = (repeatedKeys.map SortKey.field).eraseDups ∧
      (∀ key ∈ merged,
        (repeatedKeys.filter fun other => other.field = key.field).getLast? = some key) ∧
      (merged = repeatedKeys ↔ (repeatedKeys.map SortKey.field).Nodup) := by
  have hkeys : (QueryOptions.ordered "x desc, y, x").orderKeys = .ok repeatedKeys := by
    decide +kernel
  exact sortKeys_agree hkeys

/-- The second key on x turns the order by the first one around. -/
theorem sortKeys_ne_of_repeated_field :
    ¬ ∀ (o : QueryOptions) (keys : List SortKey) (document : BackendOptions),
      o.orderKeys = .ok keys → Document.options o = .ok document →
        document.sortKeys? = some keys := by
  intro hall
  have hkeys : (QueryOptions.ordered "x desc, y, x").orderKeys = .ok repeatedKeys := by
    decide +kernel
  let members : List (String × Json) := [("x", .int 1), ("y", .int 1)]
  have hdocument : Document.options (.ordered "x desc, y, x") =
      .ok { order := some (.document members), limit := none, offset := none } := by
    rw [Document.options, hkeys]
    rfl
  have hread := hall _ _ _ hkeys hdocument
  have hascending : (some (.document members) : Option SortOrder).bind SortOrder.keys? =
      some [{ field := "x", direction := .asc }, { field := "y", direction := .asc }] := rfl
  rw [BackendOptions.sortKeys?] at hread
  cases hascending.symm.trans hread

end RecordFilter
