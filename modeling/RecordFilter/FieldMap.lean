/-
Maps from field names. The entries are kept in ascending order of their names (by code point), one
entry a name, and that order is the order in which everything that walks over a record meets its
fields. The functions on plain entry lists come first: a nested value holds its entries as such a
list, and `FieldMap` adds the proof that they ascend.
-/

namespace RecordFilter

variable {α β ε : Type}

namespace Entries

/-- Puts an entry at its place; an entry of the same name is replaced. -/
def insert (name : String) (x : α) : List (String × α) → List (String × α)
  | [] => [(name, x)]
  | (k, y) :: rest =>
      if name < k then (name, x) :: (k, y) :: rest
      else if name = k then (name, x) :: rest
      else (k, y) :: insert name x rest

def get? (name : String) : List (String × α) → Option α
  | [] => none
  | (k, x) :: rest => if name = k then some x else get? name rest

def erase (name : String) (entries : List (String × α)) : List (String × α) :=
  entries.filter fun entry => entry.1 ≠ name

/-- The entries of a list in ascending order. Of several entries of one name the last one stays. -/
def sort (entries : List (String × α)) : List (String × α) :=
  entries.foldl (fun sorted entry => insert entry.1 entry.2 sorted) []

/-- Every name comes before the names behind it. -/
def Ascending (entries : List (String × α)) : Prop :=
  (entries.map Prod.fst).Pairwise (· < ·)

instance (entries : List (String × α)) : Decidable (Ascending entries) :=
  inferInstanceAs (Decidable (List.Pairwise _ _))

/-- Replaces every value, unless one of the replacements fails; the first failure is the answer. -/
def traverse (f : String → α → Except ε β) :
    List (String × α) → Except ε (List (String × β))
  | [] => .ok []
  | (name, x) :: rest =>
      match f name x with
      | .error e => .error e
      | .ok y =>
          match traverse f rest with
          | .error e => .error e
          | .ok ys => .ok ((name, y) :: ys)

theorem lt_of_not_lt_of_ne {a b : String} (h : ¬ a < b) (hne : a ≠ b) : b < a := by
  have hle : b ≤ a := String.not_lt.1 h
  rcases Decidable.em (b < a) with hlt | hlt
  · exact hlt
  · exact absurd (String.le_antisymm (String.not_lt.1 hlt) hle) hne

theorem mem_map_fst_insert {name k : String} {x : α} {entries : List (String × α)}
    (h : k ∈ (insert name x entries).map Prod.fst) :
    k = name ∨ k ∈ entries.map Prod.fst := by
  induction entries with
  | nil => simpa [insert] using h
  | cons entry rest ih =>
      obtain ⟨k', y⟩ := entry
      rw [insert] at h
      split at h
      · simpa using h
      · split at h
        · simp only [List.map_cons, List.mem_cons] at h ⊢
          rcases h with h | h
          · exact Or.inl h
          · exact Or.inr (Or.inr h)
        · simp only [List.map_cons, List.mem_cons] at h ⊢
          rcases h with h | h
          · exact Or.inr (Or.inl h)
          · rcases ih h with h | h
            · exact Or.inl h
            · exact Or.inr (Or.inr h)

theorem ascending_insert (name : String) (x : α) {entries : List (String × α)}
    (h : Ascending entries) : Ascending (insert name x entries) := by
  induction entries with
  | nil => simp [insert, Ascending]
  | cons entry rest ih =>
      obtain ⟨k, y⟩ := entry
      have hcons : (∀ m ∈ rest.map Prod.fst, k < m) ∧ Ascending rest := by
        simpa only [Ascending, List.map_cons, List.pairwise_cons] using h
      rw [insert]
      split
      · rename_i hlt
        simp only [Ascending, List.map_cons, List.pairwise_cons, List.mem_cons]
        refine ⟨?_, hcons.1, hcons.2⟩
        rintro m (rfl | hm)
        · exact hlt
        · exact String.lt_trans hlt (hcons.1 m hm)
      · split
        · rename_i heq
          subst heq
          simpa only [Ascending, List.map_cons, List.pairwise_cons] using hcons
        · rename_i hlt hne
          simp only [Ascending, List.map_cons, List.pairwise_cons]
          refine ⟨fun m hm => ?_, ih hcons.2⟩
          rcases mem_map_fst_insert hm with rfl | hm
          · exact lt_of_not_lt_of_ne hlt hne
          · exact hcons.1 m hm

theorem ascending_sort (entries : List (String × α)) : Ascending (sort entries) := by
  have key : ∀ (more sorted : List (String × α)), Ascending sorted →
      Ascending (more.foldl (fun sorted entry => insert entry.1 entry.2 sorted) sorted) := by
    intro more
    induction more with
    | nil => exact fun _ h => h
    | cons entry rest ih => exact fun sorted h => ih _ (ascending_insert entry.1 entry.2 h)
  exact key entries [] List.Pairwise.nil

/-- A name that is behind all the others is put at the end. -/
theorem insert_of_forall_lt {name : String} (x : α) {entries : List (String × α)}
    (h : ∀ k ∈ entries.map Prod.fst, k < name) :
    insert name x entries = entries ++ [(name, x)] := by
  induction entries with
  | nil => rfl
  | cons entry rest ih =>
      obtain ⟨k, y⟩ := entry
      have hlt : k < name := h k List.mem_cons_self
      have hne : name ≠ k := fun heq => String.lt_irrefl k (heq ▸ hlt)
      rw [insert, if_neg (String.lt_asymm hlt), if_neg hne,
        ih fun m hm => h m (List.mem_cons_of_mem _ hm), List.cons_append]

theorem sort_of_ascending {entries : List (String × α)} (h : Ascending entries) :
    sort entries = entries := by
  have key : ∀ (more sorted : List (String × α)), Ascending (sorted ++ more) →
      more.foldl (fun sorted entry => insert entry.1 entry.2 sorted) sorted = sorted ++ more := by
    intro more
    induction more with
    | nil => exact fun sorted _ => (List.append_nil sorted).symm
    | cons entry rest ih =>
        intro sorted hascending
        have hlt : ∀ k ∈ sorted.map Prod.fst, k < entry.1 := by
          intro k hk
          rw [Ascending, List.map_append, List.pairwise_append] at hascending
          exact hascending.2.2 k hk entry.1 List.mem_cons_self
        rw [List.append_cons] at hascending ⊢
        rw [List.foldl_cons, insert_of_forall_lt entry.2 hlt, ih _ hascending]
  exact key entries [] h

theorem ascending_erase (name : String) {entries : List (String × α)} (h : Ascending entries) :
    Ascending (erase name entries) := by
  have hsub : ((erase name entries).map Prod.fst).Sublist (entries.map Prod.fst) :=
    List.Sublist.map _ List.filter_sublist
  exact List.Pairwise.sublist hsub h

theorem map_fst_traverse {f : String → α → Except ε β} {entries : List (String × α)}
    {replaced : List (String × β)} (h : traverse f entries = .ok replaced) :
    replaced.map Prod.fst = entries.map Prod.fst := by
  induction entries generalizing replaced with
  | nil =>
      rw [traverse] at h
      cases h
      rfl
  | cons entry rest ih =>
      obtain ⟨name, x⟩ := entry
      rw [traverse] at h
      split at h
      · cases h
      · split at h
        · cases h
        · rename_i ys hys
          cases h
          rw [List.map_cons, List.map_cons, ih hys]

theorem get?_insert_self (name : String) (x : α) (entries : List (String × α)) :
    get? name (insert name x entries) = some x := by
  induction entries with
  | nil => simp [insert, get?]
  | cons entry rest ih =>
      obtain ⟨k, y⟩ := entry
      rw [insert]
      split
      · simp [get?]
      · split
        · simp [get?]
        · rename_i hne
          rw [get?, if_neg hne, ih]

theorem get?_insert_ne {name other : String} (h : other ≠ name) (x : α)
    (entries : List (String × α)) : get? other (insert name x entries) = get? other entries := by
  induction entries with
  | nil => simp [insert, get?, h]
  | cons entry rest ih =>
      obtain ⟨k, y⟩ := entry
      rw [insert]
      split
      · rw [get?, if_neg h]
      · split
        · rename_i heq
          subst heq
          rw [get?, if_neg h, get?, if_neg h]
        · rw [get?, get?, ih]

end Entries

/-- A map from field names, its entries in ascending order of their names. -/
structure FieldMap (α : Type) where
  entries : List (String × α)
  ascending : Entries.Ascending entries
deriving DecidableEq

namespace FieldMap

def empty : FieldMap α :=
  { entries := [], ascending := List.Pairwise.nil }

instance : EmptyCollection (FieldMap α) := ⟨empty⟩
instance : Inhabited (FieldMap α) := ⟨empty⟩

/-- A map of the given entries; of several entries of one name the last one counts. -/
def ofList (entries : List (String × α)) : FieldMap α :=
  { entries := Entries.sort entries, ascending := Entries.ascending_sort entries }

def get? (m : FieldMap α) (name : String) : Option α :=
  Entries.get? name m.entries

def contains (m : FieldMap α) (name : String) : Bool :=
  (m.get? name).isSome

def names (m : FieldMap α) : List String :=
  m.entries.map Prod.fst

def insert (m : FieldMap α) (name : String) (x : α) : FieldMap α :=
  { entries := Entries.insert name x m.entries,
    ascending := Entries.ascending_insert name x m.ascending }

def erase (m : FieldMap α) (name : String) : FieldMap α :=
  { entries := Entries.erase name m.entries,
    ascending := Entries.ascending_erase name m.ascending }

/-- All entries of both maps; where both have one, the second map's counts. -/
def override (m more : FieldMap α) : FieldMap α :=
  more.entries.foldl (fun m entry => m.insert entry.1 entry.2) m

/-- Replaces every value, in the order of the names, unless one of the replacements fails. -/
def traverse (f : String → α → Except ε β) (m : FieldMap α) : Except ε (FieldMap β) :=
  match h : Entries.traverse f m.entries with
  | .error e => .error e
  | .ok entries =>
      .ok { entries,
            ascending := by
              rw [Entries.Ascending, Entries.map_fst_traverse h]
              exact m.ascending }

@[simp] theorem get?_insert_self (m : FieldMap α) (name : String) (x : α) :
    (m.insert name x).get? name = some x :=
  Entries.get?_insert_self name x m.entries

theorem get?_insert_ne (m : FieldMap α) {name other : String} (h : other ≠ name) (x : α) :
    (m.insert name x).get? other = m.get? other :=
  Entries.get?_insert_ne h x m.entries

end FieldMap
end RecordFilter
