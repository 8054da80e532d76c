/-
What the entries of a map have in common after it has been changed.
-/
import RecordFilter.FieldMap

namespace RecordFilter

variable {α β ε : Type}

namespace Entries

theorem mem_insert {name : String} {x : α} {entries : List (String × α)} {entry : String × α}
    (h : entry ∈ insert name x entries) : entry = (name, x) ∨ entry ∈ entries := by
  induction entries with
  | nil => exact .inl (List.mem_singleton.mp h)
  | cons first rest ih =>
      rw [insert] at h
      split at h
      · exact List.mem_cons.mp h
      · split at h
        · exact (List.mem_cons.mp h).imp_right (List.mem_cons_of_mem first)
        · cases List.mem_cons.mp h with
          | inl heq => exact .inr (heq ▸ List.mem_cons_self)
          | inr hrest => exact (ih hrest).imp_right (List.mem_cons_of_mem first)

theorem mem_of_mem_erase {name : String} {entries : List (String × α)} {entry : String × α}
    (h : entry ∈ erase name entries) : entry ∈ entries :=
  (List.mem_filter.mp h).1

theorem exists_of_mem_traverse {f : String → α → Except ε β} {entries : List (String × α)}
    {replaced : List (String × β)} (h : traverse f entries = .ok replaced) {entry : String × β}
    (hentry : entry ∈ replaced) : ∃ x, f entry.1 x = .ok entry.2 := by
  induction entries generalizing replaced with
  | nil =>
      cases h
      cases hentry
  | cons first rest ih =>
      rw [traverse] at h
      split at h
      · cases h
      · rename_i y hy
        split at h
        · cases h
        · rename_i ys hys
          cases h
          cases List.mem_cons.mp hentry with
          | inl heq => exact heq ▸ ⟨first.2, hy⟩
          | inr hrest => exact ih hys hrest

/-- Every entry of an ascending list is found under its name. -/
theorem get?_of_mem {entries : List (String × α)} (h : Ascending entries) {name : String} {x : α}
    (hmem : (name, x) ∈ entries) : get? name entries = some x := by
  induction entries with
  | nil => cases hmem
  | cons first rest ih =>
      obtain ⟨k, y⟩ := first
      rw [Ascending, List.map_cons, List.pairwise_cons] at h
      cases List.mem_cons.mp hmem with
      | inl heq =>
          cases heq
          rw [get?, if_pos rfl]
      | inr hrest =>
          have hlt : k < name := h.1 name (List.mem_map_of_mem (f := Prod.fst) hrest)
          have hne : name ≠ k := by
            rintro rfl
            exact String.lt_irrefl name hlt
          rw [get?, if_neg hne, ih h.2 hrest]

theorem mem_of_get? {entries : List (String × α)} {name : String} {x : α}
    (h : get? name entries = some x) : (name, x) ∈ entries := by
  induction entries with
  | nil => cases h
  | cons first rest ih =>
      obtain ⟨k, y⟩ := first
      rw [get?] at h
      split at h
      · rename_i heq
        cases h
        rw [heq]
        exact List.mem_cons_self
      · exact List.mem_cons_of_mem _ (ih h)

/-- A name that is not there is one that no entry has. -/
theorem get?_eq_none_iff {entries : List (String × α)} {name : String} :
    get? name entries = none ↔ name ∉ entries.map Prod.fst := by
  induction entries with
  | nil => simp [get?]
  | cons first rest ih =>
      obtain ⟨k, x⟩ := first
      rw [get?, List.map_cons, List.mem_cons, not_or]
      split
      · rename_i heq
        simp [heq]
      · rename_i hne
        rw [ih, and_iff_right hne]

/-- A replacement is found under the name of the entry that it replaces. -/
theorem get?_traverse {f : String → α → Except ε β} {entries : List (String × α)}
    {replaced : List (String × β)} (h : traverse f entries = .ok replaced) (name : String) :
    (get? name entries).elim (.ok none) (fun x => (f name x).map some) =
      .ok (get? name replaced) := by
  induction entries generalizing replaced with
  | nil =>
      cases h
      rfl
  | cons first rest ih =>
      obtain ⟨k, x⟩ := first
      rw [traverse] at h
      split at h
      · cases h
      · rename_i y hy
        split at h
        · cases h
        · rename_i ys hys
          cases h
          rw [get?, get?]
          split
          · rename_i heq
            rw [heq, Option.elim_some, hy]
            rfl
          · exact ih hys

/-- The replacement that fails is the first one that does. -/
theorem exists_of_traverse_error {f : String → α → Except ε β} {entries : List (String × α)} {e : ε}
    (h : traverse f entries = .error e) :
    ∃ front name x back, entries = front ++ (name, x) :: back ∧ f name x = .error e ∧
      ∀ entry ∈ front, ∃ y, f entry.1 entry.2 = .ok y := by
  induction entries with
  | nil => cases h
  | cons first rest ih =>
      obtain ⟨k, x⟩ := first
      rw [traverse] at h
      split at h
      · rename_i hx
        cases h
        exact ⟨[], k, x, rest, rfl, hx, List.forall_mem_nil _⟩
      · rename_i y hy
        split at h
        · rename_i hrest
          cases h
          obtain ⟨front, name, x', back, hsplit, hx', hfront⟩ := ih hrest
          refine ⟨(k, x) :: front, name, x', back, congrArg (_ :: ·) hsplit, hx', ?_⟩
          exact List.forall_mem_cons.mpr ⟨⟨y, hy⟩, hfront⟩
        · cases h

/-- A traversal that replaces nothing. -/
theorem traverse_eq_self {f : String → α → Except ε α} {entries : List (String × α)}
    (h : ∀ entry ∈ entries, f entry.1 entry.2 = .ok entry.2) : traverse f entries = .ok entries := by
  induction entries with
  | nil => rfl
  | cons first rest ih =>
      rw [List.forall_mem_cons] at h
      rw [traverse, h.1, ih h.2]

theorem eq_self_of_traverse {f : String → α → Except ε α}
    (hf : ∀ name x y, f name x = .ok y → y = x) {entries replaced : List (String × α)}
    (h : traverse f entries = .ok replaced) : replaced = entries := by
  induction entries generalizing replaced with
  | nil =>
      cases h
      rfl
  | cons first rest ih =>
      rw [traverse] at h
      split at h
      · cases h
      · rename_i y hy
        split at h
        · cases h
        · rename_i ys hys
          cases h
          rw [hf _ _ _ hy, ih hys]

end Entries

namespace FieldMap

/-- Every entry has a property. -/
def Forall (P : String → α → Prop) (m : FieldMap α) : Prop :=
  ∀ entry ∈ m.entries, P entry.1 entry.2

instance (P : String → α → Prop) [∀ name x, Decidable (P name x)] (m : FieldMap α) :
    Decidable (m.Forall P) :=
  inferInstanceAs (Decidable (∀ entry ∈ m.entries, P entry.1 entry.2))

variable {P : String → α → Prop}

theorem Forall.insert {m : FieldMap α} (h : m.Forall P) {name : String} {x : α} (hx : P name x) :
    (m.insert name x).Forall P := by
  intro entry hentry
  cases Entries.mem_insert hentry with
  | inl heq => exact heq ▸ hx
  | inr hmem => exact h entry hmem

theorem Forall.erase {m : FieldMap α} (h : m.Forall P) (name : String) :
    (m.erase name).Forall P := by
  intro entry hentry
  exact h entry (Entries.mem_of_mem_erase hentry)

/-- What a replacement always has, every entry of a map of replacements has. -/
theorem forall_of_traverse {f : String → β → Except ε α} {m : FieldMap β} {replaced : FieldMap α}
    (h : m.traverse f = .ok replaced) (hf : ∀ name x y, f name x = .ok y → P name y) :
    replaced.Forall P := by
  rw [traverse] at h
  split at h
  · cases h
  · rename_i entries hentries
    cases h
    intro entry hentry
    obtain ⟨x, hx⟩ := Entries.exists_of_mem_traverse hentries hentry
    exact hf entry.1 x entry.2 hx

theorem traverse_eq_self {f : String → α → Except ε α} {m : FieldMap α}
    (h : m.Forall fun name x => f name x = .ok x) : m.traverse f = .ok m := by
  have hentries := Entries.traverse_eq_self h
  rw [traverse]
  split
  · rename_i herror
    cases hentries.symm.trans herror
  · rename_i entries hok
    cases hentries.symm.trans hok
    rfl

theorem eq_self_of_traverse {f : String → α → Except ε α}
    (hf : ∀ name x y, f name x = .ok y → y = x) {m replaced : FieldMap α}
    (h : m.traverse f = .ok replaced) : replaced = m := by
  rw [traverse] at h
  split at h
  · cases h
  · rename_i entries hentries
    cases h
    rw [mk.injEq]
    exact Entries.eq_self_of_traverse hf hentries

theorem get?_of_traverse {f : String → β → Except ε α} {m : FieldMap β} {replaced : FieldMap α}
    (h : m.traverse f = .ok replaced) (name : String) :
    (m.get? name).elim (.ok none) (fun x => (f name x).map some) = .ok (replaced.get? name) := by
  rw [traverse] at h
  split at h
  · cases h
  · rename_i entries hentries
    cases h
    exact Entries.get?_traverse hentries name

/-- The error of a traversal is that of the entry with the least name that cannot be replaced. -/
theorem exists_of_traverse_error {f : String → β → Except ε α} {m : FieldMap β} {e : ε}
    (h : m.traverse f = .error e) :
    ∃ name x, m.get? name = some x ∧ f name x = .error e ∧
      ∀ other, other < name → ∀ y, m.get? other = some y → ∃ z, f other y = .ok z := by
  rw [traverse] at h
  split at h
  · rename_i hentries
    cases h
    obtain ⟨front, name, x, back, hsplit, hx, hfront⟩ := Entries.exists_of_traverse_error hentries
    have hmem : (name, x) ∈ m.entries := by
      rw [hsplit]
      exact List.mem_append_right front List.mem_cons_self
    refine ⟨name, x, Entries.get?_of_mem m.ascending hmem, hx, ?_⟩
    intro other hlt y hy
    have hother := Entries.mem_of_get? hy
    rw [hsplit, List.mem_append, List.mem_cons] at hother
    -- The names from the failing one on are not less than it.
    have hback : ∀ entry ∈ back, name < entry.1 := by
      have hascending := m.ascending
      rw [hsplit, Entries.Ascending, List.map_append, List.map_cons, List.pairwise_append,
        List.pairwise_cons] at hascending
      intro entry hentry
      exact hascending.2.1.1 entry.1 (List.mem_map_of_mem (f := Prod.fst) hentry)
    rcases hother with hmemFront | heq | hmemBack
    · exact hfront (other, y) hmemFront
    · cases heq
      exact absurd hlt (String.lt_irrefl _)
    · exact absurd (hback _ hmemBack) (String.lt_asymm hlt)
  · cases h

/-- A field of the map that is put over another one, or else of that one. -/
theorem get?_override (m more : FieldMap α) (name : String) :
    (m.override more).get? name = (more.get? name).or (m.get? name) := by
  have hfold : ∀ (entries : List (String × α)) (m : FieldMap α), Entries.Ascending entries →
      (entries.foldl (fun m entry => m.insert entry.1 entry.2) m).get? name =
        (Entries.get? name entries).or (m.get? name) := by
    intro entries
    induction entries with
    | nil => exact fun _ _ => rfl
    | cons first rest ih =>
        intro m hascending
        obtain ⟨k, x⟩ := first
        rw [Entries.Ascending, List.map_cons, List.pairwise_cons] at hascending
        rw [List.foldl_cons, ih _ hascending.2, Entries.get?]
        split
        · rename_i heq
          subst heq
          -- No entry behind this one has its name.
          have hnone : Entries.get? name rest = none := by
            rw [Option.eq_none_iff_forall_ne_some]
            intro y hy
            have hmem := List.mem_map_of_mem (f := Prod.fst) (Entries.mem_of_get? hy)
            exact String.lt_irrefl name (hascending.1 name hmem)
          rw [hnone, get?_insert_self]
          rfl
        · rename_i hne
          rw [get?_insert_ne m hne]
  exact hfold more.entries m more.ascending

end FieldMap
end RecordFilter
