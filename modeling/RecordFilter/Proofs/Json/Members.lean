/-
Members put into an object one after the other.  A member that is put in again keeps its place and
takes the new value, so an object has each name once, where the name came first, with the value that
came last.  It holds the members as they were given exactly if no name is given twice.
-/
import Mathlib.Data.List.Induction
import Mathlib.Data.List.Nodup
import RecordFilter.Json.Basic

namespace RecordFilter
namespace Json

variable {name : String} {members : List (String × Json)}

/-! ## One member -/

theorem putMember_of_not_mem (h : name ∉ members.map Prod.fst) (value : Json) :
    putMember name value members = members ++ [(name, value)] := by
  induction members with
  | nil => rfl
  | cons member rest ih =>
      obtain ⟨k, v⟩ := member
      rw [List.map_cons, List.mem_cons, not_or] at h
      rw [putMember, if_neg (Ne.symm h.1), ih h.2, List.cons_append]

theorem map_fst_putMember_of_mem (h : name ∈ members.map Prod.fst) (value : Json) :
    (putMember name value members).map Prod.fst = members.map Prod.fst := by
  induction members with
  | nil => cases h
  | cons member rest ih =>
      obtain ⟨k, v⟩ := member
      rw [putMember]
      by_cases hk : k = name
      · rw [if_pos hk, List.map_cons, List.map_cons]
      · have hrest : name ∈ rest.map Prod.fst := by
          rw [List.map_cons, List.mem_cons] at h
          exact h.resolve_left (Ne.symm hk)
        rw [if_neg hk, List.map_cons, List.map_cons, ih hrest]

/-- What is in an object after a member is put in: that member, and the others of other names. -/
theorem mem_putMember (hnodup : (members.map Prod.fst).Nodup) {value : Json}
    {member : String × Json} (h : member ∈ putMember name value members) :
    member = (name, value) ∨ member ∈ members ∧ member.1 ≠ name := by
  induction members with
  | nil =>
      rw [putMember, List.mem_singleton] at h
      exact Or.inl h
  | cons first rest ih =>
      obtain ⟨k, v⟩ := first
      rw [List.map_cons, List.nodup_cons] at hnodup
      rw [putMember] at h
      by_cases hk : k = name
      · subst hk
        rw [if_pos rfl, List.mem_cons] at h
        rcases h with h | h
        · exact Or.inl h
        · refine Or.inr ⟨List.mem_cons_of_mem _ h, ?_⟩
          intro heq
          apply hnodup.1
          show k ∈ rest.map Prod.fst
          rw [← heq]
          exact List.mem_map_of_mem h
      · rw [if_neg hk, List.mem_cons] at h
        rcases h with rfl | h
        · exact Or.inr ⟨List.mem_cons_self, hk⟩
        · rcases ih hnodup.2 h with h | ⟨hmem, hne⟩
          · exact Or.inl h
          · exact Or.inr ⟨List.mem_cons_of_mem _ hmem, hne⟩

/-! ## All members -/

theorem collect_concat (members : List (String × Json)) (member : String × Json) :
    collect (members ++ [member]) = putMember member.1 member.2 (collect members) := by
  rw [collect, List.foldl_append]
  rfl

/-- The names of an object, in the order in which each was first put in. -/
theorem map_fst_collect (members : List (String × Json)) :
    (collect members).map Prod.fst = (members.map Prod.fst).eraseDups := by
  induction members using List.reverseRecOn with
  | nil => rfl
  | append_singleton front member ih =>
      rw [collect_concat, List.map_append, List.eraseDups_append, ← ih]
      by_cases h : member.1 ∈ (collect front).map Prod.fst
      · have hfront : member.1 ∈ front.map Prod.fst := by
          rw [ih, List.mem_eraseDups] at h
          exact h
        have hnone : [member.1].removeAll (front.map Prod.fst) = [] := by
          simp only [List.removeAll, List.filter_singleton, List.elem_eq_mem, hfront, decide_true]
          rfl
        rw [map_fst_putMember_of_mem h, List.map_singleton, hnone, List.eraseDups_nil,
          List.append_nil]
      · have hfront : member.1 ∉ front.map Prod.fst := by
          rw [ih, List.mem_eraseDups] at h
          exact h
        have hsome : [member.1].removeAll (front.map Prod.fst) = [member.1] := by
          simp only [List.removeAll, List.filter_singleton, List.elem_eq_mem, hfront, decide_false]
          rfl
        rw [putMember_of_not_mem h, List.map_append, List.map_singleton, hsome]
        rfl

theorem nodup_collect (members : List (String × Json)) :
    ((collect members).map Prod.fst).Nodup := by
  induction members using List.reverseRecOn with
  | nil => exact List.nodup_nil
  | append_singleton front member ih =>
      rw [collect_concat]
      by_cases h : member.1 ∈ (collect front).map Prod.fst
      · rw [map_fst_putMember_of_mem h]
        exact ih
      · rw [putMember_of_not_mem h, List.map_append, List.map_singleton, List.nodup_append_comm,
          List.singleton_append, List.nodup_cons]
        exact ⟨h, ih⟩

/-- A member of an object is the last one of its name that was put in. -/
theorem getLast?_of_mem_collect {members : List (String × Json)} {member : String × Json}
    (h : member ∈ collect members) :
    (members.filter fun other => other.1 = member.1).getLast? = some member := by
  induction members using List.reverseRecOn with
  | nil => cases h
  | append_singleton front last ih =>
      rw [collect_concat] at h
      rw [List.filter_append]
      rcases mem_putMember (nodup_collect front) h with rfl | ⟨hmem, hne⟩
      · simp
      · have hlast : [last].filter (fun other => other.1 = member.1) = [] := by
          simp [Ne.symm hne]
        rw [hlast, List.append_nil]
        exact ih hmem

theorem collect_eq_self_iff : collect members = members ↔ (members.map Prod.fst).Nodup := by
  constructor
  · intro h
    rw [← h]
    exact nodup_collect members
  · intro h
    induction members using List.reverseRecOn with
    | nil => rfl
    | append_singleton front member ih =>
        rw [List.map_append, List.map_singleton, List.nodup_append_comm, List.singleton_append,
          List.nodup_cons] at h
        rw [collect_concat, ih h.2, putMember_of_not_mem h.1]

end Json
end RecordFilter
