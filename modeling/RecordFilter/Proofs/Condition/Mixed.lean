/-
Levels of a condition that mix the keywords.  How their operands belong together cannot be told, so
each of them is taken as one conjunction and reported.  `mixed_levels_reported` says that the reports
are exact: there is one for each level with both keywords, and none for any other, and they come in the
order in which the levels close.
-/
import RecordFilter.Proofs.Condition.Unbalanced
import RecordFilter.Proofs.Grouping.Mixed

namespace RecordFilter

namespace Template

open Text

theorem Spans.stop_le {left middle right : List Char} {token : Token}
    (h : Spans left middle right token) : token.stop ≤ byteLength (left ++ (middle ++ right)) := by
  rw [byteLength_append, byteLength_append]
  cases h with
  | delimiter h =>
      show byteLength left + byteLength middle ≤ _
      omega
  | @fragment lead kept _ htrims =>
      obtain ⟨trail, htext, _⟩ := htrims.text_eq
      rw [htext, byteLength_append, byteLength_append]
      show byteLength left + byteLength lead + byteLength kept ≤ _
      omega

/-- Tokens start one behind the other, and inside of the template. -/
theorem starts_of_tokens {template : List Char} {toks : List Token}
    (h : tokens template = .ok toks) :
    (toks.Pairwise fun a b => a.start < b.start) ∧
      ∀ token ∈ toks, token.start < byteLength template := by
  obtain ⟨hclosed, rfl⟩ := closed_of_tokens h
  have hproper := placed_proper hclosed
  refine ⟨(placed_ordered template).imp_of_mem fun ha _ hle => ?_, fun token htoken => ?_⟩
  · exact Nat.lt_of_lt_of_le (hproper _ ha) hle
  · obtain ⟨left, middle, right, htext, hspans⟩ := (mem_placed hclosed token).mp htoken
    rw [htext]
    exact Nat.lt_of_lt_of_le hspans.start_lt_stop hspans.stop_le

end Template

namespace Condition

open Text Template Grouping

variable {c : Condition} {toks : List Token} {items : List Item}

theorem mixed_of_resolve (htokens : tokens c.template.toList = .ok toks) (hne : toks ≠ [])
    (hcount : countPlaceholders c.template.toList toks = .ok c.values.length)
    (hitems : resolve c.template.toList toks c.values = .ok items) :
    c.read.mixed = (group c.template items).mixed := by
  rw [read, items?_of_counted htokens hne hcount, hitems]
  rfl

/-- The outermost level of a condition. -/
def outermost (c : Condition) (parts : List Part) : Site :=
  { opening := none, closing := byteLength c.template.toList, parts }

/-- No two levels close at the same place, and the outermost one is the last. -/
theorem closing_ordered {parts : List Part} {groups : List Site}
    (htokens : tokens c.template.toList = .ok toks)
    (hclosings : groups.map Site.closing =
      (toks.filter fun token => token.kind = .closeParen).map Token.start) :
    (groups ++ [c.outermost parts]).Pairwise fun a b => a.closing < b.closing := by
  obtain ⟨hordered, hinside⟩ := starts_of_tokens htokens
  rw [List.pairwise_append]
  refine ⟨?_, List.pairwise_singleton _ _, fun site hsite last hlast => ?_⟩
  · have hstarts : (groups.map Site.closing).Pairwise (· < ·) := by
      rw [hclosings, List.pairwise_map]
      exact hordered.sublist List.filter_sublist
    exact List.pairwise_map.mp hstarts
  · rw [List.mem_singleton.mp hlast]
    have hmem : site.closing ∈ groups.map Site.closing := List.mem_map_of_mem hsite
    rw [hclosings] at hmem
    obtain ⟨token, htoken, hstart⟩ := List.mem_map.mp hmem
    rw [← hstart]
    exact hinside token (List.mem_of_mem_filter htoken)

/-- The levels of a condition that is read are listed as they close: one for each closing parenthesis,
and the outermost one.  What stands inside of a level comes right before it.  Those that hold both
keywords are what is reported, in this order, and each of them is in the tree as the conjunction of its
operands. -/
theorem mixed_levels_reported {t : Tree} (h : c.parse = .ok (some t)) :
    ∃ toks items parts groups, tokens c.template.toList = .ok toks ∧
      resolve c.template.toList toks c.values = .ok items ∧ Closes items parts groups ∧
      Part.treeOf parts = t ∧
      groups.map Site.closing =
        (toks.filter fun token => token.kind = .closeParen).map Token.start ∧
      (∀ front site behind, groups = front ++ site :: behind →
        ∃ before nested, front = before ++ nested ∧ site.Surrounds items nested) ∧
      ∃ levels, levels = groups ++ [c.outermost parts] ∧
        (levels.Pairwise fun a b => a.closing < b.closing) ∧
        c.read.mixed = (levels.filter Site.isMixed).map Site.opening ∧
        c.read.mixed.length = levels.countP Site.isMixed ∧
        ∀ level ∈ levels, level.isMixed = true →
          Part.treeOf level.parts = .all (Part.operandsOf level.parts) ∧
            (Part.treeOf level.parts).PartOf t := by
  obtain ⟨toks, items, htokens, hne, hcount, hitems⟩ := items?_of_parse h
  rw [parse_of_resolve htokens hne hcount hitems, map_eq_ok_iff] at h
  obtain ⟨tree, hgroup, hsome⟩ := h
  cases hsome
  obtain ⟨parts, hparts, hcomplete, _, htree⟩ := tree_group_eq_ok_iff.mp hgroup
  obtain ⟨groups, hcloses⟩ := exists_closes hparts.symm
  have hclosings : groups.map Site.closing =
      (toks.filter fun token => token.kind = .closeParen).map Token.start :=
    hcloses.closings.trans (closings_of_stands (stands_of_resolve hitems))
  have hmixed : c.read.mixed = reports (groups ++ [c.outermost parts]) := by
    rw [mixed_of_resolve htokens hne hcount hitems]
    exact mixed_group hcloses hgroup _
  refine ⟨toks, items, parts, groups, htokens, hitems, hcloses, htree, hclosings,
    fun _ _ _ hsplit => hcloses.surrounds hsplit, _, rfl, closing_ordered htokens hclosings, hmixed,
    ?_, fun level hlevel hboth => ?_⟩
  · rw [hmixed, reports, List.length_map, List.countP_eq_length_filter]
  · rw [Site.isMixed, Bool.and_eq_true] at hboth
    refine ⟨Part.treeOf_of_and hboth.1, ?_⟩
    rw [← htree]
    rcases List.mem_append.mp hlevel with hgroup | hlast
    · obtain ⟨operand, hmem, hpart⟩ := hcloses.partOf hcomplete.2 level hgroup
      exact hpart.trans (Part.partOf_treeOf hcomplete.1 hmem)
    · rw [List.mem_singleton.mp hlast]
      exact .refl _

/-- Of three levels the first and the outermost one mix the keywords. -/
theorem mixed_levels_reported_of_two :
    (read ⟨"(a = ? AND b < c OR d) OR (e AND f) AND g", [.null]⟩).mixed = [some 0, none] ∧
      ∃ items parts groups, Closes items parts groups ∧
        (groups ++ [outermost ⟨"(a = ? AND b < c OR d) OR (e AND f) AND g", [.null]⟩ parts]).countP
          Site.isMixed = 2 := by
  obtain ⟨t, hparse⟩ : ∃ t, parse ⟨"(a = ? AND b < c OR d) OR (e AND f) AND g", [.null]⟩ =
      .ok (some t) := ⟨_, rfl⟩
  obtain ⟨_, items, parts, groups, _, _, hcloses, _, _, _, _, rfl, _, _, hcount, _⟩ :=
    mixed_levels_reported hparse
  exact ⟨rfl, items, parts, groups, hcloses, hcount.symm⟩

end Condition
end RecordFilter
