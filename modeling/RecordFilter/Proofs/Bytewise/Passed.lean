/-
The log of the reader of stored texts holds every place that the reader passes.

`Next` says where a note leads from a place in the text, by the bytes there.  A move passes one
byte, or the content of a string behind its quote.  Any byte can be passed as the tag of a value
that has begun, or inside of a part that is looked for, and punctuation otherwise.  Values, arrays
and the entries of arrays come to an end inside of one another, and an array closes with as many
entries as it declares.  So a log that is a trail cannot have gone on in silence: `noted_of_trail`
finds every position that a trail has passed among its notes.

Every log of the reader is a trail, and the trail of a text that is accepted ends behind it.
-/
import RecordFilter.Proofs.Bytewise.Logged

namespace RecordFilter
namespace Bytewise
namespace Serialized

open Number Text
open RecordFilter.Serialized (byte depthLimit readBool readFloat readInt)

/-! ## Places in a text -/

/-- What stands at a position. -/
inductive Ahead where
  /-- The tag of a value. -/
  | tag
  /-- A part, up to a byte that ends it. -/
  | part (last : UInt8)
  | content
  /-- The quote behind the content of a string. -/
  | closing
  | sign
deriving DecidableEq

/-- What has begun and has not come to an end. -/
inductive Unfinished where
  | value (here : Place)
  /-- An array that declares `count` entries, the first of them at `start`.  The entries that are
  done have been read, and of the one behind them so many values. -/
  | array (start count done values : Nat)

structure Stand where
  current : Nat
  ahead : Ahead
  /-- The innermost comes first. -/
  unfinished : List Unfinished

def Stand.start : Stand where
  current := 0
  ahead := .sign
  unfinished := []

def depth : List Unfinished → Nat
  | [] => 0
  | .value _ :: outer => depth outer
  | .array .. :: outer => depth outer + 1

/-- A value can begin: the whole text is one, and an entry has two. -/
def Awaits (current : Nat) : List Unfinished → Prop
  | [] => current = 0
  | .value _ :: _ => False
  | .array _ count done values :: _ => done < count ∧ values < 2

/-- A value more has been read. -/
def behindValue : List Unfinished → List Unfinished
  | .array start count done values :: outer => .array start count done (values + 1) :: outer
  | outer => outer

def signs : List UInt8 :=
  [byte ':', byte ';', byte '\x7b', byte '\x7d']

/-- What stands behind a byte, none if there cannot be such a byte. -/
def Ahead.pass? (b : UInt8) : Ahead → Option Ahead
  | .tag => some .sign
  | .part last => some (if b = last then .sign else .part last)
  | .content => none
  | .closing => if b = byte '"' then some .sign else none
  | .sign => if b = byte '"' then some .content else if b ∈ signs then some .sign else none

/-- Where a note leads. -/
inductive Next (source : List UInt8) : Stand → Activity → Stand → Prop
  | pass {current : Nat} {ahead behind : Ahead} {unfinished : List Unfinished} {b : UInt8}
      (hb : source[current]? = some b) (hpass : ahead.pass? b = some behind) :
      Next source ⟨current, ahead, unfinished⟩ (.move (current + 1))
        ⟨current + 1, behind, unfinished⟩
  | content {current behind : Nat} {unfinished : List Unfinished} (hle : current ≤ behind)
      (hend : behind ≤ source.length) :
      Next source ⟨current, .content, unfinished⟩ (.move behind) ⟨behind, .closing, unfinished⟩
  | search {current : Nat} {unfinished : List Unfinished} {last : UInt8} :
      Next source ⟨current, .sign, unfinished⟩ (.search last current)
        ⟨current, .part last, unfinished⟩
  | enter {here : Place} {unfinished : List Unfinished} (hawaits : Awaits here.current unfinished)
      (hdepth : depth unfinished = here.depth) :
      Next source ⟨here.current, .sign, unfinished⟩ (.enter here)
        ⟨here.current, .tag, .value here :: unfinished⟩
  | leave {here behind : Place} {unfinished : List Unfinished}
      (hdepth : depth unfinished = behind.depth) :
      Next source ⟨behind.current, .sign, .value here :: unfinished⟩ (.leave here behind)
        ⟨behind.current, .sign, behindValue unfinished⟩
  | openArray {count : Nat} {first : Place} {unfinished : List Unfinished}
      (hdepth : depth unfinished + 1 = first.depth) :
      Next source ⟨first.current, .sign, unfinished⟩ (.openArray count first)
        ⟨first.current, .sign, .array first.current count 0 0 :: unfinished⟩
  | round {current start count done : Nat} {unfinished : List Unfinished} :
      Next source ⟨current, .sign, .array start count done 2 :: unfinished⟩
        (.round start (done + 1)) ⟨current, .sign, .array start count (done + 1) 0 :: unfinished⟩
  | closeArray {current start count : Nat} {unfinished : List Unfinished} :
      Next source ⟨current, .sign, .array start count count 0 :: unfinished⟩
        (.closeArray start count) ⟨current, .sign, unfinished⟩

/-! ## What a trail has passed -/

/-- A log holds a position: a move to it, or one over the content of a string that it is in. -/
def Noted (source : List UInt8) (log : List Activity) (position : Nat) : Prop :=
  .move position ∈ log ∨
    ∃ start stop, start < position ∧ position < stop ∧ source[start - 1]? = some (byte '"') ∧
      .move start ∈ log ∧ .move stop ∈ log

/-- A log that ends in front of the content of a string has noted the quote. -/
def Quoted (source : List UInt8) (log : List Activity) (s : Stand) : Prop :=
  s.ahead = .content → source[s.current - 1]? = some (byte '"') ∧ .move s.current ∈ log

variable {source : List UInt8} {s s' : Stand}

theorem Ahead.eq_of_pass?_eq_content {b : UInt8} {ahead : Ahead}
    (h : ahead.pass? b = some .content) : b = byte '"' := by
  by_contra hb
  cases ahead with
  | part last =>
      rw [pass?] at h
      split at h <;> cases h
  | closing =>
      rw [pass?, if_neg hb] at h
      cases h
  | sign =>
      rw [pass?, if_neg hb] at h
      split at h <;> cases h
  | tag | content => cases h

theorem Next.quoted {activity : Activity} (h : Next source s activity s') (log : List Activity) :
    Quoted source (log ++ [activity]) s' := by
  intro hcontent
  cases h with
  | @pass current ahead behind unfinished b hb hpass =>
      obtain rfl : behind = .content := hcontent
      obtain rfl := Ahead.eq_of_pass?_eq_content hpass
      exact ⟨hb, List.mem_append_right _ (List.mem_singleton_self _)⟩
  | content | search | enter | leave | openArray | round | closeArray => cases hcontent

theorem Next.noted {activity : Activity} {log : List Activity} {position : Nat}
    (h : Next source s activity s') (hquoted : Quoted source log s) (hbehind : s.current < position)
    (hpassed : position ≤ s'.current) : Noted source (log ++ [activity]) position := by
  have hlast : activity ∈ log ++ [activity] :=
    List.mem_append_right _ (List.mem_singleton_self _)
  cases h with
  | content _ _ =>
      obtain ⟨hquote, hstart⟩ := hquoted rfl
      obtain rfl | hinside := Nat.eq_or_lt_of_le hpassed
      · exact .inl hlast
      · exact .inr ⟨_, _, hbehind, hinside, hquote, List.mem_append_left _ hstart, hlast⟩
  | pass _ _ =>
      obtain rfl : position = _ + 1 := Nat.le_antisymm hpassed hbehind
      exact .inl hlast
  | search | enter | leave | openArray | round | closeArray =>
      exact absurd hpassed (Nat.not_le_of_lt hbehind)

theorem Noted.append {log : List Activity} {position : Nat} (h : Noted source log position)
    (more : List Activity) : Noted source (log ++ more) position := by
  obtain hmove | ⟨start, stop, hbehind, hinside, hquote, hstart, hstop⟩ := h
  · exact .inl (List.mem_append_left _ hmove)
  · exact .inr ⟨start, stop, hbehind, hinside, hquote, List.mem_append_left _ hstart,
      List.mem_append_left _ hstop⟩

/-- The trail goes on from a log that is there already. -/
theorem noted_of_trail_behind (before : List Activity) {log : List Activity} {position : Nat}
    (h : Trail (Next source) s log s') (hquoted : Quoted source before s)
    (hbehind : s.current < position) (hpassed : position ≤ s'.current) :
    Noted source (before ++ log) position := by
  induction h generalizing before with
  | nil => exact absurd hpassed (Nat.not_le_of_lt hbehind)
  | @cons s s₁ s' activity log hstep hrest ih =>
      rw [← List.singleton_append, ← List.append_assoc]
      obtain hlt | hle := Nat.lt_or_ge s₁.current position
      · exact ih _ (hstep.quoted before) hlt hpassed
      · exact (hstep.noted hquoted hbehind hle).append log

theorem noted_of_trail {log : List Activity} (h : Trail (Next source) .start log s) :
    ∀ position, 0 < position → position ≤ s.current → Noted source log position :=
  fun _ hbehind hpassed => noted_of_trail_behind [] h (fun h => nomatch h) hbehind hpassed

/-! ## Where the readers lead -/

variable {unfinished : List Unfinished} {current : Nat}

theorem leads_expect {b : UInt8} {ahead behind : Ahead} (hpass : ahead.pass? b = some behind) :
    Leads (Next source) ⟨current, ahead, unfinished⟩ (Logged.expect source b current)
      fun found s' => s' = ⟨found, behind, unfinished⟩ := by
  refine Leads.quiet fun found hexpect => ?_
  obtain ⟨hat, rfl⟩ := expect_eq_ok hexpect
  exact Leads.note (.pass hat hpass) (Leads.ok rfl)

theorem leads_partFrom (b : UInt8) (start : Nat) :
    Leads (Next source) ⟨current, .part b, unfinished⟩ (Logged.partFrom source b start current)
      fun found s' => s' = ⟨found.2, .sign, unfinished⟩ := by
  fun_induction Logged.partFrom source b start current with
  | case1 current hnone => exact Leads.error _
  | case2 current a ha behind ih =>
      by_cases hlast : a = b
      · subst hlast
        refine Leads.note (.pass ha (congrArg some (if_pos rfl))) ?_
        rw [if_pos rfl]
        exact Leads.quiet fun stop _ => Leads.quiet fun bytes _ => Leads.quiet fun part _ =>
          Leads.ok rfl
      · refine Leads.note (.pass ha (congrArg some (if_neg hlast))) ?_
        rw [if_neg hlast]
        exact ih

theorem leads_readPart (b : UInt8) :
    Leads (Next source) ⟨current, .sign, unfinished⟩ (Logged.readPart source b current)
      fun found s' => s' = ⟨found.2, .sign, unfinished⟩ :=
  Leads.note .search (leads_partFrom b current)

theorem leads_readString :
    Leads (Next source) ⟨current, .sign, unfinished⟩ (Logged.readString source current)
      fun found s' => s' = ⟨found.2, .sign, unfinished⟩ := by
  refine (leads_readPart (byte ':')).bind fun found s' hs => ?_
  subst hs
  dsimp only
  cases readCount? found.1 with
  | none => exact Leads.error _
  | some length =>
      refine (leads_expect rfl).bind fun inside s' hs => ?_
      subst hs
      split
      · exact Leads.error _
      · cases hbytes : bytesBetween? source inside (inside + length) with
        | none => exact Leads.error _
        | some bytes =>
            have hend := le_of_bytesBetween? hbytes
            refine Leads.quiet fun content _ => ?_
            refine Leads.note (.content (Nat.le_add_right _ _) hend) ?_
            refine (leads_expect rfl).bind fun closed s' hs => ?_
            subst hs
            refine (leads_expect rfl).bind fun behind s' hs => ?_
            exact Leads.ok hs

theorem leads_readSimple (readText : List Char → Except SerializedFault Value) :
    Leads (Next source) ⟨current, .sign, unfinished⟩ (Logged.readSimple source readText current)
      fun found s' => s' = ⟨found.2, .sign, unfinished⟩ := by
  refine (leads_readPart (byte ';')).bind fun found s' hs => ?_
  exact Leads.quiet fun v _ => Leads.ok hs

theorem leads_readScalar (tag : UInt8) :
    Leads (Next source) ⟨current, .sign, unfinished⟩ (Logged.readScalar source tag current)
      fun found s' => s' = ⟨found.2, .sign, unfinished⟩ := by
  rw [Logged.readScalar]
  split
  · exact leads_readSimple readBool
  split
  · exact leads_readSimple readInt
  split
  · exact leads_readSimple readFloat
  split
  · exact leads_readString.bind fun found s' hs => Leads.ok hs
  · exact Leads.error _

theorem leads_readArrayStart :
    Leads (Next source) ⟨current, .sign, unfinished⟩ (Logged.readArrayStart source current)
      fun found s' => s' = ⟨found.2, .sign, unfinished⟩ := by
  refine (leads_readPart (byte ':')).bind fun found s' hs => ?_
  subst hs
  dsimp only
  cases readCount? found.1 with
  | none => exact Leads.error _
  | some count =>
      refine (leads_expect rfl).bind fun inside s' hs => ?_
      exact Leads.ok hs

/-- The reader is behind a value, as deep as where it has begun. -/
def Behind (here : Place) (unfinished : List Unfinished) (behind : Place) (s : Stand) : Prop :=
  behind.depth = here.depth ∧ s = ⟨behind.current, .sign, unfinished⟩

/-- A reader of values leads from where a value can begin to behind it. -/
def LeadsBehind (source : List UInt8) (readValue : Place → Logged (Value × Place)) : Prop :=
  ∀ here unfinished, Awaits here.current unfinished → depth unfinished = here.depth →
    Leads (Next source) ⟨here.current, .sign, unfinished⟩ (readValue here)
      fun found s' => Behind here (behindValue unfinished) found.2 s'

variable {readValue : Place → Logged (Value × Place)} {here : Place}

theorem leads_readEntries (hread : LeadsBehind source readValue) {start total done count : Nat}
    (htotal : done + count = total) (hdepth : depth unfinished + 1 = here.depth) :
    Leads (Next source) ⟨here.current, .sign, .array start total done 0 :: unfinished⟩
      (Logged.readEntries readValue start done count here)
      fun found s' => Behind here (.array start total total 0 :: unfinished) found.2 s' := by
  induction count generalizing done here with
  | zero =>
      obtain rfl : done = total := htotal
      exact Leads.ok ⟨rfl, rfl⟩
  | succ count ih =>
      have hawaits (current : Nat) {values : Nat} (hvalues : values < 2) :
          Awaits current (.array start total done values :: unfinished) :=
        ⟨by omega, hvalues⟩
      refine (hread here _ (hawaits _ Nat.zero_lt_two) hdepth).bind fun key s' hs => ?_
      obtain ⟨hkey, rfl⟩ := hs
      refine Leads.quiet fun name _ => ?_
      refine (hread key.2 _ (hawaits _ Nat.one_lt_two) (hdepth.trans hkey.symm)).bind
        fun v s' hs => ?_
      obtain ⟨hv, rfl⟩ := hs
      refine Leads.note .round ?_
      have hsame : v.2.depth = here.depth := hv.trans hkey
      refine (ih (by omega) (hdepth.trans hsame.symm)).bind fun entries s' hs => ?_
      obtain ⟨hentries, rfl⟩ := hs
      exact Leads.ok ⟨hentries.trans hsame, rfl⟩

theorem leads_readArray (hread : LeadsBehind source readValue) (here : Place)
    (hdepth : depth unfinished = here.depth) :
    Leads (Next source) ⟨here.current, .sign, unfinished⟩
      (Logged.readArray source readValue here)
      fun found s' => Behind here unfinished found.2 s' := by
  refine leads_readArrayStart.bind fun start s' hs => ?_
  subst hs
  dsimp only
  split
  · exact Leads.error _
  · let first : Place := { current := start.2, depth := here.depth + 1 }
    have hinside : depth unfinished + 1 = first.depth := congrArg (· + 1) hdepth
    refine Leads.note (.openArray hinside) ?_
    refine Leads.quiet fun _ _ => ?_
    refine (leads_readEntries hread (Nat.zero_add _) hinside).bind fun entries s' hs => ?_
    obtain ⟨hentries, rfl⟩ := hs
    refine (leads_expect rfl).bind fun behind s' hs => ?_
    subst hs
    rw [hentries, minus_add]
    refine Leads.quiet fun left hleft => ?_
    cases hleft
    exact Leads.note .closeArray (Leads.ok ⟨rfl, rfl⟩)

theorem leads_readTagged (hread : LeadsBehind source readValue)
    (hdepth : depth unfinished = here.depth) :
    Leads (Next source) ⟨here.current, .tag, unfinished⟩
      (Logged.readTagged source readValue here)
      fun found s' => Behind here unfinished found.2 s' := by
  rw [Logged.readTagged]
  cases htag : source[here.current]? with
  | none => exact Leads.error _
  | some tag =>
      refine Leads.note (.pass htag rfl) ?_
      dsimp only
      split
      · refine (leads_expect rfl).bind fun behind s' hs => ?_
        exact Leads.ok ⟨rfl, hs⟩
      · refine (leads_expect rfl).bind fun behind s' hs => ?_
        subst hs
        split
        · exact leads_readArray hread { here with current := behind } hdepth
        · refine (leads_readScalar tag).bind fun found s' hs => ?_
          exact Leads.ok ⟨rfl, hs⟩

theorem leads_readValue (levels : Nat) : LeadsBehind source (Logged.readValue source levels) := by
  induction levels with
  | zero => exact fun here unfinished hawaits hdepth => Leads.error _
  | succ levels ih =>
      intro here unfinished hawaits hdepth
      refine Leads.note (.enter hawaits hdepth) ?_
      have hvalue : depth (.value here :: unfinished) = here.depth := hdepth
      refine (leads_readTagged ih hvalue).bind fun found s' hs => ?_
      obtain ⟨hsame, rfl⟩ := hs
      exact Leads.note (.leave (hdepth.trans hsame.symm)) (Leads.ok ⟨hsame, rfl⟩)

/-- What the reader notes of any text is a trail over its bytes, and holds every position up to
where the trail ends.  For a text that is accepted that is all of it, with nothing unfinished. -/
theorem trail_read (text : List Char) :
    ∃ s, Trail (Next (encode text)) .start (Logged.read text).log s ∧
      (∀ position, 0 < position → position ≤ s.current →
        Noted (encode text) (Logged.read text).log position) ∧
      ∀ v, (Logged.read text).result = .ok v → s = ⟨byteLength text, .sign, []⟩ := by
  have hread : Leads (Next (encode text)) .start (Logged.read text)
      fun _ s => s = ⟨byteLength text, .sign, []⟩ := by
    refine (leads_readValue (depthLimit + 1) ⟨0, 0⟩ [] rfl rfl).bind fun found s hs => ?_
    obtain ⟨-, rfl⟩ := hs
    dsimp only
    split
    · exact Leads.error _
    · rename_i hend
      rw [ne_eq, Decidable.not_not, length_encode] at hend
      exact Leads.ok (by rw [hend]; rfl)
  obtain ⟨s, htrail, hends⟩ := hread
  exact ⟨s, htrail, noted_of_trail htrail, hends⟩

end Serialized
end Bytewise
end RecordFilter
