/-
What the reader of stored texts does on any text.  The log has no part in the result, so the reader
with a log gives what the reader without one gives.

Everything that is noted is paid for.  A value begins with a budget of three units for each byte
that is left, and one more.  It spends less than three units for each of its bytes, since it has at
least two of them, and what two values spare pays for the note behind their entry.  So what the
reader does is bounded by the length of the text, whatever lengths and counts the text declares.

A part is looked for only behind an ASCII byte and up to another one, so it begins and ends between
characters.
-/
import RecordFilter.Proofs.Bytewise.Serialized
import RecordFilter.Proofs.Bytewise.Trail
import RecordFilter.Proofs.Bytewise.Words

namespace RecordFilter
namespace Bytewise
namespace Serialized

open Number Text
open RecordFilter.Serialized (byte depthLimit greatestPosition ofEntries readBool readFloat readInt)

variable {α β : Type}

/-! ## Results -/

namespace Logged

@[simp] theorem result_bind (x : Logged α) (next : α → Logged β) :
    (x >>= next).result = x.result >>= fun a => (next a).result := by
  obtain ⟨result, log⟩ := x
  cases result <;> rfl

@[simp] theorem result_pure (a : α) : (pure a : Logged α).result = .ok a := rfl

@[simp] theorem result_quiet (x : Except (Stop SerializedFault) α) : (quiet x).result = x := rfl

@[simp] theorem result_note (activity : Activity) : (note activity).result = .ok () := rfl

@[simp] theorem result_ite (c : Prop) [Decidable c] (x y : Logged α) :
    (if c then x else y).result = if c then x.result else y.result :=
  apply_ite Logged.result c x y

variable (source : List UInt8)

@[simp] theorem result_expect (b : UInt8) (current : Nat) :
    (expect source b current).result = Serialized.expect source b current := by
  rw [expect, result_bind, result_quiet]
  cases Serialized.expect source b current <;> rfl

theorem result_partFrom (b : UInt8) (start current : Nat) :
    (partFrom source b start current).result = Serialized.partFrom source b start current := by
  fun_induction Serialized.partFrom source b start current with
  | case1 current hnone =>
      rw [partFrom]
      split
      · rfl
      · rename_i ha
        rw [hnone] at ha
        cases ha
  | case2 current behind hb =>
      rw [partFrom]
      split
      · rename_i hnone
        rw [hnone] at hb
        cases hb
      · rename_i hb'
        obtain rfl := Option.some.inj (hb.symm.trans hb')
        rw [result_bind, result_note, ok_bind, if_pos rfl]
        simp only [result_bind, result_quiet, result_pure]
        rfl
  | case3 current a ha hb ih =>
      rw [partFrom]
      split
      · rename_i hnone
        rw [hnone] at ha
        cases ha
      · rename_i ha'
        obtain rfl := Option.some.inj (ha.symm.trans ha')
        rw [result_bind, result_note, ok_bind, if_neg hb, ih]

theorem result_readPart (b : UInt8) (current : Nat) :
    (readPart source b current).result = Serialized.readPart source b current := by
  rw [readPart, result_bind, result_note, ok_bind, result_partFrom, Serialized.readPart]

theorem result_readString (current : Nat) :
    (readString source current).result = Serialized.readString source current := by
  rw [readString, result_bind, result_readPart, Serialized.readString]
  refine bind_congr fun found => ?_
  dsimp only
  cases readCount? found.1 with
  | none => rfl
  | some length =>
      rw [result_bind, result_expect]
      refine bind_congr fun current => ?_
      rw [result_ite]
      by_cases hoverrun : greatestPosition < current + length
      · rw [if_pos hoverrun, if_pos hoverrun]
        rfl
      · rw [if_neg hoverrun, if_neg hoverrun]
        cases bytesBetween? source current (current + length) with
        | none => rfl
        | some bytes =>
            simp only [result_bind, result_quiet, result_note, ok_bind, result_expect, result_pure]
            rfl

theorem result_readSimple (readText : List Char → Except SerializedFault Value) (current : Nat) :
    (readSimple source readText current).result = (do
      let (text, current) ← Serialized.readPart source (byte ';') current
      let v ← lift (readText text)
      return (v, current)) := by
  simp only [readSimple, result_bind, result_readPart, result_quiet, result_pure]
  rfl

theorem result_readScalar (tag : UInt8) (current : Nat) :
    (readScalar source tag current).result = Serialized.readScalar source tag current := by
  simp only [readScalar, Serialized.readScalar, result_ite, result_readSimple, result_bind,
    result_readString, result_quiet, result_pure]
  rfl

theorem result_readArrayStart (current : Nat) :
    (readArrayStart source current).result = Serialized.readArrayStart source current := by
  rw [readArrayStart, result_bind, result_readPart, Serialized.readArrayStart]
  refine bind_congr fun found => ?_
  dsimp only
  cases readCount? found.1 with
  | none => rfl
  | some count =>
      rw [result_bind, result_expect]
      rfl

theorem result_readEntries {readLogged : Place → Logged (Value × Place)}
    {readValue : Place → Except (Stop SerializedFault) (Value × Place)}
    (hread : ∀ here, (readLogged here).result = readValue here) (start done count : Nat)
    (here : Place) :
    (readEntries readLogged start done count here).result =
      Serialized.readEntries readValue count here := by
  induction count generalizing done here with
  | zero => rfl
  | succ count ih =>
      simp only [readEntries, Serialized.readEntries, result_bind, hread, result_quiet, result_note,
        ok_bind, ih, result_pure]
      rfl

/-- An array is read alike if the values inside of it are. -/
theorem result_readArray {readLogged : Place → Logged (Value × Place)}
    {readValue : Place → Except (Stop SerializedFault) (Value × Place)}
    (hread : ∀ here, (readLogged here).result = readValue here) (here : Place) :
    (readArray source readLogged here).result = (do
      let (count, start) ← Serialized.readArrayStart source here.current
      if here.depth = depthLimit then throw (.fault (.tooDeep depthLimit))
      let _ ← room source count start
      let (entries, inside) ← Serialized.readEntries readValue count
        { current := start, depth := here.depth + 1 }
      let current ← Serialized.expect source (byte '\x7d') inside.current
      let depth ← minus inside.depth 1
      return (ofEntries entries, { current, depth })) := by
  rw [readArray, result_bind, result_readArrayStart]
  refine bind_congr fun found => ?_
  dsimp only
  rw [result_ite]
  by_cases hlimit : here.depth = depthLimit
  · rw [if_pos hlimit, if_pos hlimit]
    rfl
  · simp only [if_neg hlimit, result_bind, result_note, ok_bind, result_quiet,
      result_readEntries hread, result_expect, result_pure]
    rfl

theorem result_readValue (levels : Nat) (here : Place) :
    (readValue source levels here).result = Serialized.readValue source levels here := by
  induction levels generalizing here with
  | zero => rfl
  | succ levels ih =>
      rw [readValue, result_bind, result_note, ok_bind, Serialized.readValue, readTagged]
      cases source[here.current]? with
      | none => rfl
      | some tag =>
          by_cases hnull : tag = byte 'N'
          · simp only [if_pos hnull, result_bind, result_note, ok_bind, result_expect, result_pure]
            cases Serialized.expect source (byte ';') (here.current + 1) <;> rfl
          · simp only [if_neg hnull, result_bind, result_note, ok_bind, result_expect, result_pure]
            cases Serialized.expect source (byte ':') (here.current + 1) with
            | error stop => rfl
            | ok current =>
                by_cases harray : tag = byte 'a'
                · simp only [if_pos harray, ok_bind, result_readArray source ih]
                  exact bind_pure _
                · simp only [if_neg harray, result_bind, result_readScalar, ok_bind]
                  cases Serialized.readScalar source tag current <;> rfl

theorem result_read (text : List Char) :
    (read text).result = lift (RecordFilter.Serialized.read text) := by
  rw [← Serialized.read_eq, read, Serialized.read, result_bind, result_readValue]
  refine bind_congr fun found => ?_
  dsimp only
  rw [result_ite]
  split <;> rfl

end Logged

/-! ## Positions between characters -/

theorem lt_of_getElem?_encode {text : List Char} {current : Nat} {b : UInt8}
    (h : (encode text)[current]? = some b) : current < byteLength text := by
  rw [← length_encode]
  exact (List.getElem?_eq_some_iff.mp h).1

theorem expect_eq_ok {source : List UInt8} {b : UInt8} {current behind : Nat}
    (h : expect source b current = .ok behind) :
    source[current]? = some b ∧ behind = current + 1 := by
  rw [expect] at h
  split at h
  · cases h
  · rename_i a ha
    split at h
    · rename_i hb
      cases h
      exact ⟨hb ▸ ha, rfl⟩
    · cases h

theorem le_of_bytesBetween? {source bytes : List UInt8} {start stop : Nat}
    (h : bytesBetween? source start stop = some bytes) : stop ≤ source.length := by
  rw [bytesBetween?] at h
  split at h
  · rename_i hbounds
    exact hbounds.2
  · cases h

/-- A position between two characters of a text, or at one of its ends. -/
def Boundary (text : List Char) (current : Nat) : Prop :=
  ∃ front back, text = front ++ back ∧ current = byteLength front

/-- A position behind a byte that is a character of its own. -/
theorem boundary_behind {c : Char} (hc : isAscii c = true) {text : List Char} {current : Nat}
    (h : (encode text)[current]? = some (byte c)) : Boundary text (current + 1) := by
  induction text generalizing current with
  | nil => cases h
  | cons a rest ih =>
      have hsize := String.length_utf8EncodeChar a
      rw [encode_cons] at h
      by_cases hinside : current < a.utf8Size
      · rw [List.getElem?_append_left (by omega)] at h
        have hmem : byte c ∈ String.utf8EncodeChar a := List.mem_of_getElem? h
        have hascii : isAscii a = true := by
          rw [← Bool.not_eq_false]
          intro hlong
          have hnot := isAscii_char_of_mem hlong hmem
          rw [byte, char_of_isAscii hc, hc] at hnot
          cases hnot
        have hone := utf8Size_of_isAscii hascii
        exact ⟨[a], rest, rfl, by rw [byteLength_cons, byteLength_nil]; omega⟩
      · rw [List.getElem?_append_right (by omega), hsize] at h
        obtain ⟨front, back, rfl, hfront⟩ := ih h
        exact ⟨a :: front, back, rfl, by rw [byteLength_cons]; omega⟩

theorem Boundary.le_byteLength {text : List Char} {current : Nat} (h : Boundary text current) :
    current ≤ byteLength text := by
  obtain ⟨front, back, rfl, rfl⟩ := h
  rw [byteLength_append]
  exact Nat.le_add_right _ _

/-- From a position between characters up to an ASCII byte there is text. -/
theorem upTo_ne_notText {c : Char} (hc : isAscii c = true) (text : List Char) (position : Nat)
    (fault : Utf8.Fault) :
    RecordFilter.Serialized.upTo (byte c) { rest := encode text, position } ≠
      .error (.notText fault) := by
  have hpart : ∃ part, (encode text).takeWhile (· != byte c) = encode part := by
    by_cases hmem : c ∈ text
    · obtain ⟨front, back, rfl, hfront⟩ := List.eq_append_cons_of_mem hmem
      refine ⟨front, ?_⟩
      rw [encode_append, encode_cons_of_isAscii hc]
      exact takeWhile_ne_encode hc hfront _
    · exact ⟨text, takeWhile_ne_of_not_mem hc hmem⟩
  obtain ⟨part, hpart⟩ := hpart
  rw [RecordFilter.Serialized.upTo]
  dsimp only
  rw [hpart, RecordFilter.Serialized.characters_encode]
  split
  · intro h
    cases h
  · intro h
    cases h

theorem readPart_ne_notText {c : Char} (hc : isAscii c = true) {text : List Char} {current : Nat}
    (h : Boundary text current) (fault : Utf8.Fault) :
    readPart (encode text) (byte c) current ≠ .error (.fault (.notText fault)) := by
  obtain ⟨front, back, rfl, rfl⟩ := h
  have hat : At (encode (front ++ back))
      { rest := encode back, position := byteLength front } := by
    refine ⟨?_, ?_⟩
    · rw [length_encode, byteLength_append]
      exact Nat.le_add_right _ _
    · rw [encode_append, ← length_encode, List.drop_left]
  have hfollows := follows_readPart hat (byte c)
  intro hfault
  rw [hfault] at hfollows
  cases hpart : RecordFilter.Serialized.upTo (byte c)
      { rest := encode back, position := byteLength front } with
  | error cause =>
      rw [hpart] at hfollows
      cases (hfollows : Except.error _ = Except.error _)
      exact upTo_ne_notText hc back _ fault hpart
  | ok found =>
      rw [hpart] at hfollows
      obtain ⟨_, hok, _⟩ := hfollows
      cases hok

/-! ## Budgets -/

/-- A note takes one unit of a budget, and nothing is noted but what may be done. -/
def Pays (may : Activity → Prop) (budget : Nat) (activity : Activity) (left : Nat) : Prop :=
  may activity ∧ left + 1 = budget

/-- A computation that does only what it may do, and no more than its budget, and that leaves of the
budget what belongs to its result. -/
abbrev Spends (may : Activity → Prop) (budget : Nat) (x : Logged α) (leaves : α → Nat → Prop) :
    Prop :=
  Leads (Pays may) budget x leaves

namespace Spends

variable {may : Activity → Prop} {budget : Nat} {leaves : α → Nat → Prop}

theorem note {activity : Activity} {next : Unit → Logged α} (hmay : may activity)
    (hbudget : 0 < budget)
    (hnext : ∀ left, left + 1 = budget → Spends may left (next ()) leaves) :
    Spends may budget (Logged.note activity >>= next) leaves := by
  obtain ⟨left, rfl⟩ : ∃ left, budget = left + 1 := ⟨budget - 1, by omega⟩
  exact Leads.note ⟨hmay, rfl⟩ (hnext left rfl)

end Spends

theorem may_and_length_of_trail {may : Activity → Prop} {budget left : Nat} {log : List Activity}
    (h : Trail (Pays may) budget log left) :
    (∀ activity ∈ log, may activity) ∧ log.length + left = budget := by
  induction h with
  | nil => exact ⟨List.forall_mem_nil _, Nat.zero_add _⟩
  | cons hstep _ ih =>
      obtain ⟨hmay, rfl⟩ := hstep
      obtain ⟨hrest, rfl⟩ := ih
      refine ⟨List.forall_mem_cons.mpr ⟨hmay, hrest⟩, ?_⟩
      rw [List.length_cons, Nat.add_right_comm]

/-! ## What the reader may do -/

/-- What the reader may do with a text: nothing outside of the text, and nothing that the text only
declares. -/
def Activity.Sound (text : List Char) : Activity → Prop
  | .move current => current ≤ byteLength text
  | .search b current =>
      Boundary text current ∧
        ∀ fault, Serialized.readPart (encode text) b current ≠ .error (.fault (.notText fault))
  | .enter here => here.current ≤ byteLength text ∧ here.depth ≤ depthLimit
  | .leave here behind =>
      here.current + 2 ≤ behind.current ∧ behind.current ≤ byteLength text ∧
        behind.depth = here.depth
  | .openArray count here =>
      here.depth ≤ depthLimit ∧
        room (encode text) count here.current =
          .ok (min count (byteLength text - here.current))
  -- an entry has two values, and each of them has two bytes
  | .round start done => start + 4 * done ≤ byteLength text
  | .closeArray start count => start + 4 * count < byteLength text

variable {text : List Char} {current budget : Nat}

/-- The reader has moved on from a position.  It has spent a unit for each byte that it has moved
over, and the toll. -/
structure Walked (text : List Char) (toll current budget behind left : Nat) : Prop where
  moved : current < behind
  le_length : behind ≤ byteLength text
  paid : current + budget ≤ behind + left + toll

theorem spends_expect {c : Char} (hc : isAscii c = true)
    (hbudget : byteLength text ≤ current + budget) :
    Spends (Activity.Sound text) budget (Logged.expect (encode text) (byte c) current)
      fun behind left => Walked text 0 current budget behind left ∧ Boundary text behind := by
  refine Leads.quiet fun behind hexpect => ?_
  obtain ⟨hat, rfl⟩ := expect_eq_ok hexpect
  have hlt := lt_of_getElem?_encode hat
  refine Spends.note hlt (by omega) fun left hleft => ?_
  exact Leads.ok ⟨⟨Nat.lt_succ_self _, hlt, by omega⟩, boundary_behind hc hat⟩

theorem spends_partFrom (b : UInt8) (start : Nat) (hbudget : byteLength text ≤ current + budget) :
    Spends (Activity.Sound text) budget (Logged.partFrom (encode text) b start current)
      fun found left => Walked text 0 current budget found.2 left := by
  fun_induction Logged.partFrom (encode text) b start current generalizing budget with
  | case1 current hnone => exact Leads.error _
  | case2 current a ha behind =>
      rename_i ih
      have hbehind : behind = current + 1 := rfl
      have hlt := lt_of_getElem?_encode ha
      refine Spends.note hlt (by omega) fun left hleft => ?_
      split
      · refine Leads.quiet fun stop _ => Leads.quiet fun bytes _ => Leads.quiet fun part _ => ?_
        exact Leads.ok ⟨Nat.lt_succ_self _, hlt, by omega⟩
      · refine (ih (by omega)).mono fun found left hfound => ?_
        obtain ⟨hmoved, hle, hpaid⟩ := hfound
        exact ⟨by omega, hle, by omega⟩

theorem spends_readPart {c : Char} (hc : isAscii c = true) (hat : Boundary text current)
    (hbudget : byteLength text + 1 ≤ current + budget) :
    Spends (Activity.Sound text) budget (Logged.readPart (encode text) (byte c) current)
      fun found left => Walked text 1 current budget found.2 left := by
  have hle := hat.le_byteLength
  refine Spends.note ⟨hat, readPart_ne_notText hc hat⟩ (by omega) fun left hleft => ?_
  refine (spends_partFrom _ _ (by omega)).mono fun found left hfound => ?_
  obtain ⟨hmoved, hle, hpaid⟩ := hfound
  exact ⟨hmoved, hle, by omega⟩

theorem spends_readString (hat : Boundary text current)
    (hbudget : byteLength text + 2 ≤ current + budget) :
    Spends (Activity.Sound text) budget (Logged.readString (encode text) current)
      fun found left => Walked text 2 current budget found.2 left := by
  refine (spends_readPart rfl hat (by omega)).bind fun found left hfound => ?_
  obtain ⟨hmoved, hle, hpaid⟩ := hfound
  dsimp only
  cases readCount? found.1 with
  | none => exact Leads.error _
  | some length =>
      refine (spends_expect rfl (by omega)).bind fun inside left hinside => ?_
      obtain ⟨⟨hquote, hle, hpaid⟩, -⟩ := hinside
      split
      · exact Leads.error _
      · cases hbytes : bytesBetween? (encode text) inside (inside + length) with
        | none => exact Leads.error _
        | some bytes =>
            have hend := le_of_bytesBetween? hbytes
            rw [length_encode] at hend
            refine Leads.quiet fun content _ => ?_
            refine Spends.note hend (by omega) fun left hleft => ?_
            refine (spends_expect rfl (by omega)).bind fun closed left hclosed => ?_
            obtain ⟨⟨hclosed, hle, hpaid⟩, -⟩ := hclosed
            refine (spends_expect rfl (by omega)).bind fun behind left hbehind => ?_
            obtain ⟨⟨hbehind, hle, hpaid⟩, -⟩ := hbehind
            exact Leads.ok ⟨by omega, hle, by omega⟩

theorem spends_readSimple (readText : List Char → Except SerializedFault Value)
    (hat : Boundary text current) (hbudget : byteLength text + 2 ≤ current + budget) :
    Spends (Activity.Sound text) budget (Logged.readSimple (encode text) readText current)
      fun found left => Walked text 2 current budget found.2 left := by
  refine (spends_readPart rfl hat (by omega)).bind fun found left hfound => ?_
  obtain ⟨hmoved, hle, hpaid⟩ := hfound
  exact Leads.quiet fun v _ => Leads.ok ⟨hmoved, hle, by omega⟩

theorem spends_readScalar (tag : UInt8) (hat : Boundary text current)
    (hbudget : byteLength text + 2 ≤ current + budget) :
    Spends (Activity.Sound text) budget (Logged.readScalar (encode text) tag current)
      fun found left => Walked text 2 current budget found.2 left := by
  rw [Logged.readScalar]
  split
  · exact spends_readSimple readBool hat hbudget
  split
  · exact spends_readSimple readInt hat hbudget
  split
  · exact spends_readSimple readFloat hat hbudget
  split
  · exact (spends_readString hat hbudget).bind fun found left hfound => Leads.ok hfound
  · exact Leads.error _

theorem spends_readArrayStart (hat : Boundary text current)
    (hbudget : byteLength text + 1 ≤ current + budget) :
    Spends (Activity.Sound text) budget (Logged.readArrayStart (encode text) current)
      fun found left => Walked text 1 current budget found.2 left := by
  refine (spends_readPart rfl hat hbudget).bind fun found left hfound => ?_
  obtain ⟨hmoved, hle, hpaid⟩ := hfound
  dsimp only
  cases readCount? found.1 with
  | none => exact Leads.error _
  | some count =>
      refine (spends_expect rfl (by omega)).bind fun inside left hinside => ?_
      obtain ⟨⟨hbrace, hle, hpaid⟩, -⟩ := hinside
      exact Leads.ok ⟨by omega, hle, by omega⟩

/-! ## Values -/

/-- The reader is behind what begins here, at least so many bytes on and as deep as before.  Of
three units for each byte that it has moved over it has spared some. -/
structure Passed (text : List Char) (least spared : Nat) (here : Place) (budget : Nat)
    (behind : Place) (left : Nat) : Prop where
  moved : here.current + least ≤ behind.current
  le_length : behind.current ≤ byteLength text
  depth_eq : behind.depth = here.depth
  paid : 3 * here.current + budget + spared ≤ 3 * behind.current + left

/-- A reader of values at a depth, with a budget of three units for each byte that is left and one
more. -/
def ReadsValues (text : List Char) (depth : Nat) (readValue : Place → Logged (Value × Place)) :
    Prop :=
  ∀ here budget, here.depth = depth → here.current ≤ byteLength text →
    3 * byteLength text + 1 ≤ 3 * here.current + budget →
      Spends (Activity.Sound text) budget (readValue here)
        fun found left => Passed text 2 1 here budget found.2 left

/-- What an entry spares pays for the note behind it. -/
theorem spends_readEntries {depth start : Nat} {readValue : Place → Logged (Value × Place)}
    (hread : ReadsValues text depth readValue) (count : Nat) {done : Nat} {here : Place}
    (hdepth : here.depth = depth) (hle : here.current ≤ byteLength text)
    (hdone : start + 4 * done ≤ here.current)
    (hbudget : 3 * byteLength text + 1 ≤ 3 * here.current + budget) :
    Spends (Activity.Sound text) budget (Logged.readEntries readValue start done count here)
      fun found left => Passed text (4 * count) 0 here budget found.2 left := by
  induction count generalizing done here budget with
  | zero => exact Leads.ok ⟨Nat.le_refl _, hle, rfl, Nat.le_refl _⟩
  | succ count ih =>
      refine (hread here budget hdepth hle hbudget).bind fun key left hkey => ?_
      obtain ⟨hkeyMoved, hkeyLe, hkeyDepth, hkeyPaid⟩ := hkey
      refine Leads.quiet fun name _ => ?_
      refine (hread key.2 left (hkeyDepth.trans hdepth) hkeyLe (by omega)).bind
        fun v left hv => ?_
      obtain ⟨hvMoved, hvLe, hvDepth, hvPaid⟩ := hv
      have hround : start + 4 * (done + 1) ≤ v.2.current := by omega
      refine Spends.note (Nat.le_trans hround hvLe) (by omega) fun left hleft => ?_
      refine (ih (hvDepth.trans (hkeyDepth.trans hdepth)) hvLe hround (by omega)).bind
        fun entries left hentries => ?_
      obtain ⟨hmoved, hle, hentriesDepth, hpaid⟩ := hentries
      refine Leads.ok ⟨?_, hle, hentriesDepth.trans (hvDepth.trans hkeyDepth), ?_⟩
      · show here.current + 4 * (count + 1) ≤ entries.2.current
        omega
      · show 3 * here.current + budget + 0 ≤ 3 * entries.2.current + left
        omega

theorem room_of_le {source : List UInt8} {count current : Nat} (h : current ≤ source.length) :
    room source count current = .ok (min count (source.length - current)) := by
  rw [room, minus, if_pos h]
  rfl

/-- An array has its entries behind one brace, and another one behind them. -/
theorem spends_readArray {readValue : Place → Logged (Value × Place)} (here : Place)
    (hread : here.depth < depthLimit → ReadsValues text (here.depth + 1) readValue)
    (hlimit : here.depth ≤ depthLimit) (hat : Boundary text here.current)
    (hbudget : 3 * byteLength text + 4 ≤ 3 * here.current + budget) :
    Spends (Activity.Sound text) budget (Logged.readArray (encode text) readValue here)
      fun found left => Passed text 1 1 here budget found.2 left := by
  have hle := hat.le_byteLength
  refine (spends_readArrayStart hat (by omega)).bind fun start left hstart => ?_
  obtain ⟨hmoved, hstartLe, hpaid⟩ := hstart
  dsimp only
  split
  · exact Leads.error _
  · rename_i hdepth
    have hinside : here.depth < depthLimit := Nat.lt_of_le_of_ne hlimit hdepth
    have hroom : room (encode text) start.1 start.2 =
        .ok (min start.1 (byteLength text - start.2)) := by
      rw [← length_encode] at hstartLe ⊢
      exact room_of_le hstartLe
    refine Spends.note ⟨hinside, hroom⟩ (by omega) fun left hleft => ?_
    refine Leads.quiet fun _ _ => ?_
    refine (spends_readEntries (hread hinside) start.1 rfl hstartLe (Nat.le_refl _)
      (by dsimp only; omega)).bind fun entries left hentries => ?_
    obtain ⟨hentriesMoved, hentriesLe, hentriesDepth, hentriesPaid⟩ := hentries
    dsimp only at hentriesMoved hentriesDepth hentriesPaid
    refine (spends_expect rfl (by omega)).bind fun behind left hbehind => ?_
    obtain ⟨⟨hbrace, hbehindLe, hbehindPaid⟩, -⟩ := hbehind
    rw [hentriesDepth, minus_add]
    refine Leads.quiet fun depth hdepth => ?_
    cases hdepth
    refine Spends.note (Nat.lt_of_le_of_lt hentriesMoved (Nat.lt_of_lt_of_le hbrace hbehindLe))
      (by omega) fun left hleft => ?_
    refine Leads.ok ⟨?_, hbehindLe, rfl, ?_⟩
    · show here.current + 1 ≤ behind
      omega
    · show 3 * here.current + budget + 1 ≤ 3 * behind + left
      omega

theorem spends_readTagged {readValue : Place → Logged (Value × Place)} {here : Place}
    (hread : here.depth < depthLimit → ReadsValues text (here.depth + 1) readValue)
    (hlimit : here.depth ≤ depthLimit)
    (hbudget : 3 * byteLength text ≤ 3 * here.current + budget) :
    Spends (Activity.Sound text) budget (Logged.readTagged (encode text) readValue here)
      fun found left => Passed text 2 3 here budget found.2 left := by
  rw [Logged.readTagged]
  cases htag : (encode text)[here.current]? with
  | none => exact Leads.error _
  | some tag =>
      have hlt := lt_of_getElem?_encode htag
      refine Spends.note hlt (by omega) fun left hleft => ?_
      dsimp only
      split
      · refine (spends_expect rfl (by omega)).bind fun behind left hbehind => ?_
        obtain ⟨⟨hmoved, hle, hpaid⟩, -⟩ := hbehind
        refine Leads.ok ⟨?_, hle, rfl, ?_⟩
        · show here.current + 2 ≤ behind
          omega
        · show 3 * here.current + budget + 3 ≤ 3 * behind + left
          omega
      · refine (spends_expect rfl (by omega)).bind fun behind left hbehind => ?_
        obtain ⟨⟨hmoved, hle, hpaid⟩, hat⟩ := hbehind
        split
        · refine (spends_readArray { here with current := behind } hread hlimit hat
            (by dsimp only; omega)).mono fun found left hfound => ?_
          obtain ⟨hfoundMoved, hfoundLe, hfoundDepth, hfoundPaid⟩ := hfound
          dsimp only at hfoundMoved hfoundPaid
          exact ⟨by omega, hfoundLe, hfoundDepth, by omega⟩
        · refine (spends_readScalar tag hat (by omega)).bind fun found left hfound => ?_
          obtain ⟨hfoundMoved, hfoundLe, hfoundPaid⟩ := hfound
          refine Leads.ok ⟨?_, hfoundLe, rfl, ?_⟩
          · show here.current + 2 ≤ found.2
            omega
          · show 3 * here.current + budget + 3 ≤ 3 * found.2 + left
            omega

/-- Going into an array counts up the depth, so that the levels that are left suffice. -/
theorem spends_readValue {left depth : Nat} (hdepth : depth + left = depthLimit) :
    ReadsValues text depth (Logged.readValue (encode text) (left + 1)) := by
  intro here budget hhere hle hbudget
  have hlimit : here.depth ≤ depthLimit := by omega
  refine Spends.note ⟨hle, hlimit⟩ (by omega) fun left' hleft => ?_
  have hread : here.depth < depthLimit →
      ReadsValues text (here.depth + 1) (Logged.readValue (encode text) left) := by
    intro hlt
    obtain ⟨inside, rfl⟩ : ∃ inside, left = inside + 1 := ⟨left - 1, by omega⟩
    exact spends_readValue (by omega)
  refine (spends_readTagged hread hlimit (by omega)).bind fun found left' hfound => ?_
  obtain ⟨hmoved, hfoundLe, hfoundDepth, hpaid⟩ := hfound
  refine Spends.note ⟨hmoved, hfoundLe, hfoundDepth⟩ (by omega) fun left' hleft => ?_
  refine Leads.ok ⟨hmoved, hfoundLe, hfoundDepth, ?_⟩
  show 3 * here.current + budget + 1 ≤ 3 * found.2.current + left'
  omega
termination_by left

/-- What the log says of the values that are read, wherever a value begins. -/
theorem moved_of_readValue {here behind : Place} {left : Nat} {v : Value}
    (hdepth : here.depth + left = depthLimit) (hle : here.current ≤ byteLength text)
    (h : readValue (encode text) (left + 1) here = .ok (v, behind)) :
    here.current + 2 ≤ behind.current ∧ behind.current ≤ byteLength text ∧
      behind.depth = here.depth := by
  have hvalue := spends_readValue hdepth here (3 * byteLength text + 1) rfl hle (by omega)
  rw [← Logged.result_readValue] at h
  obtain ⟨_, _, hpassed⟩ := hvalue
  obtain ⟨hmoved, hbehind, hsame, _⟩ := hpassed _ h
  exact ⟨hmoved, hbehind, hsame⟩

/-- On any text the reader comes to an end, with what the reader without a log gives.  It does at
most three things for each byte and one more, and everything that it does is sound.  A value moves
it on by two bytes or more, and brings it back to the depth that it began at. -/
theorem reader_bounded (text : List Char) :
    (Logged.read text).result = lift (RecordFilter.Serialized.read text) ∧
      (Logged.read text).log.length ≤ 3 * byteLength text + 1 ∧
      (∀ activity ∈ (Logged.read text).log, activity.Sound text) ∧
      ∀ (here behind : Place) (left : Nat) (v : Value), here.depth + left = depthLimit →
        here.current ≤ byteLength text →
          readValue (encode text) (left + 1) here = .ok (v, behind) →
            here.current + 2 ≤ behind.current ∧ behind.current ≤ byteLength text ∧
              behind.depth = here.depth := by
  have hread : Spends (Activity.Sound text) (3 * byteLength text + 1) (Logged.read text)
      fun _ _ => True := by
    have hvalue := spends_readValue (Nat.zero_add depthLimit) { current := 0, depth := 0 }
      (3 * byteLength text + 1) rfl (Nat.zero_le (byteLength text)) (Nat.le_add_left _ _)
    refine hvalue.bind fun found left _ => ?_
    dsimp only
    split
    · exact Leads.error _
    · exact Leads.ok trivial
  obtain ⟨left, htrail, -⟩ := hread
  obtain ⟨hmay, hlength⟩ := may_and_length_of_trail htrail
  exact ⟨Logged.result_read text, by omega, hmay,
    fun _ _ _ _ hdepth hle h => moved_of_readValue hdepth hle h⟩

/-- With a count that nothing bears out, the reader stops at the first entry. -/
example : (Logged.read "a:99:\x7b".toList).log =
    [.enter ⟨0, 0⟩, .move 1, .move 2, .search (byte ':') 2, .move 3, .move 4, .move 5, .move 6,
      .openArray 99 ⟨6, 1⟩, .enter ⟨6, 1⟩] := by
  cbv

end Serialized
end Bytewise
end RecordFilter
