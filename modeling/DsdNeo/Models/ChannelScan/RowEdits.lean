import DsdNeo.Models.ChannelScan.Machine

/-!
# Undoing an edit of one row

An edit of one field is taken back by taking that field from the edit there was before. All parts
of a value come back but one: a margin that was missing is not put back, so a level set without one
keeps the margin of the dynamic squelch it was changed to.
-/

namespace DsdNeo.ChannelScan

open SignalSearch List Function BitVec

/-- The part of a policy a word belongs to: a filter, or the names. -/
def receiveKind (i : ℕ) : ℕ := min (i / filterWords) filterCount

theorem getElem?_takeReceive {policy source : Receive} (hp : policy.length = receiveWords)
    (hs : source.length = receiveWords) {kind : ℕ} (hkind : kind ≤ filterCount) (i : ℕ) :
    (takeReceive policy source kind)[i]? =
      if receiveKind i = kind then source[i]? else policy[i]? := by
  have hwords : filterCount * filterWords ≤ receiveWords := by decide
  generalize receiveWords = n at *
  unfold takeReceive receiveKind
  unfold filterWords filterCount at *
  split
  · simp only [getElem?_append, getElem?_take, getElem?_drop, length_append,
      length_take, length_drop, hp, hs]
    split_ifs <;> first | omega | (congr 1; omega) | rfl
  · simp only [getElem?_append, getElem?_take, getElem?_drop, length_take, hp]
    split_ifs <;> first | omega | (congr 1; omega) | rfl

theorem length_takeReceive {policy source : Receive} (hp : policy.length = receiveWords)
    (hs : source.length = receiveWords) {kind : ℕ} (hkind : kind ≤ filterCount) :
    (takeReceive policy source kind).length = receiveWords := by
  unfold takeReceive
  unfold receiveWords filterWords filterCount at *
  split
  · simp only [length_append, length_take, length_drop, hp, hs]
    omega
  · simp only [length_append, length_take, length_drop, hp, hs]
    omega

section Receive

variable {p s t : Receive} {kind other : ℕ}

/-- A part taken and put back. -/
theorem takeReceive_back (hp : p.length = receiveWords) (hs : s.length = receiveWords)
    (hkind : kind ≤ filterCount) : takeReceive (takeReceive p s kind) p kind = p := by
  refine ext_getElem? fun i => ?_
  rw [getElem?_takeReceive (length_takeReceive hp hs hkind) hp hkind,
    getElem?_takeReceive hp hs hkind]
  split <;> rfl

theorem takeReceive_self (hp : p.length = receiveWords) (hkind : kind ≤ filterCount) :
    takeReceive p p kind = p := by
  refine ext_getElem? fun i => ?_
  rw [getElem?_takeReceive hp hp hkind, ite_self]

theorem takeReceive_comm (hp : p.length = receiveWords) (hs : s.length = receiveWords)
    (ht : t.length = receiveWords) (hkind : kind ≤ filterCount) (hother : other ≤ filterCount)
    (hne : kind ≠ other) :
    takeReceive (takeReceive p s kind) t other = takeReceive (takeReceive p t other) s kind := by
  refine ext_getElem? fun i => ?_
  rw [getElem?_takeReceive (length_takeReceive hp hs hkind) ht hother,
    getElem?_takeReceive (length_takeReceive hp ht hother) hs hkind,
    getElem?_takeReceive hp hs hkind, getElem?_takeReceive hp ht hother]
  by_cases hi : receiveKind i = kind
  · rw [if_pos hi, if_pos hi, if_neg fun h => hne (hi.symm.trans h)]
  · rw [if_neg hi, if_neg hi]

end Receive

/-- `DSD_SCAN_ROW_FIELD_GAIN`. -/
def fieldGain : ℕ := 3

/-- The fields there are. -/
def fieldCount : ℕ := 9

/-- A value with a whole receive policy. -/
def EditValue.Sized (v : EditValue) : Prop := v.receive.length = receiveWords

theorem EditValue.Sized.copy {dst src : EditValue} (hdst : dst.Sized) (hsrc : src.Sized) (bit : ℕ) :
    (editCopyValue dst bit src).Sized := by
  unfold editCopyValue
  split
  · rename_i h
    exact length_takeReceive hdst hsrc (by unfold fieldSlot at h ⊢; omega)
  · split
    · exact hdst
    · split
      · exact hdst
      · split <;> exact hdst

variable {v w : EditValue}

/-- A field copied from the value itself. -/
theorem editCopyValue_self (h : v.Sized) (bit : ℕ) : editCopyValue v bit v = v := by
  unfold editCopyValue
  split
  · rename_i hbit
    rw [takeReceive_self h (by unfold fieldSlot at hbit ⊢; omega)]
  · split
    · rw [ite_self]
    · split
      · rfl
      · split <;> rfl

/-- The margin a squelch is left with when one field is copied and copied back. -/
def marginLeft (v : EditValue) (bit : ℕ) (w : EditValue) : ℤ :=
  if bit = fieldSquelch ∧ editMarginValid v.squelchMarginDb = false ∧
      editMarginValid w.squelchMarginDb = true then w.squelchMarginDb
  else v.squelchMarginDb

theorem editCopyValue_back (hv : v.Sized) (hw : w.Sized) (bit : ℕ) :
    editCopyValue (editCopyValue v bit w) bit v =
      { v with squelchMarginDb := marginLeft v bit w } := by
  by_cases hsquelch : bit = fieldSquelch
  · subst hsquelch
    unfold marginLeft
    cases hvalid : editMarginValid v.squelchMarginDb with
    | true => simp [editCopyValue, fieldSlot, fieldSquelch, hvalid]
    | false =>
      cases hvalid' : editMarginValid w.squelchMarginDb <;>
        simp [editCopyValue, fieldSlot, fieldSquelch, hvalid, hvalid']
  · have hmargin : marginLeft v bit w = v.squelchMarginDb := if_neg fun h => hsquelch h.1
    rw [hmargin]
    unfold editCopyValue
    by_cases hreceive : fieldSlot ≤ bit ∧ bit ≤ fieldSlot + filterCount
    · rw [if_pos hreceive, if_pos hreceive]
      dsimp only
      rw [takeReceive_back hv hw (by omega)]
    · rw [if_neg hreceive, if_neg hreceive, if_neg hsquelch, if_neg hsquelch]
      split
      · rfl
      · split <;> rfl

variable {bit other i : ℕ}

theorem editCopyValue_comm {u : EditValue} (hv : v.Sized) (hw : w.Sized) (hu : u.Sized)
    (hbit : bit < fieldCount) (hother : other < fieldCount) (hne : bit ≠ other) :
    editCopyValue (editCopyValue v bit w) other u =
      editCopyValue (editCopyValue v other u) bit w := by
  unfold editCopyValue
  by_cases hr : fieldSlot ≤ bit ∧ bit ≤ fieldSlot + filterCount
  · by_cases ho : fieldSlot ≤ other ∧ other ≤ fieldSlot + filterCount
    · simp only [if_pos hr, if_pos ho]
      rw [takeReceive_comm hv hw hu (by omega) (by omega) (by omega)]
    · simp only [if_pos hr, if_neg ho]
      split
      · rfl
      · split
        · rfl
        · split <;> rfl
  · by_cases ho : fieldSlot ≤ other ∧ other ≤ fieldSlot + filterCount
    · simp only [if_neg hr, if_pos ho]
      split
      · rfl
      · split
        · rfl
        · split <;> rfl
    · simp only [if_neg hr, if_neg ho]
      have hplain : bit < 4 ∧ other < 4 := by
        unfold fieldSlot filterCount at hr ho
        unfold fieldCount at hbit hother
        omega
      obtain ⟨hb, ho'⟩ := hplain
      interval_cases bit <;> interval_cases other <;> first | exact absurd rfl hne | rfl

theorem getLsbD_bitMask (hbit : bit < fieldCount) (hi : i < 32) :
    (bitMask bit).getLsbD i = decide (i = bit) := by
  unfold bitMask
  rw [getLsbD_shiftLeft, getLsbD_one]
  unfold fieldCount at hbit
  by_cases h : i = bit
  · subst h
    simp [hi]
  · simp only [hi, decide_true, Bool.true_and, h, decide_false, Bool.and_eq_false_imp]
    intro hlt
    simp only [Bool.not_eq_true', decide_eq_false_iff_not] at hlt
    simp only [decide_eq_false_iff_not]
    omega

theorem editTakeFields_one (edit source : RowEdit) (hbit : bit < fieldCount) :
    editTakeFields edit source (bitMask bit) =
      { value := editCopyValue edit.value bit source.value
        set := (edit.set &&& ~~~bitMask bit) ||| (source.set &&& bitMask bit)
        inherit := (edit.inherit &&& ~~~bitMask bit) ||| (source.inherit &&& bitMask bit) } := by
  unfold fieldCount at hbit
  interval_cases bit <;> rfl

theorem mask_back (a m : BitVec 32) :
    ((a ||| m) &&& ~~~m) ||| (a &&& m) = a ∧ ((a &&& ~~~m) &&& ~~~m) ||| (a &&& m) = a := by
  constructor <;>
  · refine eq_of_getLsbD_eq fun i hi => ?_
    simp only [getLsbD_or, getLsbD_and, getLsbD_not, hi, decide_true, Bool.true_and]
    cases a.getLsbD i <;> cases m.getLsbD i <;> rfl

/-- The margin an edit is left with when a change of one field is taken back. -/
def RowEdit.marginUndone (edit : RowEdit) (bit : ℕ) (action : EditAction) (value : EditValue) : ℤ :=
  match action with
  | .set => marginLeft edit.value bit value
  | _ => edit.value.squelchMarginDb

variable {edit : RowEdit}

theorem editTakeFields_editChange (hedit : edit.value.Sized) {value : EditValue}
    (hvalue : value.Sized) (hbit : bit < fieldCount) (action : EditAction) :
    editTakeFields (editChange edit bit action value) edit (bitMask bit) =
      { edit with value := { edit.value with
          squelchMarginDb := edit.marginUndone bit action value } } := by
  rw [editTakeFields_one _ _ hbit]
  have hset := mask_back edit.set (bitMask bit)
  have hinherit := mask_back edit.inherit (bitMask bit)
  cases action with
  | set =>
    simp only [editChange, editCopyValue_back hedit hvalue, hset.1, hinherit.2]
    rfl
  | inherit =>
    simp only [editChange, editCopyValue_self hedit, hset.2, hinherit.1]
    rfl
  | reset =>
    simp only [editChange, editCopyValue_self hedit, hset.2, hinherit.2]
    rfl

variable {m a b : BitVec 32}

/-- Two masks apart, one put in or taken out after the other. -/
theorem mask_comm {n : BitVec 32} (h : m &&& n = 0) (a : BitVec 32) :
    ((a ||| m) &&& ~~~n = (a &&& ~~~n) ||| m) ∧ ((a ||| m) ||| n = (a ||| n) ||| m) ∧
      ((a &&& ~~~m) &&& ~~~n = (a &&& ~~~n) &&& ~~~m) := by
  have hbit : ∀ i, m.getLsbD i = true → n.getLsbD i = false := by
    intro i hi
    have hzero := congrArg (BitVec.getLsbD · i) h
    simpa [hi] using hzero
  refine ⟨?_, ?_, ?_⟩ <;>
  · refine eq_of_getLsbD_eq fun i hi => ?_
    have := hbit i
    simp only [getLsbD_or, getLsbD_and, getLsbD_not, hi, decide_true, Bool.true_and]
    cases hm : m.getLsbD i <;> cases hn : n.getLsbD i <;> simp_all

theorem bitMask_apart (hbit : bit < fieldCount) (hother : other < fieldCount) (hne : bit ≠ other) :
    bitMask bit &&& bitMask other = 0 := by
  refine eq_of_getLsbD_eq fun i hi => ?_
  rw [getLsbD_and, getLsbD_bitMask hbit hi, getLsbD_bitMask hother hi]
  by_cases h : i = bit
  · have hi' : i ≠ other := fun h' => hne (h.symm.trans h')
    simp [hi']
  · simp [h]

theorem editChange_comm (hedit : edit.value.Sized) (hv : v.Sized) (hw : w.Sized)
    (hbit : bit < fieldCount) (hother : other < fieldCount) (hne : bit ≠ other)
    (action action' : EditAction) :
    editChange (editChange edit bit action v) other action' w =
      editChange (editChange edit other action' w) bit action v := by
  have hvalue := editCopyValue_comm hedit hv hw hbit hother hne
  obtain ⟨hin, hins, houts⟩ := mask_comm (bitMask_apart hbit hother hne) edit.set
  obtain ⟨hin', hins', houts'⟩ := mask_comm (bitMask_apart hbit hother hne) edit.inherit
  obtain ⟨hback, -, -⟩ := mask_comm (bitMask_apart hother hbit hne.symm) edit.set
  obtain ⟨hback', -, -⟩ := mask_comm (bitMask_apart hother hbit hne.symm) edit.inherit
  cases action <;> cases action' <;>
    simp only [editChange, hvalue, hin, hins, houts, hin', hins', houts', hback, hback']

/-- `dsd_scan_row_edit_gain`: whether a target runs a gain of its own, and the gain. -/
def editGain (listIsSet : Bool) (listDb : ℤ) (edit : RowEdit) : Bool × ℤ :=
  if edit.set.getLsbD fieldGain then (true, edit.value.gainDb)
  else if edit.inherit.getLsbD fieldGain then (false, 0)
  else (listIsSet, if listIsSet then listDb else 0)

theorem editApply_squelchMarginDb (row : Option OptionValues) (edit : RowEdit) (mode : Mode) :
    (editApply row edit mode).squelchMarginDb =
      if edit.set.getLsbD fieldSquelch = true ∧
          editMarginValid edit.value.squelchMarginDb = true then edit.value.squelchMarginDb
      else (row.getD OptionValues.zero).squelchMarginDb := by
  have htone : ∀ out, (editApplyTone edit out).squelchMarginDb = out.squelchMarginDb := by
    intro out
    unfold editApplyTone
    split <;> rfl
  have hwidth : ∀ out, (editApplyWidth edit mode out).squelchMarginDb = out.squelchMarginDb := by
    intro out
    unfold editApplyWidth
    split
    · rfl
    · split <;> rfl
  have hreceive : ∀ out, (editApplyReceive edit out).squelchMarginDb = out.squelchMarginDb :=
    fun _ => rfl
  rw [editApply, htone, hwidth, hreceive]
  unfold editApplySquelch
  cases edit.set.getLsbD fieldSquelch <;>
    cases editMarginValid edit.value.squelchMarginDb <;> simp

/-- An edit with another margin. -/
def RowEdit.withMargin (edit : RowEdit) (margin : ℤ) : RowEdit :=
  { edit with value := { edit.value with squelchMarginDb := margin } }

theorem editApply_withMargin {row : Option OptionValues} {mode : Mode} {margin : ℤ} :
    editApply row (edit.withMargin margin) mode = editApply row edit mode ↔
      (editApply row (edit.withMargin margin) mode).squelchMarginDb =
        (editApply row edit mode).squelchMarginDb := by
  refine ⟨fun h => by rw [h], fun h => ?_⟩
  rw [editApply_squelchMarginDb, editApply_squelchMarginDb] at h
  have hsquelch : editApplySquelch (edit.withMargin margin) (row.getD OptionValues.zero) =
      editApplySquelch edit (row.getD OptionValues.zero) := by
    unfold editApplySquelch
    cases hset : edit.set.getLsbD fieldSquelch with
    | false =>
      have hset' : (edit.withMargin margin).set.getLsbD fieldSquelch = false := hset
      rw [hset', if_neg Bool.false_ne_true, if_neg Bool.false_ne_true]
      rfl
    | true =>
      have hset' : (edit.withMargin margin).set.getLsbD fieldSquelch = true := hset
      rw [hset, hset'] at h
      simp only [true_and] at h
      rw [hset', if_pos rfl, if_pos rfl]
      dsimp only
      rw [h]
      rfl
  have hrest : ∀ out, editApplyTone (edit.withMargin margin) (editApplyWidth
      (edit.withMargin margin) mode (editApplyReceive (edit.withMargin margin) out)) =
      editApplyTone edit (editApplyWidth edit mode (editApplyReceive edit out)) := fun _ => rfl
  rw [editApply, hsquelch, hrest]
  rfl

/-- A squelch set with a margin over one that was set without, on a row of another margin. -/
def Forgets (row : Option OptionValues) (edit : RowEdit) (bit : ℕ) (action : EditAction)
    (value : EditValue) : Prop :=
  bit = fieldSquelch ∧ action = .set ∧ edit.set.getLsbD fieldSquelch = true ∧
    editMarginValid edit.value.squelchMarginDb = false ∧
    editMarginValid value.squelchMarginDb = true ∧
    value.squelchMarginDb ≠ (row.getD OptionValues.zero).squelchMarginDb

theorem editApply_undone {row : Option OptionValues} {mode : Mode} {edit : RowEdit}
    (hedit : edit.value.Sized) {value : EditValue} (hvalue : value.Sized) {bit : ℕ}
    (hbit : bit < fieldCount) (action : EditAction) :
    editApply row (editTakeFields (editChange edit bit action value) edit (bitMask bit)) mode =
      editApply row edit mode ↔ ¬Forgets row edit bit action value := by
  have hundone : editTakeFields (editChange edit bit action value) edit (bitMask bit) =
      edit.withMargin (edit.marginUndone bit action value) :=
    editTakeFields_editChange hedit hvalue hbit action
  rw [hundone, editApply_withMargin, editApply_squelchMarginDb, editApply_squelchMarginDb]
  have hset : (edit.withMargin (edit.marginUndone bit action value)).set = edit.set := rfl
  have hmargin : (edit.withMargin (edit.marginUndone bit action value)).value.squelchMarginDb =
      edit.marginUndone bit action value := rfl
  rw [hset, hmargin]
  unfold Forgets
  cases action with
  | set =>
    unfold RowEdit.marginUndone marginLeft
    by_cases hlost : bit = fieldSquelch ∧ editMarginValid edit.value.squelchMarginDb = false ∧
        editMarginValid value.squelchMarginDb = true
    · obtain ⟨hsquelch, hmissing, hvalid⟩ := hlost
      simp [hsquelch, hmissing, hvalid]
    · rw [if_neg hlost]
      simp only [true_iff]
      rintro ⟨hsquelch, -, -, hmissing, hvalid, -⟩
      exact hlost ⟨hsquelch, hmissing, hvalid⟩
  | inherit =>
    refine iff_of_true rfl ?_
    rintro ⟨-, haction, -⟩
    cases haction
  | reset =>
    refine iff_of_true rfl ?_
    rintro ⟨-, haction, -⟩
    cases haction

/-- The edits that changes and rollbacks make of no edit. -/
inductive RowEdit.Reachable : RowEdit → Prop where
  | zero : Reachable .zero
  | change {edit : RowEdit} (bit : ℕ) (action : EditAction) {value : EditValue} : Reachable edit →
      value.Sized → bit < fieldCount → Reachable (editChange edit bit action value)
  | takeFields {edit source : RowEdit} (fields : BitVec 32) : Reachable edit → Reachable source →
      Reachable (editTakeFields edit source fields)

theorem sized_foldl {source : EditValue} (hsource : source.Sized) (p : ℕ → Bool) (bits : List ℕ) :
    ∀ {v : EditValue}, v.Sized →
      (bits.foldl (fun v bit => if p bit then editCopyValue v bit source else v) v).Sized := by
  induction bits with
  | nil => exact fun h => h
  | cons bit bits ih =>
    intro v hv
    rw [foldl_cons]
    split
    · exact ih (hv.copy hsource bit)
    · exact ih hv

theorem RowEdit.Reachable.sized (h : edit.Reachable) : edit.value.Sized := by
  induction h with
  | zero => exact length_replicate
  | change bit action _ hvalue _ ih =>
    cases action with
    | set => exact ih.copy hvalue bit
    | inherit => exact ih
    | reset => exact ih
  | takeFields fields _ _ ih ih' => exact sized_foldl ih' _ _ ih

theorem disjoint_bit (h : a &&& b = 0) (i : ℕ) : (a.getLsbD i && b.getLsbD i) = false := by
  rw [← getLsbD_and, h]
  exact getLsbD_zero

/-- Two masks that were apart stay apart where bits of two others that are apart come in. -/
theorem disjoint_take {c d : BitVec 32} (h : a &&& b = 0) (h' : c &&& d = 0) :
    ((a &&& ~~~m) ||| (c &&& m)) &&& ((b &&& ~~~m) ||| (d &&& m)) = 0 := by
  refine eq_of_getLsbD_eq fun i hi => ?_
  have hab := disjoint_bit h i
  have hcd := disjoint_bit h' i
  simp only [getLsbD_or, getLsbD_and, getLsbD_not, hi, decide_true, Bool.true_and]
  generalize a.getLsbD i = p at *
  generalize b.getLsbD i = q at *
  generalize c.getLsbD i = r at *
  generalize d.getLsbD i = s at *
  cases m.getLsbD i <;> cases p <;> cases q <;> cases r <;> cases s <;> simp_all

theorem disjoint_move (h : a &&& b = 0) : (a ||| m) &&& (b &&& ~~~m) = 0 := by
  refine eq_of_getLsbD_eq fun i hi => ?_
  have hab := disjoint_bit h i
  simp only [getLsbD_or, getLsbD_and, getLsbD_not, hi, decide_true, Bool.true_and]
  generalize a.getLsbD i = p at *
  generalize b.getLsbD i = q at *
  cases m.getLsbD i <;> cases p <;> cases q <;> simp_all

theorem disjoint_drop (h : a &&& b = 0) : (a &&& ~~~m) &&& (b &&& ~~~m) = 0 := by
  have hdrop := disjoint_take (m := m) h (zero_and (x := 0#32))
  rwa [zero_and, or_zero, or_zero] at hdrop

/-- A field is set or inherited, not both. -/
theorem RowEdit.Reachable.disjoint (h : edit.Reachable) : edit.set &&& edit.inherit = 0 := by
  induction h with
  | zero => rfl
  | change bit action _ _ _ ih =>
    cases action with
    | set => exact disjoint_move ih
    | inherit =>
      rw [BitVec.and_comm] at ih ⊢
      exact disjoint_move ih
    | reset => exact disjoint_drop ih
  | takeFields fields _ _ ih ih' => exact disjoint_take ih ih'

/-- The entries of a scan's edits in use, and how many there is room for. -/
structure EditTable where
  entries : List (ℕ × RowEdit)
  capacity : ℕ

open EditTable

/-- `channel_scan_find_edit`. -/
def EditTable.find (t : EditTable) (row : ℕ) : Option RowEdit :=
  (t.entries.find? fun entry => entry.1 = row).map Prod.snd

/-- `channel_scan_store_edit`; nothing where no memory is given. -/
def EditTable.store (t : EditTable) (row : ℕ) (next : RowEdit) (grown : Bool) : Option EditTable :=
  match t.entries.findIdx? fun entry => entry.1 = row with
  | some i =>
    if next.fieldsEdited = 0 then
      some { t with entries := (t.entries.set i (t.entries.getLastD (row, next))).dropLast }
    else some { t with entries := t.entries.set i (row, next) }
  | none =>
    if next.fieldsEdited = 0 then some t
    else if t.entries.length = t.capacity then
      if grown then
        some
          { entries := t.entries ++ [(row, next)]
            capacity := if t.capacity ≠ 0 then t.capacity * 2 else 4 }
      else none
    else some { t with entries := t.entries ++ [(row, next)] }

/-- Entries that hold an edit of each row at most. -/
structure Lists (entries : List (ℕ × RowEdit)) (edits : ℕ → Option RowEdit) : Prop where
  nodup : (entries.map Prod.fst).Nodup
  mem : ∀ row edit, (row, edit) ∈ entries ↔ edits row = some edit

section Lists

variable {l l' : List (ℕ × RowEdit)} {edits : ℕ → Option RowEdit} {row : ℕ} {edit : RowEdit}

theorem Lists.perm (h : Lists l edits) (hperm : l.Perm l') : Lists l' edits :=
  ⟨(hperm.map Prod.fst).nodup_iff.mp h.nodup, fun r e => by rw [← hperm.mem_iff, h.mem]⟩

theorem Lists.tail (h : Lists ((row, edit) :: l) edits) : Lists l (update edits row none) := by
  have hnodup := h.nodup
  rw [map_cons, nodup_cons] at hnodup
  refine ⟨hnodup.2, fun r e => ?_⟩
  by_cases hr : r = row
  · subst hr
    rw [update_self]
    refine ⟨fun hmem => absurd (mem_map_of_mem (f := Prod.fst) hmem) hnodup.1, fun hmem => ?_⟩
    cases hmem
  · rw [update_of_ne hr, ← h.mem, mem_cons]
    refine ⟨Or.inr, fun hmem => hmem.resolve_left fun heq => hr ?_⟩
    exact congrArg Prod.fst heq

theorem Lists.cons (h : Lists l edits) (hrow : edits row = none) (next : RowEdit) :
    Lists ((row, next) :: l) (update edits row (some next)) := by
  have hout : ∀ e, (row, e) ∉ l := by
    intro e hmem
    rw [h.mem, hrow] at hmem
    cases hmem
  refine ⟨?_, fun r e => ?_⟩
  · rw [map_cons, nodup_cons]
    refine ⟨fun hmem => ?_, h.nodup⟩
    obtain ⟨⟨r, e⟩, hentry, hr⟩ := mem_map.mp hmem
    obtain rfl : r = row := hr
    exact hout e hentry
  · rw [mem_cons]
    by_cases hr : r = row
    · subst hr
      rw [update_self, Prod.mk.injEq, Option.some.injEq]
      refine ⟨fun hmem => ?_, fun heq => Or.inl ⟨rfl, heq.symm⟩⟩
      rcases hmem with ⟨-, heq⟩ | hmem
      · exact heq.symm
      · exact absurd hmem (hout e)
    · rw [update_of_ne hr, ← h.mem]
      refine ⟨fun hmem => hmem.resolve_left fun heq => hr (congrArg Prod.fst heq), Or.inr⟩

theorem Lists.find? (h : Lists l edits) (row : ℕ) :
    (l.find? fun entry => entry.1 = row).map Prod.snd = edits row := by
  cases hfind : l.find? fun entry => entry.1 = row with
  | none =>
    cases hedit : edits row with
    | none => rfl
    | some edit =>
      have hmem := (h.mem row edit).mpr hedit
      have hno := find?_eq_none.mp hfind _ hmem
      simp at hno
  | some entry =>
    have hrow : entry.1 = row := by simpa using find?_some hfind
    have hmem := mem_of_find?_eq_some hfind
    rw [Option.map_some, ← (h.mem row entry.2).mp (by rw [← hrow]; exact hmem)]

end Lists

/-- The last entry put in the place of another: the other is gone. -/
theorem swapRemove_perm {α : Type} (l : List α) (hi : i < l.length) (d : α) :
    ((l.set i (l.getLastD d)).dropLast).Perm (l.eraseIdx i) := by
  rcases eq_nil_or_concat l with rfl | ⟨init, last, rfl⟩
  · cases hi
  · rw [concat_eq_append, length_append, length_singleton] at hi
    rw [concat_eq_append, getLastD_concat]
    rcases Nat.lt_or_ge i init.length with hlt | hge
    · rw [set_append_left _ _ hlt, dropLast_concat, eraseIdx_append_of_lt_length hlt]
      exact (set_perm_cons_eraseIdx hlt last).trans (perm_append_singleton _ _).symm
    · obtain rfl : i = init.length := by omega
      rw [set_append_right _ _ hge, Nat.sub_self, set_cons_zero, dropLast_concat,
        eraseIdx_append_of_length_le hge, Nat.sub_self, eraseIdx_cons_zero,
        append_nil]

theorem eraseIdx_perm {α : Type} {l : List α} (hi : i < l.length) :
    l.Perm (l[i] :: l.eraseIdx i) := (getElem_cons_eraseIdx_perm hi).symm

/-- A scan that was just opened has no edits. -/
def EditTable.empty : EditTable := ⟨[], 0⟩

theorem lists_empty : Lists EditTable.empty.entries fun _ => none :=
  ⟨nodup_nil, fun _ _ => ⟨fun h => absurd h not_mem_nil, fun h => by cases h⟩⟩

/-- What is kept of a row's edit: nothing once it edits nothing. -/
def RowEdit.kept (edit : RowEdit) : Option RowEdit :=
  if edit.fieldsEdited = 0 then none else some edit

variable {t : EditTable} {edits : ℕ → Option RowEdit}

theorem EditTable.lists_store (h : Lists t.entries edits) (row : ℕ) (next : RowEdit)
    (grown : Bool) :
    match t.store row next grown with
    | some t' => Lists t'.entries (update edits row next.kept)
    | none => t.entries.length = t.capacity ∧ grown = false := by
  unfold store RowEdit.kept
  cases hfind : t.entries.findIdx? fun entry => entry.1 = row with
  | some i =>
    obtain ⟨hi, hrow, -⟩ := findIdx?_eq_some_iff_getElem.mp hfind
    obtain ⟨old, hold⟩ : ∃ old, t.entries[i] = (row, old) :=
      ⟨t.entries[i].2, Prod.ext (of_decide_eq_true hrow) rfl⟩
    have hperm := eraseIdx_perm hi
    rw [hold] at hperm
    have hrest := (h.perm hperm).tail
    by_cases hnone : next.fieldsEdited = 0
    · simp only [if_pos hnone]
      exact hrest.perm (swapRemove_perm _ hi _).symm
    · simp only [if_neg hnone]
      have hcons := hrest.cons (update_self row none edits) next
      rw [update_idem] at hcons
      exact hcons.perm (set_perm_cons_eraseIdx hi _).symm
  | none =>
    have hrow : edits row = none := by
      cases hedit : edits row with
      | none => rfl
      | some edit =>
        have hno := findIdx?_eq_none_iff.mp hfind _ ((h.mem row edit).mpr hedit)
        simp at hno
    by_cases hnone : next.fieldsEdited = 0
    · simp only [if_pos hnone]
      rw [← hrow, update_eq_self]
      exact h
    · have happend : Lists (t.entries ++ [(row, next)])
          (update edits row (some next)) :=
        (h.cons hrow next).perm (perm_append_singleton _ _).symm
      simp only [if_neg hnone]
      by_cases hfull : t.entries.length = t.capacity
      · rw [if_pos hfull]
        cases grown with
        | true => exact happend
        | false => exact ⟨hfull, rfl⟩
      · rw [if_neg hfull]
        exact happend

/-- What an edit of a row is asked: a field changed, or fields taken from an earlier edit. -/
inductive EditCall where
  | change (bit : ℕ) (action : EditAction) (value : EditValue)
  | restore (fields : BitVec 32) (source : RowEdit)

/-- The edit a call makes of a row's edit. -/
def EditCall.next : EditCall → RowEdit → RowEdit
  | .change bit action value, edit => editChange edit bit action value
  | .restore fields source, edit => editTakeFields edit source fields

/-- `dsd_engine_channel_scan_edit_row` or `dsd_engine_channel_scan_restore_row_edit`: whether its
session, row, field, value and width are accepted, and whether memory is given. -/
structure EditAttempt where
  row : ℕ
  call : EditCall
  accepted : Bool
  grown : Bool

/-- The edit of a row that a call is made of. -/
def EditTable.current (t : EditTable) (row : ℕ) : RowEdit := (t.find row).getD RowEdit.zero

/-- One call: the table it leaves, none where it is refused. -/
def EditTable.attempt (t : EditTable) (a : EditAttempt) : Option EditTable :=
  if a.accepted then t.store a.row (a.call.next (t.current a.row)) a.grown else none

/-- The table after one call. -/
def EditTable.after (t : EditTable) (a : EditAttempt) : EditTable := (t.attempt a).getD t

/-- The table after calls. -/
def EditTable.run (t : EditTable) (as : List EditAttempt) : EditTable := as.foldl after t

/-- The calls of a row that were not refused. -/
def EditTable.taken (t : EditTable) (row : ℕ) : List EditAttempt → List EditCall
  | [] => []
  | a :: as =>
    let rest := (t.after a).taken row as
    if a.row = row ∧ (t.attempt a).isSome then a.call :: rest else rest

/-- The edit of a row after its own calls. -/
def editOf (edit : Option RowEdit) (calls : List EditCall) : Option RowEdit :=
  calls.foldl (fun edit call => (call.next (edit.getD RowEdit.zero)).kept) edit

theorem EditTable.find_after (h : Lists t.entries edits) (a : EditAttempt) :
    Lists (t.after a).entries (if (t.attempt a).isSome then
      update edits a.row (a.call.next (t.current a.row)).kept else edits) := by
  unfold after attempt
  cases a.accepted with
  | false => exact h
  | true =>
    have hstore := lists_store h a.row (a.call.next (t.current a.row)) a.grown
    rw [if_pos rfl]
    cases hs : t.store a.row (a.call.next (t.current a.row)) a.grown with
    | none => exact h
    | some t' =>
      rw [hs] at hstore
      exact hstore

theorem EditTable.taken_cons (t : EditTable) (row : ℕ) (a : EditAttempt) (as : List EditAttempt) :
    t.taken row (a :: as) = if a.row = row ∧ (t.attempt a).isSome then
      a.call :: (t.after a).taken row as else (t.after a).taken row as := rfl

theorem EditTable.find_run (h : Lists t.entries edits) (row : ℕ) (as : List EditAttempt) :
    (t.run as).find row = editOf (t.find row) (t.taken row as) := by
  induction as generalizing t edits with
  | nil => rfl
  | cons a as ih =>
    have hafter := find_after h a
    have hfind : ∀ r, t.find r = edits r := h.find?
    have hfind' := hafter.find? row
    have hstep : (t.run (a :: as)).find row =
        editOf ((t.after a).find row) ((t.after a).taken row as) := ih hafter
    rw [hstep]
    have hnow : (t.after a).find row = (if (t.attempt a).isSome then
        update edits a.row (a.call.next (t.current a.row)).kept else edits) row := hfind'
    rw [taken_cons]
    by_cases htaken : (t.attempt a).isSome
    · rw [if_pos htaken] at hnow
      by_cases hrow : a.row = row
      · rw [if_pos ⟨hrow, htaken⟩, hnow, hrow, update_self]
        unfold current
        rfl
      · rw [if_neg fun h => hrow h.1, hnow, update_of_ne fun h => hrow h.symm, hfind]
    · rw [if_neg htaken] at hnow
      rw [if_neg fun h => htaken h.2, hnow, hfind]

/-- A change of one field that is taken back gives a row the options and the gain it had before just
when it does not forget that the squelch had no margin; a field is set or inherited, not both;
changes of two fields commute; and the options of a row follow its own edits, of which a call that
is refused is none. -/
theorem row_edit_undone (edit : RowEdit) (hedit : edit.Reachable) :
    (∀ (row : Option OptionValues) (mode : Mode) (bit : ℕ) (action : EditAction) (value : EditValue)
      (listIsSet : Bool) (listDb : ℤ), bit < fieldCount → value.Sized →
      ((editApply row (editTakeFields (editChange edit bit action value) edit (bitMask bit)) mode =
          editApply row edit mode ∧
        editGain listIsSet listDb
          (editTakeFields (editChange edit bit action value) edit (bitMask bit)) =
          editGain listIsSet listDb edit) ↔
        ¬Forgets row edit bit action value)) ∧
    edit.set &&& edit.inherit = 0 ∧
    (∀ (bit other : ℕ) (action action' : EditAction) (v w : EditValue), bit < fieldCount →
      other < fieldCount → bit ≠ other → v.Sized → w.Sized →
      editChange (editChange edit bit action v) other action' w =
        editChange (editChange edit other action' w) bit action v) ∧
    (∀ (plan : Plan) (as as' : List EditAttempt) (row : ℕ),
      EditTable.empty.taken row as = EditTable.empty.taken row as' →
      rowValues plan (EditTable.empty.run as).find row =
        rowValues plan (EditTable.empty.run as').find row) ∧
    (∀ (plan : Plan) (as : List EditAttempt) (a : EditAttempt) (row : ℕ),
      (EditTable.empty.run as).attempt a = none →
      rowValues plan (EditTable.empty.run (as ++ [a])).find row =
        rowValues plan (EditTable.empty.run as).find row) := by
  refine ⟨fun row mode bit action value listIsSet listDb hbit hvalue => ?_, hedit.disjoint,
    fun bit other action action' v w hbit hother hne hv hw =>
      editChange_comm hedit.sized hv hw hbit hother hne action action',
    fun plan as as' row hown => ?_, fun plan as a row hrefused => ?_⟩
  · have hgain : editGain listIsSet listDb
        (editTakeFields (editChange edit bit action value) edit (bitMask bit)) =
        editGain listIsSet listDb edit := by
      rw [editTakeFields_editChange hedit.sized hvalue hbit action]
      rfl
    have hundone := @editApply_undone row mode edit hedit.sized value hvalue bit hbit action
    exact ⟨fun h => hundone.mp h.1, fun h => ⟨hundone.mpr h, hgain⟩⟩
  · have hsame : (EditTable.empty.run as).find row = (EditTable.empty.run as').find row := by
      rw [find_run lists_empty, find_run lists_empty, hown]
    rw [rowValues, rowValues, hsame]
  · have hkept : EditTable.empty.run (as ++ [a]) = EditTable.empty.run as := by
      rw [EditTable.run, foldl_append, foldl_cons, foldl_nil]
      exact congrArg (Option.getD · _) hrefused
    rw [hkept]

/-- A level without a margin. -/
def level : EditValue := { RowEdit.zero.value with squelchDb := -50 }

/-- A dynamic squelch of 10 dB. -/
def auto : EditValue :=
  { RowEdit.zero.value with squelchMode := squelchAuto, squelchMarginDb := 10 }

theorem sized_level : level.Sized := length_replicate

theorem sized_auto : auto.Sized := length_replicate

/-- A row edited to a level without a margin. -/
def levelEdit : RowEdit := editChange .zero fieldSquelch .set level

theorem reachable_levelEdit : levelEdit.Reachable :=
  .change fieldSquelch .set .zero sized_level (by decide)

/-- A louder level. -/
def louder : EditValue := { RowEdit.zero.value with squelchDb := -40 }

theorem sized_louder : louder.Sized := length_replicate

/-- Taking back a louder level over the level gives the options and the gain there were. -/
theorem row_edit_undone_louder :
    editApply none (editTakeFields (editChange levelEdit fieldSquelch .set louder) levelEdit
        (bitMask fieldSquelch)) .nfm = editApply none levelEdit .nfm ∧
      editGain true 6 (editTakeFields (editChange levelEdit fieldSquelch .set louder) levelEdit
        (bitMask fieldSquelch)) = editGain true 6 levelEdit := by
  refine ((row_edit_undone levelEdit reachable_levelEdit).1 none .nfm fieldSquelch .set louder
    true 6 (by decide) sized_louder).mpr ?_
  rintro ⟨-, -, -, -, hvalid, -⟩
  cases hvalid

/-- Taking back a dynamic squelch over the level leaves its margin of 10 dB. -/
theorem row_edit_not_undone : levelEdit.Reachable ∧ auto.Sized ∧
    editApply none (editTakeFields (editChange levelEdit fieldSquelch .set auto) levelEdit
      (bitMask fieldSquelch)) .nfm ≠ editApply none levelEdit .nfm := by
  refine ⟨reachable_levelEdit, sized_auto, fun h => ?_⟩
  have hmargin := congrArg OptionValues.squelchMarginDb h
  rw [editApply_squelchMarginDb, editApply_squelchMarginDb] at hmargin
  exact absurd hmargin (by decide)

end DsdNeo.ChannelScan
