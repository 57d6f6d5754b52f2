import DsdNeo.Models.Talkgroup.Precedence

/-!
# What the calls on rows do

A call that edits the rows of a state finds its store or makes one, and either leaves the tables as
they are or makes one mutation of that store, after which its rows are well formed if they were.
Whole tables are imported into stores that are new.
-/

namespace DsdNeo.TgPolicy

open Program Still

/-- Rows replaced and the generation advanced, which refreshes the active calls. -/
structure RowEdit (s s' : Store) : Prop where
  note : ∃ rows capacity, s' = noteMutation
    { s with table := { s.table with entries := rows, capacity := capacity } }
  rowsOk : s.RowsOk → s'.RowsOk

/-- A refresh keeps calls valid as they are. -/
theorem noteMutation_calls {s : Store} (h : ∀ call ∈ s.active.calls, call.valid = 0) :
    ∀ call ∈ (noteMutation s).active.calls, call.valid = 0 := by
  intro call hcall
  obtain ⟨old, hold, rfl⟩ := Vector.mem_map.mp hcall
  have hvalid := h old hold
  rw [if_pos hvalid]
  exact hvalid

theorem rowEdit_editRows {s : Store} (edit : List Entry → List Entry)
    (h : s.RowsOk → ∀ e ∈ edit s.rows, e.WellFormed) :
    RowEdit s (noteMutation (s.withRows (edit s.rows))) :=
  ⟨⟨edit s.rows, s.table.capacity, rfl⟩, h⟩

variable {e : Entry} {rows : List Entry}

theorem rowsOk_append (h : ∀ e ∈ rows, e.WellFormed) (he : e.WellFormed) :
    ∀ e' ∈ rows ++ [e], e'.WellFormed := by
  intro e' he'
  rcases List.mem_append.mp he' with hold | hlast
  · exact h e' hold
  · rwa [List.mem_singleton.mp hlast]

theorem rowsOk_set (h : ∀ e ∈ rows, e.WellFormed) (he : e.WellFormed) (i : ℕ) :
    ∀ e' ∈ rows.set i e, e'.WellFormed := by
  intro e' he'
  rcases List.mem_or_eq_of_mem_set he' with hold | rfl
  · exact h e' hold
  · exact he

theorem rowsOk_modify (h : ∀ e ∈ rows, e.WellFormed) {f : Entry → Entry}
    (hf : ∀ e, e.WellFormed → (f e).WellFormed) (i : ℕ) :
    ∀ e' ∈ rows.modify i f, e'.WellFormed := by
  intro e' he'
  obtain ⟨j, hj⟩ := List.getElem?_of_mem he'
  rw [List.getElem?_modify] at hj
  cases hold : rows[j]? with
  | none =>
    rw [hold] at hj
    cases hj
  | some e =>
    rw [hold] at hj
    have he := h e (List.mem_of_getElem? hold)
    split at hj
    · rw [← Option.some.inj hj]
      exact hf e he
    · rw [← Option.some.inj hj]
      exact he

theorem rowsOk_eraseIdx (h : ∀ e ∈ rows, e.WellFormed) (i : ℕ) :
    ∀ e ∈ rows.eraseIdx i, e.WellFormed := fun e he => h e (List.mem_of_mem_eraseIdx he)

theorem storedEntry_wellFormed
    (h : (if e.isRange ≠ 0 then entryValidRange e else entryValidExact e) = true) :
    (storedEntry e).WellFormed := by
  have hcopy := copyEntryNormalized_wellFormed h
  rw [storedEntry]
  split
  · rename_i hexact
    have hnormal := hcopy.normal
    obtain ⟨-, -, hkind, -⟩ := normalizeEntry_frame
      { e with
        mode := safeCopy (Chars.zero 8) e.mode.cstr
        name := safeCopy (Chars.zero 50) e.name.cstr
        tags := safeCopy (Chars.zero 50) e.tags.cstr
        isRange := flag e.isRange }
    have hrange : (copyEntryNormalized e).isRange = 0 := by
      rw [copyEntryNormalized, hkind, hexact]
      rfl
    exact ⟨Or.inl ⟨hrange, rfl⟩, hnormal.priority, hnormal.preempt, hnormal.audio, hnormal.record,
      hnormal.stream, hnormal.blocked, hnormal.silent⟩
  · exact hcopy

theorem modeEdited_wellFormed (h : e.WellFormed) (idStart idEnd : BitVec 32) (mode : CString) :
    (modeEdited e idStart idEnd mode).WellFormed := by
  rw [modeEdited]
  split
  · exact makeExactEntry_wellFormed ..
  · exact entryApplyMode_wellFormed h.bounded mode

variable {w v : World} {a : ℕ}

theorem wp_tableReserve {needed : ℕ} {post : Bool → World → Prop}
    (h : ∀ ok w', Still w w' → post ok w') : Wp (tableReserve a needed) w post := by
  refine wp_bind (wp_storeAt (wp_ite (fun _ => h _ w (Still.refl w)) fun _ => ?_))
  refine wp_bind (wp_allocate fun ok => wp_ite (fun _ => ?_) fun _ => h _ _ (still_tape w _))
  have hroom : ∀ capacity (s : Store), Level s
      { s with table := { s.table with capacity := capacity } } :=
    fun _ _ => ⟨⟨⟨rfl, rfl, rfl⟩, rfl, rfl, rfl⟩, rfl, rfl⟩
  exact wp_bind (wp_modifyStore (h _ _ ((still_tape w _).trans (still_edited fun s =>
    hroom (growTarget needed (if (w.heap.getD a (Store.fresh 0)).table.capacity > 0 then
      (w.heap.getD a (Store.fresh 0)).table.capacity else 16) needed) s))))

variable {post : ℤ → World → Prop}

/-- `dsd_tg_policy_store_append` adds one row, or nothing happens. -/
theorem wp_storeAppend {entry : Entry} (hfail : ∀ r w', r ≠ 0 → Still w w' → post r w')
    (hdone : ∀ v f, Still w v → (∀ s, RowEdit s (f s)) → post 0 (v.edited a f)) :
    Wp (storeAppend a entry) w post := by
  refine wp_ite (fun _ => hfail 1 w (by decide) (Still.refl w)) fun hvalid => ?_
  refine wp_bind (wp_storeAt (wp_bind (wp_tableReserve fun ok v hstill => ?_)))
  refine wp_ite (fun _ => ?_) fun _ => hfail (-1) v (by decide) hstill
  refine wp_bind (wp_modifyStore (hdone v _ hstill fun s => rowEdit_editRows
    (· ++ [storedEntry entry]) fun hok => ?_))
  have hentry : (storedEntry entry).WellFormed :=
    storedEntry_wellFormed (by simpa only [Bool.not_eq_true', Bool.not_eq_false] using hvalid)
  exact rowsOk_append hok hentry

/-- A call on the rows of a state: tables stay as they are, with a store made or not, or the store
of the state is mutated once and the result is zero. -/
inductive Mutates (w : World) (s : StateId) : ℤ → World → Prop where
  | spent {r : ℤ} {w' : World} : Spent w w' → Mutates w s r w'
  | filled {r : ℤ} {a : ℕ} {w' : World} : Filled w s a w' → Mutates w s r w'
  | edited {a : ℕ} {v : World} {f : Store → Store} : Filled w s a v →
      (∀ st, v.heap[a]? = some st → RowEdit st (f st)) → Mutates w s 0 (v.edited a f)

open Mutates

variable {s : StateId}

theorem mutates_storeAppend (hfilled : Filled w s a v) (entry : Entry) :
    Wp (storeAppend a entry) v (Mutates w s) :=
  wp_storeAppend (fun _ _ _ h => filled (hfilled.still h)) fun _ _ h hf =>
    Mutates.edited (hfilled.still h) fun st _ => hf st

/-- Rows of a store replaced by well-formed ones. -/
theorem mutates_editRows (hfilled : Filled w s a v) {edit : List Entry → List Entry}
    (h : ∀ st, v.heap[a]? = some st → st.RowsOk → ∀ e ∈ edit st.rows, e.WellFormed) :
    Wp (editRows a edit) v fun _ w' => Mutates w s 0 w' :=
  wp_modifyStore (Mutates.edited hfilled fun st hst => rowEdit_editRows edit (h st hst))

/-- A row put at the end of the rows of a state. -/
theorem mutates_append (w : World) (s : StateId) (entry : Entry) :
    Wp (do
      match ← ctxGetMut s true with
      | some a => storeAppend a entry | none => pure (-1)) w (Mutates w s) := by
  refine wp_bind ?_
  exact wp_ctxGetMut (fun w' _ h => spent h.spent) fun a v h => mutates_storeAppend h entry

theorem mutates_addRangeEntry (w : World) (s : StateId) (entry : Entry) :
    Wp (addRangeEntry s entry) w (Mutates w s) :=
  wp_ite (fun _ => spent (Still.refl w).spent) fun _ => mutates_append w s entry

theorem mutates_appendExact (w : World) (s : StateId) (entry : Entry) :
    Wp (appendExact s entry) w (Mutates w s) :=
  wp_ite (fun _ => spent (Still.refl w).spent) fun _ => mutates_append w s entry

theorem wp_rowsAt_some {post : List Entry → World → Prop}
    (h : post (w.heap.getD a (Store.fresh 0)).rows w) : Wp (rowsAt (some a)) w post := h

/-- A store that is there is found. -/
theorem wp_ctxGetMut_some {create : Bool} {post : Option ℕ → World → Prop} (ha : w.slots s = some a)
    (h : post (some a) w) : Wp (ctxGetMut s create) w post := by
  refine wp_bind (wp_slotOf ?_)
  rw [ha]
  exact h

theorem Filled.slot (h : Filled w s a v) : v.slots s = some a := by
  rw [h.slots, Function.update_self]

theorem mutates_appendExact_of (hfilled : Filled w s a v) (entry : Entry) :
    Wp (appendExact s entry) v (Mutates w s) := by
  refine wp_ite (fun _ => filled hfilled) fun _ => wp_bind ?_
  exact wp_ctxGetMut_some hfilled.slot (mutates_storeAppend hfilled entry)

/-- The row `dsd_tg_policy_upsert_exact` puts in. -/
theorem upserted_wellFormed {entry : Entry} (h : entryValidExact entry = true) :
    ({ copyEntryNormalized entry with
        isRange := 0, idEnd := (copyEntryNormalized entry).idStart } : Entry).WellFormed := by
  have hkind : entry.isRange = 0 := by
    simp only [entryValidExact, Bool.and_eq_true, decide_eq_true_eq] at h
    exact h.1
  have hnormal := (copyEntryNormalized_wellFormed (by rwa [if_neg (by simpa using hkind)])).normal
  exact ⟨Or.inl ⟨rfl, rfl⟩, hnormal.priority, hnormal.preempt, hnormal.audio, hnormal.record,
    hnormal.stream, hnormal.blocked, hnormal.silent⟩

theorem mutates_upsertExact (w : World) (s : StateId) (entry : Entry) (mode : UpsertMode) :
    Wp (upsertExact s entry mode) w (Mutates w s) := by
  refine wp_ite (fun _ => spent (Still.refl w).spent) fun hvalid => ?_
  rw [Bool.not_eq_true', Bool.not_eq_false] at hvalid
  have hrow := upserted_wellFormed hvalid
  cases mode with
  | addIfMissing =>
    refine wp_bind (wp_ctxGetMut_found (wp_bind ?_))
    cases w.slots s with
    | none =>
      exact wp_ite (fun _ => spent (Still.refl w).spent) fun _ =>
        mutates_appendExact w s _
    | some a =>
      exact wp_ite (fun _ => spent (Still.refl w).spent) fun _ =>
        mutates_appendExact w s _
  | replaceFirst =>
    refine wp_bind (wp_ctxGetMut (fun w' _ h => spent h.spent) fun a v hfilled => ?_)
    refine wp_bind (wp_rowsAt_some (wp_ite (fun _ => mutates_appendExact_of hfilled _) fun _ => ?_))
    exact wp_bind (mutates_editRows hfilled fun st _ hok => rowsOk_set hok hrow _)
  | replaceLearnedOnly =>
    refine wp_bind (wp_ctxGetMut (fun w' _ h => spent h.spent) fun a v hfilled => ?_)
    refine wp_bind (wp_rowsAt_some (wp_ite (fun _ => filled hfilled) fun _ => ?_))
    refine wp_ite (fun _ => filled hfilled) fun _ => ?_
    exact wp_bind (mutates_editRows hfilled fun st _ hok => rowsOk_set hok hrow _)

theorem mutates_setMode (w : World) (s : StateId) (idStart idEnd : BitVec 32) (mode : CString) :
    Wp (setMode s idStart idEnd mode) w (Mutates w s) := by
  refine wp_ite (fun _ => spent (Still.refl w).spent) fun _ => wp_bind ?_
  refine wp_ctxGetMut (fun w' _ h => spent h.spent) fun a v hfilled => ?_
  refine wp_bind (wp_storeAt (wp_ite (fun _ => ?_) fun _ => ?_))
  · exact wp_bind (mutates_editRows hfilled fun st _ hok =>
      rowsOk_modify hok (fun e he => modeEdited_wellFormed he idStart idEnd mode) _)
  · exact wp_ite (fun _ => filled hfilled) fun _ => mutates_storeAppend hfilled _

theorem mutates_setModeAt (w : World) (s : StateId) (index : ℕ) (mode : CString) :
    Wp (setModeAt s index mode) w (Mutates w s) := by
  refine wp_bind (wp_ctxGetMut_found (wp_bind ?_))
  cases hslot : w.slots s with
  | none => exact spent (Still.refl w).spent
  | some a =>
    refine wp_rowsAt_some (wp_ite (fun _ => spent (Still.refl w).spent) fun _ => wp_bind ?_)
    exact mutates_editRows ((Still.refl w).filled hslot) fun st _ hok =>
      rowsOk_modify hok (fun e he => entryApplyMode_wellFormed he.bounded mode) _

theorem mutates_setFields (w : World) (s : StateId) (idStart idEnd : BitVec 32) (values : Entry)
    (mask : BitVec 32) : Wp (setFields s idStart idEnd values mask) w (Mutates w s) := by
  refine wp_ite (fun _ => spent (Still.refl w).spent) fun hvalid => wp_bind ?_
  have hvalues : otherFieldsInvalid values mask = false := by
    simp only [not_or, Bool.not_eq_true] at hvalid
    exact hvalid.2.2.2.2
  refine wp_ctxGetMut (fun w' _ h => spent h.spent) fun a v hfilled => ?_
  refine wp_bind (wp_storeAt (wp_ite (fun _ => ?_) fun _ => mutates_storeAppend hfilled _))
  refine wp_ite (fun _ => filled hfilled) fun _ => wp_bind ?_
  exact mutates_editRows hfilled fun st _ hok =>
    rowsOk_modify hok (fun e he => applyFields_wellFormed he hvalues) _

theorem mutates_removeBounds (w : World) (s : StateId) (idStart idEnd : BitVec 32) :
    Wp (removeBounds s idStart idEnd) w (Mutates w s) := by
  refine wp_bind (wp_ctxGetMut_found (wp_bind ?_))
  cases hslot : w.slots s with
  | none => exact spent (Still.refl w).spent
  | some a =>
    refine wp_rowsAt_some (wp_ite (fun _ => spent (Still.refl w).spent) fun _ => ?_)
    refine wp_ite (fun _ => spent (Still.refl w).spent) fun _ => wp_bind ?_
    exact mutates_editRows ((Still.refl w).filled hslot) fun st _ hok => rowsOk_eraseIdx hok _

/-- The rows a slot shows. -/
def World.rowsIn (w : World) (ctx : Option ℕ) : List Entry :=
  (ctx.map fun a => (w.heap.getD a (Store.fresh 0)).rows).getD []

theorem wp_rowsAt {ctx : Option ℕ} {post : List Entry → World → Prop} (h : post (w.rowsIn ctx) w) :
    Wp (rowsAt ctx) w post := by
  cases ctx with
  | none => exact h
  | some a => exact h

theorem wp_selectionHasDuplicates {selection : List Selection}
    (h : ∀ r tape, (r = 0 → repeats ((selection.map selectionKey).mergeSort (· ≤ ·)) = false) →
      post r { w with tape := tape }) : Wp (selectionHasDuplicates selection) w post := by
  refine wp_ite (fun _ => h (-1) w.tape fun h => absurd h (by decide)) fun _ => ?_
  refine wp_bind (wp_allocate fun ok => wp_ite (fun _ => ?_) fun _ =>
    h (-1) _ fun h => absurd h (by decide))
  refine h _ w.tape.tail fun hzero => ?_
  cases hrepeats : repeats ((selection.map selectionKey).mergeSort (· ≤ ·)) with
  | false => rfl
  | true =>
    rw [hrepeats, if_pos rfl] at hzero
    have hone : (1 : ℤ) = 0 := hzero
    exact absurd hone (by decide)

theorem wp_contextOrNew {ctx : Option ℕ} {post : Option ℕ → World → Prop} (hctx : w.slots s = ctx)
    (hnone : ∀ w', Still w w' → post none w') (hsome : ∀ a w', Filled w s a w' → post (some a) w') :
    Wp (contextOrNew s ctx) w post := by
  cases ctx with
  | some a => exact hsome a w ((Still.refl w).filled hctx)
  | none => exact wp_allocInto hctx hnone hsome

/-- What a bulk edit that is applied was asked. -/
structure Selected (w : World) (s : StateId) (context : BitVec 64) (generation : BitVec 32)
    (selection : List Selection) (listening : ℤ) (entries : List Entry) : Prop where
  version : w.tableVersion s = (context, generation)
  asked : listening = 0 ∨ listening = 1
  distinct : repeats ((selection.map selectionKey).mergeSort (· ≤ ·)) = false
  prepared : prepareSelection (w.rowsIn (w.slots s)) listening selection (w.rowsIn (w.slots s)) =
    some entries

theorem wp_setListeningSelection {context : BitVec 64} {generation : BitVec 32}
    {selection : List Selection} {listening : ℤ} (hfail : ∀ r w', r ≠ 0 → Spent w w' → post r w')
    (hdone : ∀ a v entries capacity, Filled w s a v →
      Selected w s context generation selection listening entries →
      post 0 (v.edited a fun st => noteMutation
        { st with table := { st.table with entries := entries, capacity := capacity } })) :
    Wp (setListeningSelection s context generation selection listening) w post := by
  have hspent : ∀ tape, Spent w { w with tape := tape } := fun tape => (still_tape w tape).spent
  refine wp_bind (wp_ite (fun _ => hfail 1 w (by decide) (Still.refl w).spent) fun hasked => ?_)
  have hlistening : listening = 0 ∨ listening = 1 := by
    rw [not_or, not_not] at hasked
    exact hasked.2
  refine wp_ite (fun _ => hfail 1 w (by decide) (Still.refl w).spent) fun hversion => ?_
  rw [ne_eq, not_not] at hversion
  refine wp_bind (wp_ctxGetMut_found (wp_bind (wp_selectionHasDuplicates fun r tape hr => ?_)))
  refine wp_ite (fun hne => hfail r _ hne (hspent tape)) fun hzero => wp_bind (wp_rowsAt ?_)
  refine wp_ite (fun _ => hfail (-1) _ (by decide) (hspent tape)) fun _ => ?_
  refine wp_bind (wp_allocate fun ok => wp_ite (fun _ => ?_) fun _ =>
    hfail (-1) _ (by decide) (hspent _))
  have hrows : ({ w with tape := tape } : World).rowsIn (w.slots s) = w.rowsIn (w.slots s) := rfl
  rw [hrows]
  cases hprepared : prepareSelection (w.rowsIn (w.slots s)) listening selection
      (w.rowsIn (w.slots s)) with
  | none => exact hfail 1 _ (by decide) (hspent _)
  | some entries =>
    refine wp_bind (wp_contextOrNew rfl (fun w' h => ?_) fun a v h => ?_)
    · exact hfail (-1) w' (by decide) ((still_tape w _).trans h).spent
    · have hfilled : Filled w s a v := (still_tape w tape.tail).before h rfl
      exact wp_bind (wp_modifyStore (hdone a v entries _ hfilled
        ⟨hversion, hlistening, hr (not_not.mp hzero), hprepared⟩))

end DsdNeo.TgPolicy
