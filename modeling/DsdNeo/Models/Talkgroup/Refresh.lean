import DsdNeo.Models.Talkgroup.Mutators

/-!
# Priorities follow every mutation

Every call that touches a table leaves it as it is, or notes a mutation, which refreshes the active
calls of that store. Tables that are put in place whole come in stores that no call was noted in.
Either way the priority of an active call is the one a decision reports.
-/

namespace DsdNeo.TgPolicy

open Program

/-- No call is active. -/
def Store.Idle (s : Store) : Prop := ∀ call ∈ s.active.calls, call.valid = 0

variable {s s' : Store}

theorem Store.Idle.refreshed (h : s.Idle) : s.Refreshed :=
  fun call hcall hvalid => absurd (h call hcall) hvalid

/-- The table stays with the calls, or the calls are refreshed. -/
structure Follows (s s' : Store) : Prop where
  idle : s.Idle → s'.Idle
  table : (s'.rows = s.rows ∧ s'.table.generation = s.table.generation ∧
    s'.active.calls = s.active.calls) ∨ s'.Refreshed

theorem Follows.of_eq (hrows : s'.rows = s.rows)
    (hgeneration : s'.table.generation = s.table.generation)
    (hcalls : s'.active.calls = s.active.calls) : Follows s s' := by
  refine ⟨fun h call hcall => ?_, Or.inl ⟨hrows, hgeneration, hcalls⟩⟩
  rw [hcalls] at hcall
  exact h call hcall

theorem Follows.refl (s : Store) : Follows s s := .of_eq rfl rfl rfl

theorem Follows.trans {s'' : Store} (h : Follows s s') (h' : Follows s' s'') : Follows s s'' := by
  refine ⟨fun hidle => h'.idle (h.idle hidle), ?_⟩
  rcases h'.table with ⟨hrows', hgeneration', hcalls'⟩ | hfresh
  · rcases h.table with ⟨hrows, hgeneration, hcalls⟩ | hfresh
    · exact Or.inl ⟨hrows'.trans hrows, hgeneration'.trans hgeneration, hcalls'.trans hcalls⟩
    · refine Or.inr fun call hcall hvalid => ?_
      rw [hcalls'] at hcall
      rw [hrows']
      exact hfresh call hcall hvalid
  · exact Or.inr hfresh

theorem Level.follows (h : Level s s') : Follows s s' :=
  .of_eq h.rows h.generation (congrArg ActiveTable.calls h.active)

theorem follows_noteMutation (h : s'.active.calls = s.active.calls) :
    Follows s (noteMutation s') := by
  refine ⟨fun hidle => noteMutation_calls fun call hcall => ?_, Or.inr (noteMutation_refreshed s')⟩
  rw [h] at hcall
  exact hidle call hcall

theorem RowEdit.follows (h : RowEdit s s') : Follows s s' := by
  obtain ⟨rows, capacity, rfl⟩ := h.note
  exact follows_noteMutation rfl

/-- Every store follows its table, and a store that is added has no active call. -/
structure AllFollow (w w' : World) : Prop where
  old : ∀ (b : ℕ) s, w.heap[b]? = some s → ∃ s', w'.heap[b]? = some s' ∧ Follows s s'
  new : ∀ (b : ℕ) s', w.heap[b]? = none → w'.heap[b]? = some s' → s'.Idle

instance : IsPreorder World AllFollow where
  refl w := ⟨fun _ s hs => ⟨s, hs, .refl s⟩, fun b s hnone hs => by rw [hnone] at hs; cases hs⟩
  trans w w' w'' h h' := by
    refine ⟨fun b s hs => ?_, fun b s hnone hs => ?_⟩
    · obtain ⟨s', hs', hfollows⟩ := h.old b s hs
      obtain ⟨s'', hs'', hfollows'⟩ := h'.old b s' hs'
      exact ⟨s'', hs'', hfollows.trans hfollows'⟩
    · cases hb : w'.heap[b]? with
      | none => exact h'.new b s hb hs
      | some s' =>
        obtain ⟨s'', hs'', hfollows⟩ := h'.old b s' hb
        obtain rfl : s'' = s := Option.some.inj (hs''.symm.trans hs)
        exact hfollows.idle (h.new b s' hnone hb)

variable {w w' : World}

theorem Levels.allFollow (h : Levels w w') : AllFollow w w' := by
  refine ⟨fun b s hs => ?_, fun b s hnone hs => (h.new b s hnone hs).calls⟩
  obtain ⟨s', hs', hlevel⟩ := h.old b s hs
  exact ⟨s', hs', hlevel.follows⟩

theorem allFollow_heap (h : w'.heap = w.heap) : AllFollow w w' :=
  ((Levels.refl w).aside h).allFollow

variable {f : Store → Store} {a : ℕ}

theorem allFollow_edited (h : ∀ s, w.heap[a]? = some s → Follows s (f s)) :
    AllFollow w (w.edited a f) := by
  refine ⟨fun b s hs => ?_, fun b s hnone hs => ?_⟩
  · rw [getElem?_edited]
    split
    · rename_i heq
      exact ⟨f s, by rw [hs]; rfl, h s (heq ▸ hs)⟩
    · exact ⟨s, hs, .refl s⟩
  · rw [getElem?_edited, hnone] at hs
    split at hs <;> cases hs

variable {r : ℤ}

theorem Mutates.allFollow {s : StateId} (h : Mutates w s r w') : AllFollow w w' := by
  cases h with
  | spent h => exact h.levels.allFollow
  | filled h => exact h.levels.allFollow
  | edited hfilled hedit =>
    exact trans_of AllFollow hfilled.levels.allFollow
      (allFollow_edited fun st hst => (hedit st hst).follows)

theorem follow_slotOf (s : StateId) : Keeps AllFollow (slotOf s) := fun _ => allFollow_heap rfl

theorem follow_storeAt (a : ℕ) : Keeps AllFollow (storeAt a) := fun _ => allFollow_heap rfl

theorem follow_modifyStore (h : ∀ s, Follows s (f s)) :
    Keeps AllFollow (modifyStore a f) := fun _ => allFollow_edited fun s _ => h s

theorem follow_contextFree (a : ℕ) : Keeps AllFollow (contextFree a) :=
  follow_modifyStore fun _ => .of_eq rfl rfl rfl

theorem follow_extSet (s : StateId) (ptr : Option ℕ) : Keeps AllFollow (extSet s ptr) :=
  keeps_of_wp fun _ => wp_extSet fun _ h _ => h.levels.allFollow

theorem follow_contextAlloc : Keeps AllFollow contextAlloc :=
  keeps_of_wp fun _ => wp_contextAlloc (fun _ h => h.levels.allFollow) fun _ h => h.levels.allFollow

theorem follow_ctxGetMut (s : StateId) (create : Bool) : Keeps AllFollow (ctxGetMut s create) :=
  keeps_of_wp fun _ =>
    wp_ctxGetMut (fun _ _ h => h.levels.allFollow) fun _ _ h => h.levels.allFollow

theorem follow_importedOrNew (found : Option ℕ) : Keeps AllFollow (importedOrNew found) := by
  cases found with
  | some a => exact keeps_pure _
  | none => exact follow_contextAlloc

theorem follow_avoidReserve (a : ℕ) : Keeps AllFollow (avoidReserve a) :=
  keeps_of_wp fun _ => wp_avoidReserve fun _ _ h => h.levels.allFollow

theorem follow_storeAppend (a : ℕ) (entry : Entry) : Keeps AllFollow (storeAppend a entry) := by
  refine keeps_of_wp fun w => wp_storeAppend (fun _ _ _ h => ?_) ?_
  · exact h.levels.allFollow
  · intro v f h hf
    exact trans_of AllFollow h.levels.allFollow (allFollow_edited fun s _ => (hf s).follows)

/-- The store a file is imported into has no active call. -/
def World.ImportsIdle (w : World) : Prop :=
  ∀ a, w.slots .imported = some a → ∃ s, w.heap[a]? = some s ∧ s.Idle

theorem AllFollow.idle (h : AllFollow w w') (hs : w.heap[a]? = some s) (hidle : s.Idle) :
    ∃ s', w'.heap[a]? = some s' ∧ s'.Idle := by
  obtain ⟨s', hs', hfollows⟩ := h.old a s hs
  exact ⟨s', hs', hfollows.idle hidle⟩

theorem Filled.importsIdle (h : Filled w .imported a w') (himports : w.ImportsIdle) :
    w'.ImportsIdle := by
  intro b hb
  obtain rfl : a = b := Option.some.inj (h.slot.symm.trans hb)
  rcases h.own with hown | ⟨-, -, st, hst, hlevel⟩
  · obtain ⟨s, hs, hidle⟩ := himports a hown
    exact h.levels.allFollow.idle hs hidle
  · exact ⟨st, hst, (hlevel.new (new_fresh _)).calls⟩

theorem Mutates.importsIdle (h : Mutates w .imported r w') (himports : w.ImportsIdle) :
    w'.ImportsIdle := by
  cases h with
  | spent h =>
    intro a ha
    rw [h.slots] at ha
    obtain ⟨s, hs, hidle⟩ := himports a ha
    exact h.levels.allFollow.idle hs hidle
  | filled h => exact h.importsIdle himports
  | @edited a v f hfilled hedit =>
    intro b hb
    obtain ⟨s, hs, hidle⟩ := hfilled.importsIdle himports b hb
    exact (allFollow_edited fun st hst => (hedit st hst).follows).idle hs hidle

theorem wp_importRows (rows : List (Entry × Bool)) (himports : w.ImportsIdle) :
    Wp (importRows rows) w fun _ w' => AllFollow w w' ∧ w'.ImportsIdle := by
  induction rows generalizing w with
  | nil => exact ⟨refl_of AllFollow w, himports⟩
  | cons row rows ih =>
    have hrest : ∀ r v, Mutates w .imported r v →
        Wp (importRows rows) v fun _ w' => AllFollow w w' ∧ w'.ImportsIdle := by
      intro r v h
      refine (ih (h.importsIdle himports)).mono fun _ w' ⟨hfollow, hidle⟩ => ?_
      exact ⟨trans_of AllFollow h.allFollow hfollow, hidle⟩
    obtain ⟨entry, isRange⟩ := row
    refine wp_ite (fun _ => wp_bind ?_) fun _ => wp_bind ?_
    · exact (mutates_addRangeEntry w .imported entry).mono hrest
    · exact (mutates_appendExact w .imported entry).mono hrest

/-- A table put in place in a store without active calls. -/
theorem follow_publishTable {s : StateId} {current : Option Store}
    (h : ∃ st, w.heap[a]? = some st ∧ st.Idle) :
    Wp (publishTable s current a) w fun _ w' => AllFollow w w' := by
  refine wp_bind (wp_modifyStore (wp_extSet fun w' hslotted _ => ?_))
  refine trans_of AllFollow (allFollow_edited fun st hst => ?_) hslotted.levels.allFollow
  obtain ⟨st', hst', hidle⟩ := h
  obtain rfl : st' = st := Option.some.inj (hst'.symm.trans hst)
  exact ⟨fun _ => hidle, Or.inr (Store.Idle.refreshed hidle)⟩

theorem Fresh.idle (h : Fresh w w') :
    ∃ st, w'.heap[w.heap.length]? = some st ∧ st.Idle := ⟨_, h.store, (new_fresh _).calls⟩

theorem wp_setSlot {s : StateId} {ptr : Option ℕ} {post : Unit → World → Prop}
    (h : post () { w with slots := Function.update w.slots s ptr }) : Wp (setSlot s ptr) w post := h

/-- A part of the process that is read. -/
theorem wp_look {α : Type} {f : World → α} {post : α → World → Prop} (h : post (f w) w) :
    Wp (fun w => (f w, w) : Policy α) w post := h

theorem follow_clear (s : StateId) : Keeps AllFollow (clear s) := by
  refine keeps_of_wp fun w => wp_bind (wp_look ?_)
  cases w.storeOf s with
  | none => exact refl_of AllFollow w
  | some st =>
    refine wp_bind (wp_contextAlloc (fun w' h => h.levels.allFollow) fun w' h => ?_)
    refine wp_bind ((follow_publishTable h.idle).mono fun _ v hv => ?_)
    exact trans_of AllFollow h.levels.allFollow hv

theorem follow_publishImported {imported : Option ℕ}
    (himports : ∀ a, imported = some a → ∃ st, w.heap[a]? = some st ∧ st.Idle) (s : StateId)
    (current : Option Store) :
    Wp (do
      match ← importedOrNew imported with
      | none => pure (-1)
      | some a =>
        publishTable s current a
        pure 0 : Policy ℤ) w fun _ w' => AllFollow w w' := by
  refine wp_bind (wp_importedOrNew (fun a ha => ?_) (fun w' _ h => ?_) fun w' _ h => ?_)
  · exact wp_bind (follow_publishTable (himports a ha))
  · exact h.levels.allFollow
  · refine wp_bind ((follow_publishTable h.idle).mono fun _ w'' h' => ?_)
    exact trans_of AllFollow h.levels.allFollow h'

theorem follow_reloadGroupFile (s : StateId) (file : Option GroupFile) :
    Keeps AllFollow (reloadGroupFile s file) := by
  intro w
  have hreload : Wp (reloadGroupFile s file) w fun _ w' => AllFollow w w' := by
    refine wp_bind (wp_allocate fun ok => wp_ite (fun _ => ?_) fun _ => allFollow_heap rfl)
    refine wp_bind (wp_setSlot ?_)
    cases file with
    | none => exact allFollow_heap rfl
    | some f =>
      -- the temporary state starts without a store
      have hempty : World.ImportsIdle { w with
          slots := Function.update w.slots .imported none, tape := w.tape.tail } := by
        intro a ha
        have hnone : Function.update w.slots .imported none .imported = some a := ha
        rw [Function.update_self] at hnone
        cases hnone
      refine wp_bind ((wp_importRows f.rows hempty).mono fun _ v ⟨hv, hidle⟩ => ?_)
      have hstart : AllFollow w { w with
          slots := Function.update w.slots .imported none, tape := w.tape.tail } :=
        allFollow_heap rfl
      have hfirst : AllFollow w v := trans_of AllFollow hstart hv
      refine wp_bind (wp_slotOf (wp_bind (wp_rowsAt (wp_ite (fun _ => wp_bind ?_) fun _ => ?_))))
      · exact wp_extSet fun w' h _ => trans_of AllFollow hfirst h.levels.allFollow
      · refine wp_bind (wp_look (wp_bind (wp_slotOf (wp_bind (wp_setSlot ?_)))))
        have hemptied : AllFollow v { v with slots := Function.update v.slots .imported none } :=
          allFollow_heap rfl
        refine (follow_publishImported
          (w := { v with slots := Function.update v.slots .imported none }) hidle s
          (v.storeOf s)).mono fun _ w' h => ?_
        exact trans_of AllFollow (trans_of AllFollow hfirst hemptied) h
  exact hreload

theorem follow_appendRows (a : ℕ) (rows : List (Entry × Bool)) :
    Keeps AllFollow (appendRows a rows) := by
  induction rows with
  | nil => exact keeps_pure _
  | cons row rows ih => exact keeps_bind (follow_storeAppend a row.1) fun _ => ih

theorem follow_load (file : Option GroupFile) : Keeps AllFollow (load file) := by
  refine keeps_bind follow_contextAlloc fun found => ?_
  cases found with
  | none => exact keeps_pure _
  | some a =>
    cases file with
    | none => exact keeps_bind (follow_contextFree a) fun _ => keeps_pure _
    | some f =>
      refine keeps_bind (follow_appendRows a f.rows) fun _ => keeps_ite ?_ (keeps_pure _)
      exact keeps_bind (follow_contextFree a) fun _ => keeps_pure _

theorem follow_retain (s : StateId) : Keeps AllFollow (retain s) := by
  refine keeps_bind (follow_slotOf s) fun found => ?_
  cases found with
  | none => exact keeps_pure _
  | some a =>
    exact keeps_bind (follow_modifyStore fun _ => .of_eq rfl rfl rfl) fun _ => keeps_pure _

theorem follow_restore (s : StateId) (store : Option ℕ) : Keeps AllFollow (restore s store) := by
  refine keeps_bind (follow_slotOf s) fun current => ?_
  cases store with
  | none => exact follow_extSet s none
  | some a =>
    refine keeps_ite (follow_extSet s (some a)) ?_
    exact keeps_bind (follow_modifyStore fun _ => .of_eq rfl rfl rfl) fun _ => follow_extSet _ _

theorem follow_sessionAvoidAdd (s : StateId) (id : BitVec 32) :
    Keeps AllFollow (sessionAvoidAdd s id) := by
  refine keeps_ite (keeps_pure _) (keeps_bind (follow_ctxGetMut s false) fun found => ?_)
  refine keeps_bind (follow_importedOrNew found) fun store => ?_
  cases store with
  | none => exact keeps_pure _
  | some a =>
    have hnote : ∀ index, Keeps AllFollow (do
        modifyStore a fun st => noteMutation (avoidInsert st index id)
        pure 0 : Policy ℤ) := fun _ =>
      keeps_bind (follow_modifyStore fun _ => follows_noteMutation rfl) fun _ => keeps_pure _
    refine keeps_bind (follow_storeAt a) fun st => keeps_ite (keeps_pure _) ?_
    refine keeps_bind (follow_avoidReserve a) fun ok => keeps_ite ?_ ?_
    · exact keeps_ite (keeps_bind (follow_extSet s (some a)) fun _ => hnote _) (hnote _)
    · exact keeps_ite (keeps_bind (follow_contextFree a) fun _ => keeps_pure _) (keeps_pure _)

theorem follow_sessionAvoidClear (s : StateId) : Keeps AllFollow (sessionAvoidClear s) := by
  refine keeps_bind (follow_ctxGetMut s false) fun found => ?_
  cases found with
  | none => exact keeps_pure _
  | some a =>
    refine keeps_bind (follow_storeAt a) fun st => keeps_ite ?_ (keeps_pure _)
    exact follow_modifyStore fun _ => follows_noteMutation rfl

theorem follow_callSkips (a : ℕ) (f : Store → CallSkips) (r : ℤ) :
    Keeps AllFollow (do
      modifyStore a fun st => { st with callSkips := f st }
      pure r : Policy ℤ) :=
  keeps_bind (follow_modifyStore fun _ => .of_eq rfl rfl rfl) fun _ => keeps_pure _

theorem follow_callSkipArm (s : StateId) (id src : BitVec 32) (fallback : ℤ) (now : Float) :
    Keeps AllFollow (callSkipArm s id src fallback now) := by
  refine keeps_ite (keeps_pure _) (keeps_bind (follow_ctxGetMut s true) fun found => ?_)
  cases found with
  | none => exact keeps_pure _
  | some a => exact follow_callSkips a _ 0

theorem follow_callSkipTouch (s : StateId) (id : BitVec 32) (now : Float) :
    Keeps AllFollow (callSkipTouch s id now) := by
  refine keeps_bind (follow_ctxGetMut s false) fun found => ?_
  cases found with
  | none => exact keeps_pure _
  | some a =>
    refine keeps_ite (keeps_pure _) (keeps_bind (follow_storeAt a) fun st => ?_)
    exact follow_callSkips a _ _

theorem follow_callSkipClear (s : StateId) : Keeps AllFollow (callSkipClear s) := by
  refine keeps_bind (follow_ctxGetMut s false) fun found => ?_
  cases found with
  | none => exact keeps_pure _
  | some a => exact follow_modifyStore fun _ => .of_eq rfl rfl rfl

theorem follow_install (s : StateId) (store : Option ℕ) : Keeps AllFollow (install s store) := by
  cases store with
  | none => exact follow_restore s none
  | some a =>
    refine keeps_bind (follow_modifyStore fun st => ?_) fun _ => follow_restore s (some a)
    have hidle : Store.Idle { st with active := ActiveTable.zero } := (new_fresh 0).calls
    exact ⟨fun _ => hidle, Or.inr hidle.refreshed⟩

/-- Every store keeps its table. -/
def TablesStay (w w' : World) : Prop := ∀ (b : ℕ) s, w.heap[b]? = some s →
  ∃ s', w'.heap[b]? = some s' ∧ s'.rows = s.rows ∧ s'.table.generation = s.table.generation

instance : IsPreorder World TablesStay where
  refl _ _ s hs := ⟨s, hs, rfl, rfl⟩
  trans w w' w'' h h' b s hs := by
    obtain ⟨s', hs', hrows, hgeneration⟩ := h b s hs
    obtain ⟨s'', hs'', hrows', hgeneration'⟩ := h' b s' hs'
    exact ⟨s'', hs'', hrows'.trans hrows, hgeneration'.trans hgeneration⟩

theorem Levels.tablesStay (h : Levels w w') : TablesStay w w' := by
  intro b s hs
  obtain ⟨s', hs', hlevel⟩ := h.old b s hs
  exact ⟨s', hs', hlevel.rows, hlevel.generation⟩

theorem stay_modifyStore
    (h : ∀ s, (f s).rows = s.rows ∧ (f s).table.generation = s.table.generation) :
    Keeps TablesStay (modifyStore a f) := by
  intro w b s hs
  have hget : (w.edited a f).heap[b]? = if a = b then some (f s) else some s := by
    rw [getElem?_edited, hs]
    rfl
  by_cases hab : a = b
  · rw [if_pos hab] at hget
    exact ⟨f s, hget, h s⟩
  · rw [if_neg hab] at hget
    exact ⟨s, hget, rfl, rfl⟩

theorem stay_ctxGetMut (s : StateId) (create : Bool) : Keeps TablesStay (ctxGetMut s create) :=
  keeps_of_wp fun _ =>
    wp_ctxGetMut (fun _ _ h => h.levels.tablesStay) fun _ _ h => h.levels.tablesStay

theorem stay_noteActiveCall (s : StateId) (route : CallRoute) (decision : Decision) (now : Float) :
    Keeps TablesStay (noteActiveCall s route decision now) := by
  refine keeps_bind (stay_ctxGetMut s true) fun found => ?_
  cases found with
  | none => exact keeps_pure _
  | some a =>
    refine keeps_ite (keeps_pure _) ?_
    exact keeps_bind (stay_modifyStore fun _ => ⟨rfl, rfl⟩) fun _ => keeps_pure _

theorem stay_clearActiveCall (s : StateId) (slot : ℤ) :
    Keeps TablesStay (clearActiveCall s slot) := by
  refine keeps_bind (stay_ctxGetMut s false) fun found => ?_
  cases found with
  | none => exact keeps_pure _
  | some a =>
    refine keeps_ite (keeps_pure _) ?_
    exact keeps_bind (stay_modifyStore fun _ => ⟨rfl, rfl⟩) fun _ => keeps_pure _

theorem stay_copySnapshot (dst src : StateId) : Keeps TablesStay (copySnapshot dst src) := by
  refine keeps_of_wp fun w => ?_
  by_cases heq : dst = src
  · rw [copySnapshot, if_pos heq]
    exact refl_of TablesStay w
  · refine wp_copySnapshot heq
      (fun _ _ h => h.levels.tablesStay) (fun d a _ _ _ => ?_) (fun _ h => h.levels.tablesStay)
      fun _ _ _ h => ?_
    · exact stay_modifyStore (a := d) (f := fun st => { st with
        active := (w.heap.getD a (Store.fresh 0)).active
        callSkips := (w.heap.getD a (Store.fresh 0)).callSkips }) (fun _ => ⟨rfl, rfl⟩) w
    · intro b s hs
      obtain ⟨s', hs', hlevel⟩ := h.level b s hs
      exact ⟨s', hs', hlevel.rows, hlevel.generation⟩

theorem follow_of_wp {m : Policy ℤ} {s : StateId} (h : ∀ w, Wp m w (Mutates w s)) :
    Keeps AllFollow m := fun w => (h w).allFollow

theorem follow_setListeningSelection (s : StateId) (context : BitVec 64) (generation : BitVec 32)
    (selection : List Selection) (listening : ℤ) :
    Keeps AllFollow (setListeningSelection s context generation selection listening) := by
  refine keeps_of_wp fun w => wp_setListeningSelection (fun _ _ _ h => h.levels.allFollow)
    fun a v entries capacity hfilled _ => ?_
  have hedit : ∀ st : Store, Follows st (noteMutation
      { st with table := { st.table with entries := entries, capacity := capacity } }) :=
    fun _ => follows_noteMutation rfl
  exact trans_of AllFollow hfilled.levels.allFollow (allFollow_edited fun st _ => hedit st)

theorem follow_handleAt (h : ℕ) : Keeps AllFollow (handleAt h) := fun _ => allFollow_heap rfl

theorem follow_keepHandle (store : Option ℕ) : Keeps AllFollow (keepHandle store) :=
  fun _ => allFollow_heap rfl

theorem follow_performLoad (file : Option GroupFile) : Keeps AllFollow (perform (.load file)) := by
  refine keeps_bind (follow_load file) fun store => ?_
  cases store with
  | none => exact keeps_pure _
  | some a => exact keeps_bind (follow_keepHandle (some a)) fun _ => keeps_pure _

/-- Every call makes tables follow, or leaves all of them. -/
theorem perform_follows (op : Op) :
    Keeps AllFollow (perform op) ∨ Keeps TablesStay (perform op) := by
  cases op with
  | appendExact s entry => exact .inl (follow_of_wp fun w => mutates_appendExact w _ entry)
  | addRangeEntry s entry => exact .inl (follow_of_wp fun w => mutates_addRangeEntry w _ entry)
  | storeAppend h entry =>
    refine .inl (keeps_bind (follow_handleAt h) fun store => ?_)
    cases store with
    | none => exact keeps_pure _
    | some a => exact follow_storeAppend a entry
  | upsertExact s entry mode =>
    exact .inl (follow_of_wp fun w => mutates_upsertExact w _ entry mode)
  | setMode s idStart idEnd mode =>
    exact .inl (follow_of_wp fun w => mutates_setMode w _ idStart idEnd mode)
  | setModeAt s index mode => exact .inl (follow_of_wp fun w => mutates_setModeAt w _ index mode)
  | setFields s idStart idEnd values mask =>
    exact .inl (follow_of_wp fun w => mutates_setFields w _ idStart idEnd values mask)
  | setListeningSelection s context generation selection listening =>
    exact .inl (follow_setListeningSelection _ context generation selection listening)
  | removeBounds s idStart idEnd =>
    exact .inl (follow_of_wp fun w => mutates_removeBounds w _ idStart idEnd)
  | reloadGroupFile s file => exact .inl (follow_reloadGroupFile _ file)
  | clear s => exact .inl (follow_clear _)
  | install s h =>
    exact .inl (keeps_bind (follow_handleAt h) fun store =>
      keeps_bind (follow_install _ store) fun _ => keeps_pure _)
  | restore s h =>
    exact .inl (keeps_bind (follow_handleAt h) fun store =>
      keeps_bind (follow_restore _ store) fun _ => keeps_pure _)
  | retain s =>
    exact .inl (keeps_bind (follow_retain _) fun store =>
      keeps_bind (follow_keepHandle store) fun _ => keeps_pure _)
  | release h =>
    refine .inl (keeps_bind (follow_handleAt h) fun store => ?_)
    cases store with
    | none => exact keeps_pure _
    | some a =>
      have hdrop : Keeps AllFollow (dropHandle h) := fun _ => allFollow_heap rfl
      exact keeps_bind (follow_contextFree a) fun _ => keeps_bind hdrop fun _ => keeps_pure _
  | load file => exact .inl (follow_performLoad file)
  | copySnapshot dst src => exact .inr (stay_copySnapshot _ _)
  | sessionAvoidAdd s id => exact .inl (follow_sessionAvoidAdd _ id)
  | sessionAvoidClear s =>
    exact .inl (keeps_bind (follow_sessionAvoidClear _) fun _ => keeps_pure _)
  | callSkipArm s id src fallback now => exact .inl (follow_callSkipArm _ id src fallback now)
  | callSkipTouch s id now => exact .inl (follow_callSkipTouch _ id now)
  | callSkipClear s => exact .inl (keeps_bind (follow_callSkipClear _) fun _ => keeps_pure _)
  | noteActiveCall s route decision now => exact .inr (stay_noteActiveCall _ route decision now)
  | clearActiveCall s slot => exact .inr (stay_clearActiveCall _ slot)

theorem perform_refreshed {op : Op} (hs : w.heap[a]? = some s)
    (hs' : (perform op w).2.heap[a]? = some s')
    (hchanged : s'.rows ≠ s.rows ∨ s'.table.generation ≠ s.table.generation) : s'.Refreshed := by
  have hsame : ∀ {s'' : Store}, (perform op w).2.heap[a]? = some s'' → s'' = s' :=
    fun h => Option.some.inj (h.symm.trans hs')
  rcases perform_follows op with h | h
  · obtain ⟨s'', hs'', hfollows⟩ := (h w).old a s hs
    rw [hsame hs''] at hfollows
    rcases hfollows.table with ⟨hrows, hgeneration, -⟩ | hfresh
    · exact absurd hchanged (by simp [hrows, hgeneration])
    · exact hfresh
  · obtain ⟨s'', hs'', hrows, hgeneration⟩ := h w a s hs
    rw [hsame hs''] at hrows hgeneration
    exact absurd hchanged (by simp [hrows, hgeneration])

/-- Up to `2 ^ 31` rows an identifier is looked up by precedence; a call that changes the table of a
store leaves every active call there with the priority a decision reports; and a table put in place
whole has no active call. -/
theorem lookup_precedence :
    (∀ (rows : List Entry) (id : BitVec 32), rows.length ≤ 2 ^ 31 →
      Governs rows id (lookupId rows id)) ∧
    (∀ (w : World) (op : Op) (a : ℕ) (s s' : Store), w.heap[a]? = some s →
      (perform op w).2.heap[a]? = some s' →
      (s'.rows ≠ s.rows ∨ s'.table.generation ≠ s.table.generation) →
      ∀ call ∈ s'.active.calls, call.valid ≠ 0 →
      ∀ {T : Type} [OfNat T 0] [Sub T] [LE T] [DecidableLE T] [OfScientific T]
        (opts : Option TuneOpts) (state : TuneState T) (encrypted dataCall : Bool),
        state.rows = s'.rows →
          call.priority = reportedPriority opts state call encrypted dataCall) ∧
    (∀ (w : World) (s : ℕ) (file : Option GroupFile) (a : ℕ) (s' : Store), w.heap[a]? = none →
      ((perform (.reloadGroupFile s file) w).2.heap[a]? = some s' ∨
        (perform (.clear s) w).2.heap[a]? = some s' ∨
        (perform (.load file) w).2.heap[a]? = some s') →
      ∀ call ∈ s'.active.calls, call.valid = 0) := by
  refine ⟨fun rows id h => lookupId_governs h id, ?_, ?_⟩
  · intro w op a s s' hs hs' hchanged call hcall hvalid T _ _ _ _ _ opts state encrypted dataCall
      hrows
    rw [reportedPriority_eq, hrows]
    exact perform_refreshed hs hs' hchanged call hcall hvalid
  · intro w s file a s' hnone h
    rcases h with h | h | h
    · exact (follow_reloadGroupFile _ file w).new a s' hnone h
    · exact (follow_clear _ w).new a s' hnone h
    · have hload : Keeps AllFollow (perform (.load file)) := follow_performLoad file
      exact (hload w).new a s' hnone h

/-- A store with a row for talkgroup 1 and a call to it. -/
def storeOne : Store :=
  { Store.fresh 1 with
    table := { (Store.fresh 1).table with entries := [rowOne] }
    active := { ActiveTable.zero with
      calls := Vector.replicate 2 { ActiveCall.zero with valid := 1, tg := 1, priority := 9 } } }

/-- A process whose first state has that store. -/
def worldOne : World :=
  { World.init [] with heap := [storeOne], slots := fun s => if s = .app 0 then some 0 else none }

/-- Taking the row away leaves the call the priority of no row. -/
theorem lookup_precedence_storeOne :
    Governs [rowOne] 1 (lookupId [rowOne] 1) ∧
    ∀ call ∈ (noteMutation (storeOne.withRows [])).active.calls, call.valid ≠ 0 →
      ∀ (opts : Option TuneOpts) (state : TuneState Float), state.rows = [] →
        call.priority = reportedPriority opts state call false false := by
  refine ⟨lookup_precedence.1 [rowOne] 1 (by decide), fun call hcall hvalid opts state hrows => ?_⟩
  have hgone : (perform (.removeBounds 0 1 1) worldOne).2.heap[0]? =
      some (noteMutation (storeOne.withRows [])) := rfl
  exact lookup_precedence.2.1 worldOne (.removeBounds 0 1 1) 0 storeOne _ rfl hgone
    (Or.inl (by decide)) call hcall hvalid opts state false false hrows

/-- Calls on the rows of one state. -/
def Op.onRows : Op → Bool
  | .appendExact .. | .addRangeEntry .. | .upsertExact .. | .setMode .. | .setModeAt ..
  | .setFields .. | .removeBounds .. => true
  | _ => false

/-- Every stored row is well formed. -/
def World.RowsOk (w : World) : Prop := ∀ (b : ℕ) s, w.heap[b]? = some s → s.RowsOk

theorem mutates_perform {op : Op} (h : op.onRows = true) (w : World) :
    ∃ s, Wp (perform op) w (Mutates w s) := by
  cases op with
  | appendExact s entry => exact ⟨_, mutates_appendExact w _ entry⟩
  | addRangeEntry s entry => exact ⟨_, mutates_addRangeEntry w _ entry⟩
  | upsertExact s entry mode => exact ⟨_, mutates_upsertExact w _ entry mode⟩
  | setMode s idStart idEnd mode => exact ⟨_, mutates_setMode w _ idStart idEnd mode⟩
  | setModeAt s index mode => exact ⟨_, mutates_setModeAt w _ index mode⟩
  | setFields s idStart idEnd values mask =>
    exact ⟨_, mutates_setFields w _ idStart idEnd values mask⟩
  | removeBounds s idStart idEnd => exact ⟨_, mutates_removeBounds w _ idStart idEnd⟩
  | _ => cases h

theorem Levels.rowsOk (h : Levels w w') (hw : w.RowsOk) : w'.RowsOk := by
  intro b s' hs'
  cases hb : w.heap[b]? with
  | none => exact (h.new b s' hb hs').rows
  | some s =>
    obtain ⟨s'', hs'', hlevel⟩ := h.old b s hb
    obtain rfl := Option.some.inj (hs''.symm.trans hs')
    rw [Store.RowsOk, hlevel.rows]
    exact hw b s hb

theorem Mutates.rowsOk {s : StateId} (h : Mutates w s r w') (hw : w.RowsOk) : w'.RowsOk := by
  cases h with
  | spent h => exact h.levels.rowsOk hw
  | filled h => exact h.levels.rowsOk hw
  | @edited a v f hfilled hedit =>
    have hv := hfilled.levels.rowsOk hw
    intro b st hst
    rw [getElem?_edited] at hst
    split at hst
    · rename_i heq
      subst heq
      obtain ⟨old, hold, rfl⟩ := Option.map_eq_some_iff.mp hst
      exact (hedit old hold).rowsOk (hv _ old hold)
    · exact hv b st hst

theorem Mutates.stay {s : StateId} (h : Mutates w s r w') (hr : r ≠ 0) : TablesStay w w' := by
  cases h with
  | spent h => exact h.levels.tablesStay
  | filled h => exact h.levels.tablesStay
  | edited _ _ => exact absurd rfl hr

/-- Whatever calls on rows are made, with whatever allocations failing, every stored row stays well
formed, and a call that does not return zero leaves the rows and the generation of every store. -/
theorem row_calls_all_or_nothing (w : World) (hw : w.RowsOk) (ops : List Op)
    (hops : ∀ op ∈ ops, op.onRows = true) :
    (run w ops).RowsOk ∧ ∀ pre op post, ops = pre ++ op :: post →
      (perform op (run w pre)).1 ≠ 0 → TablesStay (run w pre) (perform op (run w pre)).2 := by
  refine ⟨?_, fun pre op post hsplit hr => ?_⟩
  · induction ops generalizing w with
    | nil => exact hw
    | cons op ops ih =>
      obtain ⟨hop, hrest⟩ := List.forall_mem_cons.mp hops
      obtain ⟨s, hmutates⟩ := mutates_perform hop w
      exact ih _ (Mutates.rowsOk hmutates hw) hrest
  · obtain ⟨s, hmutates⟩ := mutates_perform (hops op (by rw [hsplit]; simp)) (run w pre)
    exact Mutates.stay hmutates hr

/-- A range of talkgroups, and a call for bounds no row has. -/
def rangeCalls : List Op :=
  [.addRangeEntry 0 { Entry.zero with isRange := 1, idStart := 1, idEnd := 9 }, .removeBounds 0 1 2]

/-- The call that finds no row leaves the range as it was. -/
theorem row_calls_all_or_nothing_range :
    (run (World.init []) rangeCalls).RowsOk ∧
      TablesStay (run (World.init []) (rangeCalls.take 1))
        (perform (.removeBounds 0 1 2) (run (World.init []) (rangeCalls.take 1))).2 := by
  have hwhole := row_calls_all_or_nothing (World.init []) (fun b s h => by cases b <;> cases h)
    rangeCalls (by decide)
  exact ⟨hwhole.1, hwhole.2 _ (.removeBounds 0 1 2) [] rfl (by decide)⟩

end DsdNeo.TgPolicy
