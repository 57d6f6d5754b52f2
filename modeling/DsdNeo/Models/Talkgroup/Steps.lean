import DsdNeo.Models.Talkgroup.Trace

/-!
# What the parts of a call do

Allocations, references and slots leave every table and every list of avoids as it is: the parts a
call is made of are calm, and one edit at most comes on top of them.
-/

namespace DsdNeo.TgPolicy

open Program Function

/-- Stores are added, and those there were keep table and avoids. -/
def Calm (w w' : World) : Prop := ∀ n, Trace n w 0 w'

theorem Calm.refl (w : World) : Calm w w := fun _ => .refl

variable {w w' w'' : World}

theorem Calm.trans (h : Calm w w') (h' : Calm w' w'') : Calm w w'' :=
  fun n => (h n).trans (h' n)

theorem Calm.aside {v : World} (h : Calm w w') (hheap : v.heap = w'.heap)
    (hnext : v.nextContextId = w'.nextContextId) : Calm w v := fun n => (h n).aside hheap hnext

variable {a : ℕ}

theorem Calm.quiet (h : Calm w w') {s : Store} (hs : w.heap[a]? = some s) :
    ∃ s', w'.heap[a]? = some s' ∧ Quiet s s' := by
  have hlt := (List.getElem?_eq_some_iff.mp hs).1
  obtain ⟨s', hs', hadv⟩ := (h w.heap.length).advanced hlt hs
  obtain ⟨j, hj, hgen, hsame⟩ := hadv.steps
  obtain rfl : j = 0 := by omega
  obtain ⟨hrows, havoids⟩ := hsame rfl
  exact ⟨s', hs', hadv.ids, hrows, havoids, hgen⟩

/-- Calls and call skips stay too. -/
structure Level (s s' : Store) : Prop extends Quiet s s' where
  active : s'.active = s.active
  callSkips : s'.callSkips = s.callSkips

theorem Level.refl (s : Store) : Level s s := ⟨Quiet.refl s, rfl, rfl⟩

theorem Level.trans {s s' s'' : Store} (h : Level s s') (h' : Level s' s'') : Level s s'' :=
  ⟨h.toQuiet.trans h'.toQuiet, h'.active.trans h.active, h'.callSkips.trans h.callSkips⟩

/-- A store that no operation has told of a call. -/
structure New (s : Store) : Prop where
  rows : s.RowsOk
  original : s.Original
  calls : ∀ call ∈ s.active.calls, call.valid = 0

theorem new_fresh (id : BitVec 64) : New (Store.fresh id) := by
  refine ⟨fun e he => absurd he List.not_mem_nil, ⟨rfl, rfl⟩, fun call hcall => ?_⟩
  have hzero : call = ActiveCall.zero := (Vector.mem_replicate.mp hcall).2
  rw [hzero]
  rfl

theorem Level.new {s s' : Store} (h : Level s s') (hs : New s) : New s' := by
  refine ⟨h.toQuiet.sound.rows hs.rows, hs.original.congr h.ids, fun call hcall => ?_⟩
  rw [h.active] at hcall
  exact hs.calls call hcall

/-- The stores there were are level, and those added are new. -/
structure Levels (w w' : World) : Prop where
  old : ∀ (b : ℕ) s, w.heap[b]? = some s → ∃ s', w'.heap[b]? = some s' ∧ Level s s'
  new : ∀ (b : ℕ) s', w.heap[b]? = none → w'.heap[b]? = some s' → New s'

theorem Levels.refl (w : World) : Levels w w :=
  ⟨fun _ s hs => ⟨s, hs, Level.refl s⟩, fun b s hnone hs => by rw [hnone] at hs; cases hs⟩

theorem Levels.trans (h : Levels w w') (h' : Levels w' w'') : Levels w w'' := by
  refine ⟨fun b s hs => ?_, fun b s hnone hs => ?_⟩
  · obtain ⟨s', hs', hlevel⟩ := h.old b s hs
    obtain ⟨s'', hs'', hlevel'⟩ := h'.old b s' hs'
    exact ⟨s'', hs'', hlevel.trans hlevel'⟩
  · cases hb : w'.heap[b]? with
    | none => exact h'.new b s hb hs
    | some s' =>
      obtain ⟨s'', hs'', hlevel⟩ := h'.old b s' hb
      obtain rfl : s'' = s := Option.some.inj (hs''.symm.trans hs)
      exact hlevel.new (h.new b s' hnone hb)

theorem Levels.aside {v : World} (h : Levels w w') (hheap : v.heap = w'.heap) :
    Levels w v := ⟨by rw [hheap]; exact h.old, by rw [hheap]; exact h.new⟩

theorem levels_allocated (w : World) : Levels w w.allocated := by
  refine ⟨fun b s hs => ⟨s, getElem?_allocated hs, Level.refl s⟩, fun b s hnone hs => ?_⟩
  rcases getElem?_allocated_cases hs with hold | ⟨-, rfl⟩
  · rw [hnone] at hold
    cases hold
  · exact new_fresh _

variable {f : Store → Store}

theorem levels_edited (hf : ∀ s, Level s (f s)) : Levels w (w.edited a f) := by
  refine ⟨fun b s hs => ?_, fun b s hnone hs => ?_⟩
  · rw [getElem?_edited]
    split
    · exact ⟨f s, by rw [hs]; rfl, hf s⟩
    · exact ⟨s, hs, Level.refl s⟩
  · rw [getElem?_edited, hnone] at hs
    split at hs <;> cases hs

/-- Nothing but the tape and level edits. -/
structure Still (w w' : World) : Prop where
  calm : Calm w w'
  levels : Levels w w'
  slots : w'.slots = w.slots
  handles : w'.handles = w.handles
  length : w'.heap.length = w.heap.length

/-- One store more, that no state has yet. -/
structure Fresh (w w' : World) : Prop where
  calm : Calm w w'
  levels : Levels w w'
  slots : w'.slots = w.slots
  handles : w'.handles = w.handles
  heap : w'.heap = w.heap ++ [Store.fresh w.issued]

/-- One slot is given another store. -/
structure Slotted (w : World) (s : StateId) (ptr : Option ℕ) (w' : World) : Prop where
  calm : Calm w w'
  levels : Levels w w'
  slots : w'.slots = update w.slots s ptr
  handles : w'.handles = w.handles
  length : w'.heap.length = w.heap.length

/-- No state has another store. -/
structure Idle (w w' : World) : Prop where
  calm : Calm w w'
  slots : w'.slots = w.slots
  handles : w'.handles = w.handles
  length : w'.heap.length ≤ w.heap.length + 1

/-- A state has a store, the one it had or a new one. -/
structure Filled (w : World) (s : StateId) (a : ℕ) (w' : World) : Prop where
  calm : Calm w w'
  levels : Levels w w'
  slots : w'.slots = update w.slots s (some a)
  handles : w'.handles = w.handles
  length : w'.heap.length ≤ w.heap.length + 1
  own : w.slots s = some a ∨ (w.slots s = none ∧ a = w.heap.length ∧
    ∃ st, w'.heap[a]? = some st ∧ Level (Store.fresh w.issued) st)

/-- A store at most is added and given up again, and no state has another one. -/
structure Spent (w w' : World) : Prop extends Idle w w' where
  levels : Levels w w'

/-- Stores change in their references only. -/
def Kept (w w' : World) : Prop :=
  ∀ (b : ℕ) (st : Store), w.heap[b]? = some st →
    ∃ r, w'.heap[b]? = some { st with references := r }

theorem Kept.refl (w : World) : Kept w w := fun _ st h => ⟨st.references, h⟩

/-- A store given one reference less. -/
theorem kept_contextFree (w : World) (a : ℕ) :
    Kept w (w.edited a fun st => { st with references := st.references - 1 }) := by
  intro b st hst
  rw [getElem?_edited]
  split
  · exact ⟨st.references - 1, by rw [hst]; rfl⟩
  · exact ⟨st.references, hst⟩

theorem Still.refl (w : World) : Still w w := ⟨Calm.refl w, Levels.refl w, rfl, rfl, rfl⟩

theorem Still.trans (h : Still w w') (h' : Still w' w'') : Still w w'' :=
  ⟨h.calm.trans h'.calm, h.levels.trans h'.levels, h'.slots.trans h.slots,
    h'.handles.trans h.handles, h'.length.trans h.length⟩

theorem Still.idle (h : Still w w') : Idle w w' :=
  ⟨h.calm, h.slots, h.handles, by have := h.length; omega⟩

theorem Still.spent (h : Still w w') : Spent w w' := ⟨h.idle, h.levels⟩

theorem Fresh.length (h : Fresh w w') : w'.heap.length = w.heap.length + 1 := by
  rw [h.heap, List.length_append, List.length_singleton]

theorem Fresh.store (h : Fresh w w') : w'.heap[w.heap.length]? = some (Store.fresh w.issued) := by
  rw [h.heap, List.getElem?_append_right le_rfl, Nat.sub_self]
  rfl

theorem Fresh.spent (h : Fresh w w') (h' : Still w' w'') : Spent w w'' := by
  have hidle : Idle w w'' := ⟨h.calm.trans h'.calm, h'.slots.trans h.slots,
    h'.handles.trans h.handles, by have := h.length; have := h'.length; omega⟩
  exact ⟨hidle, h.levels.trans h'.levels⟩

variable {s dst : StateId}

theorem Still.slotted {ptr : Option ℕ} (h : Still w w') (h' : Slotted w' s ptr w'') :
    Slotted w s ptr w'' :=
  ⟨h.calm.trans h'.calm, h.levels.trans h'.levels, by rw [h'.slots, h.slots],
    h'.handles.trans h.handles, h'.length.trans h.length⟩

theorem Filled.still (h : Filled w s a w') (h' : Still w' w'') : Filled w s a w'' := by
  refine ⟨h.calm.trans h'.calm, h.levels.trans h'.levels, h'.slots.trans h.slots,
    h'.handles.trans h.handles, ?_, ?_⟩
  · have := h.length
    have := h'.length
    omega
  · rcases h.own with hown | ⟨hnone, ha, st, hst, hlevel⟩
    · exact Or.inl hown
    · obtain ⟨st', hst', hstill⟩ := h'.levels.old a st hst
      exact Or.inr ⟨hnone, ha, st', hst', hlevel.trans hstill⟩

/-- What leaves the stores alone comes before. -/
theorem Still.before (h : Still w w') (h' : Filled w' s a w'') (hissued : w'.issued = w.issued) :
    Filled w s a w'' := by
  refine ⟨h.calm.trans h'.calm, h.levels.trans h'.levels, by rw [h'.slots, h.slots],
    h'.handles.trans h.handles, by rw [← h.length]; exact h'.length, ?_⟩
  rcases h'.own with hown | ⟨hnone, ha, hst⟩
  · rw [h.slots] at hown
    exact Or.inl hown
  · rw [h.slots] at hnone
    rw [h.length] at ha
    rw [hissued] at hst
    exact Or.inr ⟨hnone, ha, hst⟩

theorem Still.filled (h : Still w w') (ha : w.slots s = some a) : Filled w s a w' := by
  have hslots : w'.slots = update w.slots s (some a) := by
    rw [h.slots, ← ha, update_eq_self]
  exact ⟨h.calm, h.levels, hslots, h.handles, h.idle.length, Or.inl ha⟩

theorem Fresh.filled (h : Fresh w w') (h' : Slotted w' s (some w.heap.length) w'')
    (hnone : w.slots s = none) : Filled w s w.heap.length w'' := by
  have hlen : w''.heap.length ≤ w.heap.length + 1 := by
    rw [h'.length, h.length]
  exact ⟨h.calm.trans h'.calm, h.levels.trans h'.levels, by rw [h'.slots, h.slots],
    h'.handles.trans h.handles, hlen, Or.inr ⟨hnone, rfl, h'.levels.old _ _ h.store⟩⟩

theorem wp_storeAt {post : Store → World → Prop} (h : post (w.heap.getD a (Store.fresh 0)) w) :
    Wp (storeAt a) w post := h

variable {post : Option ℕ → World → Prop}

theorem wp_slotOf (h : post (w.slots s) w) : Wp (slotOf s) w post := h

theorem wp_modifyStore {post : Unit → World → Prop} (h : post () (w.edited a f)) :
    Wp (modifyStore a f) w post := h

theorem still_edited (hf : ∀ s, Level s (f s)) : Still w (w.edited a f) :=
  ⟨fun _ => Trace.refl.quiet fun s => (hf s).toQuiet, levels_edited hf, rfl, rfl,
    List.length_modify ..⟩

/-- Whether an allocation succeeds is all it tells. -/
theorem wp_allocate {post : Bool → World → Prop}
    (h : ∀ ok, post ok { w with tape := w.tape.tail }) :
    Wp allocate w post := h _

theorem still_tape (w : World) (tape : List Bool) : Still w { w with tape := tape } :=
  ⟨(Calm.refl w).aside rfl rfl, (Levels.refl w).aside rfl, rfl, rfl, rfl⟩

/-- A store allocated is a fresh one, after those there were. -/
theorem wp_contextAlloc (hnone : ∀ w', Still w w' → post none w')
    (hsome : ∀ w', Fresh w w' → post (some w.heap.length) w') : Wp contextAlloc w post := by
  refine wp_bind (wp_allocate fun ok => ?_)
  refine wp_ite (fun _ => ?_) fun _ => hnone _ (still_tape w _)
  have hcalm : Calm w { w with tape := w.tape.tail }.allocated :=
    (still_tape w w.tape.tail).calm.trans fun _ => Trace.refl.alloc
  have hlevels : Levels w { w with tape := w.tape.tail }.allocated :=
    (still_tape w w.tape.tail).levels.trans (levels_allocated _)
  exact hsome _ ⟨hcalm, hlevels, rfl, rfl, rfl⟩

theorem level_references (s : Store) (r : ℕ) : Level s { s with references := r } :=
  ⟨⟨⟨rfl, rfl, rfl⟩, rfl, rfl, rfl⟩, rfl, rfl⟩

theorem wp_contextFree {post : Unit → World → Prop}
    (h : ∀ w', Still w w' → Kept w w' → post () w') : Wp (contextFree a) w post :=
  h _ (still_edited fun s => level_references s _) (kept_contextFree w a)

theorem wp_freeReplaced {old ptr : Option ℕ} {post : Unit → World → Prop}
    (h : ∀ w', Still w w' → Kept w w' → post () w') : Wp (freeReplaced old ptr) w post := by
  have hsame : post () w := h w (Still.refl w) (Kept.refl w)
  cases old with
  | none => exact hsame
  | some a => exact wp_ite (fun _ => hsame) fun _ => wp_contextFree h

/-- A slot is given another store; the one it had stays on the heap. -/
theorem wp_extSet {ptr : Option ℕ} {post : Unit → World → Prop}
    (h : ∀ w', Slotted w s ptr w' → Kept w w' → post () w') : Wp (extSet s ptr) w post := by
  refine wp_bind (wp_slotOf (wp_bind (wp_freeReplaced fun w' hstill hkept => ?_)))
  have hslots : update w'.slots s ptr = update w.slots s ptr := by
    rw [hstill.slots]
  exact h _ ⟨hstill.calm.aside rfl rfl, hstill.levels.aside rfl, hslots, hstill.handles,
    hstill.length⟩ hkept

/-- A state without a store is given a new one, unless the allocation fails. -/
theorem wp_allocInto (hslot : w.slots s = none) (hnone : ∀ w', Still w w' → post none w')
    (hsome : ∀ a w', Filled w s a w' → post (some a) w') : Wp (allocInto s) w post := by
  refine wp_bind (wp_contextAlloc (fun w' hstill => hnone w' hstill) fun w' hfresh => ?_)
  exact wp_bind (wp_extSet fun w'' hslotted _ => hsome _ w'' (hfresh.filled hslotted hslot))

/-- The store of a state, or a new one where one is asked for. -/
theorem wp_ctxGetMut {create : Bool} (hnone : ∀ w', w.slots s = none → Still w w' → post none w')
    (hsome : ∀ a w', Filled w s a w' → post (some a) w') : Wp (ctxGetMut s create) w post := by
  refine wp_bind (wp_slotOf ?_)
  cases hslot : w.slots s with
  | some a => exact hsome a w ((Still.refl w).filled hslot)
  | none =>
    refine wp_ite (fun _ => ?_) fun _ => hnone w hslot (Still.refl w)
    exact wp_allocInto hslot (fun w' h => hnone w' hslot h) hsome

/-- The store a state has. -/
theorem wp_ctxGetMut_found (h : post (w.slots s) w) : Wp (ctxGetMut s false) w post := by
  refine wp_bind (wp_slotOf ?_)
  cases hslot : w.slots s with
  | some a =>
    rw [hslot] at h
    exact h
  | none =>
    rw [hslot] at h
    exact h

/-- Room for one more avoid changes no list. -/
theorem wp_avoidReserve {post : Bool → World → Prop} (h : ∀ ok w', Still w w' → post ok w') :
    Wp (avoidReserve a) w post := by
  refine wp_bind (wp_storeAt (wp_ite (fun _ => h _ w (Still.refl w)) fun _ => ?_))
  refine wp_ite (fun _ => h _ w (Still.refl w)) fun _ => wp_bind (wp_allocate fun ok => ?_)
  have hroom : ∀ capacity (s : Store), Level s { s with sessionAvoidCapacity := capacity } :=
    fun _ _ => ⟨⟨⟨rfl, rfl, rfl⟩, rfl, rfl, rfl⟩, rfl, rfl⟩
  refine wp_ite (fun _ => ?_) fun _ => h _ _ (still_tape w _)
  exact wp_bind (wp_modifyStore (h _ _ ((still_tape w _).trans (still_edited (hroom _)))))

/-- A store that was found, or a new one that no state has yet. -/
theorem wp_importedOrNew {found : Option ℕ} (hfound : ∀ a, found = some a → post (some a) w)
    (hnone : ∀ w', found = none → Still w w' → post none w')
    (hsome : ∀ w', found = none → Fresh w w' → post (some w.heap.length) w') :
    Wp (importedOrNew found) w post := by
  cases found with
  | some a => exact hfound a rfl
  | none => exact wp_contextAlloc (fun w' h => hnone w' rfl h) fun w' h => hsome w' rfl h

theorem wp_allocateFor {α : Type} {xs : List α} {post : Bool → World → Prop}
    (h : ∀ ok tape, post ok { w with tape := tape }) : Wp (allocateFor xs) w post :=
  wp_ite (fun _ => h true w.tape) fun _ => wp_allocate fun ok => h ok _

theorem Fresh.tape (h : Fresh w w') (tape : List Bool) : Fresh w { w' with tape := tape } :=
  ⟨h.calm.aside rfl rfl, h.levels.aside rfl, h.slots, h.handles, h.heap⟩

theorem wp_contextClone {src : Store} (hnone : ∀ w', Spent w w' → post none w')
    (hsome : ∀ v, Fresh w v → post (some w.heap.length) (v.edited w.heap.length (clonedFrom src))) :
    Wp (contextClone src) w post := by
  refine wp_bind (wp_contextAlloc (fun w' h => hnone w' h.spent) fun v hfresh => ?_)
  refine wp_bind (wp_allocateFor fun ok tape => ?_)
  have hfail : ∀ tape, Wp (contextFree w.heap.length) { v with tape := tape } fun _ w' =>
      post none w' := fun tape =>
    wp_contextFree fun w' hstill _ => hnone w' ((hfresh.tape tape).spent hstill)
  refine wp_ite (fun _ => wp_bind (hfail tape)) fun _ => wp_bind (wp_allocateFor fun ok tape => ?_)
  refine wp_ite (fun _ => wp_bind (hfail tape)) fun _ => wp_bind (wp_modifyStore ?_)
  exact hsome _ (hfresh.tape tape)

/-- A state is given a copy of a store. -/
structure Cloned (w : World) (dst : StateId) (src : Store) (w' : World) : Prop where
  indexed : w.Indexed → w'.Indexed
  level : ∀ (b : ℕ) (st : Store), w.heap[b]? = some st →
    ∃ st', w'.heap[b]? = some st' ∧ Level st st'
  slots : w'.slots = update w.slots dst (some w.heap.length)
  handles : w'.handles = w.handles
  length : w'.heap.length = w.heap.length + 1
  store : ∃ r, w'.heap[w.heap.length]? =
    some { clonedFrom src (Store.fresh w.issued) with references := r }

theorem Cloned.quiet {src : Store} (h : Cloned w dst src w') (b : ℕ) (st : Store)
    (hst : w.heap[b]? = some st) : ∃ st', w'.heap[b]? = some st' ∧ Quiet st st' := by
  obtain ⟨st', hst', hlevel⟩ := h.level b st hst
  exact ⟨st', hst', hlevel.toQuiet⟩

theorem World.Indexed.edited (h : w.Indexed) (hf : ∀ s, (f s).contextId = s.contextId) :
    (w.edited a f).Indexed := by
  refine ⟨fun b s hs => ?_, ?_⟩
  · rw [getElem?_edited] at hs
    split at hs
    · obtain ⟨old, hold, rfl⟩ := Option.map_eq_some_iff.mp hs
      rw [hf]
      exact h.ids b old hold
    · exact h.ids b s hs
  · rw [World.edited, List.length_modify]
    exact h.next

theorem wp_publishClone {dstCtx : Option ℕ} {src : Store} {post : ℤ → World → Prop}
    (hfail : ∀ w', Spent w w' → post (-1) w') (hdone : ∀ w', Cloned w dst src w' → post 0 w') :
    Wp (publishClone dst dstCtx a src) w post := by
  refine wp_bind (wp_contextClone (fun w' h => hfail w' h) fun v hfresh => ?_)
  have hpublish : ∀ u,
      Slotted (v.edited w.heap.length (clonedFrom src)) dst (some w.heap.length) u →
      Kept (v.edited w.heap.length (clonedFrom src)) u → post 0 u := by
    intro u hslotted hkept
    have hfilled : (v.edited w.heap.length (clonedFrom src)).heap[w.heap.length]? =
        some (clonedFrom src (Store.fresh w.issued)) := by
      rw [getElem?_edited, if_pos rfl, hfresh.store]
      rfl
    refine hdone u ⟨fun hw => ?_, fun b st hst => ?_, ?_, ?_, ?_, hkept _ _ hfilled⟩
    · have hv : v.Indexed := (hfresh.calm 0).indexed hw
      exact (hslotted.calm 0).indexed (hv.edited fun _ => rfl)
    · have hlt := (List.getElem?_eq_some_iff.mp hst).1
      obtain ⟨st', hst', hlevel⟩ := hfresh.levels.old b st hst
      have hnext : (v.edited w.heap.length (clonedFrom src)).heap[b]? = some st' := by
        rw [getElem?_edited, if_neg (by omega)]
        exact hst'
      obtain ⟨st'', hst'', hlevel'⟩ := hslotted.levels.old b st' hnext
      exact ⟨st'', hst'', hlevel.trans hlevel'⟩
    · rw [hslotted.slots]
      exact congrArg (update · dst (some w.heap.length)) hfresh.slots
    · exact hslotted.handles.trans hfresh.handles
    · rw [hslotted.length, World.edited, List.length_modify, hfresh.length]
  refine wp_ite (fun _ => wp_bind ?_) fun _ => wp_bind (wp_extSet hpublish)
  -- a slot that shares the source is emptied first
  refine wp_bind (wp_extSet fun u hslotted hkept => hpublish u ⟨?_, ?_, ?_, ?_, ?_⟩ hkept)
  · have hemptied : Calm (v.edited w.heap.length (clonedFrom src))
        (setSlot dst none (v.edited w.heap.length (clonedFrom src))).2 :=
      (Calm.refl _).aside rfl rfl
    exact hemptied.trans hslotted.calm
  · have hemptied : Levels (v.edited w.heap.length (clonedFrom src))
        (setSlot dst none (v.edited w.heap.length (clonedFrom src))).2 :=
      (Levels.refl _).aside rfl
    exact hemptied.trans hslotted.levels
  · rw [hslotted.slots]
    exact update_idem _ _ _
  · exact hslotted.handles
  · exact hslotted.length

theorem wp_copySnapshot {src : StateId} {post : ℤ → World → Prop} (hne : dst ≠ src)
    (hempty : ∀ w', w.slots src = none → Slotted w dst none w' → post 0 w')
    (hsame : ∀ d a, w.slots dst = some d → w.slots src = some a →
      sameVersion d a (w.heap.getD d (Store.fresh 0)) (w.heap.getD a (Store.fresh 0)) = true →
      post 0 (w.edited d fun st => { st with
        active := (w.heap.getD a (Store.fresh 0)).active
        callSkips := (w.heap.getD a (Store.fresh 0)).callSkips }))
    (hfail : ∀ w', Spent w w' → post (-1) w')
    (hclone : ∀ a w', w.slots src = some a → Cloned w dst (w.heap.getD a (Store.fresh 0)) w' →
      post 0 w') : Wp (copySnapshot dst src) w post := by
  refine wp_ite (fun heq => absurd heq hne) fun _ => wp_bind (wp_slotOf ?_)
  cases hsrc : w.slots src with
  | none => exact wp_bind (wp_extSet fun w' h _ => hempty w' hsrc h)
  | some a =>
    refine wp_bind (wp_storeAt (wp_bind (wp_slotOf ?_)))
    cases hdst : w.slots dst with
    | none => exact wp_publishClone hfail fun w' h => hclone a w' hsrc h
    | some d =>
      refine wp_bind (wp_storeAt (wp_ite (fun hversion => ?_) fun _ => ?_))
      · exact wp_bind (wp_modifyStore (hsame d a hdst hsrc hversion))
      · exact wp_publishClone hfail fun w' h => hclone a w' hsrc h

end DsdNeo.TgPolicy
