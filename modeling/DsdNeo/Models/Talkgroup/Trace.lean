import DsdNeo.Models.Talkgroup.Policy

/-!
# What a call changes

Every call is a trace of a few kinds of changes to the stores of the process: new
stores, edits that leave the table alone, and edits of a table that count as one
mutation. A trace counts the mutations of the stores below an address; whatever
holds along traces holds of every call.
-/

namespace DsdNeo.TgPolicy

open Program World

/-- All rows of a store are well formed. -/
def Store.RowsOk (s : Store) : Prop := ∀ e ∈ s.rows, e.WellFormed

/-- The identity of a store stays. -/
structure SameIds (s s' : Store) : Prop where
  context : s'.contextId = s.contextId
  source : s'.snapshotSourceContextId = s.snapshotSourceContextId
  parent : s'.snapshotParentContextId = s.snapshotParentContextId

/-- Table and session avoids stay. -/
structure Quiet (s s' : Store) : Prop where
  ids : SameIds s s'
  rows : s'.rows = s.rows
  avoids : s'.sessionAvoids = s.sessionAvoids
  generation : s'.table.generation = s.table.generation

/-- Rows stay well formed under the same identity. -/
structure Sound (s s' : Store) : Prop where
  ids : SameIds s s'
  rows : s.RowsOk → s'.RowsOk

/-- One mutation: a sound edit that advances the generation. -/
structure Noted (s s' : Store) : Prop extends Sound s s' where
  generation : s'.table.generation = Version.bump s.table.generation

theorem SameIds.refl (s : Store) : SameIds s s := ⟨rfl, rfl, rfl⟩

variable {s s' s'' : Store}

theorem SameIds.trans (h : SameIds s s') (h' : SameIds s' s'') : SameIds s s'' :=
  ⟨h'.context.trans h.context, h'.source.trans h.source, h'.parent.trans h.parent⟩

theorem Quiet.refl (s : Store) : Quiet s s := ⟨SameIds.refl s, rfl, rfl, rfl⟩

theorem Quiet.trans (h : Quiet s s') (h' : Quiet s' s'') : Quiet s s'' :=
  ⟨h.ids.trans h'.ids, h'.rows.trans h.rows, h'.avoids.trans h.avoids,
    h'.generation.trans h.generation⟩

theorem Quiet.sound (h : Quiet s s') : Sound s s' :=
  ⟨h.ids, fun hok e he => hok e (h.rows ▸ he)⟩

/-- The store made by the next allocation. -/
def World.issued (w : World) : BitVec 64 := if w.nextContextId = 0 then 1 else w.nextContextId

/-- A process after the allocation of a store. -/
def World.allocated (w : World) : World :=
  { w with heap := w.heap ++ [Store.fresh w.issued], nextContextId := w.issued + 1 }

/-- A process with one store edited. -/
def World.edited (w : World) (a : ℕ) (f : Store → Store) : World :=
  { w with heap := w.heap.modify a f }

/-- Changes of the stores in turn, with at most `k` mutations of stores below `n`. -/
inductive Trace (n : ℕ) (w : World) : ℕ → World → Prop where
  | refl : Trace n w 0 w
  | weaken {k : ℕ} {w' : World} : Trace n w k w' → Trace n w (k + 1) w'
  | aside {k : ℕ} {w' v : World} : Trace n w k w' → v.heap = w'.heap →
      v.nextContextId = w'.nextContextId → Trace n w k v
  | alloc {k : ℕ} {w' : World} : Trace n w k w' → Trace n w k w'.allocated
  | quiet {k : ℕ} {w' : World} {a : ℕ} {f : Store → Store} : Trace n w k w' →
      (∀ s, Quiet s (f s)) → Trace n w k (w'.edited a f)
  | above {k : ℕ} {w' : World} {a : ℕ} {f : Store → Store} : Trace n w k w' → n ≤ a →
      (∀ s, w'.heap[a]? = some s → Sound s (f s)) → Trace n w k (w'.edited a f)
  | note {k : ℕ} {w' : World} {a : ℕ} {f : Store → Store} : Trace n w k w' →
      (∀ s, w'.heap[a]? = some s → Noted s (f s)) → Trace n w (k + 1) (w'.edited a f)

namespace Trace

variable {n k l : ℕ} {w w' w'' : World}

theorem trans (h : Trace n w k w') (h' : Trace n w' l w'') : Trace n w (k + l) w'' := by
  induction h' with
  | refl => exact h
  | weaken _ ih => exact ih.weaken
  | aside _ hheap hnext ih => exact ih.aside hheap hnext
  | alloc _ ih => exact ih.alloc
  | quiet _ hf ih => exact ih.quiet hf
  | above _ ha hf ih => exact ih.above ha hf
  | note _ hf ih => exact ih.note hf

end Trace

theorem getElem?_edited (w : World) (a b : ℕ) (f : Store → Store) :
    (w.edited a f).heap[b]? = if a = b then w.heap[b]?.map f else w.heap[b]? := by
  rw [World.edited, List.getElem?_modify]
  split
  · rfl
  · cases w.heap[b]? <;> rfl

variable {a k : ℕ}

theorem getElem?_allocated {w : World} (h : w.heap[a]? = some s) :
    w.allocated.heap[a]? = some s := by
  rw [allocated, List.getElem?_append_left (List.getElem?_eq_some_iff.mp h).1]
  exact h

/-- A store at an address after an allocation: the new one, or one that was there. -/
theorem getElem?_allocated_cases {w : World} (h : w.allocated.heap[a]? = some s) :
    w.heap[a]? = some s ∨ (a = w.heap.length ∧ s = Store.fresh w.issued) := by
  rcases Nat.lt_or_ge a w.heap.length with hlt | hge
  · rw [allocated, List.getElem?_append_left hlt] at h
    exact Or.inl h
  · rw [allocated, List.getElem?_append_right hge] at h
    cases hk : a - w.heap.length with
    | zero =>
      rw [hk] at h
      exact Or.inr ⟨by omega, (Option.some.inj h).symm⟩
    | succ k =>
      rw [hk] at h
      cases h

/-- A store that is no copy: versions name it by its own identity. -/
structure Store.Original (s : Store) : Prop where
  source : s.snapshotSourceContextId = s.contextId
  parent : s.snapshotParentContextId = 0

theorem Store.Original.congr (h : s.Original) (hids : SameIds s s') : s'.Original :=
  ⟨by rw [hids.source, hids.context]; exact h.source, by rw [hids.parent]; exact h.parent⟩

/-- The identity of the store at an address. -/
def idAt (a : ℕ) : BitVec 64 := Version.bump^[a] 1

/-- Identities follow the order of allocation. -/
structure World.Indexed (w : World) : Prop where
  ids : ∀ a s, w.heap[a]? = some s → s.contextId = idAt a
  next : w.issued = idAt w.heap.length

theorem issued_allocated (w : World) : w.allocated.issued = Version.bump w.issued := rfl

theorem Trace.indexed {n : ℕ} {w w' : World} (h : Trace n w k w') (hw : w.Indexed) :
    w'.Indexed := by
  have hedit : ∀ {v : World} {a : ℕ} {f : Store → Store}, v.Indexed →
      (∀ s, v.heap[a]? = some s → Sound s (f s)) → (v.edited a f).Indexed := by
    intro v a f hv hf
    refine ⟨fun b s hs => ?_, ?_⟩
    · rw [getElem?_edited] at hs
      split at hs
      · rename_i heq
        obtain ⟨s₀, hs₀, rfl⟩ := Option.map_eq_some_iff.mp hs
        rw [(hf s₀ (heq ▸ hs₀)).ids.context]
        exact hv.ids b s₀ hs₀
      · exact hv.ids b s hs
    · rw [World.edited, List.length_modify]
      exact hv.next
  induction h with
  | refl => exact hw
  | weaken _ ih => exact ih
  | aside _ hheap hnext ih =>
    refine ⟨by rw [hheap]; exact ih.ids, ?_⟩
    rw [issued, hheap, hnext]
    exact ih.next
  | @alloc _ v _ ih =>
    refine ⟨fun a s hs => ?_, ?_⟩
    · rcases getElem?_allocated_cases hs with hold | ⟨rfl, rfl⟩
      · exact ih.ids a s hold
      · exact ih.next
    · have hlen : v.allocated.heap.length = v.heap.length + 1 := by simp [allocated]
      rw [issued_allocated, ih.next, hlen, idAt, idAt, Function.iterate_succ_apply']
  | quiet _ hf ih => exact hedit ih fun s _ => (hf s).sound
  | above _ _ hf ih => exact hedit ih hf
  | note _ hf ih => exact hedit ih fun s hs => (hf s hs).toSound

/-- Stores below the bound: their identity stays, and their generation advances with their
mutations, without which table and session avoids stay too. -/
structure Advanced (k : ℕ) (s s' : Store) : Prop where
  ids : SameIds s s'
  steps : ∃ j, j ≤ k ∧ s'.table.generation = Version.bump^[j] s.table.generation ∧
    (j = 0 → s'.rows = s.rows ∧ s'.sessionAvoids = s.sessionAvoids)

theorem Advanced.quiet (h : Advanced k s s') (h' : Quiet s' s'') : Advanced k s s'' := by
  obtain ⟨j, hj, hgen, hsame⟩ := h.steps
  refine ⟨h.ids.trans h'.ids, j, hj, h'.generation.trans hgen, fun hz => ?_⟩
  obtain ⟨hrows, havoids⟩ := hsame hz
  exact ⟨h'.rows.trans hrows, h'.avoids.trans havoids⟩

theorem Advanced.note (h : Advanced k s s') (h' : Noted s' s'') : Advanced (k + 1) s s'' := by
  obtain ⟨j, hj, hgen, -⟩ := h.steps
  refine ⟨h.ids.trans h'.ids, j + 1, by omega, ?_, fun hz => absurd hz (by omega)⟩
  rw [h'.generation, hgen, Function.iterate_succ_apply']

theorem Advanced.weaken (h : Advanced k s s') : Advanced (k + 1) s s' := by
  obtain ⟨j, hj, hrest⟩ := h.steps
  exact ⟨h.ids, j, by omega, hrest⟩

theorem Trace.advanced {n : ℕ} {w w' : World} (h : Trace n w k w') (ha : a < n)
    (hs : w.heap[a]? = some s) : ∃ s', w'.heap[a]? = some s' ∧ Advanced k s s' := by
  induction h with
  | refl => exact ⟨s, hs, SameIds.refl s, 0, le_rfl, rfl, fun _ => ⟨rfl, rfl⟩⟩
  | weaken _ ih =>
    obtain ⟨s', hs', hadv⟩ := ih
    exact ⟨s', hs', hadv.weaken⟩
  | aside _ hheap _ ih => rw [hheap]; exact ih
  | alloc _ ih =>
    obtain ⟨s', hs', hadv⟩ := ih
    exact ⟨s', getElem?_allocated hs', hadv⟩
  | quiet _ hf ih =>
    obtain ⟨s', hs', hadv⟩ := ih
    rw [getElem?_edited]
    split
    · exact ⟨_, by rw [hs']; rfl, hadv.quiet (hf s')⟩
    · exact ⟨s', hs', hadv⟩
  | above _ hb _ ih =>
    obtain ⟨s', hs', hadv⟩ := ih
    rw [getElem?_edited, if_neg (by omega)]
    exact ⟨s', hs', hadv⟩
  | note _ hf ih =>
    obtain ⟨s', hs', hadv⟩ := ih
    rw [getElem?_edited]
    split
    · rename_i heq
      exact ⟨_, by rw [hs']; rfl, hadv.note (hf s' (heq ▸ hs'))⟩
    · exact ⟨s', hs', hadv.weaken⟩

end DsdNeo.TgPolicy
