import DsdNeo.Models.Tuning.Frames

/-!
# A status of success is earned

Between calls a request whose status is a success is one the generation advanced for: a
record is finished with that result only by the store that commits it.
-/

namespace DsdNeo.Tuning

variable {m : Machine}

/-- A record that shows a success is not behind the gate, and finished only when committed. -/
def Record.Earned (committed : List ℕ) (r : Record) : Prop :=
  r.result = .ok → r.state ≠ .failedGated ∧ (r.state = .finished → r.requestId ∈ committed)

/-- Every record is so. -/
def Machine.Earned (m : Machine) : Prop := ∀ i, (m.now.records i).Earned m.now.committed

theorem Machine.Earned.write (h : m.Earned) {i : Fin 64} {r : Record}
    (hr : r.Earned m.now.committed) : (m.write i r).Earned := by
  intro j
  change (Function.update m.now.records i r j).Earned m.now.committed
  by_cases hj : j = i
  · rw [hj, Function.update_self]
    exact hr
  · rw [Function.update_of_ne hj]
    exact h j

theorem Record.Earned.of_pending {r : Record} {committed : List ℕ} (h : r.state = .pending) :
    r.Earned committed := by
  intro _
  rw [h]
  exact ⟨nofun, nofun⟩

theorem Record.Earned.of_result {r : Record} {committed : List ℕ} (h : r.result ≠ .ok) :
    r.Earned committed := fun hr => absurd hr h

theorem Machine.Earned.resolve (h : m.Earned) {i : Fin 64}
    (hi : (m.now.records i).result = .ok → (m.now.records i).requestId ∈ m.now.committed) :
    (m.resolve i).Earned := by
  have hw : (m.write i ((m.now.records i).inState .finished)).Earned :=
    h.write fun hr => ⟨nofun, fun _ => hi hr⟩
  exact hw

theorem Machine.Earned.retireWhere (h : m.Earned) (p : ℕ → Bool) :
    (Tuning.retireWhere p m).Earned := by
  suffices key : ∀ (is : List (Fin 64)) (m : Machine), m.Earned →
      (is.foldl (fun m i =>
        if (m.now.records i).state = .failedGated ∧ p (m.now.records i).requestId then m.resolve i
        else m) m).Earned from key _ m h
  intro is
  induction is with
  | nil => exact fun m h => h
  | cons i is ih =>
    intro m h
    rw [List.foldl_cons]
    apply ih
    split
    · next hi => exact h.resolve fun hr => absurd hi.1 (h i hr).1
    · exact h

theorem Machine.Earned.finishSuccess (h : m.Earned) (i : Fin 64) :
    (Tuning.finishSuccess m i).Earned := by
  unfold Tuning.finishSuccess
  split
  · exact h
  · apply Machine.Earned.retireWhere
    have hadv : (m.generationAdvance (m.now.records i).requestId).Earned := by
      intro j hr
      obtain ⟨hg, hf⟩ := h j hr
      exact ⟨hg, fun hst => List.mem_append_left _ (hf hst)⟩
    exact hadv.resolve fun _ => List.mem_append_right _ (List.mem_singleton.mpr rfl)

theorem Machine.Earned.finishRolledBack (h : m.Earned) {i : Fin 64}
    (hres : (m.now.records i).result ≠ .ok) : (Tuning.finishRolledBack m i).Earned := by
  unfold Tuning.finishRolledBack
  split
  · exact h
  · split
    · exact h.write (.of_result hres)
    · exact h.resolve fun hr => absurd hr hres

theorem Machine.Earned.publish (h : m.Earned) (id : ℕ) (result : TuneResult) (t : ℕ) :
    (requestPublish m id result t).Earned := by
  unfold requestPublish
  split
  · exact h
  · split
    · exact h
    · next i hfind =>
      dsimp only
      split
      · exact h
      · next hp =>
        have hp' : ((m.now.records i).answered result t).state = .pending := not_not.mp hp
        have hw := h.write (i := i) (Record.Earned.of_pending hp')
        have hself : (m.write i ((m.now.records i).answered result t)).now.records i =
            (m.now.records i).answered result t := Function.update_self _ _ _
        split
        · split
          · exact hw.finishSuccess i
          · exact hw
        · next hc =>
          have hne : result ≠ .ok := fun he => hc (by rw [he]; rfl)
          split
          · exact hw.finishRolledBack (by rw [hself]; exact hne)
          · exact hw.write (.of_result hne)

theorem Machine.Earned.markReady (h : m.Earned) (id : ℕ) : (requestMarkReady m id).Earned := by
  unfold requestMarkReady
  split
  · exact h
  · split
    · exact h
    · next i hfind =>
      dsimp only
      split
      · exact h
      · next hp =>
        have hw := h.write (i := i) (r := (m.now.records i).ready) (.of_pending (not_not.mp hp))
        split
        · exact hw.finishSuccess i
        · exact hw

theorem Machine.Earned.disown (h : m.Earned) (id : ℕ) : (requestDisown m id).Earned := by
  unfold requestDisown
  split
  · exact h
  · split
    · exact h
    · next i hfind =>
      dsimp only
      split
      · next hp =>
        have hw := h.write (i := i) (r := (m.now.records i).letGo) (.of_pending hp)
        split
        · exact hw.finishSuccess i
        · exact hw
      · split
        · next hg => exact h.finishRolledBack fun hr => (h i hr).1 hg
        · exact h

theorem Machine.Earned.complete (h : m.Earned) (id : ℕ) (result : TuneResult) (t : ℕ) :
    (requestComplete m id result t).Earned := by
  unfold requestComplete
  split
  · exact h
  · split
    · exact h
    · next i hfind =>
      dsimp only
      split
      · exact h
      · next hfin =>
        have hready : ((m.now.records i).ready).Earned m.now.committed := h i
        have hw := h.write (i := i) hready
        have hself : (m.write i (m.now.records i).ready).now.records i =
            (m.now.records i).ready := Function.update_self _ _ _
        split
        · next hg =>
          split
          · exact hw.finishRolledBack (by rw [hself]; exact fun hr => (h i hr).1 hg)
          · exact hw
        · next hg =>
          have hne : ∀ {r : TuneResult}, ¬ r.isComplete = true → r ≠ .ok := by
            rintro r hr rfl
            exact hr rfl
          have hst : ∀ r : Record, r.state = (m.now.records i).state →
              r.Earned m.now.committed := by
            intro r hr _
            rw [hr]
            exact ⟨hg, fun hf => absurd hf hfin⟩
          split
          · have hw' := hw.write (i := i) (hst ((m.now.records i).ready.answered result t) rfl)
            have hself' : ((m.write i (m.now.records i).ready).write i
                ((m.now.records i).ready.answered result t)).now.records i =
                (m.now.records i).ready.answered result t := Function.update_self _ _ _
            split
            · exact hw'.finishSuccess i
            · next hc => exact hw'.finishRolledBack (by rw [hself']; exact hne hc)
          · split
            · exact hw.finishSuccess i
            · next hboth =>
              split
              · next hnone =>
                refine hw.finishRolledBack ?_
                rw [hself]
                intro hr
                rw [hr] at hnone
                exact absurd hnone (by simp [TuneResult.isComplete])
              · refine hw.write (.of_result ?_)
                split
                · next ho =>
                  intro hr
                  rw [show result = .ok from hr] at ho
                  cases ho
                · next ho =>
                  intro hr
                  apply hboth
                  rw [show (m.now.records i).ready.result = .ok from hr]
                  simpa [TuneResult.isComplete] using ho

theorem Machine.Earned.begin (h : m.Earned) : (requestBegin m).2.Earned := by
  unfold requestBegin
  dsimp only
  split
  · exact h
  · next i inherited hslot =>
    have hraise : (m.store fun x => { x with nextRequest := takeId m.now.nextRequest }).Earned := h
    have hw := hraise.write (i := i) (r := .opened (takeId m.now.nextRequest) inherited)
      (.of_pending rfl)
    cases inherited with
    | true => exact hw
    | false => exact hw

/-- Every call keeps results earned. -/
theorem Machine.Earned.apply (h : m.Earned) (c : Call) : (c.apply m).Earned := by
  cases c with
  | begin => exact h.begin
  | publish id result t => exact h.publish id result t
  | markReady id => exact h.markReady id
  | complete id result t => exact h.complete id result t
  | disown id => exact h.disown id
  | retire =>
    simp only [Call.apply, retireFailedRequests]
    split
    · exact h
    · exact h.retireWhere _
  | retireThrough id =>
    simp only [Call.apply, retireFailedRequestsThrough]
    split
    · exact h
    · exact h.retireWhere _

/-- A request whose status is a success was committed. -/
theorem committed_of_status (h : m.Earned) {id : ℕ}
    (hst : requestStatus m.now.records id = .ok) : id ∈ m.now.committed := by
  unfold requestStatus at hst
  split at hst
  · cases hst
  · split at hst
    · cases hst
    · next i hfind =>
      obtain ⟨hid, hfree⟩ := state_of_requestFind hfind
      split at hst
      · cases hst
      · next hp =>
        obtain ⟨hg, hf⟩ := h i hst
        have hfin : (m.now.records i).state = .finished := by
          cases hcase : (m.now.records i).state with
          | free => exact absurd hcase hfree
          | pending => exact absurd hcase hp
          | failedGated => exact absurd hcase hg
          | finished => rfl
        exact hid ▸ hf hfin

/-- A failure published commits nothing. -/
theorem committed_publish_failed (m : Machine) (id t : ℕ) :
    (requestPublish m id .failed t).now.committed = m.now.committed := by
  unfold requestPublish
  split
  · rfl
  · split
    · rfl
    · next i hfind =>
      dsimp only
      split
      · rfl
      · rw [if_neg (show ¬ TuneResult.failed.isComplete = true by decide)]
        split
        · unfold Tuning.finishRolledBack
          split
          · rfl
          · split
            · rfl
            · rfl
        · rfl

/-- A pending request published as failed is no success. -/
theorem status_publish_failed (hg : m.Good) (h : m.Earned) {id : ℕ} (t : ℕ)
    (hp : requestStatus m.now.records id = .pending) :
    requestStatus (requestPublish m id .failed t).now.records id ≠ .ok := by
  intro hok
  have hmem := committed_of_status (h.publish id .failed t) hok
  rw [committed_publish_failed] at hmem
  unfold requestStatus at hp
  split at hp
  · cases hp
  · split at hp
    · cases hp
    · next i hfind =>
      obtain ⟨hid, hfree⟩ := state_of_requestFind hfind
      obtain ⟨hfin, -, -, hres⟩ := (hg.ended i hfree).mp (hid.symm ▸ hmem)
      rw [hfin, hres, if_neg (by decide)] at hp
      cases hp

/-- With nothing unresolved a publication does nothing. -/
theorem publish_of_resolved (hg : m.Good) (hz : m.now.unresolvedCount = 0) (id t : ℕ)
    (result : TuneResult) : requestPublish m id result t = m := by
  unfold requestPublish
  split
  · rfl
  · split
    · rfl
    · next i hfind =>
      dsimp only
      rw [if_pos]
      intro hp
      have hcount := hg.count
      rw [hz] at hcount
      exact number_pos (p := Record.Unresolved) (.inl hp) (by exact_mod_cast hcount.symm)

theorem earned_start : start.Earned := fun _ _ => ⟨nofun, nofun⟩

end DsdNeo.Tuning
