import DsdNeo.Models.Calls.Store

/-!
# Revisions and what they announce

A reader that polls the revisions of the store sees every change that moved them. Two changes
move none of a slot: the record of a new epoch counts from one again, and a refresh writes the
record in place. A crypto update or a key selection repeated moves nothing, save a carried update
that contradicts what was received, which never comes to rest.
-/

namespace DsdNeo.CallState

open DsdNeo.Text Store Operation Record

variable {ρ : Type} [Zero ρ]

/-- A record as it is seen, its revision left out. -/
def Place.visible (p : Place ρ) : Record × EndedOn ρ := ({ p.record with revision := 0 }, p.endedOn)

/-- Every slot seen to change moved its own revision and the one of the store. -/
def Store.Tracks (s s' : Store ρ) : Prop :=
  ∀ i, (s'.place i).visible ≠ (s.place i).visible →
    (s'.place i).record.revision ≠ (s.place i).record.revision ∧ s'.revision ≠ s.revision

/-- The observation opens an epoch. -/
def opensEpoch (w : Slot) (observation : Observation) (boundary : Boundary) (rx : Reception) :
    Bool :=
  receiveIdentityChanged w.record.receiveIdentity rx.received ||
    callStateObservationBeginsEpoch w.record observation boundary

/-- The operation shows in the revisions: it opens no epoch over a revision of one, and does not
refresh a running call to another verdict, identity or label in place. -/
def Operation.Announced (w : Slot) : Operation ρ → Prop
  | .observe observation boundary rx =>
    opensEpoch w observation boundary rx = true → w.record.revision ≠ 1
  | .refreshReceive identity verdict label _ _ =>
    w.record.phase = .active → receiveIdentityChanged w.record.receiveIdentity identity = false →
      verdict = w.record.receiveVerdict ∧
        receiveIdentityMerge w.record.receiveIdentity identity = w.record.receiveIdentity ∧
        label = w.record.serviceLabel
  | _ => True

/-- The same crypto update or key selection once more, whatever the clock. -/
def Operation.Repeated : Operation ρ → Operation ρ → Prop
  | .updateCrypto update crcInvalid _, .updateCrypto update' crcInvalid' _ =>
    update' = update ∧ crcInvalid' = crcInvalid
  | .updateRetainedCrypto update crcInvalid _, .updateRetainedCrypto update' crcInvalid' _ =>
    update' = update ∧ crcInvalid' = crcInvalid
  | .noteKeySelection epoch note, .noteKeySelection epoch' note' => epoch' = epoch ∧ note' = note
  | _, _ => False

/-- What is carried was not received. -/
def Operation.CarriesNoneReceived : Operation ρ → Prop
  | .updateCrypto update _ _ => update.carried = true → update.received = 0
  | .updateRetainedCrypto update _ _ => update.carried = true → update.received = 0
  | _ => True

/-- Repeating the operation changes nothing. -/
def Store.Settles (s : Store ρ) (i : Fin 2) (op : Operation ρ) : Prop :=
  ∀ again, op.Repeated again → (s.perform i op).perform i again = s.perform i op

/-- The update contradicts nothing that was received, where it is carried. -/
def CryptoUpdate.Restful (update : CryptoUpdate) (r : Record) (includeEnded : Bool) : Prop :=
  callStateCryptoTargetAccepts r includeEnded = true → update.carried = true →
    update.contradicted &&& r.cryptoReceived = 0

/-- A crypto update comes to rest. -/
def Operation.Restful (w : Slot) : Operation ρ → Prop
  | .updateCrypto update _ _ => update.Restful w.record false
  | .updateRetainedCrypto update _ _ => update.Restful w.record true
  | _ => True

theorem callStateApplyReceivedCrypto_revision (r : Record) (update : CryptoUpdate) :
    (callStateApplyReceivedCrypto r update).revision = r.revision := by
  unfold callStateApplyReceivedCrypto
  dsimp only
  split_ifs <;> rfl

theorem cryptoPublished_revision (r : Record) (update : CryptoUpdate) :
    (cryptoPublished r update).revision = r.revision := by
  unfold cryptoPublished
  dsimp only
  split_ifs <;> rfl

theorem cryptoUpdated_revision (r : Record) (update : CryptoUpdate) (crcInvalid : BitVec 8)
    (clock : ℚ) : (cryptoUpdated r update crcInvalid clock).revision = r.revision := by
  have hpublished := cryptoPublished_revision r update
  have hreceived := (callStateApplyReceivedCrypto_revision _ update).trans hpublished
  unfold cryptoUpdated
  dsimp only
  split_ifs
  · exact hpublished
  · exact hpublished
  · exact hreceived
  · exact hreceived

theorem moved_updateCrypto (w : Slot) (update : CryptoUpdate) (includeEnded : Bool)
    (crcInvalid : BitVec 8) (clock : ℚ) :
    (callStateUpdateCrypto w update includeEnded crcInvalid clock).2 = w ∨
      w.Moved (callStateUpdateCrypto w update includeEnded crcInvalid clock).2 := by
  rcases callStateUpdateCrypto_cases w update includeEnded crcInvalid clock with h | ⟨-, h⟩ | h
  · exact .inl (congrArg Prod.snd h)
  · exact .inl (congrArg Prod.snd h)
  · rw [h]
    exact .inr (moved_publish w (cryptoUpdated_revision _ _ _ _))

theorem moved_endEx (w : Slot) (observedM clock : ℚ) (reason : EndReason) :
    ((callStateEndEx w observedM clock reason).2 = w ∧ w.record.running = false) ∨
      w.Moved (callStateEndEx w observedM clock reason).2 := by
  have hrunning : w.record.running = false ↔ (w.record.epoch = 0 ∨ w.record.phase ≠ .active) := by
    simp only [running, decide_eq_false_iff_not]
    tauto
  unfold callStateEndEx
  dsimp only
  split_ifs with hstill
  · exact .inr (moved_publish w rfl)
  · exact .inr (moved_publish w rfl)
  · exact .inl ⟨rfl, hrunning.mpr hstill⟩
  · exact .inr (moved_publish w rfl)

theorem beginsEpoch_callStateObserve (w : Slot) (observation : Observation) (boundary : Boundary)
    (rx : Reception) :
    (callStateObserve w observation boundary rx).beginsEpoch =
      opensEpoch w observation boundary rx := by
  unfold callStateObserve opensEpoch
  dsimp only
  split_ifs with hbegins
  · exact hbegins.symm
  · exact hbegins.symm
  · exact (Bool.eq_false_iff.mpr hbegins).symm

theorem moved_observe (w : Slot) (observation : Observation) (boundary : Boundary)
    (rx : Reception) :
    (opensEpoch w observation boundary rx = false ∧
      w.Moved (callStateObserve w observation boundary rx).slot) ∨
    (opensEpoch w observation boundary rx = true ∧
      (callStateObserve w observation boundary rx).slot.revision = callStateNextNonzero w.revision ∧
      (callStateObserve w observation boundary rx).slot.record.revision = 1 ∧
      (callStateObserve w observation boundary rx).slot.record.epoch =
        callStateNextNonzero w.epochSequence) := by
  have hbegins := beginsEpoch_callStateObserve w observation boundary rx
  rcases callStateObserve_cases w observation boundary rx _ rfl with ⟨-, -, h⟩ | ⟨-, h⟩ | ⟨-, -, h⟩
  · rw [h] at hbegins ⊢
    exact .inr ⟨hbegins.symm, rfl, rfl, rfl⟩
  · rw [h] at hbegins ⊢
    exact .inr ⟨hbegins.symm, rfl, rfl, rfl⟩
  · rw [h] at hbegins ⊢
    exact .inl ⟨hbegins.symm, moved_publish w rfl⟩

theorem Operation.slot_cases (op : Operation ρ) (w : Slot) (held : EndedOn ρ) :
    (op.slot w = w ∧ op.endedOn w held = held) ∨
    w.Moved (op.slot w) ∨
    (∃ observation boundary rx, op = .observe observation boundary rx ∧
      opensEpoch w observation boundary rx = true ∧
      (op.slot w).revision = callStateNextNonzero w.revision ∧ (op.slot w).record.revision = 1 ∧
      (op.slot w).record.epoch = callStateNextNonzero w.epochSequence) ∨
    (∃ identity verdict label clock carrier,
    op = .refreshReceive identity verdict label clock carrier ∧
      w.record.phase = .active ∧ receiveIdentityChanged w.record.receiveIdentity identity = false ∧
      op.endedOn w held = held ∧
      op.slot w = { w with
        record := { w.record with
          receiveVerdict := verdict
          receiveIdentity := receiveIdentityMerge w.record.receiveIdentity identity
          serviceLabel := label } }) := by
  cases op with
  | observe observation boundary rx =>
    rcases moved_observe w observation boundary rx with ⟨-, h⟩ | h
    · exact .inr (.inl h)
    · exact .inr (.inr (.inl ⟨observation, boundary, rx, rfl, h⟩))
  | updateCrypto update crcInvalid clock =>
    exact (moved_updateCrypto w update false crcInvalid clock).imp (fun h => ⟨h, rfl⟩) .inl
  | updateRetainedCrypto update crcInvalid clock =>
    exact (moved_updateCrypto w update true crcInvalid clock).imp (fun h => ⟨h, rfl⟩) .inl
  | noteKeySelection epoch note =>
    simp only [Operation.slot, callStateNoteKeySelection]
    split_ifs
    · exact .inl ⟨rfl, rfl⟩
    · exact .inl ⟨rfl, rfl⟩
    · exact .inr (.inl (moved_publish w rfl))
    · exact .inl ⟨rfl, rfl⟩
  | forgetCryptoValues =>
    simp only [Operation.slot, callStateForgetCryptoValues]
    split_ifs
    · exact .inl ⟨rfl, rfl⟩
    · exact .inr (.inl (moved_publish w rfl))
  | updateMedia mediaActive observedM clock =>
    simp only [Operation.slot, callStateUpdateMedia]
    split_ifs
    · exact .inl ⟨rfl, rfl⟩
    · exact .inr (.inl (moved_publish w rfl))
    · exact .inr (.inl (moved_publish w rfl))
    · exact .inr (.inl (moved_publish w rfl))
  | endEx observedM clock reason carrier =>
    rcases moved_endEx w observedM clock reason with ⟨h, hrunning⟩ | h
    · exact .inl ⟨h, by simp [endedOn, hrunning]⟩
    · exact .inr (.inl h)
  | enrichText epoch sourceText targetText route0 route1 observedM clock =>
    simp only [Operation.slot, callStateEnrichText]
    split_ifs
    · exact .inl ⟨rfl, rfl⟩
    · exact .inr (.inl (moved_publish w rfl))
  | refreshReceive identity verdict label clock carrier =>
    by_cases hactive : w.record.phase = .active
    · cases hchanged : receiveIdentityChanged w.record.receiveIdentity identity with
      | false =>
        refine .inr (.inr (.inr ⟨identity, verdict, label, clock, carrier, rfl, hactive, hchanged,
          ?_, ?_⟩))
        · simp [endedOn, hchanged]
        · simp [Operation.slot, callStateRefreshReceive, hactive, hchanged]
      | true =>
        by_cases hanalog : w.record.protocol = syncAnalog
        · refine .inl ⟨?_, ?_⟩
          · simp [Operation.slot, callStateRefreshReceive, hactive, hchanged, hanalog]
          · simp [endedOn, hanalog]
        · have hend : (refreshReceive identity verdict label clock carrier).slot w =
              (callStateEndEx w 0 clock .explicit).2 := by
            simp [Operation.slot, callStateRefreshReceive, hactive, hchanged, hanalog]
          rw [hend]
          rcases moved_endEx w 0 clock .explicit with ⟨h, hrunning⟩ | h
          · exact .inl ⟨h, by simp [endedOn, hrunning]⟩
          · exact .inr (.inl h)
    · have hrunning : w.record.running = false := by simp [running, hactive]
      refine .inl ⟨?_, ?_⟩
      · simp [Operation.slot, callStateRefreshReceive, hactive]
      · simp [endedOn, hrunning]

variable {i : Fin 2} {op : Operation ρ} {s : Store ρ}

theorem Store.tracks_perform_iff :
    s.Tracks (s.perform i op) ↔
      (((s.perform i op).place i).visible ≠ (s.place i).visible →
        (op.slot (s.slot i)).record.revision ≠ (s.place i).record.revision ∧
          (op.slot (s.slot i)).revision ≠ s.revision) := by
  constructor
  · intro h hvisible
    simpa using h i hvisible
  · intro h j hvisible
    by_cases hj : j = i
    · subst hj
      simpa using h hvisible
    · rw [place_perform_of_ne s hj] at hvisible
      exact absurd rfl hvisible

theorem Slot.Moved.ne {w w' : Slot} (h : w.Moved w') :
    w'.record.revision ≠ w.record.revision ∧ w'.revision ≠ w.revision := by
  rw [h.1, h.2]
  exact ⟨callStateNextNonzero_ne _, callStateNextNonzero_ne _⟩

theorem Store.tracks_of_announced (h : op.Announced (s.slot i)) : s.Tracks (s.perform i op) := by
  rw [tracks_perform_iff]
  intro hvisible
  rcases op.slot_cases (s.slot i) (s.place i).endedOn with ⟨hslot, hended⟩ | hmoved |
    ⟨observation, boundary, rx, rfl, hopens, hrevision, hone, -⟩ |
    ⟨identity, verdict, label, clock, carrier, rfl, hactive, hchanged, hended, hslot⟩
  · rw [perform_eq_self hslot hended] at hvisible
    exact absurd rfl hvisible
  · exact hmoved.ne
  · rw [hrevision, hone]
    exact ⟨(h hopens).symm, callStateNextNonzero_ne _⟩
  · obtain ⟨hverdict, hidentity, hlabel⟩ := h hactive hchanged
    rw [hverdict, hidentity, hlabel] at hslot
    rw [hverdict, hlabel] at hvisible hended
    rw [perform_eq_self hslot hended] at hvisible
    exact absurd rfl hvisible

theorem Store.announced_of_tracks
    (hfresh : callStateNextNonzero (s.place i).epochSequence ≠ (s.place i).record.epoch)
    (h : s.Tracks (s.perform i op)) : op.Announced (s.slot i) := by
  rw [tracks_perform_iff] at h
  cases op with
  | observe observation boundary rx =>
    intro hopens hone
    rcases moved_observe (s.slot i) observation boundary rx with
      ⟨hcontinues, -⟩ | ⟨-, -, hrevision, hepoch⟩
    · rw [hopens] at hcontinues
      cases hcontinues
    · have hvisible : ((s.perform i (.observe observation boundary rx)).place i).visible ≠
          (s.place i).visible := by
        intro heq
        have hsame := congrArg (fun v => v.1.epoch) heq
        simp only [Place.visible, record_perform] at hsame
        exact hfresh (hepoch.symm.trans hsame)
      exact (h hvisible).1 (hrevision.trans hone.symm)
  | refreshReceive identity verdict label clock carrier =>
    intro hactive hchanged
    have hslot : (refreshReceive identity verdict label clock carrier).slot (s.slot i) =
        { s.slot i with
          record := { (s.slot i).record with
            receiveVerdict := verdict
            receiveIdentity := receiveIdentityMerge (s.slot i).record.receiveIdentity identity
            serviceLabel := label } } := by
      simp [Operation.slot, callStateRefreshReceive, hactive, hchanged]
    have hvisible : ((s.perform i (.refreshReceive identity verdict label clock carrier)).place
      i).visible
        = (s.place i).visible := by
      by_contra hne
      have hmoves := (h hne).1
      rw [hslot] at hmoves
      exact hmoves rfl
    simp only [Place.visible, record_perform, hslot, Prod.mk.injEq, Record.mk.injEq] at hvisible
    tauto
  | _ => trivial

/-- What is received is put beside the values published, and changes none of them. -/
theorem callStateApplyReceivedCrypto_published (r : Record) (update : CryptoUpdate) :
    (callStateApplyReceivedCrypto r update).crypto = r.crypto ∧
      (callStateApplyReceivedCrypto r update).audioPermitted = r.audioPermitted ∧
      (callStateApplyReceivedCrypto r update).encReceived = r.encReceived ∧
      (callStateApplyReceivedCrypto r update).algid = r.algid ∧
      (callStateApplyReceivedCrypto r update).kid = r.kid ∧
      (callStateApplyReceivedCrypto r update).mi = r.mi ∧
      (callStateApplyReceivedCrypto r update).cryptoRestored = r.cryptoRestored := by
  unfold callStateApplyReceivedCrypto
  dsimp only
  split_ifs <;> exact ⟨rfl, rfl, rfl, rfl, rfl, rfl, rfl⟩

theorem cryptoUpdated_published (r : Record) (update : CryptoUpdate) (crcInvalid : BitVec 8)
    (clock : ℚ) :
    (cryptoUpdated r update crcInvalid clock).crypto = update.classification ∧
      (cryptoUpdated r update crcInvalid clock).audioPermitted = update.audioPermitted ∧
      (cryptoUpdated r update crcInvalid clock).encReceived = callStateEncReceivedAfter r update ∧
      (cryptoUpdated r update crcInvalid clock).crcInvalid = r.crcInvalid ||| crcInvalid := by
  have hpublished : (cryptoPublished r update).crypto = update.classification ∧
      (cryptoPublished r update).audioPermitted = update.audioPermitted ∧
      (cryptoPublished r update).encReceived = callStateEncReceivedAfter r update ∧
      (cryptoPublished r update).crcInvalid = r.crcInvalid := by
    unfold cryptoPublished
    dsimp only
    split_ifs <;> exact ⟨rfl, rfl, rfl, rfl⟩
  obtain ⟨hcrypto, haudio, henc, hcrc⟩ := hpublished
  obtain ⟨hcrypto', haudio', henc', -⟩ := callStateApplyReceivedCrypto_published
    (cryptoPublished r update) update
  have hcrc' : (callStateApplyReceivedCrypto (cryptoPublished r update) update).crcInvalid =
      (cryptoPublished r update).crcInvalid := by
    unfold callStateApplyReceivedCrypto
    dsimp only
    split_ifs <;> rfl
  unfold cryptoUpdated
  dsimp only
  split_ifs
  · exact ⟨hcrypto, haudio, henc, by rw [hcrc]⟩
  · exact ⟨hcrypto, haudio, henc, by rw [hcrc]⟩
  · exact ⟨hcrypto'.trans hcrypto, haudio'.trans haudio, henc'.trans henc, by rw [hcrc', hcrc]⟩
  · exact ⟨hcrypto'.trans hcrypto, haudio'.trans haudio, henc'.trans henc, by rw [hcrc', hcrc]⟩

variable {update : CryptoUpdate}

theorem callStateCryptoDiffers_eq_false_iff {r : Record} :
    callStateCryptoDiffers r update = false ↔
      r.crypto = update.classification ∧
      (callStateCryptoUpdateOwnsValues r update = true →
        r.algid = update.algid ∧ r.kid = update.kid ∧ r.mi = update.mi) ∧
      r.audioPermitted = update.audioPermitted ∧
      callStateCryptoReceivesNew r update = false ∧
      callStateCryptoWithdraws r update = 0 ∧
      callStateEncReceivedAfter r update = r.encReceived := by
  unfold callStateCryptoDiffers
  cases callStateCryptoUpdateOwnsValues r update <;>
    cases callStateCryptoReceivesNew r update <;>
    simp [and_assoc]

theorem withdraws_again (contradicted received held : BitVec 8) :
    contradicted &&& ~~~received &&&
      (held &&& ~~~(contradicted &&& ~~~received &&& held) ||| (received &&& 3)) = 0 := by
  ext i hi
  simp only [BitVec.getElem_and, BitVec.getElem_or, BitVec.getElem_not]
  cases contradicted[i] <;> cases received[i] <;> cases held[i] <;> simp

theorem callStateCryptoWithdraws_repeated (r : Record) (update : CryptoUpdate) :
    callStateCryptoWithdraws (callStateApplyReceivedCrypto r update) update = 0 := by
  rw [callStateCryptoWithdraws, callStateApplyReceivedCrypto_cryptoReceived,
    callStateCryptoWithdraws]
  exact withdraws_again _ _ _

/-- A field received is held as received, with the value it came with. -/
theorem callStateCryptoReceivesNew_repeated (r : Record) (update : CryptoUpdate) :
    callStateCryptoReceivesNew (callStateApplyReceivedCrypto r update) update = false := by
  have hheld : ∀ bit : BitVec 8, (∀ x : BitVec 8, x &&& bit ≠ 0 → (x &&& 3) &&& bit ≠ 0) →
      update.received &&& bit ≠ 0 →
      (callStateApplyReceivedCrypto r update).cryptoReceived &&& bit ≠ 0 := by
    intro bit hbit hreceived hnone
    rw [callStateApplyReceivedCrypto_cryptoReceived, BitVec.and_or_distrib_right] at hnone
    exact hbit _ hreceived (BitVec.or_eq_zero_iff.mp hnone).2
  have halg := hheld callCryptoRxAlg (by decide)
  have hkid := hheld callCryptoRxKid (by decide)
  simp only [callStateCryptoReceivesNew, callStateApplyReceivedCrypto_receivedAlgid,
    callStateApplyReceivedCrypto_receivedKid, Bool.or_eq_false_iff, decide_eq_false_iff_not,
      not_and,
    not_or, not_not]
  constructor
  · intro hreceived
    rw [if_pos hreceived]
    exact ⟨halg hreceived, rfl⟩
  · intro hreceived
    rw [if_pos hreceived]
    exact ⟨hkid hreceived, rfl⟩

/-- What decides whether an update differs from a record. -/
structure SameCrypto (r r' : Record) : Prop where
  crypto : r'.crypto = r.crypto
  audioPermitted : r'.audioPermitted = r.audioPermitted
  encReceived : r'.encReceived = r.encReceived
  view : r'.cryptoView = r.cryptoView

theorem callStateCryptoDiffers_congr {r r' : Record} (h : SameCrypto r r') (update : CryptoUpdate) :
    callStateCryptoDiffers r' update = callStateCryptoDiffers r update := by
  obtain ⟨hcrypto, haudio, henc, hview⟩ := h
  simp only [cryptoView, CryptoView.mk.injEq] at hview
  obtain ⟨halgid, hkid, hmi, hreceived, hreceivedAlgid, hreceivedKid, hrestored⟩ := hview
  cases r
  cases r'
  dsimp only at *
  subst hcrypto haudio henc halgid hkid hmi hreceived hreceivedAlgid hreceivedKid hrestored
  rfl

/-- The record an update leaves, as far as the update looks at it again. -/
def cryptoSettled (r : Record) (update : CryptoUpdate) : Record :=
  if update.carried then cryptoPublished r update
  else callStateApplyReceivedCrypto (cryptoPublished r update) update

theorem sameCrypto_cryptoUpdated (r : Record) (update : CryptoUpdate) (crcInvalid : BitVec 8)
    (clock : ℚ) :
    SameCrypto (cryptoSettled r update) (cryptoUpdated r update crcInvalid clock) := by
  unfold cryptoSettled cryptoUpdated
  dsimp only
  split_ifs <;> exact ⟨rfl, rfl, rfl, rfl⟩

theorem cryptoPublished_eq (r : Record) (update : CryptoUpdate) :
    cryptoPublished r update =
      if callStateCryptoUpdateOwnsValues r update then
        { r with
          crypto := update.classification
          algid := update.algid
          kid := update.kid
          mi := update.mi
          cryptoRestored := false
          audioPermitted := update.audioPermitted
          encReceived := callStateEncReceivedAfter r update }
      else
        { r with
          crypto := update.classification
          audioPermitted := update.audioPermitted
          encReceived := callStateEncReceivedAfter r update } := by
  have hsame : callStateCryptoUpdateOwnsValues { r with crypto := update.classification } update =
      callStateCryptoUpdateOwnsValues r update := rfl
  unfold cryptoPublished
  dsimp only
  rw [hsame]
  split_ifs <;> rfl

theorem cryptoPublished_owns {r : Record}
    (h : callStateCryptoUpdateOwnsValues (cryptoPublished r update) update = true) :
    (cryptoPublished r update).algid = update.algid ∧ (cryptoPublished r update).kid = update.kid ∧
      (cryptoPublished r update).mi = update.mi := by
  by_cases howns : callStateCryptoUpdateOwnsValues r update = true
  · rw [cryptoPublished_eq, if_pos howns]
    exact ⟨rfl, rfl, rfl⟩
  · rw [cryptoPublished_eq, if_neg howns] at h
    exact absurd h howns

theorem callStateCryptoDiffers_cryptoSettled {r : Record}
    (hnone : update.carried = true → update.received = 0) :
    callStateCryptoDiffers (cryptoSettled r update) update = false ↔
      (update.carried = true → update.contradicted &&& r.cryptoReceived = 0) := by
  have hpublished : (cryptoPublished r update).crypto = update.classification ∧
      (cryptoPublished r update).audioPermitted = update.audioPermitted ∧
      (cryptoPublished r update).encReceived = callStateEncReceivedAfter r update ∧
      (cryptoPublished r update).cryptoReceived = r.cryptoReceived := by
    unfold cryptoPublished
    dsimp only
    split_ifs <;> exact ⟨rfl, rfl, rfl, rfl⟩
  obtain ⟨hcrypto, haudio, henc, hreceived⟩ := hpublished
  have hencAgain : callStateEncReceivedAfter (cryptoPublished r update) update =
      (cryptoPublished r update).encReceived := by
    rw [henc]
    simp only [callStateEncReceivedAfter, henc]
    split_ifs <;> rfl
  rw [callStateCryptoDiffers_eq_false_iff]
  cases hcarried : update.carried with
  | true =>
    have hzero := hnone hcarried
    have howns : callStateCryptoUpdateOwnsValues (cryptoPublished r update) update = false := by
      simp [callStateCryptoUpdateOwnsValues, hcarried]
    have hnew : callStateCryptoReceivesNew (cryptoPublished r update) update = false := by
      simp [callStateCryptoReceivesNew, hzero]
    have hwithdraws : callStateCryptoWithdraws (cryptoPublished r update) update =
        update.contradicted &&& r.cryptoReceived := by
      have hones : ∀ x : BitVec 8, x &&& ~~~(0 : BitVec 8) = x := by decide
      rw [callStateCryptoWithdraws, hzero, hreceived, hones]
    simp only [cryptoSettled, hcarried, if_true, howns, hnew, hwithdraws, hcrypto, haudio,
      hencAgain,
      true_and, and_true, Bool.false_eq_true, false_implies, forall_const]
  | false =>
    obtain ⟨hcrypto', haudio', henc', halgid', hkid', hmi', hrestored'⟩ :=
      callStateApplyReceivedCrypto_published (cryptoPublished r update) update
    have howns : callStateCryptoUpdateOwnsValues
        (callStateApplyReceivedCrypto (cryptoPublished r update) update) update =
        callStateCryptoUpdateOwnsValues (cryptoPublished r update) update := by
      simp only [callStateCryptoUpdateOwnsValues, hrestored']
    have hencLast : callStateEncReceivedAfter
        (callStateApplyReceivedCrypto (cryptoPublished r update) update) update =
        (callStateApplyReceivedCrypto (cryptoPublished r update) update).encReceived := by
      rw [henc', ← hencAgain]
      simp only [callStateEncReceivedAfter, henc']
    simp only [cryptoSettled, hcarried, Bool.false_eq_true, if_false, false_implies, iff_true]
    refine ⟨hcrypto'.trans hcrypto, ?_, haudio'.trans haudio,
      callStateCryptoReceivesNew_repeated _ _, callStateCryptoWithdraws_repeated _ _, hencLast⟩
    intro howns'
    rw [halgid', hkid', hmi']
    exact cryptoPublished_owns (howns ▸ howns')

/-- The update that was taken, once more: the record rests where it does not differ. -/
theorem callStateUpdateCrypto_repeated {w : Slot} {includeEnded : Bool} (crcInvalid : BitVec 8)
    (clock clock' : ℚ) (haccepts : callStateCryptoTargetAccepts w.record includeEnded = true) :
    let w' := w.publish (cryptoUpdated w.record update crcInvalid clock)
    (callStateUpdateCrypto w' update includeEnded crcInvalid clock').2 =
      if callStateCryptoDiffers (cryptoSettled w.record update) update then
        w'.publish (cryptoUpdated w'.record update crcInvalid clock')
      else w' := by
  intro w'
  have hlife := cryptoUpdated_life w.record update crcInvalid clock
  simp only [life, Life.mk.injEq] at hlife
  have haccepts' : callStateCryptoTargetAccepts w'.record includeEnded = true := by
    rw [← haccepts]
    simp only [callStateCryptoTargetAccepts, w', Slot.publish, hlife.1, hlife.2.1]
  have hcrc : crcInvalid &&& ~~~w'.record.crcInvalid = 0 := by
    have hbits : ∀ x y : BitVec 8, y &&& ~~~(x ||| y) = 0 := by
      intro x y
      ext i hi
      simp only [BitVec.getElem_and, BitVec.getElem_or, BitVec.getElem_not]
      cases x[i] <;> cases y[i] <;> simp
    have hheld : w'.record.crcInvalid = w.record.crcInvalid ||| crcInvalid :=
      (cryptoUpdated_published w.record update crcInvalid clock).2.2.2
    rw [hheld]
    exact hbits _ _
  have hsame := sameCrypto_cryptoUpdated w.record update crcInvalid clock
  have hdiffers : callStateCryptoDiffers w'.record update =
      callStateCryptoDiffers (cryptoSettled w.record update) update :=
    callStateCryptoDiffers_congr ⟨hsame.1, hsame.2, hsame.3, hsame.4⟩ update
  simp only [callStateUpdateCrypto, haccepts', not_true_eq_false, if_false, hcrc, and_true,
    hdiffers]
  cases callStateCryptoDiffers (cryptoSettled w.record update) update <;> rfl

theorem updateCrypto_settles_iff {w : Slot} {includeEnded : Bool}
    (hnone : update.carried = true → update.received = 0) (crcInvalid : BitVec 8) (clock : ℚ) :
    (∀ clock', (callStateUpdateCrypto
    (callStateUpdateCrypto w update includeEnded crcInvalid clock).2
        update includeEnded crcInvalid clock').2 =
      (callStateUpdateCrypto w update includeEnded crcInvalid clock).2) ↔
    update.Restful w.record includeEnded := by
  have hones : ∀ x : BitVec 8, x &&& ~~~(0 : BitVec 8) = x := by decide
  by_cases haccepts : callStateCryptoTargetAccepts w.record includeEnded = true
  · by_cases hskips : callStateCryptoDiffers w.record update = false ∧
        crcInvalid &&& ~~~w.record.crcInvalid = 0
    · have hskipped : ∀ clock,
          callStateUpdateCrypto w update includeEnded crcInvalid clock = (true, w) := by
        intro clock
        simp [callStateUpdateCrypto, haccepts, hskips]
      simp only [hskipped, implies_true, true_iff]
      intro _ hcarried
      have hwithdraws := (callStateCryptoDiffers_eq_false_iff.mp hskips.1).2.2.2.2.1
      rwa [callStateCryptoWithdraws, hnone hcarried, hones] at hwithdraws
    · have htaken : callStateUpdateCrypto w update includeEnded crcInvalid clock =
          (true, w.publish (cryptoUpdated w.record update crcInvalid clock)) := by
        rw [callStateUpdateCrypto, if_neg (not_not_intro haccepts), if_neg]
        rwa [Bool.not_eq_true]
      have hrestful : update.Restful w.record includeEnded ↔
          callStateCryptoDiffers (cryptoSettled w.record update) update = false := by
        rw [callStateCryptoDiffers_cryptoSettled hnone, CryptoUpdate.Restful]
        exact ⟨fun h => h haccepts, fun h _ => h⟩
      simp only [htaken, callStateUpdateCrypto_repeated crcInvalid clock _ haccepts, hrestful]
      cases callStateCryptoDiffers (cryptoSettled w.record update) update with
      | false => simp
      | true =>
        simp only [if_true, Bool.true_eq_false, iff_false, not_forall]
        refine ⟨clock, fun heq => ?_⟩
        exact callStateNextNonzero_ne _ (congrArg Slot.revision heq)
  · have hrefused : ∀ clock, callStateUpdateCrypto w update includeEnded crcInvalid clock =
      (false, w) := by
      intro clock
      rw [callStateUpdateCrypto, if_pos haccepts]
    simp only [hrefused, implies_true, true_iff]
    exact fun h => absurd h haccepts

theorem noteKeySelection_repeated (w : Slot) (epoch : BitVec 64) (selection : KeySelection) :
    (callStateNoteKeySelection (callStateNoteKeySelection w epoch selection).2 epoch selection).2 =
      (callStateNoteKeySelection w epoch selection).2 := by
  unfold callStateNoteKeySelection
  dsimp only
  split_ifs <;> simp_all [Slot.publish]

/-- Repeating an operation changes nothing exactly where it comes to rest. -/
theorem Store.settles_iff (hnone : op.CarriesNoneReceived) :
    s.Settles i op ↔ op.Restful (s.slot i) := by
  have hagain : ∀ again : Operation ρ, (∀ w held, again.endedOn w held = held) →
      ((s.perform i op).perform i again = s.perform i op ↔
        again.slot (op.slot (s.slot i)) = op.slot (s.slot i)) := by
    intro again hended
    rw [perform_eq_self_iff hended, slot_perform]
  cases op with
  | updateCrypto update crcInvalid clock =>
    rw [Operation.Restful, ← updateCrypto_settles_iff hnone crcInvalid clock]
    constructor
    · intro h clock'
      exact (hagain (.updateCrypto update crcInvalid clock') fun _ _ => rfl).mp (h _ ⟨rfl, rfl⟩)
    · intro h again hrepeated
      cases again with
      | updateCrypto update' crcInvalid' clock' =>
        obtain ⟨rfl, rfl⟩ := hrepeated
        exact (hagain (.updateCrypto update' crcInvalid' clock') fun _ _ => rfl).mpr (h clock')
      | _ => cases hrepeated
  | updateRetainedCrypto update crcInvalid clock =>
    rw [Operation.Restful, ← updateCrypto_settles_iff hnone crcInvalid clock]
    constructor
    · intro h clock'
      exact (hagain (.updateRetainedCrypto update crcInvalid clock') fun _ _ => rfl).mp
        (h _ ⟨rfl, rfl⟩)
    · intro h again hrepeated
      cases again with
      | updateRetainedCrypto update' crcInvalid' clock' =>
        obtain ⟨rfl, rfl⟩ := hrepeated
        exact (hagain (.updateRetainedCrypto update' crcInvalid' clock') fun _ _ => rfl).mpr
          (h clock')
      | _ => cases hrepeated
  | noteKeySelection epoch note =>
    refine iff_of_true ?_ trivial
    intro again hrepeated
    cases again with
    | noteKeySelection epoch' note' =>
      obtain ⟨rfl, rfl⟩ := hrepeated
      apply (hagain (.noteKeySelection epoch' note') fun _ _ => rfl).mpr
      simp only [Operation.slot]
      split_ifs
      · exact noteKeySelection_repeated _ _ _
      · rfl
    | _ => cases hrepeated
  | _ =>
    refine iff_of_true ?_ trivial
    intro again hrepeated
    cases again <;> cases hrepeated

/-- In every store, an operation on a slot is tracked by the revisions where it is announced, and
only there as long as epochs are given out only once; and repeating it changes nothing exactly
where it comes to rest. -/
theorem revisions_track_iff (s : Store ρ) (i : Fin 2) (op : Operation ρ) :
    (op.Announced (s.slot i) → s.Tracks (s.perform i op)) ∧
    (callStateNextNonzero (s.place i).epochSequence ≠ (s.place i).record.epoch →
      s.Tracks (s.perform i op) → op.Announced (s.slot i)) ∧
    (op.CarriesNoneReceived → (s.Settles i op ↔ op.Restful (s.slot i))) :=
  ⟨tracks_of_announced, announced_of_tracks, settles_iff⟩

/-- A store with nothing in it. -/
def Store.start : Store ℕ := ⟨fun _ => ⟨cleared, .cleared, 0⟩, 0⟩

/-- A call heard, then refused by another policy: the record shows the verdict, the revisions do
not move. -/
theorem refresh_not_tracked :
    let heard := Store.start.perform 0 (.observe (groupCall 5 1) .begin plainReception)
    let refused := heard.perform 0
      (.refreshReceive ReceiveIdentity.cleared 2 [0x41] 1 ⟨⟨0, 0⟩, 0⟩)
    (refused.place 0).record.receiveVerdict = 2 ∧ (heard.place 0).record.receiveVerdict = 0 ∧
      (refused.place 0).record.revision = (heard.place 0).record.revision ∧
      refused.revision = heard.revision ∧ ¬heard.Tracks refused := by
  intro heard refused
  have hverdict : (refused.place 0).record.receiveVerdict = 2 := by decide
  have hverdict' : (heard.place 0).record.receiveVerdict = 0 := by decide
  have hrevision : (refused.place 0).record.revision = (heard.place 0).record.revision := by
    decide
  refine ⟨hverdict, hverdict', hrevision, by decide, fun htracks => ?_⟩
  have hvisible : (refused.place 0).visible ≠ (heard.place 0).visible := by
    intro heq
    have hsame : (refused.place 0).record.receiveVerdict = (heard.place 0).record.receiveVerdict :=
      congrArg (fun v => v.1.receiveVerdict) heq
    rw [hverdict, hverdict'] at hsame
    cases hsame
  exact (htracks 0 hvisible).1 hrevision

end DsdNeo.CallState
