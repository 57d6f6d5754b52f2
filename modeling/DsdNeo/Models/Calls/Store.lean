import DsdNeo.Models.Calls.Received

/-!
# The store of the calls

Two slots share one store and its revision. The identity received on the carrier is kept of a
call that ended, as it stood then; nothing reads more of it than its epoch.
-/

namespace DsdNeo.CallState

open DsdNeo.Text

/-- `dsd_received_identity`: its epoch, and what it holds of the carrier. -/
structure ReceivedIdentity (ρ : Type) where
  epoch : BitVec 32
  parts : ρ

/-- The carrier as an end finds it. -/
structure Carrier (ρ : Type) where
  rxId : ReceivedIdentity ρ
  tetraMode : BitVec 8

/-- The carrier a call ended on: `ended_rx_id` and `ended_tetra_direct`. -/
structure EndedOn (ρ : Type) where
  rxId : ReceivedIdentity ρ
  tetraDirect : Bool

/-- `DSD_SYNC_IS_TETRA`. -/
def syncIsTetra (protocol : ℤ) : Bool := decide (protocol ∈ [41, 42, 43, 44])

/-- `DSD_TETRA_MODE_DMO_DIRECT`. -/
def tetraModeDmoDirect : BitVec 8 := 4

/-- `DSD_TETRA_MODE_DMO_REPEATER_GATEWAY`. -/
def tetraModeDmoRepeaterGateway : BitVec 8 := 7

/-- The arguments of `dsd_call_state_note_key_selection`, with the key epoch and the profile of
the state. -/
structure KeyNote where
  keyEpoch : BitVec 64
  source : ℤ
  signaledId : ℤ
  effectiveId : ℤ
  available : ℤ
  fallback : ℤ
  profileRef : Bytes

/-- The arguments `dsd_call_state_note_key_selection` does not refuse. -/
def KeyNote.inRange (n : KeyNote) : Bool :=
  decide (0 ≤ n.source ∧ n.source ≤ 5 ∧ -1 ≤ n.available ∧ n.available ≤ 1 ∧ 0 ≤ n.fallback ∧
    n.fallback ≤ 3)

/-- The selection made of the arguments, its algorithm still to come. -/
def KeyNote.selection (n : KeyNote) : KeySelection where
  keyEpoch := n.keyEpoch
  effectiveId := BitVec.ofInt 32 n.effectiveId
  signaledId := BitVec.ofInt 16 n.signaledId
  valid := true
  source := BitVec.ofInt 8 n.source
  algorithm := 0
  available := BitVec.ofInt 8 n.available
  fallback := BitVec.ofInt 8 n.fallback
  profileRef := n.profileRef.take 63

/-- An operation on a slot, with what it reads of the state. -/
inductive Operation (ρ : Type) where
  | observe (observation : Observation) (boundary : Boundary) (rx : Reception)
  | updateCrypto (update : CryptoUpdate) (crcInvalid : BitVec 8) (clock : ℚ)
  | updateRetainedCrypto (update : CryptoUpdate) (crcInvalid : BitVec 8) (clock : ℚ)
  | noteKeySelection (epoch : BitVec 64) (note : KeyNote)
  | forgetCryptoValues
  | updateMedia (mediaActive : Bool) (observedM clock : ℚ)
  | endEx (observedM clock : ℚ) (reason : EndReason) (carrier : Carrier ρ)
  | enrichText (epoch : BitVec 64) (sourceText targetText route0 route1 : Bytes)
      (observedM clock : ℚ)
  | refreshReceive (identity : ReceiveIdentity) (verdict : BitVec 8) (label : Bytes) (clock : ℚ)
      (carrier : Carrier ρ)

/-- The slot after an operation. -/
def Operation.slot {ρ : Type} (w : Slot) : Operation ρ → Slot
  | .observe observation boundary rx => (callStateObserve w observation boundary rx).slot
  | .updateCrypto update crcInvalid clock =>
    (callStateUpdateCrypto w update false crcInvalid clock).2
  | .updateRetainedCrypto update crcInvalid clock =>
    (callStateUpdateCrypto w update true crcInvalid clock).2
  | .noteKeySelection epoch note =>
    if note.inRange then (callStateNoteKeySelection w epoch note.selection).2 else w
  | .forgetCryptoValues => (callStateForgetCryptoValues w).2
  | .updateMedia mediaActive observedM clock =>
    (callStateUpdateMedia w mediaActive observedM clock).2
  | .endEx observedM clock reason _ => (callStateEndEx w observedM clock reason).2
  | .enrichText epoch sourceText targetText route0 route1 observedM clock =>
    (callStateEnrichText w epoch sourceText targetText route0 route1 observedM clock).2
  | .refreshReceive identity verdict label clock _ =>
    callStateRefreshReceive w identity verdict label clock

/-- The call `dsd_call_state_end_ex` ends. -/
def Record.running (r : Record) : Bool := decide (r.epoch ≠ 0 ∧ r.phase = .active)

section Carriers

variable {ρ : Type} [Zero ρ]

/-- The carrier of a call that has not ended. -/
def EndedOn.cleared : EndedOn ρ := ⟨⟨0, 0⟩, false⟩

/-- `call_state_capture_ended_identity`. -/
def callStateCaptureEndedIdentity (carrier : Carrier ρ) (r : Record) : EndedOn ρ where
  rxId := if carrier.rxId.epoch = r.rxIdEpoch then carrier.rxId else ⟨0, 0⟩
  tetraDirect := syncIsTetra r.protocol &&
    decide (tetraModeDmoDirect ≤ carrier.tetraMode ∧
      carrier.tetraMode ≤ tetraModeDmoRepeaterGateway)

/-- The carrier of the end after an operation: captured where a call ends, cleared with the record
where an epoch begins. -/
def Operation.endedOn (w : Slot) (held : EndedOn ρ) : Operation ρ → EndedOn ρ
  | .observe observation boundary rx =>
    if (callStateObserve w observation boundary rx).beginsEpoch then .cleared else held
  | .endEx _ _ _ carrier =>
    if w.record.running then callStateCaptureEndedIdentity carrier w.record else held
  | .refreshReceive identity _ _ _ carrier =>
    if w.record.running ∧ receiveIdentityChanged w.record.receiveIdentity identity ∧
        w.record.protocol ≠ syncAnalog then
      callStateCaptureEndedIdentity carrier w.record
    else held
  | _ => held

/-- A slot of the store: its record, and the last epoch given out. -/
structure Place (ρ : Type) where
  record : Record
  endedOn : EndedOn ρ
  epochSequence : BitVec 64

/-- `dsd_call_state_ext`: the slots, and the revision they share. -/
structure Store (ρ : Type) where
  place : Fin 2 → Place ρ
  revision : BitVec 64

/-- One slot of the store, with the revision of the store. -/
def Store.slot (s : Store ρ) (i : Fin 2) : Slot :=
  ⟨(s.place i).record, (s.place i).epochSequence, s.revision⟩

/-- The store after an operation on a slot. -/
def Store.perform (s : Store ρ) (i : Fin 2) (op : Operation ρ) : Store ρ where
  place := Function.update s.place i
    ⟨(op.slot (s.slot i)).record, op.endedOn (s.slot i) (s.place i).endedOn,
      (op.slot (s.slot i)).epochSequence⟩
  revision := (op.slot (s.slot i)).revision

@[simp] theorem Store.slot_perform (s : Store ρ) (i : Fin 2) (op : Operation ρ) :
    (s.perform i op).slot i = op.slot (s.slot i) := by
  simp [Store.slot, Store.perform]

@[simp] theorem Store.record_perform (s : Store ρ) (i : Fin 2) (op : Operation ρ) :
    ((s.perform i op).place i).record = (op.slot (s.slot i)).record := by
  simp [Store.perform]

@[simp] theorem Store.revision_perform (s : Store ρ) (i : Fin 2) (op : Operation ρ) :
    (s.perform i op).revision = (op.slot (s.slot i)).revision := rfl

/-- An operation on one slot leaves the place of the other. -/
theorem Store.place_perform_of_ne (s : Store ρ) {i j : Fin 2} (h : j ≠ i) (op : Operation ρ) :
    (s.perform i op).place j = s.place j := by
  simp [Store.perform, h]

/-- An operation that changes neither slot nor end changes nothing. -/
theorem Store.perform_eq_self {s : Store ρ} {i : Fin 2} {op : Operation ρ}
    (hslot : op.slot (s.slot i) = s.slot i)
    (hended : op.endedOn (s.slot i) (s.place i).endedOn = (s.place i).endedOn) :
    s.perform i op = s := by
  have hplace : (⟨(s.slot i).record, (s.place i).endedOn, (s.slot i).epochSequence⟩ : Place ρ) =
      s.place i := rfl
  rw [Store.perform, hslot, hended, hplace, Function.update_eq_self]
  rfl

/-- Where no end is kept, only the slot tells a change. -/
theorem Store.perform_eq_self_iff {s : Store ρ} {i : Fin 2} {op : Operation ρ}
    (hended : ∀ w held, op.endedOn w held = held) :
    s.perform i op = s ↔ op.slot (s.slot i) = s.slot i := by
  constructor
  · intro h
    have hslot := congrArg (fun s => s.slot i) h
    simpa using hslot
  · intro h
    exact Store.perform_eq_self h (hended _ _)

/-- The two revisions as a publication moves them. -/
def Slot.Moved (w w' : Slot) : Prop :=
  w'.revision = callStateNextNonzero w.revision ∧
    w'.record.revision = callStateNextNonzero w.record.revision

/-- A publication with the revision of before moves it. -/
theorem moved_publish (w : Slot) {r : Record} (h : r.revision = w.record.revision) :
    w.Moved (w.publish r) :=
  ⟨rfl, congrArg callStateNextNonzero h⟩

/-- The next revision is another one. -/
theorem callStateNextNonzero_ne (value : BitVec 64) : callStateNextNonzero value ≠ value :=
  Version.iterate_bump_ne (n := 0) (by omega) value

end Carriers

end DsdNeo.CallState
