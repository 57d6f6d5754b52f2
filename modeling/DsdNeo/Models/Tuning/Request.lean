import Mathlib.Algebra.Order.Ring.Nat
import Mathlib.Data.List.FinRange

/-!
# Trunk tuning requests

`trunk_tuning_hooks.c`: a history of 64 request records, the counter of those not
resolved and the generation a frame is checked against. The records are only touched
under a lock; the counter and the generation are loaded without it, so a machine
keeps every instant its stores went through.
-/

namespace DsdNeo.Tuning

/-- `dsd_trunk_tune_result`. -/
inductive TuneResult where
  | ok
  | deferred
  | pending
  | failed
  | timeout
  deriving DecidableEq

/-- `dsd_trunk_tune_result_is_complete`. -/
def TuneResult.isComplete (r : TuneResult) : Bool := r = .ok

/-- `dsd_trunk_tuning_request_state`. -/
inductive RequestState where
  | free
  | pending
  | failedGated
  | finished
  deriving DecidableEq

/-- `dsd_trunk_tuning_request_record`. -/
structure Record where
  requestId : ℕ
  completedMNs : ℕ
  result : TuneResult
  state : RequestState
  inheritedFailureGate : Bool
  backendComplete : Bool
  ownerReady : Bool
  disowned : Bool
  deriving DecidableEq

/-- A record as static storage starts it. -/
def Record.zero : Record := ⟨0, 0, .ok, .free, false, false, false, false⟩

/-- The record in another state. -/
def Record.inState (r : Record) (st : RequestState) : Record := { r with state := st }

/-- It is in that state. -/
@[simp] theorem Record.inState_state (r : Record) (st : RequestState) :
    (r.inState st).state = st := rfl

/-- The request stays. -/
@[simp] theorem Record.inState_requestId (r : Record) (st : RequestState) :
    (r.inState st).requestId = r.requestId := rfl

/-- So does its result. -/
@[simp] theorem Record.inState_result (r : Record) (st : RequestState) :
    (r.inState st).result = r.result := rfl

/-- And the gate it inherited. -/
@[simp] theorem Record.inState_inheritedFailureGate (r : Record) (st : RequestState) :
    (r.inState st).inheritedFailureGate = r.inheritedFailureGate := rfl

/-- The backend's answer noted at a time. -/
def Record.answered (r : Record) (result : TuneResult) (monoNs : ℕ) : Record :=
  { r with result := result, completedMNs := monoNs, backendComplete := true }

/-- The owner's side noted. -/
def Record.ready (r : Record) : Record := { r with ownerReady := true }

/-- The owner gone: nothing staged waits for it. -/
def Record.letGo (r : Record) : Record := { r with disowned := true, ownerReady := true }

/-- The owner's answer put in place of the backend's. -/
def Record.overruled (r : Record) (result : TuneResult) : Record := { r with result := result }

/-- The shared variables at one instant, with two records of what happened: the requests
whose begin returned, and those for which the generation advanced. -/
structure Instant where
  records : Fin 64 → Record
  unresolvedCount : ℤ
  generation : ℕ
  nextRequest : ℕ
  returned : List ℕ
  committed : List ℕ

/-- The present instant and those before it, the latest first. -/
structure Machine where
  now : Instant
  past : List Instant

/-- Every instant, the latest first. -/
def Machine.timeline (m : Machine) : List Instant := m.now :: m.past

/-- One store. -/
def Machine.store (m : Machine) (f : Instant → Instant) : Machine := ⟨f m.now, m.now :: m.past⟩

/-- A store to one record. -/
def Machine.write (m : Machine) (i : Fin 64) (r : Record) : Machine :=
  m.store fun x => { x with records := Function.update x.records i r }

/-- `atomic_fetch_add` on the unresolved count. -/
def Machine.addUnresolved (m : Machine) (n : ℤ) : Machine :=
  m.store fun x => { x with unresolvedCount := x.unresolvedCount + n }

/-- `dsd_trunk_tuning_generation_advance`, for a request. -/
def Machine.generationAdvance (m : Machine) (requestId : ℕ) : Machine :=
  m.store fun x =>
    { x with generation := (x.generation + 1) % 2 ^ 64, committed := x.committed ++ [requestId] }

/-- A begin hands its request out. -/
def Machine.handOut (m : Machine) (requestId : ℕ) : Machine :=
  m.store fun x => { x with returned := x.returned ++ [requestId] }

/-- `dsd_trunk_tuning_request_find_locked`. -/
def requestFind (records : Fin 64 → Record) (requestId : ℕ) : Option (Fin 64) :=
  (List.finRange 64).find? fun i =>
    (records i).requestId = requestId && (records i).state ≠ .free

/-- The record with the smallest id among those in a state, the first of equals. -/
def oldestIn (records : Fin 64 → Record) (st : RequestState) : Option (Fin 64) :=
  (List.finRange 64).foldl (fun oldest i =>
    if (records i).state = st ∧
        oldest.all fun j => (records i).requestId < (records j).requestId then some i
    else oldest) none

/-- `dsd_trunk_tuning_request_slot_locked`: the slot, and whether a failed request held it. -/
def requestSlot (records : Fin 64 → Record) : Option (Fin 64 × Bool) :=
  match (List.finRange 64).find? fun i => (records i).state = .free with
  | some i => some (i, false)
  | none =>
    match oldestIn records .finished with
    | some i => some (i, false)
    | none => (oldestIn records .failedGated).map fun i => (i, true)

/-- A record's state set to finished and the counter taken down. -/
def Machine.resolve (m : Machine) (i : Fin 64) : Machine :=
  (m.write i ((m.now.records i).inState .finished)).addUnresolved (-1)

/-- The loop that retires the failed requests whose id passes a test. -/
def retireWhere (p : ℕ → Bool) (m : Machine) : Machine :=
  (List.finRange 64).foldl (fun m i =>
    if (m.now.records i).state = .failedGated ∧ p (m.now.records i).requestId then m.resolve i
    else m) m

/-- `dsd_trunk_tuning_retire_failed_requests_locked`. -/
def retireFailedRequestsLocked (m : Machine) (successfulRequestId : ℕ) : Machine :=
  retireWhere (fun id => id < successfulRequestId) m

/-- `dsd_trunk_tuning_finish_success_locked`. -/
def finishSuccess (m : Machine) (i : Fin 64) : Machine :=
  if (m.now.records i).state ≠ .pending then m
  else
    let requestId := (m.now.records i).requestId
    retireFailedRequestsLocked ((m.generationAdvance requestId).resolve i) requestId

/-- `dsd_trunk_tuning_finish_rolled_back_locked`. -/
def finishRolledBack (m : Machine) (i : Fin 64) : Machine :=
  if (m.now.records i).state = .finished then m
  else if (m.now.records i).inheritedFailureGate then
    m.write i ((m.now.records i).inState .failedGated)
  else m.resolve i

/-- The next request id: the counter wraps and `0` is passed over. -/
def takeId (next : ℕ) : ℕ := if (next + 1) % 2 ^ 64 = 0 then 1 else (next + 1) % 2 ^ 64

/-- `dsd_trunk_tuning_request_begin`: the id, `0` when no slot is left. The source takes the id by a
`fetch_add` before the lock, which is one step with the rest here. -/
def requestBegin (m : Machine) : ℕ × Machine :=
  let requestId := takeId m.now.nextRequest
  let m := m.store fun x => { x with nextRequest := requestId }
  match requestSlot m.now.records with
  | none => (0, m)
  | some (i, inherited) =>
    let m := m.write i ⟨requestId, 0, .pending, .pending, inherited, false, false, false⟩
    let m := if inherited then m else m.addUnresolved 1
    (requestId, m.handOut requestId)

/-- `dsd_trunk_tuning_retire_failed_requests`. -/
def retireFailedRequests (m : Machine) : Machine :=
  if m.now.unresolvedCount = 0 then m else retireWhere (fun _ => true) m

/-- `dsd_trunk_tuning_retire_failed_requests_through`. -/
def retireFailedRequestsThrough (m : Machine) (requestId : ℕ) : Machine :=
  if requestId = 0 ∨ m.now.unresolvedCount = 0 then m
  else retireWhere (fun id => id ≤ requestId) m

/-- `dsd_trunk_tuning_request_publish`, at a time of the decode clock. -/
def requestPublish (m : Machine) (requestId : ℕ) (result : TuneResult) (monoNs : ℕ) : Machine :=
  if requestId = 0 ∨ result = .pending then m
  else
    match requestFind m.now.records requestId with
    | none => m
    | some i =>
      let r := m.now.records i
      if r.state ≠ .pending then m
      else
        let r := r.answered result monoNs
        let m := m.write i r
        if result.isComplete then if r.ownerReady then finishSuccess m i else m
        -- no owner is left to roll back and complete it
        else if r.disowned then finishRolledBack m i
        else m.write i (r.inState .failedGated)

/-- `dsd_trunk_tuning_request_mark_ready`. -/
def requestMarkReady (m : Machine) (requestId : ℕ) : Machine :=
  if requestId = 0 then m
  else
    match requestFind m.now.records requestId with
    | none => m
    | some i =>
      let r := m.now.records i
      if r.state ≠ .pending then m
      else
        let m := m.write i r.ready
        if r.backendComplete && r.result.isComplete then finishSuccess m i else m

/-- `dsd_trunk_tuning_request_complete`, at a time of the decode clock. -/
def requestComplete (m : Machine) (requestId : ℕ) (result : TuneResult) (monoNs : ℕ) : Machine :=
  if requestId = 0 ∨ result = .pending then m
  else
    match requestFind m.now.records requestId with
    | none => m
    | some i =>
      if (m.now.records i).state = .finished then m
      else
        let r := (m.now.records i).ready
        let m := m.write i r
        if r.state = .failedGated then if !result.isComplete then finishRolledBack m i else m
        else if !r.backendComplete then
          let m := m.write i (r.answered result monoNs)
          if result.isComplete then finishSuccess m i else finishRolledBack m i
        else
          let backendCommitted := r.result.isComplete
          let ownerCommitted := result.isComplete
          if backendCommitted && ownerCommitted then finishSuccess m i
          else if !backendCommitted && !ownerCommitted then finishRolledBack m i
          -- hardware and decoder ownership disagree
          else
            let r := if !ownerCommitted then r.overruled result else r
            m.write i (r.inState .failedGated)

/-- `dsd_trunk_tuning_request_disown`. -/
def requestDisown (m : Machine) (requestId : ℕ) : Machine :=
  if requestId = 0 then m
  else
    match requestFind m.now.records requestId with
    | none => m
    | some i =>
      let r := m.now.records i
      if r.state = .pending then
        let m := m.write i r.letGo
        if r.backendComplete && r.result.isComplete then finishSuccess m i else m
      else if r.state = .failedGated then finishRolledBack m i
      else m

/-- `dsd_trunk_tuning_request_status`, without the completion time. -/
def requestStatus (records : Fin 64 → Record) (requestId : ℕ) : TuneResult :=
  if requestId = 0 then .failed
  else
    match requestFind records requestId with
    | none => .failed
    | some i => if (records i).state = .pending then .pending else (records i).result

/-- `dsd_trunk_tuning_frame_is_current`, its four loads made at four instants. -/
def frameIsCurrent (frameGeneration : ℕ) (x₁ x₂ x₃ x₄ : Instant) : Bool :=
  if x₁.unresolvedCount ≠ 0 then false
  else if frameGeneration ≠ x₂.generation then false
  else if x₃.unresolvedCount ≠ 0 then false
  else frameGeneration = x₄.generation

/-- A call. -/
inductive Call where
  | begin
  | publish (requestId : ℕ) (result : TuneResult) (monoNs : ℕ)
  | markReady (requestId : ℕ)
  | complete (requestId : ℕ) (result : TuneResult) (monoNs : ℕ)
  | disown (requestId : ℕ)
  | retire
  | retireThrough (requestId : ℕ)
  deriving DecidableEq

/-- What a call leaves when it unlocks. -/
def Call.apply : Call → Machine → Machine
  | .begin, m => (requestBegin m).2
  | .publish id result t, m => requestPublish m id result t
  | .markReady id, m => requestMarkReady m id
  | .complete id result t, m => requestComplete m id result t
  | .disown id, m => requestDisown m id
  | .retire, m => retireFailedRequests m
  | .retireThrough id, m => retireFailedRequestsThrough m id

/-- The variables as the program starts them. -/
def start : Machine := ⟨⟨fun _ => .zero, 0, 1, 0, [], []⟩, []⟩

/-- The machine after a sequence of calls. -/
def run (m : Machine) (calls : List Call) : Machine := calls.foldl (fun m c => c.apply m) m

end DsdNeo.Tuning
