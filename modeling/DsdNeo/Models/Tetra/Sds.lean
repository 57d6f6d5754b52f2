import DsdNeo.Core.Bits.Bytes
import DsdNeo.Core.Bits.Sizes
import DsdNeo.Models.Tetra.Cmce

/-!
# Concatenated short data

Parts of a long message arrive in any order from many senders and are collected in a few
contexts. A context is found by its sender, reference and protocol, dropped when it has
been idle too long, and gives the whole message with the last part it missed.
-/

namespace DsdNeo.Tetra.Sds

open Cmce

/-- `sds_concat_sender`. -/
structure Sender where
  ssi : ℕ
  network : ℕ
  type : ℕ
  deriving DecidableEq, Repr

/-- What `sds_read_concat_control` demands of a part. -/
structure WellFormed (total sequence : ℕ) (payloadPid : Option ℕ) (dataBits : ℕ) : Prop where
  two_le : 2 ≤ total
  total_le : total ≤ 255
  one_le : 1 ≤ sequence
  le_total : sequence ≤ total
  data_le : dataBits ≤ 2047
  pid : payloadPid.isSome ↔ sequence = 1

/-- A well-formed part with its sender and user data: `sds_concat_part`. -/
structure Part where
  src : Sender
  reference : ℕ
  withTransport : Bool
  total : ℕ
  sequence : ℕ
  payloadPid : Option ℕ
  data : List Bool
  wellFormed : WellFormed total sequence payloadPid data.length

/-- What tells one message from another. -/
structure Key where
  src : Sender
  reference : ℕ
  withTransport : Bool
  deriving DecidableEq, Repr

/-- The message a part belongs to. -/
def Part.key (p : Part) : Key := ⟨p.src, p.reference, p.withTransport⟩

/-- `SDS_CONCAT_PART_BYTES` of zero. -/
def clearPart : List ℕ := List.replicate 256 0

/-- `sds_concat_ctx`. -/
structure Ctx where
  updatedMs : BitVec 64 := 0
  src : Sender := ⟨0, 0, 0⟩
  partBits : ℕ → ℕ := fun _ => 0
  reference : ℕ := 0
  valid : Bool := false
  withTransport : Bool := false
  total : ℕ := 0
  receivedCount : ℕ := 0
  payloadPidKnown : Bool := false
  payloadPid : ℕ := 0
  received : ℕ → ℕ := fun _ => 0
  data : ℕ → List ℕ := fun _ => clearPart

/-- The message a context collects. -/
def Ctx.key (c : Ctx) : Key := ⟨c.src, c.reference, c.withTransport⟩

/-- `SDS_CONCAT_TIMEOUT_MS`. -/
def timeoutMs : ℕ := 300000

/-- `sds_concat_has_part`. -/
def Ctx.hasPart (c : Ctx) (index : ℕ) : Bool := (c.received (index / 8)).testBit (index % 8)

/-- The contexts of `tetra_sds_concat_store`. -/
abbrev Store := Fin 4 → Ctx

/-- A context idle for too long. -/
def Ctx.Idle (c : Ctx) (nowMs : BitVec 64) : Prop :=
  c.valid = true ∧ timeoutMs < (nowMs - c.updatedMs).toNat

instance (c : Ctx) (nowMs : BitVec 64) : Decidable (c.Idle nowMs) :=
  inferInstanceAs (Decidable (_ ∧ _))

/-- What the pass over the contexts has found. -/
structure Search where
  store : Store
  free : Option (Fin 4)
  oldest : Fin 4

/-- Drop a context that has been idle too long. -/
def Search.expire (nowMs : BitVec 64) (i : Fin 4) (f : Search) : Search :=
  if (f.store i).Idle nowMs then { f with store := Function.update f.store i {} } else f

/-- Note a context that is free, or older than the oldest yet. -/
def Search.note (i : Fin 4) (f : Search) : Search :=
  { f with
    free := if (f.store i).valid = false ∧ f.free = none then some i else f.free
    oldest :=
      if (f.store i).valid = true ∧ (f.store i).updatedMs < (f.store f.oldest).updatedMs then i
      else f.oldest }

/-- The loop of `sds_concat_find`: the matching context, if one is found. -/
def findLoop (key : Key) (nowMs : BitVec 64) : List (Fin 4) → Search → Search × Option (Fin 4)
  | [], f => (f, none)
  | i :: rest, f =>
    if ((f.expire nowMs i).store i).valid = true ∧ ((f.expire nowMs i).store i).key = key then
      (f.expire nowMs i, some i)
    else findLoop key nowMs rest ((f.expire nowMs i).note i)

/-- A context opened for a part. -/
def Ctx.opened (p : Part) : Ctx :=
  { valid := true, src := p.src, reference := p.reference, withTransport := p.withTransport,
    total := p.total }

/-- `sds_concat_find`: the context collecting the part's message. -/
def sdsConcatFind (p : Part) (nowMs : BitVec 64) (store : Store) : Store × Fin 4 :=
  match findLoop p.key nowMs [0, 1, 2, 3] ⟨store, none, 0⟩ with
  | (f, some i) => (f.store, i)
  | (f, none) =>
    (Function.update f.store (f.free.getD f.oldest) (Ctx.opened p), f.free.getD f.oldest)

/-- Set a bit of the packed data. -/
def storeBit (packed : List ℕ) (b : Bool) (i : ℕ) : List ℕ :=
  packed.modify (i / 8) fun x => x ||| (b.toNat <<< (7 - i % 8))

/-- The packing loop of `sds_concat_store_part`. -/
def packBits (bits : List Bool) : List ℕ :=
  bits.zipIdx.foldl (fun packed bi => storeBit packed bi.1 bi.2) clearPart

/-- The bits of a stored part. -/
def unpackBits (packed : List ℕ) (bits : ℕ) : List Bool :=
  (List.range bits).map fun bit => ((packed[bit / 8]?).getD 0).testBit (7 - bit % 8)

/-- `sds_concat_assemble`. -/
def Ctx.assemble (c : Ctx) : List Bool :=
  ((List.range c.total).flatMap fun i => unpackBits (c.data i) (c.partBits i)).take
    ((List.range c.total).map c.partBits).sum

/-- What `sds_concat_submit` returns. -/
inductive Result where
  | rejected
  | pending
  | complete
  | duplicate
  deriving DecidableEq, Repr

/-- A part entered into a context. -/
def Ctx.entered (c : Ctx) (p : Part) : Ctx :=
  { c with
    data := Function.update c.data (p.sequence - 1) (packBits p.data)
    partBits := Function.update c.partBits (p.sequence - 1) p.data.length
    received := Function.update c.received ((p.sequence - 1) / 8)
      (c.received ((p.sequence - 1) / 8) ||| 1 <<< ((p.sequence - 1) % 8))
    receivedCount := (c.receivedCount + 1) % 256
    payloadPid := if p.sequence = 1 then p.payloadPid.getD 0 else c.payloadPid
    payloadPidKnown := if p.sequence = 1 then true else c.payloadPidKnown }

/-- `sds_concat_store_part`. -/
def Ctx.storePart (c : Ctx) (p : Part) : Ctx × Result :=
  if c.total ≠ p.total then ({}, .rejected)
  else if c.hasPart (p.sequence - 1) then
    if c.partBits (p.sequence - 1) ≠ p.data.length ∨
        c.data (p.sequence - 1) ≠ packBits p.data then ({}, .rejected)
    else (c, .duplicate)
  else (c.entered p, .pending)

/-- Whether the memory asked for was there: the store, and the assembled message. -/
structure Memory where
  store : Bool := true
  assembled : Bool := true
  deriving DecidableEq

/-- An assembled message and its protocol identifier. -/
structure Message where
  pid : ℕ
  bits : List Bool
  deriving DecidableEq, Repr

/-- The end of `sds_concat_submit`: assemble the message when no part is missing. -/
def Ctx.settle (c : Ctx) (assembled : Bool) (result : Result) : Ctx × Result × Option Message :=
  if result ≠ .pending ∨ c.receivedCount ≠ c.total ∨ c.payloadPidKnown = false then
    (c, result, none)
  else if assembled then ({}, .complete, some ⟨c.payloadPid, c.assemble⟩)
  else ({}, .rejected, none)

/-- A context's turn: note the time, store the part, and settle. -/
def Ctx.submit (c : Ctx) (assembled : Bool) (nowMs : BitVec 64) (p : Part) :
    Ctx × Result × Option Message :=
  let stored := ({ c with updatedMs := nowMs } : Ctx).storePart p
  stored.1.settle assembled stored.2

/-- `sds_concat_submit` on the contexts. -/
def Store.submit (store : Store) (assembled : Bool) (nowMs : BitVec 64) (p : Part) :
    Store × Result × Option Message :=
  let found := sdsConcatFind p nowMs store
  let settled := (found.1 found.2).submit assembled nowMs p
  (Function.update found.1 found.2 settled.1, settled.2)

/-- A store no message is in. -/
def emptyStore : Store := fun _ => {}

/-- `sds_concat_submit`; the store is allocated at the first part. -/
def sdsConcatSubmit (memory : Memory) (nowMs : BitVec 64) (p : Part) (ts : Option Store) :
    Option Store × Result × Option Message :=
  match ts with
  | some store =>
    (some (store.submit memory.assembled nowMs p).1, (store.submit memory.assembled nowMs p).2)
  | none =>
    if memory.store then
      (some (emptyStore.submit memory.assembled nowMs p).1,
        (emptyStore.submit memory.assembled nowMs p).2)
    else (none, .rejected, none)

/-- `tetra_mle_forget_reassembly`. -/
def tetraMleForgetReassembly (ts : Option Store) : Option Store := ts.map fun _ => emptyStore

/-- A part handed in at a time, or everything forgotten. -/
inductive Step where
  | submit (memory : Memory) (nowMs : BitVec 64) (p : Part)
  | forget

/-- One step, and the message it assembled. -/
def Step.apply : Step → Option Store → Option Store × Option Message
  | .submit memory nowMs p, ts =>
    ((sdsConcatSubmit memory nowMs p ts).1, (sdsConcatSubmit memory nowMs p ts).2.2)
  | .forget, ts => (tetraMleForgetReassembly ts, none)

/-- The state after a run. -/
def run (steps : List Step) : Option Store := steps.foldl (fun ts s => (s.apply ts).1) none

/-- A run with one step more. -/
@[simp] theorem run_append_singleton (steps : List Step) (s : Step) :
    run (steps ++ [s]) = (s.apply (run steps)).1 := by
  simp [run]

end DsdNeo.Tetra.Sds
