import DsdNeo.Core.Queue.Ring

/-!
# The input sample ring

`input_ring.cpp` and `input_ring.h`: one producer and one consumer over a circular
buffer of samples. Each side is a program counter; a step does one load or store of
`head` or `tail`, writes one sample, or copies one. Sizes are naturals: a buffer is
far shorter than a `size_t` can count. The lock and the two conditions only ever
delay a side, so every order they allow is one of the orders here.
-/

namespace DsdNeo.Input

open Counters

/-- `input_ring_state`. -/
structure Ring (α : Type) where
  buffer : ℕ → α
  capacity : ℕ
  head : ℕ
  tail : ℕ

/-- `input_ring_used`, of the two indices as they were loaded. -/
def ringUsed (capacity h t : ℕ) : ℕ := gap capacity h t

/-- `input_ring_free`. -/
def ringFree (capacity used : ℕ) : ℕ := capacity - 1 - used

/-- Where the producer stands. -/
inductive Producer where
  | idle
  /-- `input_ring_reserve`: the loads of `input_ring_free`, then the one of `head`. -/
  | reserveHead (minNeeded : ℕ)
  | reserveTail (minNeeded h : ℕ)
  | reserveIndex (grant : ℕ)
  /-- It holds `n₁` places from `h` on and `n₂` from the start. -/
  | granted (h n₁ n₂ : ℕ)
  /-- `input_ring_commit`: the loads of `input_ring_is_empty`, then the one of `head`. -/
  | commitHead (produced : ℕ)
  | commitTail (produced h : ℕ)
  | commitIndex (produced : ℕ) (needSignal : Bool)
  | commitStore (produced h : ℕ) (needSignal : Bool)
  | signal
  deriving DecidableEq

/-- What a blocking look for samples is for. -/
inductive Purpose where
  | block (maxCount : ℕ)
  | reserve (maxCount : ℕ)
  deriving DecidableEq

def Purpose.maxCount : Purpose → ℕ
  | .block n => n
  | .reserve n => n

/-- Where the consumer stands. -/
inductive Consumer (α : Type) where
  | idle
  /-- `input_ring_wait_for_data`: a look, and another one under the lock. -/
  | waitHead (p : Purpose)
  | waitTail (p : Purpose) (h : ℕ)
  | lockedHead (p : Purpose)
  | lockedTail (p : Purpose) (h : ℕ)
  | waited (p : Purpose)
  /-- The loads of `input_ring_used`, then the one of `tail`. -/
  | usedHead (p : Purpose)
  | usedTail (p : Purpose) (h : ℕ)
  | index (p : Purpose) (n : ℕ)
  /-- `input_ring_read_block` copies `n` samples from `t` on. -/
  | copying (t n : ℕ) (out : List α)
  | blockStore (t : ℕ) (out : List α)
  /-- `input_ring_read_reserve` gave `n₁` places from `t` on and `n₂` from the start. -/
  | reserved (t n₁ n₂ : ℕ)
  /-- `input_ring_read_commit`. -/
  | commitHead (consumed : ℕ)
  | commitTail (consumed h : ℕ)
  | commitIndex (consumed : ℕ)
  | commitStore (consumed t : ℕ)
  /-- `input_ring_discard_all_consumer`. -/
  | discardHead
  | discardStore (h : ℕ)
  deriving DecidableEq

/-- What became of a committed sample: the consumer got this value, or discarded it. -/
inductive Fate (α : Type) where
  | obtained (a : α)
  | discarded
  deriving DecidableEq

/-- The ring, both sides, and what they did: the samples committed and the fates of
those consumed, each in order. -/
structure State (α : Type) where
  ring : Ring α
  producer : Producer
  consumer : Consumer α
  committed : List α
  fates : List (Fate α)

/-- `input_ring_init`. -/
def init {α : Type} (capacity : ℕ) (buffer : ℕ → α) : State α :=
  ⟨⟨buffer, capacity, 0, 0⟩, .idle, .idle, [], []⟩

/-- One move of one side. -/
inductive Move (α : Type) where
  | reserve (minNeeded : ℕ)
  /-- The producer writes the `k`-th place it was granted. -/
  | write (k : ℕ) (a : α)
  | commit (produced : ℕ)
  | producer
  | readBlock (maxCount : ℕ)
  | readReserve (maxCount : ℕ)
  | readCommit (consumed : ℕ)
  | discardAll
  /-- The wait ends with `-1`. -/
  | exit
  | consumer
  deriving DecidableEq

variable {α : Type}

/-- The samples in the places that follow an index. -/
def Ring.following (r : Ring α) (i n : ℕ) : List α :=
  (List.range n).map fun k => r.buffer ((i + k) % r.capacity)

/-- The producer's next load or store. -/
def producerStep (s : State α) : Option (State α) :=
  let r := s.ring
  match s.producer with
  | .reserveHead m => some { s with producer := .reserveTail m r.head }
  | .reserveTail m h =>
    let freeSp := ringFree r.capacity (ringUsed r.capacity h r.tail)
    let grant := if m < freeSp then m else freeSp
    some { s with producer := .reserveIndex grant }
  | .reserveIndex grant =>
    if grant = 0 then some { s with producer := .idle }
    else
      let n := spans r.capacity r.head grant
      some { s with producer := .granted r.head n.1 n.2 }
  | .commitHead produced => some { s with producer := .commitTail produced r.head }
  | .commitTail produced h =>
    some { s with producer := .commitIndex produced (decide (h = r.tail)) }
  | .commitIndex produced needSignal =>
    some { s with
      producer := .commitStore produced (wrap r.capacity (r.head + produced)) needSignal }
  | .commitStore produced h needSignal =>
    some { s with
      ring := { r with head := h }
      producer := if needSignal then .signal else .idle
      committed := s.committed ++ r.following r.head produced }
  | .signal => some { s with producer := .idle }
  | .idle => none
  | .granted _ _ _ => none

/-- Where `tail` stands after `n` samples were read. -/
def blockTail (capacity t n : ℕ) : ℕ :=
  if capacity - t ≥ n then if t + n ≥ capacity then 0 else t + n else n - (capacity - t)

/-- The consumer's next load, store or sample copied. -/
def consumerStep (s : State α) : Option (State α) :=
  let r := s.ring
  match s.consumer with
  | .waitHead p => some { s with consumer := .waitTail p r.head }
  | .waitTail p h =>
    some { s with consumer := if h = r.tail then .lockedHead p else .usedHead p }
  | .lockedHead p => some { s with consumer := .lockedTail p r.head }
  -- a timed wait that follows an empty look may end either way
  | .lockedTail p h => some { s with consumer := if h = r.tail then .waited p else .waitHead p }
  | .waited p => some { s with consumer := .waitHead p }
  | .usedHead p => some { s with consumer := .usedTail p r.head }
  | .usedTail p h =>
    let available := ringUsed r.capacity h r.tail
    some { s with
      consumer := .index p (if p.maxCount < available then p.maxCount else available) }
  | .index (.block _) n => some { s with consumer := .copying r.tail n [] }
  | .index (.reserve _) n =>
    some { s with
      consumer := .reserved r.tail (spans r.capacity r.tail n).1 (spans r.capacity r.tail n).2 }
  | .copying t n out =>
    if out.length < n then
      let i := place t (spans r.capacity t n).1 out.length
      some { s with consumer := .copying t n (out ++ [r.buffer i]) }
    else some { s with consumer := .blockStore (blockTail r.capacity t n) out }
  | .blockStore t out =>
    some { s with
      ring := { r with tail := t }
      consumer := .idle
      fates := s.fates ++ out.map .obtained }
  | .commitHead consumed => some { s with consumer := .commitTail consumed r.head }
  | .commitTail consumed h =>
    let available := ringUsed r.capacity h r.tail
    some { s with
      consumer := .commitIndex (if consumed > available then available else consumed) }
  -- the loop takes the capacity off while it fits
  | .commitIndex consumed =>
    some { s with consumer := .commitStore consumed ((r.tail + consumed) % r.capacity) }
  | .commitStore consumed t =>
    some { s with
      ring := { r with tail := t }
      consumer := .idle
      fates := s.fates ++ (r.following r.tail consumed).map .obtained }
  | .discardHead => some { s with consumer := .discardStore r.head }
  | .discardStore h =>
    some { s with
      ring := { r with tail := h }
      consumer := .idle
      fates := s.fates ++ List.replicate (gap r.capacity h r.tail) .discarded }
  | .idle => none
  | .reserved _ _ _ => none

/-- One move, where the side can make it. -/
def step (m : Move α) (s : State α) : Option (State α) :=
  match m, s.producer, s.consumer with
  | .reserve minNeeded, .idle, _ => some { s with producer := .reserveHead minNeeded }
  | .write k a, .granted h n₁ n₂, _ =>
    if k < n₁ + n₂ then
      some { s with
        ring := { s.ring with buffer := Function.update s.ring.buffer (place h n₁ k) a } }
    else none
  | .commit produced, .granted _ n₁ n₂, _ =>
    if produced = 0 then some { s with producer := .idle }
    else if produced ≤ n₁ + n₂ then some { s with producer := .commitHead produced }
    else none
  | .producer, _, _ => producerStep s
  | .readBlock maxCount, _, .idle =>
    if maxCount = 0 then some s else some { s with consumer := .waitHead (.block maxCount) }
  | .readReserve maxCount, _, .idle =>
    if maxCount = 0 then some s else some { s with consumer := .waitHead (.reserve maxCount) }
  | .readCommit consumed, _, .reserved _ n₁ n₂ =>
    if consumed = 0 then some { s with consumer := .idle }
    else if consumed ≤ n₁ + n₂ then some { s with consumer := .commitHead consumed }
    else none
  | .discardAll, _, .idle => some { s with consumer := .discardHead }
  | .exit, _, .lockedHead _ => some { s with consumer := .idle }
  | .exit, _, .waited _ => some { s with consumer := .idle }
  | .consumer, _, _ => consumerStep s
  | _, _, _ => none

/-- The state after a sequence of moves, where each can be made. -/
def run (s : State α) (moves : List (Move α)) : Option (State α) :=
  moves.foldlM (fun s m => step m s) s

end DsdNeo.Input
