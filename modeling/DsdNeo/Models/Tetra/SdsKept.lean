import DsdNeo.Models.Tetra.SdsHeld

/-!
# No message is mixed

Each context tells of a last stretch of the run: the parts of its message in it, all of
one total and none against another, no longer apart than the timeout. What it assembles
is those parts in order.
-/

namespace DsdNeo.Tetra.Sds

open Step List Function

/-- A context after the pass: empty if it was idle too long. -/
def Ctx.kept (nowMs : BitVec 64) (c : Ctx) : Ctx := if c.Idle nowMs then {} else c

@[simp] theorem kept_kept (nowMs : BitVec 64) (c : Ctx) :
    (c.kept nowMs).kept nowMs = c.kept nowMs := by
  unfold Ctx.kept
  by_cases h : c.Idle nowMs
  · rw [if_pos h, if_neg fun idle => nomatch idle.1]
  · rw [if_neg h, if_neg h]

variable {nowMs : BitVec 64} {c : Ctx}

theorem kept_of_not_idle (h : ¬ c.Idle nowMs) : c.kept nowMs = c :=
  if_neg h

/-- A context that is in use after the pass was in use and not idle. -/
theorem valid_of_kept (h : (c.kept nowMs).valid = true) : ¬ c.Idle nowMs ∧ c.valid = true := by
  unfold Ctx.kept at h
  by_cases idle : c.Idle nowMs
  · rw [if_pos idle] at h
    cases h
  · rw [if_neg idle] at h
    exact ⟨idle, h⟩

theorem expire_store (nowMs : BitVec 64) (i : Fin 4) (f : Search) :
    (f.expire nowMs i).store = update f.store i ((f.store i).kept nowMs) := by
  unfold Search.expire Ctx.kept
  split
  · rfl
  · exact (update_eq_self i f.store).symm

theorem expire_free (nowMs : BitVec 64) (i : Fin 4) (f : Search) :
    (f.expire nowMs i).free = f.free := by
  unfold Search.expire
  split <;> rfl

/-- What the loop finds. -/
structure Searched (key : Key) (nowMs : BitVec 64) (rest : List (Fin 4)) (f : Search)
    (r : Search × Option (Fin 4)) : Prop where
  some : ∀ i, r.2 = some i → (r.1.store i).valid = true ∧ (r.1.store i).key = key ∧
    (∀ j, r.1.store j = f.store j ∨ r.1.store j = (f.store j).kept nowMs) ∧
    r.1.store i = (f.store i).kept nowMs
  none : r.2 = none → (∀ j, r.1.store j = if j ∈ rest then (f.store j).kept nowMs else f.store j) ∧
    (∀ j ∈ rest, (r.1.store j).valid = true → (r.1.store j).key ≠ key) ∧
    (r.1.free = none → f.free = none ∧ ∀ j ∈ rest, (r.1.store j).valid = true) ∧
    ∀ j, r.1.free = Option.some j → f.free = Option.some j ∨
      j ∈ rest ∧ (r.1.store j).valid = false

theorem findLoop_spec (key : Key) (nowMs : BitVec 64) (rest : List (Fin 4)) (f : Search) :
    Searched key nowMs rest f (findLoop key nowMs rest f) := by
  induction rest generalizing f with
  | nil =>
    exact ⟨fun i h => (nomatch h), fun _ => ⟨fun j => by simp [findLoop],
      fun j hj => (nomatch hj), fun h => ⟨h, fun j hj => (nomatch hj)⟩, fun j h => Or.inl h⟩⟩
  | cons i rest ih =>
    unfold findLoop
    have store := expire_store nowMs i f
    by_cases hit : ((f.expire nowMs i).store i).valid = true ∧
        ((f.expire nowMs i).store i).key = key
    · rw [if_pos hit]
      refine ⟨fun j hj => ?_, fun h => (nomatch h)⟩
      cases hj
      refine ⟨hit.1, hit.2, fun j => ?_, by rw [store, update_self]⟩
      rw [store]
      by_cases hj : j = i
      · cases hj
        exact Or.inr (update_self ..)
      · exact Or.inl (update_of_ne hj ..)
    · rw [if_neg hit]
      have next := ih ((f.expire nowMs i).note i)
      have noted : ((f.expire nowMs i).note i).store = (f.expire nowMs i).store := rfl
      have at_i : (f.expire nowMs i).store i = (f.store i).kept nowMs := by
        rw [store, update_self]
      have off_i {j : Fin 4} (hj : j ≠ i) : (f.expire nowMs i).store j = f.store j := by
        rw [store, update_of_ne hj]
      refine ⟨fun k hk => ?_, fun hn => ?_⟩
      · obtain ⟨valid, hkey, others, self⟩ := next.some k hk
        rw [noted] at others self
        refine ⟨valid, hkey, fun j => ?_, ?_⟩
        · by_cases hj : j = i
          · cases hj
            have := others i
            rw [at_i, kept_kept] at this
            exact Or.inr (this.elim id id)
          · have := others j
            rwa [off_i hj] at this
        · by_cases hj : k = i
          · cases hj
            rwa [at_i, kept_kept] at self
          · rwa [off_i hj] at self
      · obtain ⟨stores, misses, full, free⟩ := next.none hn
        rw [noted] at stores
        have here : (findLoop key nowMs rest ((f.expire nowMs i).note i)).1.store i =
            (f.expire nowMs i).store i := by
          rw [stores i, at_i, kept_kept, ite_self]
        refine ⟨fun j => ?_, fun j hj => ?_, fun hfree => ?_, fun j hfree => ?_⟩
        · rw [stores j]
          by_cases hj : j = i
          · cases hj
            rw [at_i, kept_kept, ite_self, if_pos mem_cons_self]
          · rw [off_i hj]
            simp [hj]
        · rcases mem_cons.mp hj with rfl | hj
          · rw [here]
            exact fun valid same => hit ⟨valid, same⟩
          · exact misses j hj
        · obtain ⟨before, rest'⟩ := full hfree
          unfold Search.note at before
          rw [expire_free] at before
          dsimp only at before
          by_cases hf : f.free = none
          · refine ⟨hf, fun j hj => ?_⟩
            rcases mem_cons.mp hj with rfl | hj
            · rw [here]
              by_contra invalid
              rw [if_pos ⟨by simpa using invalid, hf⟩] at before
              cases before
            · exact rest' j hj
          · rw [if_neg fun h => hf h.2] at before
            exact absurd before hf
        · rcases free j hfree with before | ⟨hj, invalid⟩
          · unfold Search.note at before
            rw [expire_free] at before
            dsimp only at before
            split at before
            · rename_i empty
              cases before
              rw [here]
              exact Or.inr ⟨mem_cons_self, empty.1⟩
            · exact Or.inl before
          · exact Or.inr ⟨mem_cons_of_mem _ hj, invalid⟩

/-- What `sds_concat_find` gives: the message's context, or a fresh one. -/
structure Found (p : Part) (nowMs : BitVec 64) (store : Store) (r : Store × Fin 4) : Prop where
  others : ∀ j ≠ r.2, r.1 j = store j ∨ r.1 j = (store j).kept nowMs
  slot : (¬ (store r.2).Idle nowMs ∧ (store r.2).valid = true ∧ (store r.2).key = p.key ∧
      r.1 r.2 = store r.2) ∨
    (r.1 r.2 = Ctx.opened p ∧ (∀ j, ((store j).kept nowMs).valid = true →
      (store j).key ≠ p.key) ∧ (∀ j ≠ r.2, r.1 j = (store j).kept nowMs) ∧
      ((∃ j, ((store j).kept nowMs).valid = false) → ((store r.2).kept nowMs).valid = false))

theorem sdsConcatFind_spec (p : Part) (nowMs : BitVec 64) (store : Store) :
    Found p nowMs store (sdsConcatFind p nowMs store) := by
  have every : ∀ j : Fin 4, j ∈ ([0, 1, 2, 3] : List (Fin 4)) := by decide
  have spec := findLoop_spec p.key nowMs [0, 1, 2, 3] ⟨store, none, 0⟩
  unfold sdsConcatFind
  cases h : findLoop p.key nowMs [0, 1, 2, 3] ⟨store, none, 0⟩ with
  | mk f found =>
    rw [h] at spec
    cases found with
    | some i =>
      obtain ⟨valid, key, others, self⟩ := spec.some i rfl
      have inUse := valid
      rw [self] at inUse
      obtain ⟨busy, was⟩ := valid_of_kept inUse
      rw [kept_of_not_idle busy] at self
      refine ⟨fun j _ => others j, Or.inl ⟨busy, was, ?_, self⟩⟩
      rw [self] at key
      exact key
    | none =>
      obtain ⟨stores, misses, full, free⟩ := spec.none rfl
      have all (j : Fin 4) : f.store j = (store j).kept nowMs := by
        rw [stores j, if_pos (every j)]
      refine ⟨fun j hj => Or.inr ?_, Or.inr ⟨update_self .., fun j valid => ?_,
        fun j hj => ?_, fun ⟨j, invalid⟩ => ?_⟩⟩
      · show update f.store _ _ j = _
        rw [update_of_ne hj, all]
      · have miss := misses j (every j)
        rw [all] at miss
        obtain ⟨busy, _⟩ := valid_of_kept valid
        rw [kept_of_not_idle busy] at miss valid
        exact miss valid
      · show update f.store _ _ j = _
        rw [update_of_ne hj, all]
      · show ((store (f.free.getD f.oldest)).kept nowMs).valid = false
        cases hf : f.free with
        | none =>
          have valid := (full hf).2 j (every j)
          rw [all, invalid] at valid
          cases valid
        | some k =>
          have was := (free k hf).resolve_left (fun h => nomatch h)
          rw [all] at was
          exact was.2

/-- What a context's turn leaves, and what it gives. -/
structure Turned (c : Ctx) (parts : List Part) (assembled : Bool) (nowMs : BitVec 64) (p : Part)
    (r : Ctx × Result × Option Message) : Prop where
  ctx : r.1.valid = true → c.Suits parts p ∧ r.1.Holds (parts ++ [p]) ∧ r.1.key = c.key ∧
    r.1.total = c.total ∧ r.1.updatedMs = nowMs
  message : ∀ m, r.2.2 = some m → c.Suits parts p ∧ Whole c.total (parts ++ [p]) ∧
    (∀ data : ℕ → List Bool, (∀ q ∈ parts ++ [p], q.data = data q.sequence) →
      m.bits = joined c.total data) ∧
    ∃ q ∈ parts ++ [p], q.sequence = 1 ∧ q.payloadPid = some m.pid
  suits : c.Suits parts p → p.sequence ∉ sequences parts → assembled = true →
    if Whole c.total (parts ++ [p]) then r.1 = {} ∧ r.2.2.isSome = true
    else r.1.valid = true ∧ r.2.2 = none
  repeated : c.Suits parts p → p.sequence ∈ sequences parts → r.1.valid = true ∧ r.2.2 = none

variable {p : Part}

theorem Ctx.Holds.submit {parts : List Part} (h : c.Holds parts) (key : p.key = c.key)
    (assembled : Bool) (nowMs : BitVec 64) :
    Turned c parts assembled nowMs p (c.submit assembled nowMs p) := by
  have held := h.at nowMs
  unfold Ctx.submit
  by_cases suits : c.Suits parts p
  · have suits' : ({ c with updatedMs := nowMs } : Ctx).Suits parts p := ⟨suits.total, suits.data⟩
    obtain ⟨holds, sameKey, sameTotal, time, result⟩ := held.storePart key suits'
    generalize hstored : ({ c with updatedMs := nowMs } : Ctx).storePart p = stored at *
    have whole := holds.count_eq_total
    have one : 1 ∈ sequences (parts ++ [p]) → stored.1.payloadPidKnown = true := holds.known.mpr
    rw [show stored.1.total = c.total from sameTotal] at whole
    have total : 1 ≤ c.total := by
      have := p.wellFormed.two_le
      rw [suits.total] at this
      omega
    by_cases fresh : p.sequence ∈ sequences parts
    · -- a repeat is a duplicate, whatever the context has
      rw [if_pos fresh] at result
      have settled : stored.1.settle assembled stored.2 = (stored.1, stored.2, none) := by
        unfold Ctx.settle
        rw [if_pos (Or.inl (by rw [result]; decide))]
      show Turned c parts assembled nowMs p (stored.1.settle assembled stored.2)
      rw [settled]
      exact ⟨fun _ => ⟨suits, holds, sameKey, sameTotal, time⟩, fun m hm => (nomatch hm),
        fun _ new => absurd fresh new, fun _ _ => ⟨holds.valid, rfl⟩⟩
    · rw [if_neg fresh] at result
      show Turned c parts assembled nowMs p (stored.1.settle assembled stored.2)
      by_cases hw : Whole c.total (parts ++ [p])
      · have known := one (hw (Finset.mem_Icc.mpr ⟨Nat.le_refl 1, total⟩))
        have full : stored.1.receivedCount = stored.1.total := by
          rw [show stored.1.total = c.total from sameTotal]
          exact whole.mpr hw
        have goes : ¬ (stored.2 ≠ .pending ∨ stored.1.receivedCount ≠ stored.1.total ∨
            stored.1.payloadPidKnown = false) := by
          simp [result, full, known]
        have joinedUp (data : ℕ → List Bool)
            (same : ∀ q ∈ parts ++ [p], q.data = data q.sequence) :
            stored.1.assemble = joined c.total data := by
          have whole : Whole stored.1.total (parts ++ [p]) := by
            rw [show stored.1.total = c.total from sameTotal]
            exact hw
          rw [holds.assemble whole same, show stored.1.total = c.total from sameTotal]
        unfold Ctx.settle
        rw [if_neg goes]
        cases assembled with
        | true =>
          refine ⟨fun hv => (nomatch hv), fun m hm => ?_, fun _ _ _ => ?_,
            fun _ seen => absurd seen fresh⟩
          · cases hm
            refine ⟨suits, hw, joinedUp, ?_⟩
            exact holds.pid (hw (Finset.mem_Icc.mpr ⟨Nat.le_refl 1, total⟩))
          · rw [if_pos hw]
            exact ⟨rfl, rfl⟩
        | false =>
          exact ⟨fun hv => (nomatch hv), fun m hm => (nomatch hm), fun _ _ ha => (nomatch ha),
            fun _ seen => absurd seen fresh⟩
      · have stays : stored.2 ≠ .pending ∨ stored.1.receivedCount ≠ stored.1.total ∨
            stored.1.payloadPidKnown = false := by
          refine Or.inr (Or.inl fun full => hw (whole.mp ?_))
          rw [full]
          exact sameTotal
        unfold Ctx.settle
        rw [if_pos stays]
        refine ⟨fun _ => ⟨suits, holds, sameKey, sameTotal, time⟩, fun m hm => (nomatch hm),
          fun _ _ _ => ?_, fun _ seen => absurd seen fresh⟩
        rw [if_neg hw]
        exact ⟨holds.valid, rfl⟩
  · have unsuited : ¬ ({ c with updatedMs := nowMs } : Ctx).Suits parts p :=
      fun s => suits ⟨s.total, s.data⟩
    rw [held.storePart_conflict unsuited]
    exact ⟨fun hv => (nomatch hv), fun m hm => (nomatch hm), fun s => absurd s suits,
      fun s => absurd s suits⟩

/-- The part of a message a step brings, with its time. -/
def Step.part? (key : Key) : Step → Option (BitVec 64 × Part)
  | .submit _ nowMs p => if p.key = key then some (nowMs, p) else none
  | .forget => none

/-- The parts of a message in a stretch of a run. -/
def partsOf (key : Key) (steps : List Step) : List (BitVec 64 × Part) :=
  steps.filterMap (·.part? key)

/-- When a part comes. -/
def Step.time? : Step → Option (BitVec 64)
  | .submit _ nowMs _ => some nowMs
  | .forget => none

/-- The clock never goes back. -/
def Steady (steps : List Step) : Prop :=
  (steps.filterMap time?).Pairwise fun a b => a.toNat ≤ b.toNat

theorem partsOf_append (key : Key) (a b : List Step) :
    partsOf key (a ++ b) = partsOf key a ++ partsOf key b := filterMap_append

variable {key : Key}

theorem partsOf_mine (memory : Memory) (nowMs : BitVec 64) (h : p.key = key) (steps : List Step) :
    partsOf key (steps ++ [.submit memory nowMs p]) = partsOf key steps ++ [(nowMs, p)] := by
  rw [partsOf_append]
  simp [partsOf, part?, h]

theorem partsOf_other (memory : Memory) (nowMs : BitVec 64) (h : p.key ≠ key) (steps : List Step) :
    partsOf key (steps ++ [.submit memory nowMs p]) = partsOf key steps := by
  rw [partsOf_append]
  simp [partsOf, part?, h]

variable {a : BitVec 64 × Part}

theorem part?_eq_some {s : Step} (h : s.part? key = some a) :
    (∃ memory, s = .submit memory a.1 a.2) ∧ a.2.key = key := by
  cases s with
  | submit memory nowMs p =>
    by_cases mine : p.key = key
    · rw [part?, if_pos mine] at h
      cases h
      exact ⟨⟨memory, rfl⟩, mine⟩
    · rw [part?, if_neg mine] at h
      cases h
  | forget => cases h

variable {steps : List Step} {memory : Memory}

/-- A part came no later than the clock stands. -/
theorem Steady.le (h : Steady (steps ++ [.submit memory nowMs p])) (ha : a ∈ partsOf key steps) :
    a.1.toNat ≤ nowMs.toNat := by
  have earlier : a.1 ∈ steps.filterMap time? := by
    obtain ⟨s, hs, part⟩ := mem_filterMap.mp ha
    obtain ⟨⟨memory, rfl⟩, _⟩ := part?_eq_some part
    exact mem_filterMap.mpr ⟨_, hs, rfl⟩
  unfold Steady at h
  rw [filterMap_append] at h
  exact (pairwise_append.mp h).2.2 _ earlier _ (by simp [time?])

theorem Steady.of_append {a b : List Step} (h : Steady (a ++ b)) : Steady a := by
  unfold Steady at h
  rw [filterMap_append] at h
  exact (pairwise_append.mp h).1

/-- Two parts of a message close enough together. -/
def Near (a b : BitVec 64 × Part) : Prop := b.1.toNat ≤ a.1.toNat + timeoutMs

/-- A stretch begins with a part of a message. -/
def StartsWith (key : Key) (steps : List Step) : Prop :=
  ∃ memory nowMs p rest, steps = .submit memory nowMs p :: rest ∧ p.key = key

/-- A context tells of a stretch of the run: it holds the parts of its message there. -/
structure Collected (steps : List Step) (c : Ctx) : Prop where
  noForget : .forget ∉ steps
  starts : StartsWith c.key steps
  holds : c.Holds ((partsOf c.key steps).map Prod.snd)
  spaced : (partsOf c.key steps).IsChain Near
  last : ∀ a ∈ (partsOf c.key steps).getLast?, a.1 = c.updatedMs

/-- What an assembled message is made of. -/
structure Delivered (steps : List Step) (p : Part) (m : Message) : Prop where
  noForget : .forget ∉ steps
  starts : StartsWith p.key steps
  spaced : (partsOf p.key steps).IsChain Near
  total : ∀ a ∈ partsOf p.key steps, a.2.total = p.total
  agree : ∀ a ∈ partsOf p.key steps, ∀ b ∈ partsOf p.key steps,
    a.2.sequence = b.2.sequence → a.2.data = b.2.data
  bits : ∃ data : ℕ → List Bool, m.bits = joined p.total data ∧
    ∀ i, 1 ≤ i → i ≤ p.total → ∃ a ∈ partsOf p.key steps, a.2.sequence = i ∧ a.2.data = data i
  pid : ∃ a ∈ partsOf p.key steps, a.2.sequence = 1 ∧ a.2.payloadPid = some m.pid

/-- A context about to take a part: what it holds so far, and that the part comes in time. -/
structure Ready (steps : List Step) (c : Ctx) (nowMs : BitVec 64) (p : Part) : Prop where
  noForget : .forget ∉ steps
  starts : steps = [] ∨ StartsWith c.key steps
  holds : c.Holds ((partsOf c.key steps).map Prod.snd)
  spaced : (partsOf c.key steps).IsChain Near
  near : ∀ a ∈ (partsOf c.key steps).getLast?, Near a (nowMs, p)
  key : p.key = c.key

/-- The stretch with the part. -/
theorem Ready.extend {steps : List Step} {c : Ctx} {nowMs : BitVec 64} {p : Part}
    (h : Ready steps c nowMs p) (memory : Memory) :
    .forget ∉ steps ++ [.submit memory nowMs p] ∧
      StartsWith c.key (steps ++ [.submit memory nowMs p]) ∧
      (partsOf c.key (steps ++ [.submit memory nowMs p])).IsChain Near := by
  refine ⟨fun hf => ?_, ?_, ?_⟩
  · rcases mem_append.mp hf with hf | hf
    · exact h.noForget hf
    · cases mem_singleton.mp hf
  · rcases h.starts with rfl | ⟨memory', nowMs', p', rest, rfl, key⟩
    · exact ⟨memory, nowMs, p, [], rfl, h.key⟩
    · exact ⟨memory', nowMs', p', rest ++ [.submit memory nowMs p], rfl, key⟩
  · rw [partsOf_mine memory nowMs h.key]
    refine isChain_append.mpr ⟨h.spaced, .singleton _, fun a ha b hb => ?_⟩
    cases hb
    exact h.near a ha

/-- A context's turn: it tells of the longer stretch, and what it gives is made of it. -/
theorem Ready.turn (h : Ready steps c nowMs p) (memory : Memory) (assembled : Bool) :
    ((c.submit assembled nowMs p).1.valid = true → (c.submit assembled nowMs p).1.key = c.key ∧
      Collected (steps ++ [.submit memory nowMs p]) (c.submit assembled nowMs p).1) ∧
    ∀ m, (c.submit assembled nowMs p).2.2 = some m →
      Delivered (steps ++ [.submit memory nowMs p]) p m := by
  have turned := h.holds.submit h.key assembled nowMs
  obtain ⟨noForget, starts, spaced⟩ := h.extend memory
  have mine := partsOf_mine memory nowMs h.key steps
  have snd : (partsOf c.key (steps ++ [.submit memory nowMs p])).map Prod.snd =
      (partsOf c.key steps).map Prod.snd ++ [p] := by
    rw [mine, map_append]
    rfl
  refine ⟨fun valid => ?_, fun m hm => ?_⟩
  · obtain ⟨_, holds, key, _, time⟩ := turned.ctx valid
    refine ⟨key, noForget, by rw [key]; exact starts, by rw [key, snd]; exact holds,
      by rw [key]; exact spaced, ?_⟩
    rw [key, mine]
    intro a ha
    rw [getLast?_append, getLast?_singleton] at ha
    cases ha
    exact time.symm
  · obtain ⟨suits, whole, bits, q, hq, one, pid⟩ := turned.message m hm
    have all {q : Part} (hq : q ∈ (partsOf c.key steps).map Prod.snd ++ [p]) :
        ∃ a ∈ partsOf p.key (steps ++ [.submit memory nowMs p]), a.2 = q := by
      rw [h.key, ← mem_map, snd]
      exact hq
    have some_of {a : BitVec 64 × Part}
        (ha : a ∈ partsOf p.key (steps ++ [.submit memory nowMs p])) :
        a.2 ∈ (partsOf c.key steps).map Prod.snd ++ [p] := by
      rw [← snd, ← h.key]
      exact mem_map_of_mem ha
    have total (q : Part) (hq : q ∈ (partsOf c.key steps).map Prod.snd ++ [p]) :
        q.total = p.total := by
      rcases mem_append.mp hq with hq | hq
      · exact (h.holds.total q hq).trans suits.total.symm
      · cases mem_singleton.mp hq
        rfl
    have agree (q : Part) (hq : q ∈ (partsOf c.key steps).map Prod.snd ++ [p]) (r : Part)
        (hr : r ∈ (partsOf c.key steps).map Prod.snd ++ [p]) (same : q.sequence = r.sequence) :
        q.data = r.data := by
      rcases mem_append.mp hq with hq | hq <;> rcases mem_append.mp hr with hr | hr
      · exact h.holds.agree hq hr same
      · cases mem_singleton.mp hr
        exact suits.data q hq same
      · cases mem_singleton.mp hq
        exact (suits.data r hr same.symm).symm
      · cases mem_singleton.mp hq
        cases mem_singleton.mp hr
        rfl
    refine ⟨noForget, by rw [h.key]; exact starts, by rw [h.key]; exact spaced,
      fun a ha => total a.2 (some_of ha),
      fun a ha b hb => agree a.2 (some_of ha) b.2 (some_of hb), ?_, ?_⟩
    · -- the data under a number is that of the first part that has it
      let data (i : ℕ) : List Bool :=
        ((((partsOf c.key steps).map Prod.snd ++ [p]).find? (·.sequence = i)).map
          (·.data)).getD []
      have data_eq : ∀ q ∈ (partsOf c.key steps).map Prod.snd ++ [p], q.data = data q.sequence := by
        intro q hq
        show q.data = (((((partsOf c.key steps).map Prod.snd ++ [p]).find?
          (·.sequence = q.sequence)).map (·.data)).getD [])
        cases hfind : ((partsOf c.key steps).map Prod.snd ++ [p]).find?
            (·.sequence = q.sequence) with
        | none => exact absurd (find?_eq_none.mp hfind q hq) (by simp)
        | some r =>
          have same : r.sequence = q.sequence := by simpa using find?_some hfind
          exact agree q hq r (mem_of_find?_eq_some hfind) same.symm
      refine ⟨data, by rw [suits.total]; exact bits data data_eq, fun i one le => ?_⟩
      obtain ⟨q, hq, hseq⟩ := mem_sequences.mp
        (whole (Finset.mem_Icc.mpr ⟨one, by rw [← suits.total]; exact le⟩))
      obtain ⟨a, ha, rfl⟩ := all hq
      exact ⟨a, ha, hseq, by rw [data_eq _ hq, hseq]⟩
    · obtain ⟨a, ha, rfl⟩ := all hq
      exact ⟨a, ha, one, pid⟩

/-- The contexts, empty before the store is allocated. -/
def contents (ts : Option Store) : Store := ts.getD emptyStore

/-- Every context in use tells of a last stretch of the run, and no two of one message. -/
structure Told (steps : List Step) (store : Store) : Prop where
  told : ∀ i, (store i).valid = true →
    ∃ before collected, steps = before ++ collected ∧ Collected collected (store i)
  apart : ∀ i j, (store i).valid = true → (store j).valid = true →
    (store i).key = (store j).key → i = j

theorem told_empty (steps : List Step) : Told steps emptyStore :=
  ⟨fun _ h => (nomatch h), fun _ _ h => (nomatch h)⟩

/-- A context of another message goes on as it was. -/
theorem Collected.other (h : Collected steps c) (key : p.key ≠ c.key) (memory : Memory)
    (nowMs : BitVec 64) : Collected (steps ++ [.submit memory nowMs p]) c := by
  have same := partsOf_other memory nowMs key steps
  obtain ⟨memory', nowMs', p', rest, rfl, mine⟩ := h.starts
  refine ⟨fun hf => ?_, ⟨memory', nowMs', p', rest ++ [.submit memory nowMs p], rfl, mine⟩,
    by rw [same]; exact h.holds, by rw [same]; exact h.spaced, by rw [same]; exact h.last⟩
  rcases mem_append.mp hf with hf | hf
  · exact h.noForget hf
  · cases mem_singleton.mp hf

/-- A context not idle heard of its message lately. -/
theorem near_of_not_idle (valid : c.valid = true) (busy : ¬ c.Idle nowMs) (last : a.1 = c.updatedMs)
    (le : a.1.toNat ≤ nowMs.toNat) : Near a (nowMs, p) := by
  have short : ¬ timeoutMs < (nowMs - c.updatedMs).toNat := fun h => busy ⟨valid, h⟩
  rw [← last, BitVec.toNat_sub_of_le (by exact le)] at short
  show nowMs.toNat ≤ a.1.toNat + timeoutMs
  omega

theorem Told.ready {store : Store} (h : Told steps store)
    (steady : Steady (steps ++ [.submit memory nowMs p])) :
    ∃ before collected, steps = before ++ collected ∧
      Ready collected ((sdsConcatFind p nowMs store).1 (sdsConcatFind p nowMs store).2)
        nowMs p := by
  have found := sdsConcatFind_spec p nowMs store
  generalize sdsConcatFind p nowMs store = r at found
  rcases found.slot with ⟨busy, valid, key, same⟩ | ⟨fresh, _⟩
  · obtain ⟨before, collected, rfl, told⟩ := h.told r.2 valid
    refine ⟨before, collected, rfl, ?_⟩
    rw [same]
    refine ⟨told.noForget, Or.inr told.starts, told.holds, told.spaced, fun a ha => ?_, key.symm⟩
    refine near_of_not_idle valid busy (told.last a ha) ?_
    have mem := mem_of_getLast? ha
    have heard : a ∈ partsOf (store r.2).key (before ++ collected) := by
      rw [partsOf_append]
      simp [mem]
    exact steady.le heard
  · refine ⟨steps, [], (append_nil steps).symm, ?_⟩
    rw [fresh]
    exact ⟨fun h => (nomatch h), Or.inl rfl, holds_opened p, .nil, fun a ha => (nomatch ha), rfl⟩

theorem Told.others {steps : List Step} {store : Store} (h : Told steps store)
    {nowMs : BitVec 64} {p : Part} {j : Fin 4} (hj : j ≠ (sdsConcatFind p nowMs store).2)
    (valid : ((sdsConcatFind p nowMs store).1 j).valid = true) :
    (sdsConcatFind p nowMs store).1 j = store j ∧ p.key ≠ (store j).key := by
  have found := sdsConcatFind_spec p nowMs store
  generalize sdsConcatFind p nowMs store = r at found hj valid
  have same : r.1 j = store j := by
    rcases found.others j hj with h | h
    · exact h
    · rw [h] at valid
      rw [h, kept_of_not_idle (valid_of_kept valid).1]
  refine ⟨same, fun key => ?_⟩
  rcases found.slot with ⟨_, used, mine, _⟩ | ⟨_, miss, kept, _⟩
  · rw [same] at valid
    exact hj (h.apart j r.2 valid used (by rw [mine, key]))
  · have valid' := valid
    rw [kept j hj] at valid'
    exact miss j valid' key.symm

/-- A part keeps what the contexts tell, and what it completes is made of one stretch. -/
theorem Told.submit {store : Store} (h : Told steps store)
    (steady : Steady (steps ++ [.submit memory nowMs p])) :
    Told (steps ++ [.submit memory nowMs p]) (store.submit memory.assembled nowMs p).1 ∧
    ∀ m, (store.submit memory.assembled nowMs p).2.2 = some m →
      ∃ before collected, steps ++ [.submit memory nowMs p] = before ++ collected ∧
        Delivered collected p m := by
  obtain ⟨before, collected, rfl, ready⟩ := h.ready steady
  obtain ⟨turned, message⟩ := ready.turn memory memory.assembled
  have others := fun j => @Told.others _ store h nowMs p j
  unfold Store.submit
  generalize sdsConcatFind p nowMs store = r at turned message others ready
  have at_slot : update r.1 r.2 ((r.1 r.2).submit memory.assembled nowMs p).1 r.2 =
      ((r.1 r.2).submit memory.assembled nowMs p).1 := update_self ..
  have off {j : Fin 4} (hj : j ≠ r.2) :
      update r.1 r.2 ((r.1 r.2).submit memory.assembled nowMs p).1 j = r.1 j :=
    update_of_ne hj ..
  refine ⟨⟨fun j valid => ?_, fun i j vi vj key => ?_⟩, fun m hm => ⟨before, _,
    append_assoc .., message m hm⟩⟩
  · dsimp only at valid ⊢
    by_cases hj : j = r.2
    · cases hj
      rw [at_slot] at valid ⊢
      exact ⟨before, _, append_assoc .., (turned valid).2⟩
    · rw [off hj] at valid ⊢
      obtain ⟨same, key⟩ := others j hj valid
      rw [same] at valid ⊢
      obtain ⟨before', collected', split, told⟩ := h.told j valid
      exact ⟨before', _, by rw [split, append_assoc], told.other key memory nowMs⟩
  · dsimp only at vi vj key
    have slot_key (valid : ((r.1 r.2).submit memory.assembled nowMs p).1.valid = true) :
        ((r.1 r.2).submit memory.assembled nowMs p).1.key = p.key :=
      (turned valid).1.trans ready.key.symm
    by_cases hi : i = r.2 <;> by_cases hj : j = r.2
    · rw [hi, hj]
    · cases hi
      rw [at_slot] at vi key
      rw [off hj] at vj key
      obtain ⟨same, other⟩ := others j hj vj
      rw [slot_key vi, same] at key
      exact absurd key other
    · cases hj
      rw [at_slot] at vj key
      rw [off hi] at vi key
      obtain ⟨same, other⟩ := others i hi vi
      rw [slot_key vj, same] at key
      exact absurd key.symm other
    · rw [off hi] at vi key
      rw [off hj] at vj key
      have here := (others i hi vi).1
      have there := (others j hj vj).1
      rw [here] at vi key
      rw [there] at vj key
      exact h.apart i j vi vj key

/-- In every run each context tells of a last stretch of it. -/
theorem told_run (steps : List Step) (steady : Steady steps) :
    Told steps (contents (run steps)) := by
  induction steps using List.reverseRecOn with
  | nil => exact told_empty []
  | append_singleton steps s ih =>
    have told := ih steady.of_append
    rw [run_append_singleton]
    cases s with
    | submit memory nowMs p =>
      have submitted := told.submit steady
      cases hts : run steps with
      | some store =>
        rw [hts] at submitted
        exact submitted.1
      | none =>
        show Told _ (contents (sdsConcatSubmit memory nowMs p none).1)
        unfold sdsConcatSubmit
        dsimp only
        split
        · rw [hts] at submitted
          exact submitted.1
        · exact told_empty _
    | forget =>
      have empty : contents (tetraMleForgetReassembly (run steps)) = emptyStore := by
        cases run steps <;> rfl
      show Told _ (contents (tetraMleForgetReassembly (run steps)))
      rw [empty]
      exact told_empty _

theorem message_of_one_stretch (steps : List Step) (memory : Memory) (nowMs : BitVec 64) (p : Part)
    (steady : Steady (steps ++ [.submit memory nowMs p])) (m : Message)
    (gives : ((submit memory nowMs p).apply (run steps)).2 = some m) :
    ∃ before collected, steps ++ [.submit memory nowMs p] = before ++ collected ∧
      Delivered collected p m := by
  have submitted := (told_run steps steady.of_append).submit steady
  cases hts : run steps with
  | some store =>
    rw [hts] at submitted gives
    exact submitted.2 m gives
  | none =>
    rw [hts] at submitted gives
    have given : (sdsConcatSubmit memory nowMs p none).2.2 = some m := gives
    unfold sdsConcatSubmit at given
    dsimp only at given
    split at given
    · exact submitted.2 m given
    · cases given

end DsdNeo.Tetra.Sds
