import DsdNeo.Models.Input.Ring

/-!
# The input ring is a queue

Behind `head` stands the number of samples committed, behind `tail` the number
consumed. What either side last saw of the other's index is an older value of the
other's counter, so the room the producer counts is really free and the samples the
consumer counts are really there.
-/

namespace DsdNeo.Input

open Counters List

variable {α : Type}

/-- What the producer's counter holds, with `p` samples committed and `c` consumed. -/
def Producer.Ok (cap p c : ℕ) : Producer → Prop
  | .idle => True
  | .reserveHead _ => True
  | .reserveTail _ h => h = p % cap
  | .reserveIndex grant => p + grant < c + cap
  | .granted h n₁ n₂ => h = p % cap ∧ p + (n₁ + n₂) < c + cap ∧ (n₁, n₂) = spans cap h (n₁ + n₂)
  | .commitHead produced => p + produced < c + cap
  | .commitTail produced _ => p + produced < c + cap
  | .commitIndex produced _ => p + produced < c + cap
  | .commitStore produced h _ => p + produced < c + cap ∧ h = (p + produced) % cap
  | .signal => True

/-- The values are those committed from a position on. -/
def Copied (committed : List α) (c : ℕ) (out : List α) : Prop :=
  ∀ k a, out[k]? = some a → committed[c + k]? = some a

/-- An index of a position between the samples consumed and those committed. -/
def Seen (cap p c h : ℕ) : Prop := ∃ q, c ≤ q ∧ q ≤ p ∧ h = q % cap

/-- What the consumer's counter holds, with `c` samples consumed. -/
def Consumer.Ok (cap : ℕ) (committed : List α) (c : ℕ) : Consumer α → Prop
  | .usedTail _ h => Seen cap committed.length c h
  | .index _ n => c + n ≤ committed.length
  | .copying t n out =>
    t = c % cap ∧ c + n ≤ committed.length ∧ out.length ≤ n ∧ Copied committed c out
  | .blockStore t out =>
    t = (c + out.length) % cap ∧ c + out.length ≤ committed.length ∧ Copied committed c out
  | .reserved t n₁ n₂ =>
    t = c % cap ∧ c + (n₁ + n₂) ≤ committed.length ∧ (n₁, n₂) = spans cap t (n₁ + n₂)
  | .commitHead consumed => c + consumed ≤ committed.length
  | .commitTail consumed h => c + consumed ≤ committed.length ∧ Seen cap committed.length c h
  | .commitIndex consumed => c + consumed ≤ committed.length
  | .commitStore consumed t => c + consumed ≤ committed.length ∧ t = (c + consumed) % cap
  | .discardStore h => Seen cap committed.length c h
  | _ => True

/-- The ring against what was committed and consumed. -/
structure Sound (cap : ℕ) (s : State α) : Prop where
  capacity : s.ring.capacity = cap
  head : s.ring.head = s.committed.length % cap
  tail : s.ring.tail = s.fates.length % cap
  consumed_le : s.fates.length ≤ s.committed.length
  room : s.committed.length < s.fates.length + cap
  live : ∀ k, s.fates.length ≤ k → k < s.committed.length →
    s.committed[k]? = some (s.ring.buffer (k % cap))
  order : ∀ (k : ℕ) (a : α), s.fates[k]? = some (Fate.obtained a) → s.committed[k]? = some a
  producer : s.producer.Ok cap s.committed.length s.fates.length
  consumer : s.consumer.Ok cap s.committed s.fates.length

variable {pc : Producer} {c t h' n₁ n₂ k : ℕ}

/-- More consumed leaves the producer all it counted on. -/
theorem Producer.Ok.mono {cap p c' : ℕ} (h : pc.Ok cap p c) (hc : c ≤ c') : pc.Ok cap p c' := by
  cases pc with
  | idle => trivial
  | reserveHead m => trivial
  | reserveTail m h' => exact h
  | reserveIndex grant => exact h.trans_le (by omega)
  | granted h' n₁ n₂ => exact ⟨h.1, h.2.1.trans_le (by omega), h.2.2⟩
  | commitHead produced => exact h.trans_le (by omega)
  | commitTail produced h' => exact h.trans_le (by omega)
  | commitIndex produced b => exact h.trans_le (by omega)
  | commitStore produced h' b => exact ⟨h.1.trans_le (by omega), h.2⟩
  | signal => trivial

theorem Copied.append {committed more out : List α} (h : Copied committed c out) :
    Copied (committed ++ more) c out := by
  intro k a hk
  have := h k a hk
  rw [getElem?_append_left (List.getElem?_eq_some_iff.mp this).1]
  exact this

theorem Seen.mono {cap p p' h : ℕ} (hs : Seen cap p c h) (hp : p ≤ p') : Seen cap p' c h := by
  obtain ⟨q, hc, hq, rfl⟩ := hs
  exact ⟨q, hc, hq.trans hp, rfl⟩

theorem Consumer.Ok.append {cap : ℕ} {committed : List α} {pc : Consumer α}
    (h : pc.Ok cap committed c) (more : List α) : pc.Ok cap (committed ++ more) c := by
  have hle : committed.length ≤ (committed ++ more).length := by simp
  cases pc with
  | usedTail p h' => exact Seen.mono h hle
  | index p n => exact Nat.le_trans h hle
  | copying t n out => exact ⟨h.1, h.2.1.trans hle, h.2.2.1, h.2.2.2.append⟩
  | blockStore t out => exact ⟨h.1, h.2.1.trans hle, h.2.2.append⟩
  | reserved t n₁ n₂ => exact ⟨h.1, h.2.1.trans hle, h.2.2⟩
  | commitHead consumed => exact Nat.le_trans h hle
  | commitTail consumed h' => exact ⟨h.1.trans hle, h.2.mono hle⟩
  | commitIndex consumed => exact Nat.le_trans h hle
  | commitStore consumed t => exact ⟨h.1.trans hle, h.2⟩
  | discardStore h' => exact Seen.mono h hle
  | _ => trivial

variable {cap : ℕ} {s s' : State α}

theorem Sound.withProducer (h : Sound cap s) (hpc : pc.Ok cap s.committed.length s.fates.length) :
    Sound cap { s with producer := pc } :=
  { h with producer := hpc }

theorem Sound.withConsumer (h : Sound cap s) {pc : Consumer α}
    (hpc : pc.Ok cap s.committed s.fates.length) : Sound cap { s with consumer := pc } :=
  { h with consumer := hpc }

/-- Samples handed over or discarded: the next ones in order. -/
theorem Sound.consume (h : Sound cap s) {fates : List (Fate α)}
    (hn : s.fates.length + fates.length ≤ s.committed.length)
    (ht : t = (s.fates.length + fates.length) % cap)
    (hf : ∀ k a, fates[k]? = some (Fate.obtained a) → s.committed[s.fates.length + k]? = some a) :
    Sound cap { s with
      ring := { s.ring with tail := t }, consumer := .idle, fates := s.fates ++ fates } := by
  have hroom := h.room
  refine { h with
    tail := ?_, consumed_le := ?_, room := ?_, live := ?_, order := ?_, producer := ?_,
    consumer := trivial }
  · simpa using ht
  · simpa using hn
  · simp only [length_append]
    omega
  · intro k hk hlt
    rw [length_append] at hk
    exact h.live k (by omega) hlt
  · intro k a hk
    by_cases hlt : k < s.fates.length
    · rw [getElem?_append_left hlt] at hk
      exact h.order k a hk
    · rw [getElem?_append_right (by omega)] at hk
      have := hf _ a hk
      rwa [Nat.add_sub_cancel' (by omega)] at this
  · exact h.producer.mono (by simp)

/-- The samples in the places after `tail` are the next ones committed. -/
theorem Sound.following_tail (h : Sound cap s) {n : ℕ}
    (hn : s.fates.length + n ≤ s.committed.length) :
    Copied s.committed s.fates.length (s.ring.following s.ring.tail n) := by
  intro k a hk
  obtain ⟨hlt, hget⟩ := List.getElem?_eq_some_iff.mp hk
  simp only [Ring.following, length_map, length_range] at hlt
  have hplace : (s.ring.tail + k) % s.ring.capacity = (s.fates.length + k) % cap := by
    rw [h.capacity, h.tail, Nat.mod_add_mod]
  simp only [Ring.following, getElem_map, getElem_range, hplace] at hget
  rw [h.live _ (by omega) (by omega), hget]

theorem obtained_of_copied {committed out : List α} (h : Copied committed c out) :
    ∀ k a, (out.map Fate.obtained)[k]? = some (Fate.obtained a) → committed[c + k]? = some a := by
  intro k a hk
  rw [getElem?_map] at hk
  obtain ⟨b, hb, hba⟩ := Option.map_eq_some_iff.mp hk
  rw [Fate.obtained.injEq] at hba
  exact h k a (hba ▸ hb)

theorem Sound.commit (h : Sound cap s) {produced : ℕ}
    (hn : s.committed.length + produced < s.fates.length + cap)
    (hh : h' = (s.committed.length + produced) % cap)
    (hpc : pc.Ok cap (s.committed.length + produced) s.fates.length) :
    Sound cap { s with
      ring := { s.ring with head := h' }, producer := pc
      committed := s.committed ++ s.ring.following s.ring.head produced } := by
  have hlen : (s.committed ++ s.ring.following s.ring.head produced).length =
      s.committed.length + produced := by
    simp [Ring.following]
  have hle := h.consumed_le
  refine { h with
    head := ?_, consumed_le := ?_, room := ?_, live := ?_, order := ?_, producer := ?_,
    consumer := h.consumer.append _ }
  · rw [hlen]
    exact hh
  · rw [hlen]
    exact hle.trans (Nat.le_add_right _ _)
  · rw [hlen]
    exact hn
  · intro k hk hlt
    dsimp only at hk hlt ⊢
    rw [hlen] at hlt
    by_cases hold : k < s.committed.length
    · rw [getElem?_append_left hold]
      exact h.live k hk hold
    · rw [getElem?_append_right (by omega), Ring.following, getElem?_map,
        getElem?_range (by omega), Option.map_some, h.capacity, h.head, Nat.mod_add_mod,
        Nat.add_sub_cancel' (by omega)]
  · intro k a hk
    have := h.order k a hk
    rw [getElem?_append_left (List.getElem?_eq_some_iff.mp this).1]
    exact this
  · rw [hlen]
    exact hpc

theorem Sound.granted_apart (h : Sound cap s) {j : ℕ} (hg : s.producer = .granted h' n₁ n₂)
    (hk : k < n₁ + n₂) (hj : s.fates.length ≤ j) (hlt : j < s.committed.length) :
    place h' n₁ k ≠ j % cap := by
  have hok := h.producer
  rw [hg] at hok
  obtain ⟨rfl, hroom, hspans⟩ := hok
  have hn₁ : n₁ = (spans cap (s.committed.length % cap) (n₁ + n₂)).1 := congrArg Prod.fst hspans
  have hcap : 0 < cap := by
    have := h.room
    have := h.consumed_le
    omega
  have hle := h.consumed_le
  rw [hn₁, place_mod hcap (by omega) hk]
  exact (mod_ne_mod (by omega) (by omega)).symm

theorem Sound.write (h : Sound cap s) (hg : s.producer = .granted h' n₁ n₂) (hk : k < n₁ + n₂)
    (a : α) :
    Sound cap { s with
      ring := { s.ring with buffer := Function.update s.ring.buffer (place h' n₁ k) a } } := by
  refine { h with live := ?_ }
  intro j hj hlt
  have hne : j % cap ≠ place h' n₁ k := (h.granted_apart hg hk hj hlt).symm
  rw [h.live j hj hlt]
  simp only [Function.update_of_ne hne]

/-- What a look at `head` still shows of the samples to be consumed. -/
theorem Sound.gap_seen (h : Sound cap s) (hs : Seen cap s.committed.length s.fates.length h') :
    h' = (s.fates.length + gap cap h' s.ring.tail) % cap ∧
      s.fates.length + gap cap h' s.ring.tail ≤ s.committed.length := by
  obtain ⟨q, hc, hq, rfl⟩ := hs
  have hroom := h.room
  rw [h.tail, gap_mod hc (by omega), Nat.add_sub_cancel' hc]
  exact ⟨rfl, hq⟩

theorem Sound.seen_head (h : Sound cap s) :
    Seen cap s.committed.length s.fates.length s.ring.head :=
  ⟨s.committed.length, h.consumed_le, le_refl _, h.head⟩

theorem blockTail_eq {n : ℕ} (hcap : 0 < cap) (hn : n ≤ cap) :
    blockTail cap (c % cap) n = (c + n) % cap := by
  have hm := Nat.mod_lt c hcap
  rw [← wrap_mod hcap hn]
  unfold blockTail wrap
  split_ifs <;> omega

theorem Sound.producerStep (h : Sound cap s) (hs : producerStep s = some s') : Sound cap s' := by
  have hok := h.producer
  unfold Input.producerStep at hs
  cases hpc : s.producer with
  | idle => simp [hpc] at hs
  | granted h' n₁ n₂ => simp [hpc] at hs
  | reserveHead m =>
    simp only [hpc, Option.some.injEq] at hs
    subst hs
    exact h.withProducer h.head
  | reserveTail m h' =>
    simp only [hpc, Option.some.injEq] at hs
    rw [hpc] at hok
    subst hs
    -- the producer's own index is current, so what it counts as used is what is used
    apply h.withProducer
    have hroom := h.room
    have hle := h.consumed_le
    have hfree : ringFree s.ring.capacity (ringUsed s.ring.capacity h' s.ring.tail) =
        cap - 1 - (s.committed.length - s.fates.length) := by
      rw [show h' = s.committed.length % cap from hok, h.tail, h.capacity, ringFree, ringUsed,
        gap_mod hle hroom]
    simp only [Producer.Ok, hfree]
    split <;> omega
  | reserveIndex grant =>
    simp only [hpc] at hs
    rw [hpc] at hok
    split at hs
    · cases hs
      exact h.withProducer trivial
    · cases hs
      apply h.withProducer
      refine ⟨h.head, ?_, ?_⟩
      · rw [spans_total]
        exact hok
      · rw [spans_total, h.capacity]
  | commitHead produced =>
    simp only [hpc, Option.some.injEq] at hs
    rw [hpc] at hok
    subst hs
    exact h.withProducer hok
  | commitTail produced h' =>
    simp only [hpc, Option.some.injEq] at hs
    rw [hpc] at hok
    subst hs
    exact h.withProducer hok
  | commitIndex produced needSignal =>
    simp only [hpc, Option.some.injEq] at hs
    rw [hpc] at hok
    subst hs
    apply h.withProducer
    have hroom := h.room
    have hle := h.consumed_le
    have hfits : s.committed.length + produced < s.fates.length + cap := hok
    refine ⟨hfits, ?_⟩
    rw [h.capacity, h.head, wrap_mod (by omega) (by omega)]
  | commitStore produced h' needSignal =>
    simp only [hpc, Option.some.injEq] at hs
    rw [hpc] at hok
    subst hs
    apply h.commit hok.1 hok.2
    split <;> trivial
  | signal =>
    simp only [hpc, Option.some.injEq] at hs
    subst hs
    exact h.withProducer trivial

/-- A move of the consumer's counter alone. -/
theorem Sound.turn (h : Sound cap s) {pc : Consumer α}
    (hs : some { s with consumer := pc } = some s')
    (hpc : pc.Ok cap s.committed s.fates.length) : Sound cap s' := by
  cases hs
  exact h.withConsumer hpc

/-- The samples an index once seen counts are there to be consumed. -/
theorem Sound.used_le (h : Sound cap s) (hs : Seen cap s.committed.length s.fates.length h') :
    s.fates.length + ringUsed s.ring.capacity h' s.ring.tail ≤ s.committed.length := by
  rw [h.capacity]
  exact (h.gap_seen hs).2

/-- One sample more of those to be copied. -/
theorem Sound.copied_next (h : Sound cap s) {n : ℕ} {out : List α}
    (hn : s.fates.length + n ≤ s.committed.length) (hlt : out.length < n)
    (hcopied : Copied s.committed s.fates.length out) :
    Copied s.committed s.fates.length (out ++ [s.ring.buffer
      (place (s.fates.length % cap) (spans s.ring.capacity (s.fates.length % cap) n).1
        out.length)]) := by
  have hroom := h.room
  intro k a hk
  by_cases hold : k < out.length
  · rw [getElem?_append_left hold] at hk
    exact hcopied k a hk
  · rw [getElem?_append_right (by omega), h.capacity, place_mod (by omega) (by omega) hlt] at hk
    have hlast := (List.getElem?_eq_some_iff.mp hk).1
    rw [length_singleton] at hlast
    obtain rfl : k = out.length := by omega
    rw [h.live _ (by omega) (by omega)]
    simpa using hk

theorem Sound.copyingStep (h : Sound cap s) {n : ℕ} {out : List α}
    (hpc : s.consumer = .copying t n out) (hs : consumerStep s = some s') : Sound cap s' := by
  have hok := h.consumer
  rw [hpc] at hok
  obtain ⟨rfl, hn, hout, hcopied⟩ := hok
  simp only [consumerStep, hpc] at hs
  split at hs
  · next hlt =>
    cases hs
    refine h.withConsumer ⟨rfl, hn, ?_, h.copied_next hn hlt hcopied⟩
    rw [length_append]
    exact hlt
  · next hlt =>
    cases hs
    have hroom := h.room
    have hlen : out.length = n := by omega
    refine h.withConsumer ⟨?_, by omega, hcopied⟩
    rw [h.capacity, blockTail_eq (by omega) (by omega), hlen]

/-- Samples handed over as they were copied. -/
theorem Sound.handOver (h : Sound cap s) {out : List α}
    (hn : s.fates.length + out.length ≤ s.committed.length)
    (ht : t = (s.fates.length + out.length) % cap)
    (hcopied : Copied s.committed s.fates.length out) :
    Sound cap { s with
      ring := { s.ring with tail := t }, consumer := .idle
      fates := s.fates ++ out.map .obtained } := by
  have hlen : (out.map Fate.obtained).length = out.length := length_map _
  apply h.consume
  · rwa [hlen]
  · rwa [hlen]
  · exact obtained_of_copied hcopied

/-- A discard passes over what `head` was seen to have committed. -/
theorem Sound.discard (h : Sound cap s) (hs : Seen cap s.committed.length s.fates.length h') :
    Sound cap { s with
      ring := { s.ring with tail := h' }, consumer := .idle
      fates := s.fates ++ List.replicate (gap s.ring.capacity h' s.ring.tail) .discarded } := by
  obtain ⟨hnext, hgap⟩ := h.gap_seen hs
  apply h.consume
  · rwa [length_replicate, h.capacity]
  · rwa [length_replicate, h.capacity]
  · intro k a hk
    have := eq_of_mem_replicate (mem_of_getElem? hk)
    cases this

theorem Sound.indexStep (h : Sound cap s) {p : Purpose} {n : ℕ} (hpc : s.consumer = .index p n)
    (hs : consumerStep s = some s') : Sound cap s' := by
  have hok := h.consumer
  rw [hpc] at hok
  cases p with
  | block m =>
    simp only [consumerStep, hpc, Option.some.injEq] at hs
    subst hs
    refine h.withConsumer ⟨h.tail, hok, Nat.zero_le _, ?_⟩
    intro k a hk
    simp at hk
  | reserve m =>
    simp only [consumerStep, hpc, Option.some.injEq] at hs
    subst hs
    refine h.withConsumer ⟨h.tail, ?_, ?_⟩
    · rw [spans_total]
      exact hok
    · rw [spans_total, h.capacity]

theorem Sound.consumerStep (h : Sound cap s) (hs : consumerStep s = some s') : Sound cap s' := by
  have hok := h.consumer
  cases hpc : s.consumer with
  | idle | reserved t n₁ n₂ => simp [Input.consumerStep, hpc] at hs
  | index p n => exact h.indexStep hpc hs
  | copying t n out => exact h.copyingStep hpc hs
  | waitHead p | lockedHead p | waited p =>
    simp only [Input.consumerStep, hpc] at hs
    exact h.turn hs trivial
  | waitTail p h' | lockedTail p h' =>
    simp only [Input.consumerStep, hpc] at hs
    apply h.turn hs
    split <;> trivial
  | usedHead p | discardHead =>
    simp only [Input.consumerStep, hpc] at hs
    exact h.turn hs h.seen_head
  | usedTail p h' =>
    simp only [Input.consumerStep, hpc] at hs
    rw [hpc] at hok
    have hused := h.used_le hok
    apply h.turn hs
    simp only [Consumer.Ok]
    split <;> omega
  | blockStore t out =>
    simp only [Input.consumerStep, hpc, Option.some.injEq] at hs
    rw [hpc] at hok
    subst hs
    exact h.handOver hok.2.1 hok.1 hok.2.2
  | commitHead consumed =>
    simp only [Input.consumerStep, hpc] at hs
    rw [hpc] at hok
    exact h.turn hs ⟨hok, h.seen_head⟩
  | commitTail consumed h' =>
    simp only [Input.consumerStep, hpc] at hs
    rw [hpc] at hok
    have hused := h.used_le hok.2
    have hconsumed := hok.1
    apply h.turn hs
    simp only [Consumer.Ok]
    split <;> omega
  | commitIndex consumed =>
    simp only [Input.consumerStep, hpc] at hs
    rw [hpc] at hok
    refine h.turn hs ⟨hok, ?_⟩
    rw [h.tail, h.capacity, Nat.mod_add_mod]
  | commitStore consumed t =>
    simp only [Input.consumerStep, hpc, Option.some.injEq] at hs
    rw [hpc] at hok
    subst hs
    have hlen : (s.ring.following s.ring.tail consumed).length = consumed := by
      simp [Ring.following]
    refine h.handOver ?_ ?_ (h.following_tail hok.1)
    · rw [hlen]
      exact hok.1
    · rw [hlen]
      exact hok.2
  | discardStore h' =>
    simp only [Input.consumerStep, hpc, Option.some.injEq] at hs
    rw [hpc] at hok
    subst hs
    exact h.discard hok

/-- One move of either side keeps the ring sound. -/
theorem Sound.step {m : Move α} (h : Sound cap s) (hs : step m s = some s') : Sound cap s' := by
  unfold Input.step at hs
  split at hs
  · cases hs
    exact h.withProducer trivial
  · next h' n₁ n₂ hg =>
    split at hs
    · next hk =>
      cases hs
      exact h.write hg hk _
    · cases hs
  · next h' n₁ n₂ hg =>
    have hok := h.producer
    rw [hg] at hok
    split at hs
    · cases hs
      exact h.withProducer trivial
    · split at hs
      · next hle =>
        cases hs
        exact h.withProducer ((Nat.add_le_add_left hle _).trans_lt hok.2.1)
      · cases hs
  · exact h.producerStep hs
  · split at hs
    · cases hs
      exact h
    · cases hs
      exact h.withConsumer trivial
  · split at hs
    · cases hs
      exact h
    · cases hs
      exact h.withConsumer trivial
  · next t n₁ n₂ hr =>
    have hok := h.consumer
    rw [hr] at hok
    split at hs
    · cases hs
      exact h.withConsumer trivial
    · split at hs
      · next hle =>
        cases hs
        exact h.withConsumer ((Nat.add_le_add_left hle _).trans hok.2.1)
      · cases hs
  · cases hs
    exact h.withConsumer trivial
  · cases hs
    exact h.withConsumer trivial
  · cases hs
    exact h.withConsumer trivial
  · exact h.consumerStep hs
  · cases hs

theorem sound_init {buffer : ℕ → α} (hcap : 0 < cap) : Sound cap (init cap buffer) :=
  { capacity := rfl
    head := (Nat.zero_mod cap).symm
    tail := (Nat.zero_mod cap).symm
    consumed_le := le_refl _
    room := by simpa [init] using hcap
    live := fun k _ hk => absurd hk (Nat.not_lt_zero k)
    order := fun k a hk => by simp [init] at hk
    producer := trivial
    consumer := trivial }

theorem Sound.run {moves : List (Move α)} (h : Sound cap s) (hs : run s moves = some s') :
    Sound cap s' := by
  induction moves generalizing s with
  | nil =>
    cases hs
    exact h
  | cons m moves ih =>
    simp only [Input.run, foldlM_cons, Option.bind_eq_bind, Option.bind_eq_some_iff] at hs
    obtain ⟨s₁, hs₁, hrest⟩ := hs
    exact ih (h.step hs₁) hrest

/-- The places a side holds: `n₁` from an index on and `n₂` from the start. -/
def Producer.granted? : Producer → Option (ℕ × ℕ × ℕ)
  | .granted h n₁ n₂ => some (h, n₁, n₂)
  | _ => none

def Consumer.reserved? : Consumer α → Option (ℕ × ℕ × ℕ)
  | .reserved t n₁ n₂ => some (t, n₁, n₂)
  | _ => none

/-- What a blocking read has copied so far. -/
def Consumer.copied? : Consumer α → Option (List α)
  | .copying _ _ out => some out
  | .blockStore _ out => some out
  | _ => none

/-- The ring as a queue of the samples committed. -/
structure Queue (s : State α) : Prop where
  head_lt : s.ring.head < s.ring.capacity
  tail_lt : s.ring.tail < s.ring.capacity
  used_le : ringUsed s.ring.capacity s.ring.head s.ring.tail ≤ s.ring.capacity - 1
  /-- What is used is what was committed and neither obtained nor discarded. -/
  used_eq : s.fates.length + ringUsed s.ring.capacity s.ring.head s.ring.tail = s.committed.length
  held : ∀ j < ringUsed s.ring.capacity s.ring.head s.ring.tail,
    s.committed[s.fates.length + j]? =
      some (s.ring.buffer ((s.ring.tail + j) % s.ring.capacity))
  /-- A sample obtained is the committed one next after those obtained or discarded. -/
  obtained : ∀ (k : ℕ) (a : α), s.fates[k]? = some (Fate.obtained a) → s.committed[k]? = some a
  copied : ∀ out, s.consumer.copied? = some out → ∀ (k : ℕ) (a : α), out[k]? = some a →
    s.committed[s.fates.length + k]? = some a
  reserved : ∀ t n₁ n₂, s.consumer.reserved? = some (t, n₁, n₂) → ∀ k < n₁ + n₂,
    place t n₁ k < s.ring.capacity ∧
      s.committed[s.fates.length + k]? = some (s.ring.buffer (place t n₁ k))
  /-- A granted place is inside the buffer, holds no sample still to be consumed and is
  not reserved for reading. -/
  granted : ∀ h n₁ n₂, s.producer.granted? = some (h, n₁, n₂) → ∀ k < n₁ + n₂,
    place h n₁ k < s.ring.capacity ∧
      (∀ j < ringUsed s.ring.capacity s.ring.head s.ring.tail,
        place h n₁ k ≠ (s.ring.tail + j) % s.ring.capacity) ∧
      ∀ t m₁ m₂, s.consumer.reserved? = some (t, m₁, m₂) → ∀ j < m₁ + m₂,
        place h n₁ k ≠ place t m₁ j

/-- Positions of the samples still to be consumed. -/
theorem Sound.used (h : Sound cap s) :
    ringUsed s.ring.capacity s.ring.head s.ring.tail = s.committed.length - s.fates.length := by
  rw [h.capacity, h.head, h.tail, ringUsed, gap_mod h.consumed_le h.room]

theorem Sound.reserved_place (h : Sound cap s) (hr : s.consumer = .reserved t n₁ n₂)
    (hk : k < n₁ + n₂) :
    place t n₁ k = (s.fates.length + k) % cap ∧ s.fates.length + k < s.committed.length := by
  have hok := h.consumer
  rw [hr] at hok
  obtain ⟨rfl, hn, hspans⟩ := hok
  have hroom := h.room
  have hn₁ : n₁ = (spans cap (s.fates.length % cap) (n₁ + n₂)).1 := congrArg Prod.fst hspans
  refine ⟨?_, by omega⟩
  rw [hn₁, place_mod (by omega) (by omega) hk]

theorem reserved_of_some {c : Consumer α} (h : c.reserved? = some (t, n₁, n₂)) :
    c = .reserved t n₁ n₂ := by
  cases c <;> simp_all [Consumer.reserved?]

theorem granted_of_some {p : Producer} {h : ℕ} (hp : p.granted? = some (h, n₁, n₂)) :
    p = .granted h n₁ n₂ := by
  cases p <;> simp_all [Producer.granted?]

theorem Sound.queue (h : Sound cap s) : Queue s := by
  have hroom := h.room
  have hle := h.consumed_le
  have hcap : 0 < cap := by omega
  have hused := h.used
  refine ⟨?_, ?_, ?_, ?_, ?_, h.order, ?_, ?_, ?_⟩
  · rw [h.head, h.capacity]
    exact Nat.mod_lt _ hcap
  · rw [h.tail, h.capacity]
    exact Nat.mod_lt _ hcap
  · rw [hused, h.capacity]
    omega
  · rw [hused]
    omega
  · intro j hj
    rw [hused] at hj
    rw [h.live _ (by omega) (by omega), h.tail, h.capacity, Nat.mod_add_mod]
  · intro out hout
    have hok := h.consumer
    cases hpc : s.consumer with
    | copying t n out' =>
      rw [hpc] at hok hout
      cases hout
      exact hok.2.2.2
    | blockStore t out' =>
      rw [hpc] at hok hout
      cases hout
      exact hok.2.2
    | _ =>
      rw [hpc] at hout
      cases hout
  · intro t n₁ n₂ hr k hk
    obtain ⟨hplace, hlt⟩ := h.reserved_place (reserved_of_some hr) hk
    rw [hplace, h.capacity]
    exact ⟨Nat.mod_lt _ hcap, h.live _ (by omega) hlt⟩
  · intro h' n₁ n₂ hg k hk
    have hg' := granted_of_some hg
    have hapart := fun j => h.granted_apart (j := j) hg' hk
    refine ⟨?_, ?_, ?_⟩
    · have hok := h.producer
      rw [hg'] at hok
      obtain ⟨rfl, hn, hspans⟩ := hok
      have hn₁ : n₁ = (spans cap (s.committed.length % cap) (n₁ + n₂)).1 :=
        congrArg Prod.fst hspans
      rw [hn₁, place_mod hcap (by omega) hk, h.capacity]
      exact Nat.mod_lt _ hcap
    · intro j hj
      rw [hused] at hj
      rw [h.tail, h.capacity, Nat.mod_add_mod]
      exact hapart _ (by omega) (by omega)
    · intro t m₁ m₂ hr j hj
      obtain ⟨hplace, hlt⟩ := h.reserved_place (reserved_of_some hr) hj
      rw [hplace]
      exact hapart _ (by omega) hlt

/-- Whatever the two sides do, in whatever order, the ring is a queue. -/
theorem ring_is_queue (capacity : ℕ) (hcap : 2 ≤ capacity) (buffer : ℕ → α)
    (moves : List (Move α)) (s : State α) (hrun : run (init capacity buffer) moves = some s) :
    Queue s := by
  have hinit : Sound capacity (init capacity buffer) := sound_init (by omega)
  exact (hinit.run hrun).queue

/-- Two pairs of samples through a ring of three places, the second across its end. -/
def wrappingMoves : List (Move ℕ) :=
  let granted : List (Move ℕ) := [.producer, .producer, .producer, .write 0 7, .write 1 8]
  let committed : List (Move ℕ) := List.replicate 5 .producer
  let found : List (Move ℕ) := List.replicate 5 .consumer
  let first := .reserve 2 :: (granted ++ .commit 2 :: (committed ++ .readBlock 2 :: found))
  first ++ .consumer :: .consumer :: .reserve 2 :: .consumer :: .consumer ::
    (granted ++ .commit 2 :: (committed ++ .readReserve 2 :: found))

/-- A run over the end of the buffer. -/
theorem ring_is_queue_wrapping :
    ∃ s, run (init 3 fun _ => 0) wrappingMoves = some s ∧ s.consumer = .reserved 2 1 1 ∧
      Queue s := by
  have hend : (run (init 3 fun _ => 0) wrappingMoves).map State.consumer =
      some (.reserved 2 1 1) := by
    decide
  obtain ⟨s, hrun, hs⟩ := Option.map_eq_some_iff.mp hend
  exact ⟨s, hrun, hs, ring_is_queue 3 (by decide) (fun _ => 0) wrappingMoves s hrun⟩

end DsdNeo.Input
