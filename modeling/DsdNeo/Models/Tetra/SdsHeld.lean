import DsdNeo.Models.Tetra.Sds
import Mathlib.Order.Interval.Finset.Nat

/-!
# What a context holds

Packing and unpacking a part are inverse, so a context holds exactly the parts stored in
it: their bits, which of them there are and how many, and the protocol part 1 named. The
pass over the contexts gives the one of a message, or a fresh one.
-/

namespace DsdNeo.Tetra.Sds

open Bytes List Function

theorem bitsOf_storeBit {packed : List ℕ} {i : ℕ} (b : Bool)
    (clear : (bitsOf packed)[i]? = some false) :
    bitsOf (storeBit packed b i) = (bitsOf packed).set i b := by
  cases b with
  | false =>
    have same : storeBit packed false i = packed := by
      unfold storeBit
      rw [show (fun x : ℕ => x ||| (false.toNat <<< (7 - i % 8))) = id from
        funext fun x => by simp, modify_id]
    rw [same]
    refine ext_getElem? fun j => ?_
    rw [getElem?_set]
    split
    · rename_i h
      subst h
      obtain ⟨h, value⟩ := List.getElem?_eq_some_iff.mp clear
      rw [if_pos h, clear]
    · rfl
  | true =>
    rw [← bitsOf_writeBit, storeBit, writeBit]
    have mask : true.toNat <<< (7 - i % 8) = bitMask i := by
      have hi : i % 8 < 8 := Nat.mod_lt _ (by decide)
      unfold bitMask
      generalize i % 8 = r at hi
      interval_cases r <;> rfl
    rw [mask]
    rfl

theorem bitsOf_replicate_zero (n : ℕ) :
    bitsOf (List.replicate n 0) = List.replicate (8 * n) false := by
  induction n with
  | zero => rfl
  | succ n ih =>
    rw [replicate_succ, bitsOf_cons, ih, Nat.mul_succ, Nat.add_comm, replicate_add]
    rfl

theorem packBits_append_singleton (bits : List Bool) (b : Bool) :
    packBits (bits ++ [b]) = storeBit (packBits bits) b bits.length := by
  unfold packBits
  rw [zipIdx_append, foldl_append]
  simp

theorem bitsOf_packBits {bits : List Bool} (h : bits.length ≤ 2048) :
    bitsOf (packBits bits) = bits ++ List.replicate (2048 - bits.length) false := by
  induction bits using List.reverseRecOn with
  | nil => exact bitsOf_replicate_zero 256
  | append_singleton bits b ih =>
    rw [length_append, length_singleton] at h
    have room : List.replicate (2048 - bits.length) false =
        false :: List.replicate (2048 - (bits.length + 1)) false := by
      rw [show 2048 - bits.length = 2048 - (bits.length + 1) + 1 by omega, replicate_succ]
    have before := ih (by omega)
    rw [room] at before
    rw [packBits_append_singleton, bitsOf_storeBit b (by rw [before]; simp), before]
    simp

theorem unpackBits_eq {packed : List ℕ} {n : ℕ} (h : n ≤ 8 * packed.length) :
    unpackBits packed n = (bitsOf packed).take n := by
  refine ext_getElem? fun j => ?_
  rw [getElem?_take, getElem?_bitsOf, unpackBits, getElem?_map]
  by_cases hj : j < n
  · rw [if_pos hj, getElem?_range hj]
    have inside : j / 8 < packed.length := by omega
    simp [getElem?_eq_getElem inside]
  · rw [if_neg hj, getElem?_eq_none (by simpa using hj)]
    rfl

@[simp] theorem length_storeBit (packed : List ℕ) (b : Bool) (i : ℕ) :
    (storeBit packed b i).length = packed.length := by simp [storeBit]

@[simp] theorem length_packBits (bits : List Bool) : (packBits bits).length = 256 := by
  induction bits using List.reverseRecOn with
  | nil => exact length_replicate
  | append_singleton bits b ih => rw [packBits_append_singleton, length_storeBit, ih]

/-- A part comes out as it went in. -/
theorem unpackBits_packBits {bits : List Bool} (h : bits.length ≤ 2047) :
    unpackBits (packBits bits) bits.length = bits := by
  rw [unpackBits_eq (by rw [length_packBits]; omega), bitsOf_packBits (by omega)]
  simp

@[simp] theorem length_unpackBits (packed : List ℕ) (n : ℕ) : (unpackBits packed n).length = n := by
  simp [unpackBits]

/-- Two parts stored alike are alike. -/
theorem eq_of_packBits_eq {a b : List Bool} (ha : a.length ≤ 2047) (hb : b.length ≤ 2047)
    (length : a.length = b.length) (packed : packBits a = packBits b) : a = b := by
  have := unpackBits_packBits ha
  rw [packed, length, unpackBits_packBits hb] at this
  exact this.symm

/-- The numbers of the parts. -/
def sequences (parts : List Part) : Finset ℕ := (parts.map (·.sequence)).toFinset

variable {parts : List Part}

theorem mem_sequences {n : ℕ} : n ∈ sequences parts ↔ ∃ p ∈ parts, p.sequence = n := by
  simp [sequences]

theorem sequences_append (parts : List Part) (p : Part) :
    sequences (parts ++ [p]) = insert p.sequence (sequences parts) := by
  ext n
  simp [sequences]

/-- A context that holds exactly these parts. -/
structure Ctx.Holds (c : Ctx) (parts : List Part) : Prop where
  valid : c.valid = true
  key : ∀ p ∈ parts, p.key = c.key
  total : ∀ p ∈ parts, p.total = c.total
  there : ∀ i, c.hasPart i = true ↔ i + 1 ∈ sequences parts
  data : ∀ p ∈ parts, c.partBits (p.sequence - 1) = p.data.length ∧
    c.data (p.sequence - 1) = packBits p.data
  count : c.receivedCount = (sequences parts).card
  known : c.payloadPidKnown = true ↔ 1 ∈ sequences parts
  pid : 1 ∈ sequences parts → ∃ p ∈ parts, p.sequence = 1 ∧ p.payloadPid = some c.payloadPid

theorem holds_opened (p : Part) : (Ctx.opened p).Holds [] where
  valid := rfl
  key := fun _ h => nomatch h
  total := fun _ h => nomatch h
  there := fun i => by
    have none : (Ctx.opened p).hasPart i = false := Nat.zero_testBit _
    rw [none]
    simp [sequences]
  data := fun _ h => nomatch h
  count := rfl
  known := ⟨(nomatch ·), fun h => by simp [sequences] at h⟩
  pid := fun h => by simp [sequences] at h

variable {c : Ctx}

/-- The time does not matter to what a context holds. -/
theorem Ctx.Holds.at (h : c.Holds parts) (nowMs : BitVec 64) :
    ({ c with updatedMs := nowMs } : Ctx).Holds parts :=
  ⟨h.valid, h.key, h.total, h.there, h.data, h.count, h.known, h.pid⟩

/-- Parts of one number in one context are alike. -/
theorem Ctx.Holds.agree (h : c.Holds parts) {p q : Part} (hp : p ∈ parts) (hq : q ∈ parts)
    (same : p.sequence = q.sequence) : p.data = q.data := by
  have first := h.data p hp
  have second := h.data q hq
  rw [same] at first
  exact eq_of_packBits_eq p.wellFormed.data_le q.wellFormed.data_le
    (first.1.symm.trans second.1) (first.2.symm.trans second.2)

/-- The numbers lie in the message. -/
theorem Ctx.Holds.sequences_subset (h : c.Holds parts) :
    sequences parts ⊆ Finset.Icc 1 c.total := by
  intro n hn
  obtain ⟨p, hp, rfl⟩ := mem_sequences.mp hn
  have le := p.wellFormed.le_total
  rw [h.total p hp] at le
  exact Finset.mem_Icc.mpr ⟨p.wellFormed.one_le, le⟩

theorem hasPart_entered (c : Ctx) (p : Part) (i : ℕ) :
    (c.entered p).hasPart i = (c.hasPart i || decide (i = p.sequence - 1)) := by
  unfold Ctx.hasPart
  show (update c.received _ _ (i / 8)).testBit (i % 8) = _
  generalize p.sequence - 1 = k
  by_cases hbyte : i / 8 = k / 8
  · rw [hbyte, update_self, Nat.testBit_or, Nat.one_shiftLeft, Nat.testBit_two_pow]
    congr 1
    by_cases hi : i = k
    · simp [hi]
    · have : k % 8 ≠ i % 8 := by omega
      simp [hi, this]
  · rw [update_of_ne hbyte]
    have : i ≠ k := fun h => hbyte (by rw [h])
    simp [this]

theorem Ctx.Holds.entered (h : c.Holds parts) {p : Part} (key : p.key = c.key)
    (total : p.total = c.total) (fresh : p.sequence ∉ sequences parts) :
    (c.entered p).Holds (parts ++ [p]) where
  valid := h.valid
  key := by
    intro q hq
    rcases mem_append.mp hq with hq | hq
    · exact h.key q hq
    · cases mem_singleton.mp hq
      exact key
  total := by
    intro q hq
    rcases mem_append.mp hq with hq | hq
    · exact h.total q hq
    · cases mem_singleton.mp hq
      exact total
  there := by
    intro i
    have one := p.wellFormed.one_le
    rw [hasPart_entered, sequences_append, Finset.mem_insert, Bool.or_eq_true, h.there,
      decide_eq_true_eq]
    constructor
    · rintro (h | h)
      · exact Or.inr h
      · exact Or.inl (by omega)
    · rintro (h | h)
      · exact Or.inr (by omega)
      · exact Or.inl h
  data := by
    intro q hq
    have one := p.wellFormed.one_le
    rcases mem_append.mp hq with hq | hq
    · have ne : q.sequence - 1 ≠ p.sequence - 1 := by
        intro same
        have := q.wellFormed.one_le
        exact fresh (mem_sequences.mpr ⟨q, hq, by omega⟩)
      show update c.partBits _ _ _ = _ ∧ update c.data _ _ _ = _
      rw [update_of_ne ne, update_of_ne ne]
      exact h.data q hq
    · cases mem_singleton.mp hq
      exact ⟨update_self .., update_self ..⟩
  count := by
    have subset := h.sequences_subset
    have bound := Finset.card_le_card subset
    have le := p.wellFormed.total_le
    rw [Nat.card_Icc, ← total] at bound
    have strict : (sequences parts).card < 255 := by
      refine Nat.lt_of_le_of_ne (by omega) fun full => ?_
      have all : sequences parts = Finset.Icc 1 c.total :=
        Finset.eq_of_subset_of_card_le subset (by rw [Nat.card_Icc, ← total]; omega)
      refine fresh ?_
      rw [all, ← total]
      exact Finset.mem_Icc.mpr ⟨p.wellFormed.one_le, p.wellFormed.le_total⟩
    show (c.receivedCount + 1) % 256 = _
    rw [sequences_append, Finset.card_insert_of_notMem fresh, h.count, Nat.mod_eq_of_lt (by omega)]
  known := by
    rw [sequences_append, Finset.mem_insert]
    show (if p.sequence = 1 then true else c.payloadPidKnown) = true ↔ _
    split
    · rename_i one
      simp [one]
    · rename_i more
      rw [h.known]
      simp [Ne.symm more]
  pid := by
    intro h1
    rw [sequences_append, Finset.mem_insert] at h1
    show ∃ q ∈ parts ++ [p], q.sequence = 1 ∧
      q.payloadPid = some (if p.sequence = 1 then p.payloadPid.getD 0 else c.payloadPid)
    split
    · rename_i one
      refine ⟨p, by simp, one, ?_⟩
      obtain ⟨pid, hpid⟩ := Option.isSome_iff_exists.mp (p.wellFormed.pid.mpr one)
      simp [hpid]
    · rename_i more
      obtain ⟨q, hq, hseq, hpid⟩ := h.pid (h1.resolve_left (Ne.symm more))
      exact ⟨q, mem_append_left _ hq, hseq, hpid⟩

/-- A part held already. -/
theorem Ctx.Holds.repeated (h : c.Holds parts) {p q : Part} (hq : q ∈ parts) (key : p.key = c.key)
    (total : p.total = c.total) (same : q.sequence = p.sequence) (data : q.data = p.data) :
    c.Holds (parts ++ [p]) := by
  have seqs : sequences (parts ++ [p]) = sequences parts := by
    rw [sequences_append, Finset.insert_eq_of_mem (mem_sequences.mpr ⟨q, hq, same⟩)]
  refine ⟨h.valid, ?_, ?_, fun i => by rw [seqs]; exact h.there i, ?_, by rw [seqs]; exact h.count,
    by rw [seqs]; exact h.known, ?_⟩
  · intro r hr
    rcases mem_append.mp hr with hr | hr
    · exact h.key r hr
    · cases mem_singleton.mp hr
      exact key
  · intro r hr
    rcases mem_append.mp hr with hr | hr
    · exact h.total r hr
    · cases mem_singleton.mp hr
      exact total
  · intro r hr
    rcases mem_append.mp hr with hr | hr
    · exact h.data r hr
    · cases mem_singleton.mp hr
      rw [← same, ← data]
      exact h.data q hq
  · rw [seqs]
    intro h1
    obtain ⟨r, hr, hseq, hpid⟩ := h.pid h1
    exact ⟨r, mem_append_left _ hr, hseq, hpid⟩

/-- A part that goes with the parts held. -/
structure Ctx.Suits (c : Ctx) (parts : List Part) (p : Part) : Prop where
  total : p.total = c.total
  data : ∀ q ∈ parts, q.sequence = p.sequence → q.data = p.data

theorem Ctx.Holds.storePart (h : c.Holds parts) {p : Part} (key : p.key = c.key)
    (suits : c.Suits parts p) :
    (c.storePart p).1.Holds (parts ++ [p]) ∧ (c.storePart p).1.key = c.key ∧
      (c.storePart p).1.total = c.total ∧ (c.storePart p).1.updatedMs = c.updatedMs ∧
      (c.storePart p).2 = if p.sequence ∈ sequences parts then .duplicate else .pending := by
  have one := p.wellFormed.one_le
  have there : c.hasPart (p.sequence - 1) = true ↔ p.sequence ∈ sequences parts := by
    rw [h.there, Nat.sub_add_cancel one]
  unfold Ctx.storePart
  rw [if_neg (not_not.mpr suits.total.symm)]
  by_cases hin : p.sequence ∈ sequences parts
  · obtain ⟨q, hq, same⟩ := mem_sequences.mp hin
    have alike := suits.data q hq same
    have stored := h.data q hq
    rw [same, alike] at stored
    rw [if_pos (there.mpr hin), if_neg (by simp [stored.1, stored.2]), if_pos hin]
    exact ⟨h.repeated hq key suits.total same alike, rfl, rfl, rfl, rfl⟩
  · rw [if_neg (fun h => hin (there.mp h)), if_neg hin]
    exact ⟨h.entered key suits.total hin, rfl, rfl, rfl, rfl⟩

theorem Ctx.Holds.storePart_conflict (h : c.Holds parts) {p : Part} (unsuited : ¬ c.Suits parts p) :
    c.storePart p = ({}, .rejected) := by
  unfold Ctx.storePart
  by_cases total : c.total = p.total
  · rw [if_neg (not_not.mpr total)]
    have differs : ∃ q ∈ parts, q.sequence = p.sequence ∧ q.data ≠ p.data := by
      by_contra none
      refine unsuited ⟨total.symm, fun q hq same => ?_⟩
      by_contra ne
      exact none ⟨q, hq, same, ne⟩
    obtain ⟨q, hq, same, ne⟩ := differs
    have one := p.wellFormed.one_le
    have there : c.hasPart (p.sequence - 1) = true := by
      rw [h.there, Nat.sub_add_cancel one]
      exact mem_sequences.mpr ⟨q, hq, same⟩
    have stored := h.data q hq
    rw [same] at stored
    rw [if_pos there, if_pos]
    by_contra alike
    simp only [not_or, not_not] at alike
    exact ne (eq_of_packBits_eq q.wellFormed.data_le p.wellFormed.data_le
      (stored.1.symm.trans alike.1) (stored.2.symm.trans alike.2))
  · rw [if_pos total]

/-- The parts of a message, whole. -/
def Whole (total : ℕ) (parts : List Part) : Prop := Finset.Icc 1 total ⊆ sequences parts

instance (total : ℕ) (parts : List Part) : Decidable (Whole total parts) :=
  inferInstanceAs (Decidable (Finset.Icc 1 total ⊆ sequences parts))

/-- The bits of a message whose parts hold this data. -/
def joined (total : ℕ) (data : ℕ → List Bool) : List Bool :=
  (List.range total).flatMap fun i => data (i + 1)

theorem Ctx.Holds.count_eq_total (h : c.Holds parts) :
    c.receivedCount = c.total ↔ Whole c.total parts := by
  have subset := h.sequences_subset
  rw [h.count]
  constructor
  · intro full
    have all := Finset.eq_of_subset_of_card_le subset (by rw [Nat.card_Icc]; omega)
    exact all.ge
  · intro whole
    rw [Finset.Subset.antisymm subset whole, Nat.card_Icc]
    omega

theorem Ctx.Holds.assemble (h : c.Holds parts) {data : ℕ → List Bool} (whole : Whole c.total parts)
    (same : ∀ p ∈ parts, p.data = data p.sequence) : c.assemble = joined c.total data := by
  have piece : ∀ i ∈ List.range c.total, unpackBits (c.data i) (c.partBits i) = data (i + 1) := by
    intro i hi
    have hi' := mem_range.mp hi
    obtain ⟨p, hp, hseq⟩ := mem_sequences.mp
      (whole (Finset.mem_Icc.mpr ⟨Nat.le_add_left 1 i, hi'⟩))
    have stored := h.data p hp
    rw [show p.sequence - 1 = i by omega] at stored
    rw [stored.1, stored.2, unpackBits_packBits p.wellFormed.data_le, same p hp, hseq]
  have sum : ((List.range c.total).flatMap fun i => unpackBits (c.data i) (c.partBits i)).length =
      ((List.range c.total).map c.partBits).sum := by
    rw [length_flatMap]
    simp
  unfold Ctx.assemble joined
  rw [← sum, take_length]
  exact flatMap_congr piece

end DsdNeo.Tetra.Sds
