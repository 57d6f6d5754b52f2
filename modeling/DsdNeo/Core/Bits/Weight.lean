import Mathlib.Data.List.Nodup
import Mathlib.Data.List.Perm.Subperm
import Mathlib.Data.Nat.Bitwise

/-!
# Weights of words

A word is the sum of the one-bit words at its positions; its weight is how many there are, and the
distance of two words the weight of their sum. Clearing the lowest bit of a number often enough
shows that it has many bits, which is what a search for words of small weight computes with.
-/

namespace DsdNeo.Bits

open List

variable {n : ℕ}

/-- The positions of the bits that are set, lowest first. -/
def positions (w : BitVec n) : List ℕ := (List.range n).filter w.getLsbD

/-- How many bits are set. -/
def weight (w : BitVec n) : ℕ := (positions w).length

/-- Hamming distance. -/
def distance (a b : BitVec n) : ℕ := weight (a ^^^ b)

/-- The sum of the one-bit words at some positions. -/
def ofPositions (n : ℕ) (l : List ℕ) : BitVec n := l.foldr (fun k w => (1#n <<< k) ^^^ w) 0

variable {w : BitVec n} {k p : ℕ}

/-- The positions are those of the bits set. -/
theorem mem_positions : k ∈ positions w ↔ w.getLsbD k = true := by
  rw [positions, mem_filter, mem_range, and_iff_right_iff_imp]
  exact BitVec.lt_of_getLsbD

theorem nodup_positions (w : BitVec n) : (positions w).Nodup := nodup_range.filter _

theorem pairwise_positions (w : BitVec n) : (positions w).Pairwise (· < ·) :=
  pairwise_lt_range.filter _

/-- A single bit. -/
theorem getLsbD_oneBit {j : ℕ} (hk : k < n) : (1#n <<< j).getLsbD k = decide (k = j) := by
  rw [BitVec.getLsbD_shiftLeft, BitVec.getLsbD_one]
  by_cases hj : k < j
  · simp [hj, Nat.ne_of_lt hj]
  · have hzero : k - j = 0 ↔ k = j := by omega
    simp [hk, hj, hzero]
    omega

/-- Distinct positions are the bits of their word. -/
theorem getLsbD_ofPositions {l : List ℕ} (hl : l.Nodup) (hk : k < n) :
    (ofPositions n l).getLsbD k = decide (k ∈ l) := by
  induction l with
  | nil => simp [ofPositions]
  | cons j l ih =>
    obtain ⟨hnot, hl⟩ := nodup_cons.mp hl
    have hrest := ih hl
    rw [ofPositions, foldr_cons, BitVec.getLsbD_xor, getLsbD_oneBit hk]
    rw [ofPositions] at hrest
    rw [hrest]
    by_cases hj : k = j
    · subst hj
      simp [hnot]
    · simp [hj]

/-- A word is the sum of its bits. -/
theorem ofPositions_positions (w : BitVec n) : ofPositions n (positions w) = w := by
  refine BitVec.eq_of_getLsbD_eq fun k hk => ?_
  rw [getLsbD_ofPositions (nodup_positions w) hk, Bool.eq_iff_iff, decide_eq_true_iff,
    mem_positions]

/-- The weight of the word with given bits is their number. -/
theorem weight_ofPositions {l : List ℕ} (hl : l.Nodup) (hn : ∀ k ∈ l, k < n) :
    weight (ofPositions n l) = l.length := by
  refine List.Perm.length_eq ((perm_ext_iff_of_nodup (nodup_positions _) hl).mpr fun k => ?_)
  rw [mem_positions]
  constructor
  · intro hk
    have hlt := BitVec.lt_of_getLsbD hk
    rw [getLsbD_ofPositions hl hlt, decide_eq_true_iff] at hk
    exact hk
  · intro hk
    rw [getLsbD_ofPositions hl (hn k hk), decide_eq_true_iff]
    exact hk

/-- The weight of a sum. -/
theorem weight_xor_le (a b : BitVec n) : weight (a ^^^ b) ≤ weight a + weight b := by
  rw [weight, weight, weight, ← length_append]
  refine ((nodup_positions _).subperm fun k hk => ?_).length_le
  rw [mem_positions, BitVec.getLsbD_xor] at hk
  rw [mem_append, mem_positions, mem_positions]
  cases ha : a.getLsbD k with
  | true => exact Or.inl rfl
  | false =>
    rw [ha, Bool.false_xor] at hk
    exact Or.inr hk

/-- Only zero has no weight. -/
theorem weight_eq_zero : weight w = 0 ↔ w = 0 := by
  constructor
  · intro h
    rw [← ofPositions_positions w, length_eq_zero_iff.mp h]
    rfl
  · rintro rfl
    simp [weight, positions]

theorem distance_self (a : BitVec n) : distance a a = 0 := by
  rw [distance, BitVec.xor_self]
  exact weight_eq_zero.mpr rfl

/-- Words near a third are near each other. -/
theorem distance_le (a b c : BitVec n) : distance a b ≤ distance c a + distance c b := by
  have hsum : a ^^^ b = (c ^^^ a) ^^^ (c ^^^ b) := by
    rw [BitVec.xor_comm c a, BitVec.xor_assoc, ← BitVec.xor_assoc c c b, BitVec.xor_self,
      BitVec.zero_xor]
  rw [distance, hsum]
  exact weight_xor_le _ _

/-- The lowest `n` bits of a number cleared, one after the other. -/
def clearLowest : ℕ → ℕ → ℕ
  | 0, p => p
  | n + 1, p => clearLowest n (p &&& (p - 1))

/-- The bits of a number below a width. -/
def bitsBelow (m p : ℕ) : List ℕ := (List.range m).filter p.testBit

theorem clearLowest_zero (n : ℕ) : clearLowest n 0 = 0 := by
  induction n with
  | zero => rfl
  | succ n ih => exact ih

theorem length_bitsBelow_clear {m : ℕ} (hp : p < 2 ^ m) (hpos : 0 < p) :
    (bitsBelow m (p &&& (p - 1))).length < (bitsBelow m p).length := by
  have hle : p &&& (p - 1) ≤ p - 1 := Nat.and_le_right
  obtain ⟨k, hk⟩ : ∃ k, (p &&& (p - 1)).testBit k ≠ p.testBit k := by
    by_contra hall
    push Not at hall
    have heq := Nat.eq_of_testBit_eq hall
    omega
  rw [Nat.testBit_and] at hk
  have hset : p.testBit k = true := by
    cases h : p.testBit k with
    | true => rfl
    | false => simp [h] at hk
  have hcleared : (p &&& (p - 1)).testBit k = false := by
    rw [Nat.testBit_and]
    cases h : (p - 1).testBit k with
    | true => simp [h] at hk
    | false => simp
  have hsub : bitsBelow m (p &&& (p - 1)) ⊆ (bitsBelow m p).erase k := by
    intro i hi
    obtain ⟨him, hbit⟩ := mem_filter.mp hi
    have hne : i ≠ k := by
      rintro rfl
      rw [hcleared] at hbit
      cases hbit
    rw [Nat.testBit_and, Bool.and_eq_true] at hbit
    exact (mem_erase_of_ne hne).mpr (mem_filter.mpr ⟨him, hbit.1⟩)
  have hk' : k ∈ bitsBelow m p := by
    refine mem_filter.mpr ⟨mem_range.mpr ?_, hset⟩
    by_contra hge
    rw [Nat.testBit_lt_two_pow (hp.trans_le (Nat.pow_le_pow_right (by decide) (not_lt.mp hge)))]
      at hset
    cases hset
  have hnodup : (bitsBelow m (p &&& (p - 1))).Nodup := nodup_range.filter _
  have hlen := (hnodup.subperm hsub).length_le
  rw [length_erase_of_mem hk'] at hlen
  have := length_pos_of_mem hk'
  omega

theorem clearLowest_eq_zero {m n : ℕ} (hp : p < 2 ^ m) (h : (bitsBelow m p).length ≤ n) :
    clearLowest n p = 0 := by
  induction n generalizing p with
  | zero =>
    refine Nat.eq_of_testBit_eq fun k => ?_
    rw [clearLowest, Nat.zero_testBit]
    by_cases hk : k < m
    · cases hbit : p.testBit k with
      | false => rfl
      | true =>
        have hmem : k ∈ bitsBelow m p := mem_filter.mpr ⟨mem_range.mpr hk, hbit⟩
        have := length_pos_of_mem hmem
        omega
    · exact Nat.testBit_lt_two_pow (hp.trans_le (Nat.pow_le_pow_right (by decide) (not_lt.mp hk)))
  | succ n ih =>
    rw [clearLowest]
    by_cases hpos : 0 < p
    · refine ih (Nat.lt_of_le_of_lt Nat.and_le_left hp) ?_
      have := length_bitsBelow_clear hp hpos
      omega
    · obtain rfl : p = 0 := by omega
      exact clearLowest_zero n

theorem weight_eq_bitsBelow (w : BitVec n) : weight w = (bitsBelow n w.toNat).length := by
  rw [weight, positions, bitsBelow]
  exact congrArg List.length (filter_congr fun k _ => (BitVec.testBit_toNat w).symm)

/-- Words whose sum outlasts as many clearings are further apart. -/
theorem lt_distance {a b : BitVec n} {d : ℕ} (h : clearLowest d (a ^^^ b).toNat ≠ 0) :
    d < distance a b := by
  by_contra hnot
  rw [distance, weight_eq_bitsBelow] at hnot
  exact h (clearLowest_eq_zero (BitVec.isLt _) (not_lt.mp hnot))

/-- Whether every sum of the rows, of at most `room` of them and, unless `taken`, of at least one,
keeps a bit when one is cleared for each row the room is left for. -/
def keepsBit : List ℕ → ℕ → ℕ → Bool → Bool
  | [], room, p, taken => !taken || Nat.blt 0 (clearLowest room p)
  | row :: rows, room, p, taken =>
    keepsBit rows room p taken && match room with
      | 0 => true
      | room + 1 => keepsBit rows room (p ^^^ row) true

/-- The sum of the rows taken. -/
def sumTaken : List ℕ → List Bool → ℕ → ℕ
  | row :: rows, take :: takes, p => sumTaken rows takes (bif take then p ^^^ row else p)
  | _, _, p => p

theorem clearLowest_sumTaken {rows : List ℕ} {room : ℕ} {taken : Bool}
    (h : keepsBit rows room p taken = true) {takes : List Bool} (hlen : takes.length = rows.length)
    (hroom : takes.count true ≤ room) (htaken : taken = true ∨ true ∈ takes) :
    clearLowest (room - takes.count true) (sumTaken rows takes p) ≠ 0 := by
  induction rows generalizing room p taken takes with
  | nil =>
    obtain rfl := length_eq_zero_iff.mp hlen
    obtain rfl : taken = true := htaken.resolve_right nofun
    have hbit : 0 < clearLowest room p := by
      rw [keepsBit, Bool.not_true, Bool.false_or] at h
      exact Nat.blt_eq.mp h
    exact Nat.ne_of_gt hbit
  | cons row rows ih =>
    obtain _ | ⟨take, takes⟩ := takes
    · cases hlen
    have hlen' : takes.length = rows.length := Nat.succ.inj hlen
    cases take with
    | false =>
      have hskip : keepsBit rows room p taken = true := by
        cases room with
        | zero => exact (Bool.and_eq_true _ _ ▸ h).1
        | succ room => exact (Bool.and_eq_true _ _ ▸ h).1
      have hcount : (false :: takes).count true = takes.count true :=
        count_cons_of_ne Bool.false_ne_true
      rw [hcount] at hroom ⊢
      exact ih hskip hlen' hroom (htaken.imp id fun hm => by simpa using hm)
    | true =>
      have hcount : (true :: takes).count true = takes.count true + 1 := count_cons_self
      rw [hcount] at hroom ⊢
      cases room with
      | zero => cases hroom
      | succ room =>
        have htake : keepsBit rows room (p ^^^ row) true = true := (Bool.and_eq_true _ _ ▸ h).2
        rw [Nat.succ_sub_succ]
        exact ih htake hlen' (Nat.le_of_succ_le_succ hroom) (Or.inl rfl)

/-!
# Linear functions of words

Functions of words under which sums go to sums. Shifts, masks, and a constant added
where a bit is set are of this kind, and so is what is composed of them. Such a function
is known from its values at the one-bit words.
-/

variable {l m : ℕ}

/-- Sums go to sums. -/
def IsLinear (f : BitVec m → BitVec n) : Prop := ∀ a b, f (a ^^^ b) = f a ^^^ f b

/-- All bits of a word are below a position. -/
def Below (k : ℕ) (w : BitVec n) : Prop := ∀ i ∈ positions w, i < k

theorem isLinear_id : IsLinear fun w : BitVec n => w := fun _ _ => rfl

namespace IsLinear

variable {f g : BitVec m → BitVec n}

theorem map_zero (hf : IsLinear f) : f 0 = 0 := by
  have h := hf 0 0
  rwa [BitVec.xor_self, BitVec.xor_self] at h

theorem comp {g : BitVec n → BitVec l} (hg : IsLinear g) (hf : IsLinear f) :
    IsLinear fun w => g (f w) := by
  intro a b
  dsimp only
  rw [hf, hg]

theorem iterate {f : BitVec n → BitVec n} (hf : IsLinear f) (k : ℕ) : IsLinear f^[k] := by
  induction k with
  | zero => exact isLinear_id
  | succ k ih =>
    intro a b
    rw [Function.iterate_succ_apply, Function.iterate_succ_apply, Function.iterate_succ_apply,
      hf, ih]

theorem xor (hf : IsLinear f) (hg : IsLinear g) : IsLinear fun w => f w ^^^ g w := by
  intro a b
  dsimp only
  rw [hf, hg]
  ac_rfl

/-- A linear function of a sum of one-bit words is the sum of its values there. -/
theorem map_ofPositions (hf : IsLinear f) (ks : List ℕ) :
    f (ofPositions m ks) = ks.foldr (fun k w => f (1#m <<< k) ^^^ w) 0 := by
  induction ks with
  | nil => exact hf.map_zero
  | cons k ks ih =>
    have hcons : ofPositions m (k :: ks) = (1#m <<< k) ^^^ ofPositions m ks := rfl
    rw [hcons, hf, ih, foldr_cons]

/-- Linear maps that agree on the bits of a word agree on it. -/
theorem eq_of_bits (hf : IsLinear f) (hg : IsLinear g) {w : BitVec m}
    (h : ∀ i ∈ positions w, f (1#m <<< i) = g (1#m <<< i)) : f w = g w := by
  rw [← ofPositions_positions w, hf.map_ofPositions, hg.map_ofPositions]
  refine foldr_ext _ _ _ fun i hi _ => ?_
  rw [h i hi]

/-- Linear maps that agree on the low bits agree on what has no others. -/
theorem eq_below (hf : IsLinear f) (hg : IsLinear g) {k : ℕ}
    (h : ∀ i < k, f (1#m <<< i) = g (1#m <<< i)) {w : BitVec m} (hw : Below k w) : f w = g w :=
  hf.eq_of_bits hg fun i hi => h i (hw i hi)

end IsLinear

theorem isLinear_and (mask : BitVec n) : IsLinear fun w : BitVec n => w &&& mask := by
  intro a b
  ext i
  simp only [BitVec.getElem_and, BitVec.getElem_xor]
  cases a[i] <;> cases b[i] <;> cases mask[i] <;> rfl

theorem xor_and (a b mask : BitVec n) : (a ^^^ b) &&& mask = (a &&& mask) ^^^ (b &&& mask) :=
  isLinear_and mask a b

theorem isLinear_shiftLeft (k : ℕ) : IsLinear fun w : BitVec n => w <<< k := by
  intro a b
  exact BitVec.shiftLeft_xor_distrib a b k

theorem isLinear_ushiftRight (k : ℕ) : IsLinear fun w : BitVec n => w >>> k := by
  intro a b
  exact BitVec.ushiftRight_xor_distrib a b k

theorem isLinear_setWidth : IsLinear (BitVec.setWidth n : BitVec m → BitVec n) := by
  intro a b
  exact BitVec.setWidth_xor

/-- A constant where a bit is set. -/
theorem isLinear_select (i : ℕ) (c : BitVec n) :
    IsLinear fun w : BitVec m => if w.getLsbD i = true then c else 0 := by
  intro a b
  dsimp only
  rw [BitVec.getLsbD_xor]
  cases a.getLsbD i <;> cases b.getLsbD i <;> simp

theorem Below.mono {k' : ℕ} (h : Below k w) (hk : k ≤ k') : Below k' w :=
  fun i hi => (h i hi).trans_le hk

theorem Below.xor {a b : BitVec n} (ha : Below k a) (hb : Below k b) : Below k (a ^^^ b) := by
  intro i hi
  rw [mem_positions, BitVec.getLsbD_xor] at hi
  cases hbit : a.getLsbD i with
  | true => exact ha i (mem_positions.mpr hbit)
  | false =>
    rw [hbit, Bool.false_xor] at hi
    exact hb i (mem_positions.mpr hi)

/-- A mask adds no weight. -/
theorem weight_and_le (w mask : BitVec n) : weight (w &&& mask) ≤ weight w := by
  refine ((nodup_positions _).subperm fun k hk => ?_).length_le
  rw [mem_positions, BitVec.getLsbD_and, Bool.and_eq_true] at hk
  exact mem_positions.mpr hk.1

theorem below_width (w : BitVec n) : Below n w := fun _ hi =>
  BitVec.lt_of_getLsbD (mem_positions.mp hi)

/-- A word is below a position when its number is. -/
theorem below_iff_toNat_lt : Below k w ↔ w.toNat < 2 ^ k := by
  constructor
  · intro h
    refine Nat.lt_pow_two_of_testBit _ fun i hi => ?_
    by_contra hbit
    rw [Bool.not_eq_false, BitVec.testBit_toNat] at hbit
    have := h i (mem_positions.mpr hbit)
    omega
  · intro h i hi
    by_contra hge
    rw [mem_positions, ← BitVec.testBit_toNat,
      Nat.testBit_lt_two_pow (h.trans_le (Nat.pow_le_pow_right (by decide) (not_lt.mp hge)))] at hi
    cases hi

instance (k : ℕ) (w : BitVec n) : Decidable (Below k w) :=
  inferInstanceAs (Decidable (∀ i ∈ positions w, i < k))

end DsdNeo.Bits
