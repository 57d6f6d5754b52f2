import Mathlib.Algebra.BigOperators.Fin
import Mathlib.Data.Matrix.Mul
import Mathlib.Data.Nat.Choose.Sum
import Mathlib.Algebra.Field.ZMod
import DsdNeo.Core.Bits.Weight

/-!
# Parity checks

Words of bits under a matrix of checks, and the number the answers of the checks
are written as. A word that differs from another in one place changes the answers
by the column of that place.
-/

namespace DsdNeo.ParityCheck

open Matrix

variable {n r : ℕ}

theorem bit_cases (x : ZMod 2) : x = 0 ∨ x = 1 := by
  revert x
  decide

/-- The answers of the checks as one number, the first the highest bit. -/
def number (v : Fin r → ZMod 2) : ℕ := ∑ k : Fin r, (v k).val <<< (r - 1 - k.val)

@[simp] theorem number_zero : number (0 : Fin r → ZMod 2) = 0 := by simp [number]

/-- The answers that are all zero are the only ones written as zero. -/
theorem number_eq_zero {v : Fin r → ZMod 2} : number v = 0 ↔ v = 0 := by
  constructor
  · intro h
    ext k
    have hk := (Finset.sum_eq_zero_iff.mp h) k (Finset.mem_univ k)
    rw [Nat.shiftLeft_eq] at hk
    rcases Nat.mul_eq_zero.mp hk with hval | hpow
    · exact (ZMod.val_eq_zero _).mp hval
    · exact absurd hpow (Nat.two_pow_pos _).ne'
  · rintro rfl
    exact number_zero

theorem number_succ (v : Fin (r + 1) → ZMod 2) :
    number v = (v 0).val * 2 ^ r + number fun k => v k.succ := by
  rw [number, Fin.sum_univ_succ, Nat.shiftLeft_eq, number]
  congr 1
  refine Finset.sum_congr rfl fun k _ => ?_
  congr 1
  rw [Fin.val_succ]
  omega

/-- The number of a syndrome has as many bits as the syndrome. -/
theorem number_lt (v : Fin r → ZMod 2) : number v < 2 ^ r := by
  induction r with
  | zero => simp [number]
  | succ r ih =>
    have htail := ih fun k => v k.succ
    have hhead : (v 0).val * 2 ^ r ≤ 1 * 2 ^ r :=
      Nat.mul_le_mul_right _ (Nat.le_of_lt_succ (ZMod.val_lt (v 0)))
    rw [number_succ, pow_succ]
    omega

/-- A syndrome is known by its number. -/
theorem number_injective {v w : Fin r → ZMod 2} (h : number v = number w) : v = w := by
  induction r with
  | zero => exact Subsingleton.elim v w
  | succ r ih =>
    rw [number_succ, number_succ] at h
    have hv := number_lt fun k => v k.succ
    have hw := number_lt fun k => w k.succ
    have hhead : (v 0).val = (w 0).val := by
      have hdiv := congrArg (· / 2 ^ r) h
      simpa only [Nat.add_comm ((_ : ℕ) * _), Nat.add_mul_div_right _ _ (Nat.two_pow_pos r),
        Nat.div_eq_of_lt hv, Nat.div_eq_of_lt hw, Nat.zero_add] using hdiv
    have htail : (fun k : Fin r => v k.succ) = fun k : Fin r => w k.succ := by
      rw [hhead] at h
      exact ih (by omega)
    ext k
    refine Fin.cases ?_ (fun k => ?_) k
    · exact ZMod.val_injective 2 hhead
    · exact congrFun htail k

theorem testBit_number (v : Fin r → ZMod 2) {k : ℕ} (hk : k < r) :
    (number v).testBit (r - 1 - k) = decide (v ⟨k, hk⟩ = 1) := by
  induction r generalizing k with
  | zero => omega
  | succ r ih =>
    have htail := number_lt fun k => v k.succ
    rw [number_succ, Nat.mul_comm, Nat.testBit_two_pow_mul_add _ htail]
    cases k with
    | zero =>
      rw [if_neg (by omega)]
      rcases bit_cases (v 0) with h | h
      · simp [h]
      · simp [h, ZMod.val_one]
    | succ k =>
      have hk' : k < r := by omega
      have hpos : r + 1 - 1 - (k + 1) = r - 1 - k := by omega
      rw [if_pos (by omega), hpos, ih (fun k => v k.succ) hk']
      rfl

/-- The number of a sum of syndromes. -/
theorem number_add (v w : Fin r → ZMod 2) : number (v + w) = number v ^^^ number w := by
  refine Nat.eq_of_testBit_eq fun i => ?_
  rw [Nat.testBit_xor]
  by_cases hi : i < r
  · have hpos : i = r - 1 - (r - 1 - i) := by omega
    rw [hpos, testBit_number _ (by omega), testBit_number _ (by omega), testBit_number _ (by omega),
      Pi.add_apply]
    generalize v _ = a
    generalize w _ = b
    revert a b
    decide
  · have hlarge : ∀ u : Fin r → ZMod 2, (number u).testBit i = false := fun u =>
      Nat.testBit_lt_two_pow
        ((number_lt u).trans_le (Nat.pow_le_pow_right (by decide) (not_lt.mp hi)))
    rw [hlarge, hlarge, hlarge]
    rfl

/-- Two words that agree outside one place have answers that differ by its column. -/
theorem mulVec_of_agree {R : Type*} [CommRing R] (H : Matrix (Fin r) (Fin n) R) {v w : Fin n → R}
    {p : Fin n} (h : ∀ k, k ≠ p → v k = w k) : H *ᵥ v = H *ᵥ w + (v p - w p) • H.col p := by
  have hv : v = w + (v p - w p) • Pi.single p 1 := by
    ext k
    rcases eq_or_ne k p with rfl | hk
    · simp
    · simp [h k hk, hk]
  conv_lhs => rw [hv]
  rw [mulVec_add, mulVec_smul, mulVec_single_one]

end DsdNeo.ParityCheck

/-!
# Patterns of few errors

A linear function of words, the syndrome, under which no word of few bits is zero:
patterns of half as many bits are told apart by it. Where there are as many of these
patterns as values, every value is the syndrome of one, and every word is within that
many bits of a word of syndrome zero.
-/

namespace DsdNeo.Bits

variable {n r m t : ℕ} {σ : BitVec n → BitVec r}

/-- No word of at most `d` bits below `m` has syndrome zero but the zero word. -/
def Detects (σ : BitVec n → BitVec r) (m d : ℕ) : Prop :=
  ∀ w, Below m w → weight w ≤ d → σ w = 0 → w = 0

/-- Patterns of few bits are known by their syndromes. -/
theorem Detects.pattern_unique (hσ : IsLinear σ) (h : Detects σ m (2 * t)) {a b : BitVec n}
    (ha : Below m a) (hb : Below m b) (hwa : weight a ≤ t) (hwb : weight b ≤ t)
    (hab : σ a = σ b) : a = b := by
  have hweight : weight (a ^^^ b) ≤ 2 * t := (weight_xor_le a b).trans (by omega)
  have hzero : σ (a ^^^ b) = 0 := by
    rw [hσ, hab]
    exact BitVec.xor_self
  exact BitVec.xor_eq_zero_iff.mp (h _ (ha.xor hb) hweight hzero)

/-- The sets of at most `t` positions below `m`. -/
def fewPositions (m t : ℕ) : Finset (Finset ℕ) :=
  (Finset.range (t + 1)).biUnion fun k => (Finset.range m).powersetCard k

variable {s : Finset ℕ}

theorem mem_fewPositions : s ∈ fewPositions m t ↔ s ⊆ Finset.range m ∧ s.card ≤ t := by
  simp [fewPositions, Finset.mem_powersetCard]
  tauto

theorem card_fewPositions (m t : ℕ) :
    (fewPositions m t).card = ∑ k ∈ Finset.range (t + 1), m.choose k := by
  rw [fewPositions, Finset.card_biUnion]
  · refine Finset.sum_congr rfl fun k _ => ?_
    rw [Finset.card_powersetCard, Finset.card_range]
  · intro k _ k' _ hne
    exact Finset.pairwise_disjoint_powersetCard (Finset.range m) hne

/-- The word of a set of positions. -/
noncomputable def wordOf (n : ℕ) (s : Finset ℕ) : BitVec n := ofPositions n s.toList

theorem mem_positions_wordOf {i : ℕ} (hi : i < n) : i ∈ positions (wordOf n s) ↔ i ∈ s := by
  rw [mem_positions, wordOf, getLsbD_ofPositions s.nodup_toList hi, decide_eq_true_iff,
    Finset.mem_toList]

theorem below_wordOf (hs : s ⊆ Finset.range m) : Below m (wordOf n s) := by
  intro i hi
  have hin := below_width _ i hi
  exact Finset.mem_range.mp (hs ((mem_positions_wordOf hin).mp hi))

theorem weight_wordOf (hm : m ≤ n) (hs : s ⊆ Finset.range m) : weight (wordOf n s) = s.card := by
  rw [wordOf, weight_ofPositions s.nodup_toList, Finset.length_toList]
  intro i hi
  exact (Finset.mem_range.mp (hs (Finset.mem_toList.mp hi))).trans_le hm

theorem wordOf_injOn (hm : m ≤ n) : Set.InjOn (wordOf n) {s | s ⊆ Finset.range m} := by
  intro s hs s' hs' heq
  ext i
  by_cases hi : i < n
  · rw [← mem_positions_wordOf hi, ← mem_positions_wordOf hi, heq]
  · constructor
    · intro hmem
      exact absurd ((Finset.mem_range.mp (hs hmem)).trans_le hm) hi
    · intro hmem
      exact absurd ((Finset.mem_range.mp (hs' hmem)).trans_le hm) hi

/-- As many patterns as syndromes: every syndrome is that of a pattern. -/
theorem Detects.exists_pattern (hσ : IsLinear σ) (h : Detects σ m (2 * t)) (hm : m ≤ n)
    (hcard : 2 ^ r ≤ ∑ k ∈ Finset.range (t + 1), m.choose k) (y : BitVec r) :
    ∃ w, Below m w ∧ weight w ≤ t ∧ σ w = y := by
  have hinj : Set.InjOn (fun s => (σ (wordOf n s)).toFin) (fewPositions m t : Set (Finset ℕ)) := by
    intro s hs s' hs' heq
    obtain ⟨hsub, hle⟩ := mem_fewPositions.mp hs
    obtain ⟨hsub', hle'⟩ := mem_fewPositions.mp hs'
    refine wordOf_injOn hm hsub hsub' (h.pattern_unique hσ (below_wordOf hsub) (below_wordOf hsub')
      ?_ ?_ (BitVec.toFin_inj.mp heq))
    · rwa [weight_wordOf hm hsub]
    · rwa [weight_wordOf hm hsub']
  have hall : (fewPositions m t).image (fun s => (σ (wordOf n s)).toFin) = Finset.univ := by
    refine Finset.eq_univ_of_card _ (le_antisymm (Finset.card_le_univ _) ?_)
    rw [Finset.card_image_of_injOn hinj, card_fewPositions, Fintype.card_fin]
    exact hcard
  obtain ⟨s, hs, hy⟩ := Finset.mem_image.mp (hall ▸ Finset.mem_univ y.toFin)
  obtain ⟨hsub, hle⟩ := mem_fewPositions.mp hs
  refine ⟨wordOf n s, below_wordOf hsub, ?_, BitVec.toFin_inj.mp hy⟩
  rwa [weight_wordOf hm hsub]

theorem sumTaken_rows (hσ : IsLinear σ) (w : BitVec n) (l : List ℕ) (p : BitVec r) :
    sumTaken (l.map fun i => (σ (1#n <<< i)).toNat) (l.map w.getLsbD) p.toNat =
      (p ^^^ σ (ofPositions n (l.filter w.getLsbD))).toNat := by
  induction l generalizing p with
  | nil =>
    have hzero : p ^^^ σ (ofPositions n []) = p := by
      rw [ofPositions, List.foldr_nil, hσ.map_zero]
      exact BitVec.xor_zero
    rw [List.filter_nil, hzero]
    rfl
  | cons i l ih =>
    rw [List.map_cons, List.map_cons, sumTaken]
    cases hbit : w.getLsbD i with
    | false => rw [cond_false, ih, List.filter_cons_of_neg (by simp [hbit])]
    | true =>
      have hcons : ofPositions n (i :: l.filter w.getLsbD) =
          (1#n <<< i) ^^^ ofPositions n (l.filter w.getLsbD) := rfl
      rw [cond_true, ← BitVec.toNat_xor, ih, List.filter_cons_of_pos hbit, hcons, hσ,
        BitVec.xor_assoc]

theorem count_getLsbD (w : BitVec n) (l : List ℕ) :
    (l.map w.getLsbD).count true = (l.filter w.getLsbD).length := by
  rw [List.count, List.countP_map, List.countP_eq_length_filter]
  congr 2
  ext i
  simp

theorem ofPositions_append (l l' : List ℕ) :
    ofPositions n (l ++ l') = ofPositions n l ^^^ ofPositions n l' := by
  induction l with
  | nil => exact BitVec.zero_xor.symm
  | cons k l ih =>
    have hcons : ∀ l, ofPositions n (k :: l) = (1#n <<< k) ^^^ ofPositions n l := fun _ => rfl
    rw [List.cons_append, hcons, ih, hcons, BitVec.xor_assoc]

theorem range_split {j k : ℕ} (h : j ≤ k) :
    List.range k = List.range j ++ List.range' j (k - j) := by
  have happend := List.range'_append_1 (s := 0) (m := j) (n := k - j)
  rw [Nat.zero_add, Nat.add_sub_cancel' h] at happend
  rw [List.range_eq_range', List.range_eq_range', happend]

theorem positions_split {k : ℕ} (hkm : k ≤ m) (hm : m ≤ n) {w : BitVec n} (hw : Below m w) :
    positions w = (List.range k).filter w.getLsbD ++ (List.range' k (m - k)).filter w.getLsbD := by
  have htop : (List.range' m (n - m)).filter w.getLsbD = [] := by
    refine List.filter_eq_nil_iff.mpr fun i hi hbit => ?_
    have hlt := hw i (mem_positions.mpr hbit)
    have := (List.mem_range'_1.mp hi).1
    omega
  rw [positions, range_split hm, range_split hkm, List.filter_append, List.filter_append, htop,
    List.append_nil]

theorem Detects.of_rows {σ : BitVec n → BitVec n} (hσ : IsLinear σ) {k d : ℕ} (hkm : k ≤ m)
    (hm : m ≤ n) (hchecks : ∀ i, k ≤ i → i < m → σ (1#n <<< i) = 1#n <<< i)
    (hrows : keepsBit ((List.range k).map fun i => (σ (1#n <<< i)).toNat) d 0 false = true) :
    Detects σ m d := by
  intro w hw hweight hzero
  have hsplit := positions_split hkm hm hw
  have hlen := congrArg List.length hsplit
  have hword : w = ofPositions n ((List.range k).filter w.getLsbD) ^^^
      ofPositions n ((List.range' k (m - k)).filter w.getLsbD) := by
    rw [← ofPositions_append, ← hsplit, ofPositions_positions]
  have hhigh : σ (ofPositions n ((List.range' k (m - k)).filter w.getLsbD)) =
      ofPositions n ((List.range' k (m - k)).filter w.getLsbD) := by
    rw [hσ.map_ofPositions]
    refine List.foldr_ext _ _ _ fun i hi _ => ?_
    have hi' := List.mem_range'_1.mp (List.mem_of_mem_filter hi)
    rw [hchecks i hi'.1 (by omega)]
  have hlow : σ (ofPositions n ((List.range k).filter w.getLsbD)) =
      ofPositions n ((List.range' k (m - k)).filter w.getLsbD) := by
    have hsum := hzero
    rw [hword, hσ, hhigh] at hsum
    exact BitVec.xor_eq_zero_iff.mp hsum
  have hhighWeight : weight (ofPositions n ((List.range' k (m - k)).filter w.getLsbD)) =
      ((List.range' k (m - k)).filter w.getLsbD).length := by
    have hnodup : (List.range' k (m - k)).Nodup := List.nodup_range'
    refine weight_ofPositions (hnodup.filter _) fun i hi => ?_
    exact BitVec.lt_of_getLsbD (List.of_mem_filter hi)
  rw [weight, hlen, List.length_append] at hweight
  have hnone : true ∉ (List.range k).map w.getLsbD := by
    intro hmem
    have hlength : ((List.range k).map w.getLsbD).length =
        ((List.range k).map fun i => (σ (1#n <<< i)).toNat).length := by simp
    have hkeeps := clearLowest_sumTaken hrows hlength (by rw [count_getLsbD]; omega) (Or.inr hmem)
    have hsum := sumTaken_rows hσ w (List.range k) 0#n
    rw [hlow, BitVec.zero_xor] at hsum
    rw [count_getLsbD, show (0 : ℕ) = (0#n).toNat from rfl, hsum] at hkeeps
    refine hkeeps (clearLowest_eq_zero (BitVec.isLt _) ?_)
    rw [← weight_eq_bitsBelow, hhighWeight]
    omega
  have hempty : (List.range k).filter w.getLsbD = [] := by
    refine List.filter_eq_nil_iff.mpr fun i hi hbit => hnone ?_
    exact List.mem_map.mpr ⟨i, hi, hbit⟩
  rw [hempty, ofPositions, List.foldr_nil, hσ.map_zero] at hlow
  rw [hword, hempty, ← hlow]
  exact BitVec.xor_self

end DsdNeo.Bits
