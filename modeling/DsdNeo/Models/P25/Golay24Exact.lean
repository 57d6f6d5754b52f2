import DsdNeo.Models.P25.Golay24

/-!
# What the Golay correction takes away

The code has least weight seven and is perfect: every word is a code word and up to three errors,
and a correction takes exactly these away. Where they fit into the eleven checks after some turns,
their number is counted.
-/

namespace DsdNeo.P25.Golay24

open Bits List BitVec

theorem syndrome_checkBit : ∀ i < 23, 12 ≤ i → syndrome (1#32 <<< i) = 1#32 <<< i :=
  syndrome_bits.2.2.1

/-- No word of one to six bits is a code word. -/
theorem syndrome_detects : Detects syndrome 23 6 :=
  Detects.of_rows syndrome_linear (k := 12) (by decide) (by decide)
    (fun i hle hlt => syndrome_checkBit i hlt hle) syndrome_bits.2.2.2.2.2

/-- The eleven checks of a syndrome. -/
def checks (w : BitVec 32) : BitVec 11 := (syndrome w >>> 12).setWidth 11

theorem checks_linear : IsLinear checks :=
  isLinear_setWidth.comp ((isLinear_ushiftRight 12).comp syndrome_linear)

variable {w v : BitVec 32}

theorem syndrome_eq_checks (h : Below 23 w) : syndrome w = (checks w).setWidth 32 <<< 12 :=
  syndrome_linear.eq_below
    ((isLinear_shiftLeft 12).comp (isLinear_setWidth.comp checks_linear)) (k := 23)
    syndrome_bits.2.2.2.1 h

variable {k i : ℕ}

theorem le_of_mem_syndrome (h : Below 23 w) (hk : k ∈ positions (syndrome w)) : 12 ≤ k := by
  by_contra hlt
  rw [mem_positions, syndrome_eq_checks h, getLsbD_shiftLeft, decide_eq_true (not_le.mp hlt)] at hk
  simp at hk

theorem checks_detects : Detects checks 23 6 := by
  intro w hw hweight hzero
  refine syndrome_detects w hw hweight ?_
  rw [syndrome_eq_checks hw, hzero]
  decide

/-- An error of up to three bits. -/
structure IsPattern (v : BitVec 32) : Prop where
  below : Below 23 v
  light : weight v ≤ 3

theorem IsPattern.unique {v' : BitVec 32} (h : IsPattern v) (h' : IsPattern v')
    (hs : syndrome v = syndrome v') : v = v' :=
  syndrome_detects.pattern_unique (t := 3) syndrome_linear h.below h'.below h.light h'.light hs

/-- Every syndrome is that of an error of up to three bits. -/
theorem exists_pattern (hw : Below 23 w) : ∃ v, IsPattern v ∧ syndrome v = syndrome w := by
  obtain ⟨v, hbelow, hlight, heq⟩ := checks_detects.exists_pattern (t := 3) checks_linear
    (by decide) (by decide) (checks w)
  refine ⟨v, ⟨hbelow, hlight⟩, ?_⟩
  rw [syndrome_eq_checks hbelow, syndrome_eq_checks hw, heq]

theorem mem_positions_rotateLeft (h : Below 23 w) :
    k ∈ positions (rotateLeft w 1) ↔ ∃ j ∈ positions w, (j + 1) % 23 = k := by
  have hmask : (0x7fffff : BitVec 32).toNat = 2 ^ 23 - 1 := by decide
  have hone : (1 : BitVec 32) = BitVec.twoPow 32 0 := by decide
  have hbit : ∀ k < 23, (rotateLeft w 1).getLsbD k =
      if k = 0 then w.getLsbD 22 else w.getLsbD (k - 1) := by
    intro k hk
    rw [rotateLeft, Function.iterate_one, turnLeft_eq, getLsbD_and, getLsbD_xor,
      getLsbD_shiftLeft, ← testBit_toNat (0x7fffff : BitVec 32), hmask,
      Nat.testBit_two_pow_sub_one, decide_eq_true hk, Bool.and_true]
    have hk32 : k < 32 := by omega
    rcases Nat.eq_zero_or_pos k with rfl | hpos
    · cases w.getLsbD 22 <;> rfl
    · have hne : k ≠ 0 := hpos.ne'
      have hclear : (if w.getLsbD 22 = true then (1 : BitVec 32) else 0).getLsbD k = false := by
        split
        · rw [hone, getLsbD_twoPow, decide_eq_false hne.symm, Bool.and_false]
        · exact getLsbD_zero
      rw [hclear, if_neg hne, Bool.xor_false, decide_eq_true hk32, decide_eq_false (by omega)]
      rfl
  constructor
  · intro hk
    have hlt := below_mask _ k hk
    rw [mem_positions, hbit k hlt] at hk
    by_cases hzero : k = 0
    · rw [if_pos hzero] at hk
      exact ⟨22, mem_positions.mpr hk, hzero.symm⟩
    · rw [if_neg hzero] at hk
      refine ⟨k - 1, mem_positions.mpr hk, ?_⟩
      rw [Nat.sub_add_cancel (Nat.pos_of_ne_zero hzero), Nat.mod_eq_of_lt hlt]
  · rintro ⟨j, hj, rfl⟩
    have hlt := h j hj
    rw [mem_positions] at hj
    rw [mem_positions, hbit _ (Nat.mod_lt _ (by decide))]
    rcases Nat.lt_or_ge (j + 1) 23 with hnext | hnext
    · rw [Nat.mod_eq_of_lt hnext, if_neg (Nat.succ_ne_zero j), Nat.add_sub_cancel]
      exact hj
    · obtain rfl : j = 22 := by omega
      exact hj

theorem mem_positions_turn (h : Below 23 w) :
    k ∈ positions (turn i w) ↔ ∃ j ∈ positions w, (j + i) % 23 = k := by
  induction i generalizing k with
  | zero =>
    constructor
    · intro hk
      exact ⟨k, hk, Nat.mod_eq_of_lt (h k hk)⟩
    · rintro ⟨j, hj, rfl⟩
      rw [Nat.add_zero, Nat.mod_eq_of_lt (h j hj)]
      exact hj
  | succ i ih =>
    rw [turn_succ, mem_positions_rotateLeft (below_turn h i)]
    constructor
    · rintro ⟨j, hj, rfl⟩
      obtain ⟨l, hl, rfl⟩ := ih.mp hj
      exact ⟨l, hl, by omega⟩
    · rintro ⟨l, hl, rfl⟩
      exact ⟨(l + i) % 23, ih.mpr ⟨l, hl, rfl⟩, by omega⟩

theorem weight_turn (h : Below 23 w) (i : ℕ) : weight (turn i w) = weight w := by
  have hnodup : ((positions w).map fun j => (j + i) % 23).Nodup := by
    refine (nodup_positions w).map_on fun a ha b hb heq => ?_
    have := h a ha
    have := h b hb
    omega
  have hperm : (positions (turn i w)).Perm ((positions w).map fun j => (j + i) % 23) := by
    refine (perm_ext_iff_of_nodup (nodup_positions _) hnodup).mpr fun k => ?_
    rw [mem_positions_turn h, mem_map]
  rw [weight, hperm.length_eq, length_map, weight]

/-- The bits of a word are among the checks after some turns. -/
def Fits (v : BitVec 32) : Prop := ∃ i < 23, ∀ k ∈ positions v, 12 ≤ (k + i) % 23

instance (v : BitVec 32) : Decidable (Fits v) :=
  inferInstanceAs (Decidable (∃ i < 23, ∀ k ∈ positions v, 12 ≤ (k + i) % 23))

/-- A word among the checks is its own syndrome. -/
theorem syndrome_turn_eq (h : Below 23 v) (hfits : ∀ k ∈ positions v, 12 ≤ (k + i) % 23) :
    syndrome (turn i v) = turn i v := by
  refine syndrome_linear.eq_of_bits isLinear_id fun k hk => ?_
  refine syndrome_checkBit k (below_turn h i k hk) ?_
  obtain ⟨j, hj, rfl⟩ := (mem_positions_turn h).mp hk
  exact hfits j hj

theorem fits_of_short (h : Below 23 v) (hshort : weight v + weight (syndrome (turn i v)) ≤ 6) :
    syndrome (turn i v) = turn i v ∧ ∀ k ∈ positions v, 12 ≤ (k + i) % 23 := by
  have hidem : syndrome (syndrome (turn i v)) = syndrome (turn i v) := by
    exact (syndrome_linear.comp syndrome_linear).eq_below syndrome_linear (k := 23)
      syndrome_bits.2.2.2.2.1 (below_turn h i)
  have hzero : syndrome (turn i v ^^^ syndrome (turn i v)) = 0 := by
    rw [syndrome_linear, hidem]
    exact BitVec.xor_self
  have hlight : weight (turn i v ^^^ syndrome (turn i v)) ≤ 6 := by
    refine (weight_xor_le _ _).trans ?_
    rw [weight_turn h]
    exact hshort
  have heq := BitVec.xor_eq_zero_iff.mp
    (syndrome_detects _ ((below_turn h i).xor (below_syndrome _)) hlight hzero)
  refine ⟨heq.symm, fun k hk => ?_⟩
  have hmem : (k + i) % 23 ∈ positions (syndrome (turn i v)) := by
    rw [← heq]
    exact (mem_positions_turn h).mpr ⟨k, hk, rfl⟩
  exact le_of_mem_syndrome (below_turn h i) hmem

/-- Where the turns of a word stop, and with what. -/
theorem shortSyndrome_cases (w left i : ℕ) (v : BitVec 32) (errs : ℕ) :
    (∃ i', i ≤ i' ∧ i' < i + left ∧ weight (syndrome (turn i' v)) ≤ w ∧
      shortSyndrome w left i (turn i v) (syndrome (turn i v)) errs =
        (some (rotateRight (turn i' v ^^^ syndrome (turn i' v)) i'),
          weight (syndrome (turn i' v)))) ∨
      ((∀ i', i ≤ i' → i' < i + left → w < weight (syndrome (turn i' v))) ∧
        (shortSyndrome w left i (turn i v) (syndrome (turn i v)) errs).1 = none) := by
  induction left generalizing i errs with
  | zero => exact Or.inr ⟨fun i' hle hlt => by omega, rfl⟩
  | succ left ih =>
    rw [shortSyndrome]
    dsimp only
    rw [and_mask (below_syndrome _), ← turn_succ]
    by_cases hshort : weight (syndrome (turn i v)) ≤ w
    · rw [if_pos hshort]
      exact Or.inl ⟨i, le_rfl, by omega, hshort, rfl⟩
    · rw [if_neg hshort]
      rcases ih (i + 1) (weight (syndrome (turn i v))) with ⟨i', hle, hlt, hw, heq⟩ | ⟨hall, heq⟩
      · exact Or.inl ⟨i', by omega, by omega, hw, heq⟩
      · refine Or.inr ⟨fun i' hle hlt => ?_, heq⟩
        rcases Nat.eq_or_lt_of_le hle with rfl | hnext
        · exact not_le.mp hshort
        · exact hall i' hnext (by omega)

theorem shortSyndrome_light {w : ℕ} (h : Below 23 v) (hw : weight v + w ≤ 6) (errs : ℕ) :
    (Fits v ∧ shortSyndrome w 23 0 v (syndrome v) errs = (some 0, weight v)) ∨
      ((shortSyndrome w 23 0 v (syndrome v) errs).1 = none ∧ (Fits v → w < weight v)) := by
  rcases shortSyndrome_cases w 23 0 v errs with ⟨i, -, hlt, hshort, heq⟩ | ⟨hall, heq⟩
  · obtain ⟨hself, hfits⟩ := fits_of_short h (i := i) (by omega)
    refine Or.inl ⟨⟨i, by omega, hfits⟩, ?_⟩
    rw [hself, BitVec.xor_self, weight_turn h] at heq
    exact heq.trans (congrArg (fun r => (some r, weight v)) (rotateRight_zero i))
  · refine Or.inr ⟨heq, ?_⟩
    rintro ⟨i, hlt, hfits⟩
    have hlong := hall i (Nat.zero_le i) (by omega)
    rwa [syndrome_turn_eq h hfits, weight_turn h] at hlong

/-- A word whose bits are among those of one that fits does so too. -/
theorem Fits.mono {v' : BitVec 32} (h : Fits v') (hsub : ∀ k ∈ positions v, k ∈ positions v') :
    Fits v := by
  obtain ⟨i, hi, hfits⟩ := h
  exact ⟨i, hi, fun k hk => hfits k (hsub k hk)⟩

theorem mem_positions_flip {j : ℕ} (hk : k < 23) :
    j ∈ positions (v ^^^ (1#32 <<< k)) ↔ (j ∈ positions v ∧ j ≠ k) ∨ (j = k ∧ k ∉ positions v) := by
  by_cases hj : j < 32
  · rw [mem_positions, mem_positions, mem_positions, getLsbD_xor, getLsbD_oneBit hj]
    by_cases hjk : j = k
    · subst hjk
      cases v.getLsbD j <;> simp
    · cases v.getLsbD j <;> simp [hjk]
  · constructor
    · intro hmem
      exact absurd (below_width _ j hmem) hj
    · rintro (⟨hmem, -⟩ | ⟨rfl, -⟩)
      · exact absurd (below_width _ j hmem) hj
      · omega

/-- Flipping a bit that is set leaves one less. -/
theorem weight_flip (hk : k < 23) (hmem : k ∈ positions v) :
    weight (v ^^^ (1#32 <<< k)) + 1 = weight v := by
  have hnodup : (k :: positions (v ^^^ (1#32 <<< k))).Nodup := by
    refine nodup_cons.mpr ⟨fun h => ?_, nodup_positions _⟩
    rcases (mem_positions_flip hk).mp h with ⟨-, hne⟩ | ⟨-, hnot⟩
    · exact hne rfl
    · exact hnot hmem
  have hperm : (k :: positions (v ^^^ (1#32 <<< k))).Perm (positions v) := by
    refine (perm_ext_iff_of_nodup hnodup (nodup_positions v)).mpr fun j => ?_
    rw [mem_cons, mem_positions_flip hk]
    constructor
    · rintro (rfl | ⟨hj, -⟩ | ⟨rfl, -⟩)
      · exact hmem
      · exact hj
      · exact hmem
    · intro hj
      by_cases hjk : j = k
      · exact Or.inl hjk
      · exact Or.inr (Or.inl ⟨hj, hjk⟩)
  rw [weight, weight, ← hperm.length_eq, length_cons]

theorem fits_one {a : ℕ} (ha : a < 23) : ∃ i < 23, ∀ k ∈ [a], 12 ≤ (k + i) % 23 := by
  refine ⟨(35 - a) % 23, Nat.mod_lt _ (by decide), fun k hk => ?_⟩
  rw [mem_singleton.mp hk]
  omega

/-- Two bits fit unless they are half the word apart. -/
theorem fits_two : ∀ a < 23, ∀ b < 23, a < b → (b - a ≤ 10 ∨ 13 ≤ b - a) →
    ∃ i < 23, ∀ k ∈ [a, b], 12 ≤ (k + i) % 23 := by
  decide

theorem fits_of_subset {l : List ℕ} (hl : ∃ i < 23, ∀ k ∈ l, 12 ≤ (k + i) % 23)
    (hsub : ∀ j ∈ positions v, j ∈ l) : Fits v := by
  obtain ⟨i, hi, hfits⟩ := hl
  exact ⟨i, hi, fun k hk => hfits k (hsub k hk)⟩

theorem fits_light (h : Below 23 v) (hlight : weight v ≤ 1) : Fits v := by
  have hbelow := h
  rw [weight] at hlight
  rcases hps : positions v with _ | ⟨a, _ | _⟩
  · exact fits_of_subset (fits_one (show 0 < 23 by decide)) (by simp [hps])
  · exact fits_of_subset (fits_one (hbelow a (by simp [hps]))) (by simp [hps])
  · simp only [hps, length_cons] at hlight
    omega

theorem exists_trial (h : IsPattern v) (hnot : ¬ Fits v) :
    ∃ k ∈ positions v, Fits (v ^^^ (1#32 <<< k)) := by
  have hsorted := pairwise_positions v
  have hbelow := h.below
  have hlight : (positions v).length ≤ 3 := h.light
  have hflip : ∀ k ∈ positions v, ∀ l : List ℕ, (∀ j ∈ positions v, j = k ∨ j ∈ l) →
      ∀ j ∈ positions (v ^^^ (1#32 <<< k)), j ∈ l := by
    intro k hk l hl j hj
    rcases (mem_positions_flip (hbelow k hk)).mp hj with ⟨hmem, hne⟩ | ⟨-, hno⟩
    · exact (hl j hmem).resolve_left hne
    · exact absurd hk hno
  match hps : positions v with
  | [] => exact absurd (fits_light h.below (by rw [weight, hps]; decide)) hnot
  | [_] => exact absurd (fits_light h.below (by rw [weight, hps]; exact le_rfl)) hnot
  | [a, b] =>
    have hb : b < 23 := hbelow b (by simp [hps])
    have hmem : a ∈ positions v := by simp [hps]
    exact ⟨a, by simp, fits_of_subset (fits_one hb) (hflip a hmem [b] (by simp [hps]))⟩
  | [a, b, c] =>
    have ha : a ∈ positions v := by simp [hps]
    have hb : b ∈ positions v := by simp [hps]
    have hc : c ∈ positions v := by simp [hps]
    have ha' := hbelow a ha
    have hb' := hbelow b hb
    have hc' := hbelow c hc
    rw [hps] at hsorted
    obtain ⟨⟨hab, hac⟩, hbc⟩ : (a < b ∧ a < c) ∧ b < c := by simpa using hsorted
    -- three bits cannot be half the word apart from one another
    have hgap : (c - b ≤ 10 ∨ 13 ≤ c - b) ∨ (b - a ≤ 10 ∨ 13 ≤ b - a) ∨ 13 ≤ c - a := by omega
    rcases hgap with hgap | hgap | hgap
    · exact ⟨a, by simp, fits_of_subset (fits_two b hb' c hc' hbc hgap)
        (hflip a ha [b, c] (by simp [hps]))⟩
    · exact ⟨c, by simp, fits_of_subset (fits_two a ha' b hb' hab hgap)
        (hflip c hc [a, b] (by simp [hps]))⟩
    · exact ⟨b, by simp, fits_of_subset (fits_two a ha' c hc' hac (Or.inr hgap))
        (hflip b hb [a, c] (by simp [hps]))⟩
  | _ :: _ :: _ :: _ :: _ =>
    simp only [hps, length_cons] at hlight
    omega

/-- The passes over trial bits up to one that makes an error fit. -/
theorem correctFrom_pattern {v : BitVec 32} (h : IsPattern v) (hnot : ¬ Fits v) {k₀ : ℕ}
    (hmem : k₀ ∈ positions v) (hfits : Fits (v ^^^ (1#32 <<< k₀))) {k : ℕ} (hk : k ≤ k₀)
    (cw : BitVec 32) (errs detected : ℕ) :
    (correctFrom v (23 - k) k cw (maskBefore k) errs detected).cw = 0 ∧
      (correctFrom v (23 - k) k cw (maskBefore k) errs detected).errs + 1 = weight v := by
  have hlt : k < 23 := hk.trans_lt (h.below k₀ hmem)
  have hbit : weight (1#32 <<< k) = 1 := by
    have hone : 1#32 <<< k = ofPositions 32 [k] := xor_zero.symm
    rw [hone, weight_ofPositions (nodup_singleton k) fun j hj => by
      rw [mem_singleton.mp hj]; omega]
    rfl
  have hbelow := h.below.xor (below_oneBit hlt)
  have hweight := weight_xor_le v (1#32 <<< k)
  have hlight := h.light
  have hnonzero : syndrome (v ^^^ (1#32 <<< k)) ≠ 0 := by
    intro hzero
    have heq := BitVec.xor_eq_zero_iff.mp (syndrome_detects _ hbelow (by omega) hzero)
    exact hnot (fits_light h.below (by rw [heq, hbit]))
  rw [correctFrom_trial v cw hlt, if_pos hnonzero]
  rcases shortSyndrome_light (w := 2) hbelow (by omega) errs with ⟨hfit, heq⟩ | ⟨hnone, hlong⟩
  · have hset : k ∈ positions v := by
      by_contra hclear
      refine hnot (hfit.mono fun j hj => (mem_positions_flip hlt).mpr (Or.inl ⟨hj, ?_⟩))
      rintro rfl
      exact hclear hj
    rw [heq]
    exact ⟨rfl, weight_flip hlt hset⟩
  · have hne : k ≠ k₀ := by
      rintro rfl
      have hone := weight_flip hlt hmem
      have := hlong hfits
      omega
    generalize shortSyndrome 2 23 0 (v ^^^ (1#32 <<< k)) (syndrome (v ^^^ (1#32 <<< k))) errs =
      found at hnone ⊢
    obtain ⟨found, errs'⟩ := found
    obtain rfl : found = none := hnone
    exact correctFrom_pattern h hnot hmem hfits (by omega) _ errs' (detected + 1)
termination_by k₀ - k

/-- A correction takes an error of up to three bits away, and counts it if it fits. -/
theorem correct_pattern (h : IsPattern v) :
    (correct v).cw = 0 ∧ ((correct v).errs = weight v ↔ Fits v) := by
  have hlight := h.light
  rw [correct_first]
  by_cases hzero : syndrome v = 0
  · have hnone := syndrome_detects v h.below (by omega) hzero
    rw [if_neg (not_not.mpr hzero), hnone]
    exact ⟨rfl, iff_of_true (weight_eq_zero.mpr rfl).symm (fits_light (by decide) (by decide))⟩
  · rw [if_pos hzero]
    rcases shortSyndrome_light (w := 3) h.below (by omega) 0 with ⟨hfit, heq⟩ | ⟨hnone, hlong⟩
    · rw [heq]
      exact ⟨rfl, iff_of_true rfl hfit⟩
    · have hnot : ¬ Fits v := fun hfit => absurd (hlong hfit) (by omega)
      obtain ⟨k, hk, hfit⟩ := exists_trial h hnot
      generalize shortSyndrome 3 23 0 v (syndrome v) 0 = found at hnone ⊢
      obtain ⟨found, errs⟩ := found
      obtain rfl : found = none := hnone
      obtain ⟨hcw, herrs⟩ := correctFrom_pattern h hnot hk hfit (Nat.zero_le k) v errs 1
      refine ⟨hcw, iff_of_false (fun heq => ?_) hnot⟩
      exact Nat.succ_ne_self _ (herrs.trans heq.symm)

end DsdNeo.P25.Golay24
