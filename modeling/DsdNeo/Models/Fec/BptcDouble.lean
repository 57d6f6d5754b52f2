import DsdNeo.Models.Fec.BptcExtract

/-!
# Two bits in error under the product code

A codeword of the larger product code with at most two bits flipped. Rows 9 to 12 are
never decoded, so two flips in one column there are taken for one elsewhere, and both
passes make the same mistake. Every other pair leaves at most one column in doubt, which
is a column of parity bits, and the payload comes out as it was sent.
-/

namespace DsdNeo.Fec.Bptc

open Fec.Hamming ParityCheck Finset

/-- The rows and the columns of what is placed in positions 1 to 195 are codewords. -/
structure IsProductCodeword (w : ℕ → UInt8) : Prop where
  row : ∀ i, i < 13 → IsCodeword hamming1511 (fillMatrix w i)
  column : ∀ j, j < 15 → IsCodeword hamming139 (columns (fillMatrix w) j)

/-- The word with the bits at some positions flipped. -/
def received (w : ℕ → UInt8) (flips : Finset ℕ) : ℕ → UInt8 :=
  fun p => if p ∈ flips then w p ^^^ 1 else w p

/-- The position of row `i` and column `j`. -/
def position (i j : ℕ) : ℕ := 1 + 15 * i + j

/-- Two flips in one of the columns 0 to 10, both in the rows that are not decoded. -/
def Trapped (flips : Finset ℕ) : Prop :=
  ∃ i i' j, 9 ≤ i ∧ i < i' ∧ i' < 13 ∧ j < 11 ∧ position i j ∈ flips ∧ position i' j ∈ flips

/-- Two flips in one of the columns 11 to 14 that `Hamming_13_9_decode` has no correction for. -/
def Unanswered (flips : Finset ℕ) : Prop :=
  ∃ i i' : Fin 13, ∃ j, i < i' ∧ 11 ≤ j ∧ j < 15 ∧ position i j ∈ flips ∧ position i' j ∈ flips ∧
    hamming139.mCorr.lookup (number (hamming139.matrix.col i + hamming139.matrix.col i')) = none

/-- A byte that is another one or has its low bit flipped. -/
def Flips (x y : UInt8) : Prop := x = y ∨ x = y ^^^ 1

theorem Flips.xor_one {x y : UInt8} (h : Flips x y) : Flips (x ^^^ 1) y := by
  rcases h with rfl | rfl
  · exact .inr rfl
  · exact .inl (by rw [UInt8.xor_assoc, UInt8.xor_self, UInt8.xor_zero])

theorem xor_one_and_one (x : UInt8) : (x ^^^ 1) &&& 1 = x &&& 1 ^^^ 1 := by
  apply UInt8.toNat_inj.mp
  rw [UInt8.toNat_and, UInt8.toNat_xor, UInt8.toNat_xor, UInt8.toNat_and, Nat.and_xor_distrib_right]
  rfl

theorem fillMatrix_received (w : ℕ → UInt8) (flips : Finset ℕ) (i j : ℕ) :
    fillMatrix (received w flips) i j =
      if position i j ∈ flips then fillMatrix w i j ^^^ 1 else fillMatrix w i j := by
  rw [fillMatrix, received, fillMatrix, position]
  split_ifs
  · exact xor_one_and_one _
  · rfl

theorem flips_fillMatrix_received (w : ℕ → UInt8) (flips : Finset ℕ) (i j : ℕ) :
    Flips (fillMatrix (received w flips) i j) (fillMatrix w i j) := by
  rw [fillMatrix_received]
  split_ifs
  · exact .inr rfl
  · exact .inl rfl

section Line

variable {n k r : ℕ} {c : Code n k r} {v w : ℕ → UInt8}

/-- A line with one place in error has its information bits back, if the place is none of
them or no more than its low bit is wrong. -/
theorem information_of_agree (hw : IsCodeword c w) (p : Fin n) (h : ∀ j, j < n → j ≠ p → v j = w j)
    (hp : k ≤ p.val ∨ Flips (v p) (w p)) : ∃ u, correct c v = some u ∧ ∀ j, j < k → u j = w j := by
  obtain ⟨u, hu, hother, hself⟩ := correct_of_agree hw p h
  refine ⟨u, hu, fun j hj => ?_⟩
  by_cases hjp : j = p
  · rcases hp with hp | hp
    · omega
    · rw [hjp]
      exact hself hp
  · exact hother j (hj.trans_le c.dataFits) hjp

/-- A correction flips at most the low bit of a place. -/
theorem flips_of_correct {u : ℕ → UInt8} (h : correct c v = some u) {j : ℕ}
    (hj : Flips (v j) (w j)) : Flips (u j) (w j) := by
  rcases correct_eq_some h with ⟨rfl, -⟩ | ⟨p, rfl, -⟩
  · exact hj
  · by_cases hjp : j = p
    · rw [hjp, flipBit_self, ← hjp]
      exact hj.xor_one
    · rwa [flipBit_of_ne v hjp]

end Line

section Pass

variable {m M : ℕ → ℕ → UInt8} {i j p : ℕ}

theorem rowsCorrected_of_information {v : ℕ → UInt8} (hi : i < 9)
    (h : correct hamming1511 (m i) = some v) :
    rowsCorrected m i = inject (information 11 v) (m i) := by
  rw [rowsCorrected, corrections, if_pos hi, h]
  rfl

/-- The rows that are not decoded and the parity bits of the others stay. -/
theorem rowsCorrected_kept (h : 9 ≤ i ∨ 11 ≤ j) : rowsCorrected m i j = m i j := by
  rw [rowsCorrected, corrections]
  split_ifs with hi
  · exact inject_of_le _ _ (by omega)
  · rfl

theorem rowsCorrected_restored (hM : IsCodeword hamming1511 (M i)) (hi : i < 9) (hp : p < 15)
    (h : ∀ j, j < 15 → j ≠ p → m i j = M i j) (hbit : 11 ≤ p ∨ Flips (m i p) (M i p))
    (hj : j < 11) : rowsCorrected m i j = M i j := by
  obtain ⟨u, hu, hsame⟩ := information_of_agree hM ⟨p, hp⟩ h hbit
  rw [rowsCorrected_of_information hi hu, inject_of_lt _ _ hj]
  exact hsame j hj

theorem decodeCols_of_some (colCorrected : Fin 9 → UInt8) {v : ℕ → UInt8} (hj : j < 15)
    (h : correct hamming139 (columns m j) = some v) :
    columns (decodeCols colCorrected m).lines j = inject (information 9 v) (columns m j) :=
  decodeLines_lines_of_some colCorrected hj h

/-- The parity bits of the columns stay. -/
theorem decodeCols_kept (colCorrected : Fin 9 → UInt8) (hi : 9 ≤ i) (hj : j < 15) :
    (decodeCols colCorrected m).lines i j = m i j := by
  refine (congrFun (decodeLines_lines hamming139 colCorrected (columns m) hj) i).trans ?_
  exact inject_of_le _ _ hi

/-- A column that agrees with a codeword outside one place. -/
def AlmostColumn (m M : ℕ → ℕ → UInt8) (j : ℕ) : Prop :=
  ∃ p, p < 13 ∧ (∀ i, i < 13 → i ≠ p → m i j = M i j) ∧ Flips (m p j) (M p j)

theorem AlmostColumn.correct (h : AlmostColumn m M j) (hM : IsCodeword hamming139 (columns M j)) :
    ∃ u, correct hamming139 (columns m j) = some u ∧ ∀ i, i < 9 → u i = M i j := by
  obtain ⟨p, hp, hagree, hbit⟩ := h
  exact information_of_agree hM ⟨p, hp⟩ hagree (.inr hbit)

theorem decodeCols_restored (colCorrected : Fin 9 → UInt8) (h : AlmostColumn m M j)
    (hM : IsCodeword hamming139 (columns M j)) (hj : j < 15) (hi : i < 9) :
    (decodeCols colCorrected m).lines i j = M i j := by
  obtain ⟨u, hu, hsame⟩ := h.correct hM
  refine (congrFun (decodeCols_of_some colCorrected hj hu) i).trans ?_
  rw [inject_of_lt _ _ hi]
  exact hsame i hi

theorem errors_decodeCols_eq_zero (colCorrected : Fin 9 → UInt8)
    (h : ∀ j, j < 15 → (correct hamming139 (columns m j)).isSome) :
    (decodeCols colCorrected m).errors = 0 := by
  rw [errors_decodeCols]
  exact (decodeLines_errors ..).mpr h

end Pass

theorem position_inj {i i' j j' : ℕ} (hj : j < 15) (hj' : j' < 15)
    (h : position i j = position i' j') : i = i' ∧ j = j' := by
  rw [position, position] at h
  omega

theorem eq_or_eq_of_card_le_two {flips : Finset ℕ} (hcard : flips.card ≤ 2) {a b : ℕ}
    (ha : a ∈ flips) (hb : b ∈ flips) (hab : a ≠ b) {x : ℕ} (hx : x ∈ flips) : x = a ∨ x = b := by
  by_contra hne
  push Not at hne
  have hthree : ({a, b, x} : Finset ℕ).card = 3 :=
    card_eq_three.mpr ⟨a, b, x, hab, hne.1.symm, hne.2.symm, rfl⟩
  have hsub : ({a, b, x} : Finset ℕ) ⊆ flips := by
    intro y hy
    simp only [mem_insert, mem_singleton] at hy
    rcases hy with rfl | rfl | rfl
    · exact ha
    · exact hb
    · exact hx
  have hle := card_le_card hsub
  omega

section Passes

variable {w : ℕ → UInt8} (hw : IsProductCodeword w) {u : Unwritten} {input : ℕ → UInt8} {p : ℕ}

/-- Outside one column of parity bits the columns of a matrix are almost codewords. -/
def AlmostColumns (m M : ℕ → ℕ → UInt8) (p : ℕ) : Prop :=
  11 ≤ p ∧ p < 15 ∧ ∀ j, j < 15 → j ≠ p → AlmostColumn m M j

include hw

variable {i j : ℕ}

theorem afterCols_restored (h : AlmostColumns (afterRows u input) (fillMatrix w) p) (hi : i < 9)
    (hj : j < 15) (hjp : j ≠ p) : afterCols u input i j = fillMatrix w i j :=
  decodeCols_restored u.cols (h.2.2 j hj hjp) (hw.column j hj) hj hi

theorem afterRowsAgain_restored (h : AlmostColumns (afterRows u input) (fillMatrix w) p)
    (hi : i < 9) (hj : j < 15) (hjp : j ≠ p) : afterRowsAgain u input i j = fillMatrix w i j := by
  rw [afterRowsAgain, lines_decodeRows]
  by_cases hinfo : j < 11
  · exact rowsCorrected_restored (hw.row i (by omega)) hi h.2.1
      (fun j hj hjp => afterCols_restored hw h hi hj hjp) (.inl h.1) hinfo
  · rw [rowsCorrected_kept (.inr (by omega))]
    exact afterCols_restored hw h hi hj hjp

omit hw in
/-- The parity bits of the columns are never written. -/
theorem afterRowsAgain_kept (hi : 9 ≤ i) (hj : j < 15) :
    afterRowsAgain u input i j = afterRows u input i j := by
  rw [afterRowsAgain, lines_decodeRows, rowsCorrected_kept (.inl hi)]
  exact decodeCols_kept u.cols hi hj

theorem almostColumns_afterRowsAgain (h : AlmostColumns (afterRows u input) (fillMatrix w) p) :
    AlmostColumns (afterRowsAgain u input) (fillMatrix w) p := by
  refine ⟨h.1, h.2.1, fun j hj hjp => ?_⟩
  obtain ⟨q, hq, hagree, hbit⟩ := h.2.2 j hj hjp
  refine ⟨q, hq, fun i hi hiq => ?_, ?_⟩
  · rcases Nat.lt_or_ge i 9 with hi9 | hi9
    · exact afterRowsAgain_restored hw h hi9 hj hjp
    · rw [afterRowsAgain_kept hi9 hj]
      exact hagree i hi hiq
  · rcases Nat.lt_or_ge q 9 with hq9 | hq9
    · exact .inl (afterRowsAgain_restored hw h hq9 hj hjp)
    · rwa [afterRowsAgain_kept hq9 hj]

theorem afterColsAgain_restored (h : AlmostColumns (afterRows u input) (fillMatrix w) p)
    (hi : i < 9) (hj : j < 11) : afterColsAgain u input i j = fillMatrix w i j := by
  have hp := h.1
  exact decodeCols_restored u.colsAgain
    ((almostColumns_afterRowsAgain hw h).2.2 j (by omega) (by omega)) (hw.column j (by omega))
    (by omega) hi

omit hw in
/-- What is extracted is read in the rows and columns that are information bits of both codes. -/
theorem extract_congr {m M : ℕ → ℕ → UInt8} (h : ∀ i j, i < 9 → j < 11 → m i j = M i j) :
    extractPayload m = extractPayload M ∧ extractR m = extractR M := by
  constructor
  · rw [extractPayload, extractPayload]
    congr 1
    · refine List.map_congr_left fun j hj => ?_
      have hj := List.mem_range'_1.mp hj
      exact h 0 j (by decide) (by omega)
    · refine List.flatMap_congr fun i hi => List.map_congr_left fun j hj => ?_
      have hi := List.mem_range'_1.mp hi
      exact h i j (by omega) (List.mem_range.mp hj)
  · rw [extractR, extractR, h 0 2, h 0 1, h 0 0] <;> decide

/-- The payload is that of the codeword. -/
theorem extracted_of_almostColumns (h : AlmostColumns (afterRows u input) (fillMatrix w) p) :
    (extractData196x96 u input).extracted = extractPayload (fillMatrix w) ∧
      (extractData196x96 u input).rBits = extractR (fillMatrix w) :=
  extract_congr fun _ _ hi hj => afterColsAgain_restored hw h hi hj

/-- No column fails in the second pass where none failed in the first. -/
theorem irrecoverable_of_almostColumns (h : AlmostColumns (afterRows u input) (fillMatrix w) p)
    (hsome : (correct hamming139 (columns (afterRows u input) p)).isSome) :
    (extractData196x96 u input).irrecoverable = 0 := by
  have hpass : ∀ j, j < 15 → (correct hamming139 (columns (afterRowsAgain u input) j)).isSome := by
    intro j hj
    by_cases hjp : j = p
    · subst hjp
      obtain ⟨v, hv⟩ := Option.isSome_iff_exists.mp hsome
      have hcolumn : columns (afterRowsAgain u input) j =
          inject (information 9 v) (columns (afterRows u input) j) := by
        rw [← decodeCols_of_some u.cols hj hv]
        ext1 i
        rw [columns, afterRowsAgain, lines_decodeRows, rowsCorrected_kept (.inr h.1)]
        rfl
      rw [hcolumn]
      exact isSome_correct_inject hv
    · obtain ⟨v, hv, -⟩ :=
        ((almostColumns_afterRowsAgain hw h).2.2 j hj hjp).correct (hw.column j hj)
      rw [hv]
      rfl
  have hzero := errors_decodeCols_eq_zero u.colsAgain hpass
  rw [extractData196x96, errors_decodeRows, hzero]

end Passes

section Pattern

variable {w : ℕ → UInt8} (hw : IsProductCodeword w) {flips : Finset ℕ} (u : Unwritten)

omit hw in
theorem fillMatrix_received_of_notMem {i j : ℕ} (h : position i j ∉ flips) :
    fillMatrix (received w flips) i j = fillMatrix w i j := by
  rw [fillMatrix_received, if_neg h]

include hw

/-- A row with at most one flip has its information bits back. -/
theorem firstColumns_restored {i j : ℕ} (hi : i < 9) (hj : j < 11)
    (hrow : ∀ j j', j < 15 → j' < 15 → position i j ∈ flips → position i j' ∈ flips → j = j') :
    firstColumns (received w flips) i j = fillMatrix w i j := by
  by_cases hflip : ∃ p, p < 15 ∧ position i p ∈ flips
  · obtain ⟨p, hp, hmem⟩ := hflip
    refine rowsCorrected_restored (hw.row i (by omega)) hi hp ?_
      (.inr (flips_fillMatrix_received w flips i p)) hj
    intro j hj hjp
    exact fillMatrix_received_of_notMem fun hmem' => hjp (hrow j p hj hp hmem' hmem)
  · push Not at hflip
    refine rowsCorrected_restored (p := 0) (hw.row i (by omega)) hi (by decide) ?_
      (.inr (flips_fillMatrix_received w flips i 0)) hj
    intro j hj _
    exact fillMatrix_received_of_notMem (hflip j hj)

theorem almostColumn_of_row {i₀ : ℕ} (hi₀ : i₀ < 9)
    (hall : ∀ i j, i < 13 → j < 15 → position i j ∈ flips → i = i₀) {j : ℕ} (hj : j < 15) :
    AlmostColumn (firstColumns (received w flips)) (fillMatrix w) j := by
  refine ⟨i₀, by omega, fun i hi hii => ?_, ?_⟩
  · have hnone : ∀ j, j < 15 → position i j ∉ flips := fun j hj hmem => hii (hall i j hi hj hmem)
    rcases Nat.lt_or_ge i 9 with hi9 | hi9
    · rcases Nat.lt_or_ge j 11 with hinfo | hinfo
      · exact firstColumns_restored hw hi9 hinfo
          fun j _ hj _ hmem => absurd hmem (hnone j hj)
      · rw [firstColumns, rowsCorrected_kept (.inr hinfo)]
        exact fillMatrix_received_of_notMem (hnone j hj)
    · rw [firstColumns, rowsCorrected_kept (.inl hi9)]
      exact fillMatrix_received_of_notMem (hnone j hj)
  · rcases Nat.lt_or_ge j 11 with hinfo | hinfo
    · obtain ⟨v, hv⟩ :=
        Option.isSome_iff_exists.mp (isSome_correct_hamming1511 (fillMatrix (received w flips) i₀))
      rw [firstColumns, rowsCorrected_of_information hi₀ hv, inject_of_lt _ _ hinfo]
      exact flips_of_correct hv (flips_fillMatrix_received w flips i₀ j)
    · rw [firstColumns, rowsCorrected_kept (.inr hinfo)]
      exact flips_fillMatrix_received w flips i₀ j

/-- Two flips in the column `j`. -/
def Doubled (flips : Finset ℕ) (j : ℕ) : Prop :=
  ∃ i i', i < i' ∧ i' < 13 ∧ position i j ∈ flips ∧ position i' j ∈ flips

omit hw in
theorem almostColumn_of_parity {j : ℕ} (hj : 11 ≤ j) (hdouble : ¬ Doubled flips j) :
    AlmostColumn (firstColumns (received w flips)) (fillMatrix w) j := by
  have hkept : ∀ i, firstColumns (received w flips) i j = fillMatrix (received w flips) i j :=
    fun i => rowsCorrected_kept (.inr hj)
  by_cases hflip : ∃ q, q < 13 ∧ position q j ∈ flips
  · obtain ⟨q, hq, hmem⟩ := hflip
    refine ⟨q, hq, fun i hi hiq => ?_, ?_⟩
    · rw [hkept]
      refine fillMatrix_received_of_notMem fun hmem' => hdouble ?_
      rcases Nat.lt_or_gt_of_ne hiq with hlt | hgt
      · exact ⟨i, q, hlt, hq, hmem', hmem⟩
      · exact ⟨q, i, hgt, hi, hmem, hmem'⟩
    · rw [hkept]
      exact flips_fillMatrix_received w flips q j
  · push Not at hflip
    refine ⟨0, by decide, fun i hi _ => ?_, ?_⟩
    · rw [hkept]
      exact fillMatrix_received_of_notMem (hflip i hi)
    · rw [hkept]
      exact flips_fillMatrix_received w flips 0 j

theorem almostColumn_of_information {j : ℕ} (hj : j < 11)
    (hrow : ∀ i j j', i < 9 → j < 15 → j' < 15 → position i j ∈ flips → position i j' ∈ flips →
      j = j')
    (htrapped : ¬ Trapped flips) :
    AlmostColumn (firstColumns (received w flips)) (fillMatrix w) j := by
  have hrestored : ∀ i, i < 9 → firstColumns (received w flips) i j = fillMatrix w i j :=
    fun i hi => firstColumns_restored hw hi hj fun j j' => hrow i j j' hi
  have hkept : ∀ i, 9 ≤ i →
      firstColumns (received w flips) i j = fillMatrix (received w flips) i j :=
    fun i hi => rowsCorrected_kept (.inl hi)
  by_cases hflip : ∃ q, 9 ≤ q ∧ q < 13 ∧ position q j ∈ flips
  · obtain ⟨q, hq9, hq, hmem⟩ := hflip
    refine ⟨q, hq, fun i hi hiq => ?_, ?_⟩
    · rcases Nat.lt_or_ge i 9 with hi9 | hi9
      · exact hrestored i hi9
      · rw [hkept i hi9]
        refine fillMatrix_received_of_notMem fun hmem' => htrapped ?_
        rcases Nat.lt_or_gt_of_ne hiq with hlt | hgt
        · exact ⟨i, q, j, hi9, hlt, hq, hj, hmem', hmem⟩
        · exact ⟨q, i, j, hq9, hgt, hi, hj, hmem, hmem'⟩
    · rw [hkept q hq9]
      exact flips_fillMatrix_received w flips q j
  · push Not at hflip
    refine ⟨0, by decide, fun i hi _ => ?_, .inl (hrestored 0 (by decide))⟩
    rcases Nat.lt_or_ge i 9 with hi9 | hi9
    · exact hrestored i hi9
    · rw [hkept i hi9]
      exact fillMatrix_received_of_notMem (hflip i hi9 hi)

theorem almostColumns_received (hcard : flips.card ≤ 2) (htrapped : ¬ Trapped flips) :
    ∃ p, AlmostColumns (firstColumns (received w flips)) (fillMatrix w) p ∧
      (AlmostColumn (firstColumns (received w flips)) (fillMatrix w) p ∨ Doubled flips p) := by
  by_cases hone : ∃ i₀, i₀ < 9 ∧ ∀ i j, i < 13 → j < 15 → position i j ∈ flips → i = i₀
  · -- the columns have one place each, in the row of the flips
    obtain ⟨i₀, hi₀, hall⟩ := hone
    have halmost := fun j (hj : j < 15) => almostColumn_of_row hw hi₀ hall hj
    exact ⟨11, ⟨by decide, by decide, fun j hj _ => halmost j hj⟩, .inl (halmost 11 (by decide))⟩
  have hrow : ∀ i j j', i < 9 → j < 15 → j' < 15 → position i j ∈ flips → position i j' ∈ flips →
      j = j' := by
    intro i j j' hi hj hj' hmem hmem'
    by_contra hne
    refine hone ⟨i, hi, fun i' j'' _ hj'' hother => ?_⟩
    have hdistinct : position i j ≠ position i j' := fun heq => hne (position_inj hj hj' heq).2
    rcases eq_or_eq_of_card_le_two hcard hmem hmem' hdistinct hother with heq | heq
    · exact (position_inj hj'' hj heq).1
    · exact (position_inj hj'' hj' heq).1
  by_cases hdouble : ∃ p, 11 ≤ p ∧ p < 15 ∧ Doubled flips p
  · obtain ⟨p, hp, hp15, hpair⟩ := hdouble
    refine ⟨p, ⟨hp, hp15, fun j hj hjp => ?_⟩, .inr hpair⟩
    obtain ⟨i, i', hlt, hi', hmem, hmem'⟩ := hpair
    have hdistinct : position i p ≠ position i' p := fun heq => by
      have := (position_inj hp15 hp15 heq).1
      omega
    rcases Nat.lt_or_ge j 11 with hinfo | hinfo
    · exact almostColumn_of_information hw hinfo hrow htrapped
    · refine almostColumn_of_parity hinfo ?_
      rintro ⟨i₁, i₂, -, -, hother, -⟩
      rcases eq_or_eq_of_card_le_two hcard hmem hmem' hdistinct hother with heq | heq
      · exact hjp (position_inj hj hp15 heq).2
      · exact hjp (position_inj hj hp15 heq).2
  · have halmost : ∀ j, j < 15 →
        AlmostColumn (firstColumns (received w flips)) (fillMatrix w) j := by
      intro j hj
      rcases Nat.lt_or_ge j 11 with hinfo | hinfo
      · exact almostColumn_of_information hw hinfo hrow htrapped
      · exact almostColumn_of_parity hinfo fun hpair => hdouble ⟨j, hinfo, hj, hpair⟩
    exact ⟨11, ⟨by decide, by decide, fun j hj _ => halmost j hj⟩, .inl (halmost 11 (by decide))⟩

end Pattern

section Column

open Matrix

variable {w : ℕ → UInt8} (hw : IsProductCodeword w) {flips : Finset ℕ}

include hw

theorem mulVec_of_two_flips {v : ℕ → UInt8} (i i' : Fin 13) {j : ℕ} (hj : j < 15) (hne : i ≠ i')
    (hi : v i = fillMatrix w i j ^^^ 1) (hi' : v i' = fillMatrix w i' j ^^^ 1)
    (hother : ∀ x : Fin 13, x ≠ i → x ≠ i' → v x = fillMatrix w x j) :
    hamming139.matrix *ᵥ bits 13 v = hamming139.matrix.col i + hamming139.matrix.col i' := by
  have hv : bits 13 v =
      bits 13 (flipBit (flipBit (columns (fillMatrix w) j) i) i') := by
    ext1 x
    rw [bits, bits]
    by_cases hxi' : x = i'
    · rw [hxi', flipBit_self, flipBit_of_ne _ (Fin.val_ne_of_ne hne.symm), hi']
      rfl
    · rw [flipBit_of_ne _ (Fin.val_ne_of_ne hxi')]
      by_cases hxi : x = i
      · rw [hxi, flipBit_self, hi]
        rfl
      · rw [flipBit_of_ne _ (Fin.val_ne_of_ne hxi), hother x hxi hxi']
        rfl
  have hzero : hamming139.matrix *ᵥ bits 13 (columns (fillMatrix w) j) = 0 := hw.column j hj
  rw [hv, mulVec_flipBit, mulVec_flipBit, hzero, zero_add]

omit hw in
theorem received_of_two {i i' j : ℕ} (hcard : flips.card ≤ 2) (hj : j < 15) (hlt : i < i')
    (hi : position i j ∈ flips) (hi' : position i' j ∈ flips) {x : ℕ} (hx : x ≠ i) (hx' : x ≠ i')
    {y : ℕ} (hy : y < 15) : position x y ∉ flips := by
  intro hmem
  have hdistinct : position i j ≠ position i' j := fun heq => by
    have := (position_inj hj hj heq).1
    omega
  rcases eq_or_eq_of_card_le_two hcard hi hi' hdistinct hmem with heq | heq
  · exact hx (position_inj hy hj heq).1
  · exact hx' (position_inj hy hj heq).1

theorem isSome_correct_of_doubled {p : ℕ} (hp : 11 ≤ p) (hp15 : p < 15) (hcard : flips.card ≤ 2)
    (hdouble : Doubled flips p) (hanswered : ¬ Unanswered flips) :
    (correct hamming139 (columns (firstColumns (received w flips)) p)).isSome := by
  obtain ⟨i, i', hlt, hi', hmem, hmem'⟩ := hdouble
  have hkept : ∀ x, columns (firstColumns (received w flips)) p x =
      fillMatrix (received w flips) x p := fun x => rowsCorrected_kept (.inr hp)
  have hcolumns := mulVec_of_two_flips hw (v := columns (firstColumns (received w flips)) p)
    ⟨i, by omega⟩ ⟨i', hi'⟩ hp15 (by simp; omega)
    (by rw [hkept, fillMatrix_received, if_pos hmem])
    (by rw [hkept, fillMatrix_received, if_pos hmem'])
    fun x hx hx' => by
      rw [hkept, fillMatrix_received_of_notMem]
      exact received_of_two hcard hp15 hlt hmem hmem' (fun h => hx (Fin.ext h))
        (fun h => hx' (Fin.ext h)) hp15
  refine isSome_correct_of_lookup ?_
  rw [syndromeI_eq, hcolumns, Option.isSome_iff_ne_none]
  exact fun hnone => hanswered ⟨⟨i, by omega⟩, ⟨i', hi'⟩, p, hlt, hp, hp15, hmem, hmem', hnone⟩

end Column

/-- At most two flips of a codeword leave its payload and reserved bits, unless both are in
one column of information bits and in rows that are not decoded. Nothing is counted as
irrecoverable, unless both are in one column of parity bits that has no correction for them. -/
theorem double_errors_corrected (w : ℕ → UInt8) (hw : IsProductCodeword w) (flips : Finset ℕ)
    (hcard : flips.card ≤ 2) (htrapped : ¬ Trapped flips) (u : Unwritten) :
    (extractData196x96 u (received w flips)).extracted = extractPayload (fillMatrix w) ∧
      (extractData196x96 u (received w flips)).rBits = extractR (fillMatrix w) ∧
      (¬ Unanswered flips → (extractData196x96 u (received w flips)).irrecoverable = 0) := by
  obtain ⟨p, halmost, hcolumn⟩ := almostColumns_received hw hcard htrapped
  have hfirst := afterRows_eq u (received w flips)
  rw [← hfirst] at halmost
  obtain ⟨hpayload, hr⟩ := extracted_of_almostColumns hw halmost
  refine ⟨hpayload, hr, fun hanswered => irrecoverable_of_almostColumns hw halmost ?_⟩
  rw [hfirst]
  rcases hcolumn with hone | hdouble
  · obtain ⟨v, hv, -⟩ := hone.correct (hw.column p halmost.2.1)
    rw [hv]
    rfl
  · exact isSome_correct_of_doubled hw halmost.1 halmost.2.1 hcard hdouble hanswered

theorem isProductCodeword_zero : IsProductCodeword 0 := by
  have hfill : fillMatrix 0 = 0 := by
    ext1 i
    ext1 j
    exact UInt8.zero_and
  have hzero : ∀ {n k r : ℕ} (c : Code n k r), IsCodeword c 0 := by
    intro n k r c
    have hbits : bits n 0 = 0 := by
      ext1 j
      exact Nat.cast_zero
    rw [IsCodeword, hbits, Matrix.mulVec_zero]
  constructor
  · intro i _
    rw [hfill]
    exact hzero hamming1511
  · intro j _
    rw [hfill]
    exact hzero hamming139

/-- The product of a codeword of three rows and one of three columns. -/
def cornerWord (p : ℕ) : UInt8 :=
  if (p - 1) / 15 ∈ [8, 11, 12] ∧ (p - 1) % 15 ∈ [10, 13, 14] then 1 else 0

theorem isProductCodeword_corner : IsProductCodeword cornerWord where
  row i hi := by
    rw [isCodeword_iff]
    revert i
    decide +kernel
  column j hj := by
    rw [isCodeword_iff]
    revert j
    decide +kernel

/-- Two flips of that word in one column of information bits. -/
theorem double_errors_corrected_corner :
    (extractData196x96 ⟨fun _ => 0, fun _ => 1, fun _ => 1, fun _ => 0⟩
      (received cornerWord {position 3 10, position 8 10})).extracted =
      extractPayload (fillMatrix cornerWord) := by
  refine (double_errors_corrected cornerWord isProductCodeword_corner _ (by decide) ?_ _).1
  rintro ⟨i, i', j, hi, -, -, hj, hmem, -⟩
  simp only [mem_insert, mem_singleton, position] at hmem
  omega

theorem trapped_overwritten {w : ℕ → UInt8} (hw : IsProductCodeword w) (i i' t : Fin 13) {j : ℕ}
    (hi : 9 ≤ i.val) (hlt : i < i') (ht : t.val < 9) (hj : j < 11)
    (hsum : hamming139.matrix.col i + hamming139.matrix.col i' = hamming139.matrix.col t)
    (u : Unwritten) :
    afterColsAgain u (received w {position i j, position i' j}) t j = fillMatrix w t j ^^^ 1 := by
  set flips : Finset ℕ := {position i j, position i' j} with hflips
  set input := received w flips
  have hmem : position i j ∈ flips := by rw [hflips]; exact mem_insert_self ..
  have hmem' : position i' j ∈ flips := by
    rw [hflips]
    exact mem_insert_of_mem (mem_singleton_self _)
  have honly : ∀ x y, y < 15 → position x y ∈ flips → (x = i ∨ x = i') ∧ y = j := by
    intro x y hy hxy
    rw [hflips, mem_insert, mem_singleton] at hxy
    rcases hxy with heq | heq
    · obtain ⟨hx, hyj⟩ := position_inj hy (by omega) heq
      exact ⟨.inl hx, hyj⟩
    · obtain ⟨hx, hyj⟩ := position_inj hy (by omega) heq
      exact ⟨.inr hx, hyj⟩
  have hclean : ∀ x y, y < 15 → x < 9 ∨ y ≠ j → fillMatrix input x y = fillMatrix w x y := by
    intro x y hy hor
    refine fillMatrix_received_of_notMem fun hxy => ?_
    obtain ⟨hx, hyj⟩ := honly x y hy hxy
    omega
  have hfirst : ∀ x y, y < 15 → firstColumns input x y = fillMatrix input x y := by
    intro x y hy
    rcases Nat.lt_or_ge x 9 with hx9 | hx9
    · rcases Nat.lt_or_ge y 11 with hinfo | hinfo
      · rw [hclean x y hy (.inl hx9)]
        exact firstColumns_restored hw hx9 hinfo fun y _ hy _ hxy _ => by
          have := honly x y hy hxy
          omega
      · exact rowsCorrected_kept (.inr hinfo)
    · exact rowsCorrected_kept (.inl hx9)
  have hpass : ∀ (colCorrected : Fin 9 → UInt8) (m : ℕ → ℕ → UInt8),
      (∀ x, x < 13 → m x j = fillMatrix input x j) → ∀ x, x < 9 →
      (decodeCols colCorrected m).lines x j = flipBit (columns (fillMatrix w) j) t x := by
    intro colCorrected m hm x hx
    have hcolumns := mulVec_of_two_flips hw (v := columns m j) i i' (j := j) (by omega) hlt.ne
      (by rw [columns, hm i i.isLt, fillMatrix_received, if_pos hmem])
      (by rw [columns, hm i' i'.isLt, fillMatrix_received, if_pos hmem'])
      fun y hyi hyi' => by
        rw [columns, hm y y.isLt]
        refine fillMatrix_received_of_notMem fun hy => ?_
        rcases (honly y j (by omega) hy).1 with heq | heq
        · exact hyi (Fin.ext heq)
        · exact hyi' (Fin.ext heq)
    rw [hsum] at hcolumns
    have hflipped := decodeCols_of_some colCorrected (by omega) (correct_of_column hcolumns)
    refine (congrFun hflipped x).trans ?_
    rw [inject_of_lt _ _ hx]
    change flipBit (columns m j) t x = _
    by_cases hxt : x = t
    · rw [hxt, flipBit_self, flipBit_self, columns, hm t t.isLt, hclean t j (by omega) (.inl ht)]
      rfl
    · rw [flipBit_of_ne _ hxt, flipBit_of_ne _ hxt, columns, hm x (by omega),
        hclean x j (by omega) (.inl hx)]
      rfl
  have hcols : ∀ x, x < 9 → afterCols u input x j = flipBit (columns (fillMatrix w) j) t x := by
    intro x hx
    refine hpass u.cols _ (fun x _ => ?_) x hx
    rw [afterRows_eq, hfirst x j (by omega)]
  have hothers : ∀ x y, x < 9 → y < 15 → y ≠ j → afterCols u input x y = fillMatrix w x y := by
    intro x y hx hy hyj
    have hagree : ∀ x, x < 13 → afterRows u input x y = fillMatrix w x y := fun x _ => by
      rw [afterRows_eq, hfirst x y hy, hclean x y hy (.inr hyj)]
    exact decodeCols_restored u.cols
      ⟨0, by decide, fun x hx _ => hagree x hx, .inl (hagree 0 (by decide))⟩ (hw.column y hy) hy hx
  -- the second pass over the rows undoes the wrong flip, and the columns are as before
  refine (hpass u.colsAgain _ (fun x hx => ?_) t ht).trans (flipBit_self _ _)
  rcases Nat.lt_or_ge x 9 with hx9 | hx9
  · rw [afterRowsAgain, lines_decodeRows, hclean x j (by omega) (.inl hx9)]
    refine rowsCorrected_restored (hw.row x (by omega)) hx9 (p := j) (by omega)
      (fun y hy hyj => hothers x y hx9 hy hyj) (.inr ?_) hj
    rw [hcols x hx9]
    by_cases hxt : x = t
    · rw [hxt, flipBit_self]
      exact .inr rfl
    · rw [flipBit_of_ne _ hxt]
      exact .inl rfl
  · rw [afterRowsAgain_kept hx9 (by omega), afterRows_eq, hfirst x j (by omega)]

/-- Flips of rows 9 and 10 in column 3 of the zero word set a bit of the payload. -/
theorem double_errors_not_always_corrected :
    ¬ ∀ (w : ℕ → UInt8) (flips : Finset ℕ) (u : Unwritten), IsProductCodeword w →
      (∀ p ∈ flips, 1 ≤ p ∧ p ≤ 195) → flips.card ≤ 2 →
      (extractData196x96 u (received w flips)).irrecoverable = 0 ∧
        (extractData196x96 u (received w flips)).extracted = extractPayload (fillMatrix w) ∧
        (extractData196x96 u (received w flips)).rBits = extractR (fillMatrix w) := by
  intro h
  have hbit : ∀ m : ℕ → ℕ → UInt8, (extractPayload m)[66]? = some (m 6 3) := fun m => rfl
  have hpayload := (h 0 {position 9 3, position 10 3} ⟨0, 0, 0, 0⟩ isProductCodeword_zero
    (by decide) (by decide)).2.1
  have heq := congrArg (·[66]?) hpayload
  simp only [extractData196x96, hbit, Option.some.injEq] at heq
  have hwrong := trapped_overwritten isProductCodeword_zero 9 10 6 (j := 3)
    (by decide) (by decide) (by decide) (by decide) (by decide) ⟨0, 0, 0, 0⟩
  exact absurd (hwrong.symm.trans heq) (by decide)

end DsdNeo.Fec.Bptc
