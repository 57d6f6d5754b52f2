import DsdNeo.Models.Fec.ReedSolomonDecode

/-!
# Decoding a word of the Reed-Solomon code

A run stays inside its arrays exactly when the word does not set the last syndrome alone.
It corrects every error of at most as many symbols as the code is designed for, and a word
it gives up comes out as it went in.
-/

namespace DsdNeo.ReedSolomon

open Galois Program Polynomial Fec Gf64 Finset

variable {tt : ℕ} {σ : PowerSeries Gf64} {tables : Tables} {recd : Vector ℤ nn} {r : ℕ → Gf64}

theorem returns_indexRow (htables : tables.Sound) {u degree : ℕ} {c : Gf64[X]}
    {elp : Vector (Vector ℤ (2 * tt)) (2 * tt + 2)} (hu : u ≤ 2 * tt + 1)
    (hdegree : degree < 2 * tt) (h : ∀ i ≤ degree, cell elp u i = some (polyForm (c.coeff i))) :
    Returns (indexRow tables u degree elp) fun elp' =>
      ∀ i ≤ degree, cell elp' u i = some (indexForm (c.coeff i)) := by
  refine (returns_columns (m := elp) (g := fun p k => if p = u then some (indexForm (c.coeff k))
    else cell elp p k) (Nat.zero_le _) fun i elp' _ hi hcol => ?_).mono fun elp' help i hi => ?_
  · refine returns_bind_some ((hcol u).trans (h i (by omega))) ?_
    refine returns_bind_some (htables.readAt_indexOf _) ?_
    refine (returns_storeCell (by omega) (by omega)).mono fun elp'' hs => hs.column hcol
  · rw [help, if_pos (by omega), if_pos rfl]

/-- What the decoder does to a word with a syndrome set. -/
def Decoded (σ : PowerSeries Gf64) (tt : ℕ) (recd : Vector ℤ nn) (r : ℕ → Gf64) (result : ℤ)
    (recd' : Vector ℤ nn) : Prop :=
  result = 1 ∧ recd' = recd ∧ Failed σ tt ∨
    result = 0 ∧ ∃ c degree, Located σ tt c degree ∧ InPolyForm recd' (corrected c σ degree r)

theorem returns_runDecode (htables : tables.Sound) (htt : 0 < tt) (state : DecodeState tt)
    (hs : Measured state.s σ) (hrecd : InIndexForm recd r) (hfree : ¬ Overflows σ tt) :
    Returns (runDecode tables recd state) fun s => Decoded σ tt recd r s.1 s.2 := by
  refine (returns_initializeBerlekampState htt hs state.toTable).bind fun t ht => ?_
  refine ((faithful_ops htables hs).returns_run hfree htt (progress_initial ht)).bind fun p hp => ?_
  obtain ⟨u, t⟩ := p
  obtain ⟨c, l, d, hfin⟩ := hp
  dsimp only at hfin ⊢
  refine returns_bind_some hfin.length (returns_ite (fun hlong => ?_) fun hshort => ?_)
  · exact returns_some (Or.inl ⟨rfl, rfl, hfin.failed (Or.inl hlong)⟩)
  · have hle : l u ≤ tt := Nat.not_lt.mp hshort
    have hu := hfin.bounds.2
    have hgen := hfin.rows.generates u le_rfl
    refine (returns_indexRow htables hu (by omega) hfin.plain).bind fun elp help => ?_
    have hrow : elp[u]? = some elp[u] := getElem?_eq_some_getElem (by omega)
    refine returns_bind_some hrow ?_
    have hlocator : RowOf elp[u] (c u) (l u) := fun i hi => by
      have hcell := help i hi
      rw [cell, hrow] at hcell
      exact hcell
    refine (returns_findDecodeRoots htables hle hlocator hgen.const hgen.degree _ _ _).bind
      fun f hf => ?_
    obtain ⟨hcount, hfound⟩ := hf
    rw [← card_errorPositions] at hcount
    refine returns_ite (fun hne => ?_) fun heq => ?_
    · rw [hcount] at hne
      exact returns_some (Or.inl ⟨rfl, rfl, hfin.failed (Or.inr hne)⟩)
    · have hcard : (errorPositions (c u)).card = l u := hcount.symm.trans (not_not.mp heq)
      have hroots : FoundRoots f.root f.loc (c u) (l u) := by
        refine ⟨(card_errorPositions _).symm.trans hcard, fun k hk => ?_, fun k hk => ?_⟩
        · exact (hfound k (by omega)).1
        · exact (hfound k (by omega)).2
      refine (returns_buildErrorEvaluator htables hs hle hlocator hgen.const _).bind fun z hz => ?_
      refine (returns_prepareDecodeCorrections htables hrecd _).bind fun p hp => ?_
      obtain ⟨recd', err⟩ := p
      refine (returns_applyDecodeCorrections htables hroots hgen.const hz hp err).bind
        fun s hs => returns_some (Or.inr ⟨rfl, c u, l u, hfin.located hle hcard, hs⟩)

theorem runDecode_none (htables : tables.Sound) (htt : 0 < tt) (state : DecodeState tt)
    (hs : Measured state.s σ) (hover : Overflows σ tt) (recd : Vector ℤ nn) :
    runDecode tables recd state = none := by
  refine (returns_initializeBerlekampState htt hs state.toTable).bind_none fun t ht => ?_
  have hrun : runBerlekampIterations tables state.s t = none :=
    (faithful_ops htables hs).run_none hover htt
      (fun h hzeroth hrow => updateBerlekampWithDiscrepancy_none htt h hzeroth hrow tables)
      (progress_initial ht)
  rw [hrun]
  rfl

variable {w : Vector Gf64 nn}

/-- A word with every syndrome zero comes out as it went in. -/
theorem returns_decode_clean (htables : tables.Sound)
    (hclean : ∀ k, 0 < k → k ≤ 2 * tt → PowerSeries.coeff k (syndromes w) = 0) (recd : Vector ℤ nn)
    (state : DecodeState tt) : decode tables (symbols w) recd state = some (0, symbols w) := by
  have hreturns : Returns (decode tables (symbols w) recd state) fun s => s = (0, symbols w) := by
    refine (returns_convertPolyToIndexWord htables (inPolyForm_symbols w) recd).bind
      fun recd₁ h₁ => ?_
    refine (returns_computeIndexSyndromes htables h₁ state.s).bind fun p hp => ?_
    obtain ⟨synError, s⟩ := p
    refine returns_ite (fun _ => ?_) fun hne => absurd (hp.2.mpr hclean) hne
    refine (returns_convertIndexToPolyWord htables h₁).bind fun recd₂ h₂ => returns_some ?_
    rw [h₂.eq_symbols]
  obtain ⟨s, hs, rfl⟩ := hreturns
  exact hs

/-- A word with a syndrome set is given up or put right. -/
theorem returns_decode (htables : tables.Sound) (htt : 0 < tt)
    (hfree : ¬ Overflows (syndromes w) tt)
    (hset : ¬ ∀ k, 0 < k → k ≤ 2 * tt → PowerSeries.coeff k (syndromes w) = 0) (recd : Vector ℤ nn)
    (state : DecodeState tt) :
    Returns (decode tables (symbols w) recd state) fun s =>
      Decoded (syndromes w) tt (symbols w) (symbolAt w) s.1 s.2 := by
  refine (returns_convertPolyToIndexWord htables (inPolyForm_symbols w) recd).bind
    fun recd₁ h₁ => ?_
  refine (returns_computeIndexSyndromes htables h₁ state.s).bind fun p hp => ?_
  obtain ⟨synError, s⟩ := p
  refine returns_ite (fun hzero => absurd (hp.2.mp hzero) hset) fun _ => ?_
  refine (returns_runDecode htables htt { state with s := s } hp.1 h₁ hfree).bind
    fun p hrun => ?_
  obtain ⟨irrecoverable, recd₂⟩ := p
  dsimp only at hrun ⊢
  obtain ⟨rfl, rfl, hfailed⟩ | ⟨rfl, c, degree, hloc, hcor⟩ := hrun
  · refine returns_ite (fun _ => ?_) fun h => absurd one_ne_zero h
    refine (returns_convertIndexToPolyWord htables h₁).bind fun recd₃ h₃ => returns_some ?_
    exact Or.inl ⟨rfl, h₃.eq_symbols, hfailed⟩
  · refine returns_ite (fun h => absurd rfl h) fun _ => returns_some ?_
    exact Or.inr ⟨rfl, c, degree, hloc, hcor⟩

theorem decode_none (htables : tables.Sound) (htt : 0 < tt) (hover : Overflows (syndromes w) tt)
    (recd : Vector ℤ nn) (state : DecodeState tt) :
    decode tables (symbols w) recd state = none := by
  refine (returns_convertPolyToIndexWord htables (inPolyForm_symbols w) recd).bind_none
    fun recd₁ h₁ => ?_
  refine (returns_computeIndexSyndromes htables h₁ state.s).bind_none fun p hp => ?_
  obtain ⟨synError, s⟩ := p
  have hset : synError ≠ false := fun hzero =>
    hover.2 (hp.2.mp hzero (2 * tt) (by omega) le_rfl)
  dsimp only
  rw [if_neg hset, runDecode_none htables htt { state with s := s } hp.1 hover recd₁]
  rfl

/-- The syndrome of a word at a power of the primitive element. -/
def syndrome (w : Vector Gf64 nn) (k : ℕ) : Gf64 :=
  ∑ j ∈ Finset.range nn, symbolAt w j * power j ^ k

theorem coeff_syndromes (w : Vector Gf64 nn) (k : ℕ) :
    PowerSeries.coeff k (syndromes w) = syndrome w k := coeff_powerSums k

/-- Every access of a call is inside its array, whatever the memory holds before it, exactly
when some syndrome before the last is set or the last is not. -/
theorem decode_in_range_iff (codec : Codec) (htt : 0 < tt) (w : Vector Gf64 nn)
    (recd : Vector ℤ nn) (state : DecodeState tt) :
    (decode codec.tables (symbols w) recd state).isSome ↔
      (∃ k, 0 < k ∧ k < 2 * tt ∧ syndrome w k ≠ 0) ∨ syndrome w (2 * tt) = 0 := by
  have hover : Overflows (syndromes w) tt ↔
      ¬ ((∃ k, 0 < k ∧ k < 2 * tt ∧ syndrome w k ≠ 0) ∨ syndrome w (2 * tt) = 0) := by
    simp only [Overflows, coeff_syndromes]
    push Not
    rfl
  constructor
  · intro hsome
    by_contra hbad
    rw [decode_none codec.sound htt (hover.mpr hbad) recd state] at hsome
    exact absurd hsome Bool.false_ne_true
  · intro hgood
    have hfree : ¬ Overflows (syndromes w) tt := fun h => hover.mp h hgood
    by_cases hclean : ∀ k, 0 < k → k ≤ 2 * tt → PowerSeries.coeff k (syndromes w) = 0
    · rw [returns_decode_clean codec.sound hclean recd state]
      rfl
    · obtain ⟨s, hs, -⟩ := returns_decode codec.sound htt hfree hclean recd state
      rw [hs]
      rfl

/-- A decoder object built in cleared memory. -/
def clearedCodec : Codec := Codec.make ⟨Vector.replicate 64 0, Vector.replicate 64 0⟩

/-- Arrays that hold nothing but zeros before the call. -/
def clearedState (tt : ℕ) : DecodeState tt where
  elp := Vector.replicate _ (Vector.replicate _ 0)
  d := Vector.replicate _ 0
  l := Vector.replicate _ 0
  uLu := Vector.replicate _ 0
  s := Vector.replicate _ 0
  root := Vector.replicate _ 0
  loc := Vector.replicate _ 0
  z := Vector.replicate _ 0
  err := Vector.replicate _ 0
  reg := Vector.replicate _ 0

/-- The polynomial with the first seven powers as roots, as a word. -/
def strayWord : Vector Gf64 nn :=
  Vector.ofFn fun i => ⟨(([28, 29, 17, 26, 25, 5, 59, 1] : List (BitVec 6))[i.val]?).getD 0⟩

/-- On this word the decoder reads outside its arrays. -/
theorem decode_strayWord : decode clearedCodec.tables (symbols strayWord) (Vector.replicate nn 0)
    (clearedState 4) = none := by
  decide +kernel

/-- On the zero word the decoder stays inside its arrays. -/
theorem decode_in_range_zeros :
    (decode clearedCodec.tables (symbols (Vector.replicate nn 0)) (Vector.replicate nn 0)
      (clearedState 4)).isSome :=
  (decode_in_range_iff clearedCodec (by decide) _ _ _).mpr (Or.inr (by decide))

/-- The sum of two words, symbol by symbol. -/
def addWords (w e : Vector Gf64 nn) : Vector Gf64 nn := Vector.zipWith (· + ·) w e

/-- The positions where a word is not zero. -/
def support (e : Vector Gf64 nn) : Finset ℕ := (Finset.range nn).filter fun j => symbolAt e j ≠ 0

theorem symbolAt_addWords (w e : Vector Gf64 nn) (j : ℕ) :
    symbolAt (addWords w e) j = symbolAt w j + symbolAt e j := by
  by_cases hj : j < nn
  · rw [symbolAt, symbolAt, symbolAt, addWords, Vector.getElem?_zipWith,
      getElem?_eq_some_getElem hj, getElem?_eq_some_getElem hj]
    rfl
  · have hnone : ∀ v : Vector Gf64 nn, v[j]? = none := fun v =>
      Vector.getElem?_eq_none (Nat.not_lt.mp hj)
    rw [symbolAt, symbolAt, symbolAt, hnone, hnone, hnone]
    rfl

theorem correctable_addWords {e : Vector Gf64 nn} (hw : ∀ k, 0 < k → k ≤ 2 * tt → syndrome w k = 0)
    (he : (support e).card ≤ tt) :
    Correctable (syndromes (addWords w e)) tt (support e) (symbolAt e) where
  positions := filter_subset _ _
  few := he
  nonzero p hp := (mem_filter.mp hp).2
  sums k hk hk2 := by
    rw [coeff_syndromes, coeff_powerSums, syndrome, support, sum_filter]
    have hsplit : ∀ j, symbolAt (addWords w e) j * power j ^ k =
        symbolAt w j * power j ^ k +
          if symbolAt e j ≠ 0 then symbolAt e j * power j ^ k else 0 := by
      intro j
      rw [symbolAt_addWords, add_mul]
      refine congrArg (symbolAt w j * power j ^ k + ·) ?_
      by_cases hne : symbolAt e j = 0
      · rw [if_neg (not_not.mpr hne), hne, zero_mul]
      · rw [if_pos hne]
    simp only [hsplit, sum_add_distrib]
    have hzero := hw k hk hk2
    rw [syndrome] at hzero
    rw [hzero, zero_add]

variable {e : Finset ℕ}

theorem errorAt_eq {y : ℕ → Gf64} (h : Correctable σ tt e y) {p : ℕ} (hp : p ∈ e) :
    errorAt (locator e power) σ e.card p = y p := by
  have hpositions := Correctable.errorPositions_locator h.positions
  have hcoeff : ∀ j ∈ Finset.range (e.card + 1),
      evaluatorCoeff (locator e power) σ j * (power p)⁻¹ ^ j =
        (locator e power).coeff j * (power p)⁻¹ ^ j +
          (evaluator e power y).coeff j * (power p)⁻¹ ^ j := by
    intro j hj
    have hj' := mem_range.mp hj
    have hfew := h.few
    rw [evaluatorCoeff, coeff_evaluator, add_mul]
    refine congrArg (_ + · * _) (sum_congr rfl fun i hi => ?_)
    have hi' := mem_range.mp hi
    rw [h.sums (j - i) (by omega) (by omega)]
  have hvalue : evaluatorAt (locator e power) σ e.card (power p)⁻¹ =
      y p * ∏ m ∈ e.erase p, (1 - power m * (power p)⁻¹) := by
    rw [evaluatorAt, sum_congr rfl hcoeff, sum_add_distrib,
      ← eval_eq_sum_range' (Nat.lt_succ_of_le natDegree_locator_le),
      ← eval_eq_sum_range' (Nat.lt_succ_of_le natDegree_evaluator_le),
      eval_locator_inv hp (power_ne_zero p), zero_add,
      eval_evaluator hp (power_ne_zero p)]
  have hother := otherFactors_ne_zero (hpositions.symm ▸ hp)
  rw [errorAt, hvalue, otherFactors, hpositions]
  rw [otherFactors, hpositions] at hother
  exact mul_div_cancel_right₀ _ hother

/-- An error of at most as many symbols as the code is designed for is put right, and a word
that is given up comes out as it went in. -/
theorem decode_corrects (codec : Codec) (htt : 0 < tt) (recd : Vector ℤ nn)
    (state : DecodeState tt) :
    (∀ w e : Vector Gf64 nn, (∀ k, 0 < k → k ≤ 2 * tt → syndrome w k = 0) →
        (support e).card ≤ tt →
        decode codec.tables (symbols (addWords w e)) recd state = some (0, symbols w)) ∧
      ∀ w out, decode codec.tables (symbols w) recd state = some (1, out) → out = symbols w := by
  constructor
  · intro w e hw he
    have hcorrectable := correctable_addWords hw he
    have hfree := hcorrectable.not_overflows htt
    by_cases hclean : ∀ k, 0 < k → k ≤ 2 * tt →
        PowerSeries.coeff k (syndromes (addWords w e)) = 0
    · -- Nothing of the error is seen, so there is none.
      have hempty : ∀ p ∈ support e, symbolAt e p = 0 :=
        eq_zero_of_sums (injOn_power hcorrectable.positions)
          (fun p _ => power_ne_zero p) 1 fun k hk hkc => by
            rw [← coeff_powerSums, ← hcorrectable.sums k hk (by omega)]
            exact hclean k hk (by omega)
      have hsame : addWords w e = w := by
        refine Vector.ext fun j hj => ?_
        have hsymbol : ∀ v : Vector Gf64 nn, symbolAt v j = v[j] := fun v => by
          rw [symbolAt, getElem?_eq_some_getElem hj, Option.getD_some]
        rw [← hsymbol, ← hsymbol, symbolAt_addWords]
        have hzero : symbolAt e j = 0 := by
          by_contra hne
          exact hne (hempty j (mem_filter.mpr ⟨mem_range.mpr hj, hne⟩))
        rw [hzero, add_zero]
      rw [returns_decode_clean codec.sound hclean recd state, hsame]
    · obtain ⟨⟨result, out⟩, hs, hdecoded⟩ :=
        returns_decode codec.sound htt hfree hclean recd state
      rw [hs]
      obtain ⟨-, -, hfailed⟩ | ⟨rfl, c, degree, hloc, hcor⟩ := hdecoded
      · exact absurd hfailed hcorrectable.not_failed
      · obtain ⟨rfl, hpositions, rfl⟩ := hcorrectable.located hloc
        have hword : InPolyForm out (symbolAt w) := fun j hj => by
          rw [hcor j hj, corrected, hpositions, symbolAt_addWords]
          refine congrArg (fun a => some (polyForm a)) ?_
          by_cases hmem : j ∈ support e
          · rw [if_pos hmem, errorAt_eq hcorrectable hmem, add_assoc, CharTwo.add_self_eq_zero,
              add_zero]
          · have hzero : symbolAt e j = 0 := by
              by_contra hne
              exact hmem (mem_filter.mpr ⟨mem_range.mpr hj, hne⟩)
            rw [if_neg hmem, hzero, add_zero]
        rw [hword.eq_symbols]
  · intro w out hout
    by_cases hover : Overflows (syndromes w) tt
    · rw [decode_none codec.sound htt hover recd state] at hout
      exact absurd hout.symm (Option.some_ne_none _)
    · by_cases hclean : ∀ k, 0 < k → k ≤ 2 * tt → PowerSeries.coeff k (syndromes w) = 0
      · rw [returns_decode_clean codec.sound hclean recd state] at hout
        exact absurd (congrArg Prod.fst (Option.some.inj hout)) zero_ne_one
      · obtain ⟨s, hs, hdecoded⟩ := returns_decode codec.sound htt hover hclean recd state
        rw [hout] at hs
        obtain rfl := Option.some.inj hs
        obtain ⟨-, heq, -⟩ | ⟨hzero, -⟩ := hdecoded
        · exact heq
        · exact absurd hzero one_ne_zero

/-- Four symbols of the word changed. -/
def fourErrors : Vector Gf64 nn :=
  Vector.ofFn fun i => if i.val = 3 ∨ i.val = 17 ∨ i.val = 40 ∨ i.val = 62 then ⟨21⟩ else 0

/-- A word with four errors. -/
theorem decode_corrects_fourErrors :
    decode clearedCodec.tables (symbols (addWords (Vector.replicate nn 0) fourErrors))
      (Vector.replicate nn 0) (clearedState 4) = some (0, symbols (Vector.replicate nn 0)) :=
  (decode_corrects clearedCodec (by decide) _ _).1 _ _
    (fun k hk hk2 => by interval_cases k <;> decide) (by decide)

/-- A word that the code can send. -/
def IsCodeword (tt : ℕ) (w : Vector Gf64 nn) : Prop := ∀ k, 0 < k → k ≤ 2 * tt → syndrome w k = 0

theorem symbolAt_inj {v : Vector Gf64 nn} (h : ∀ j < nn, symbolAt v j = symbolAt w j) : v = w := by
  refine Vector.ext fun j hj => ?_
  have hj' := h j hj
  rwa [symbolAt, symbolAt, getElem?_eq_some_getElem hj, getElem?_eq_some_getElem hj] at hj'

/-- The word with errors of some weights at some positions. -/
def errorWord (e : Finset ℕ) (y : ℕ → Gf64) : Vector Gf64 nn :=
  Vector.ofFn fun j => if j.val ∈ e then y j else 0

theorem symbolAt_errorWord (he : e ⊆ Finset.range nn) (y : ℕ → Gf64) (j : ℕ) :
    symbolAt (errorWord e y) j = if j ∈ e then y j else 0 := by
  by_cases hj : j < nn
  · rw [symbolAt, errorWord, getElem?_eq_some_getElem (by omega), Vector.getElem_ofFn,
      Option.getD_some]
  · rw [symbolAt, Vector.getElem?_eq_none (Nat.not_lt.mp hj), Option.getD_none,
      if_neg fun hmem => hj (mem_range.mp (he hmem))]

theorem syndrome_addWords (w e : Vector Gf64 nn) (k : ℕ) :
    syndrome (addWords w e) k = syndrome w k + syndrome e k := by
  simp only [syndrome, symbolAt_addWords, add_mul, sum_add_distrib]

theorem isCodeword_addWords {y : ℕ → Gf64} (h : Correctable (syndromes w) tt e y) :
    IsCodeword tt (addWords w (errorWord e y)) := by
  intro k hk hk2
  have hsums := h.sums k hk hk2
  have herror : syndrome (errorWord e y) k = ∑ p ∈ e, y p * power p ^ k := by
    rw [syndrome, ← sum_subset h.positions]
    · refine sum_congr rfl fun p hp => ?_
      rw [symbolAt_errorWord h.positions, if_pos hp]
    · intro p _ hp
      rw [symbolAt_errorWord h.positions, if_neg hp, zero_mul]
  rw [coeff_syndromes, coeff_powerSums] at hsums
  rw [syndrome_addWords, herror, hsums]
  exact CharTwo.add_self_eq_zero _

theorem addWords_cancel (w e : Vector Gf64 nn) : addWords (addWords w e) e = w := by
  refine symbolAt_inj fun j _ => ?_
  rw [symbolAt_addWords, symbolAt_addWords, add_assoc, CharTwo.add_self_eq_zero, add_zero]

/-- A run that returns has either found the codeword at most `tt` symbols away, or there is none
and the word comes out as it went in. -/
theorem decode_nearest_or_none (codec : Codec) (htt : 0 < tt) (w : Vector Gf64 nn)
    (recd : Vector ℤ nn) (state : DecodeState tt) {result : ℤ} {out : Vector ℤ nn}
    (hrun : decode codec.tables (symbols w) recd state = some (result, out)) :
    result = 0 ∧ (∃ c e, IsCodeword tt c ∧ w = addWords c e ∧ (support e).card ≤ tt ∧
        out = symbols c) ∨
      result = 1 ∧ out = symbols w ∧
        ∀ c e, IsCodeword tt c → w = addWords c e → tt < (support e).card := by
  by_cases hover : Overflows (syndromes w) tt
  · rw [decode_none codec.sound htt hover recd state] at hrun
    exact absurd hrun.symm (Option.some_ne_none _)
  · by_cases hclean : ∀ k, 0 < k → k ≤ 2 * tt → PowerSeries.coeff k (syndromes w) = 0
    · rw [returns_decode_clean codec.sound hclean recd state] at hrun
      obtain ⟨rfl, rfl⟩ := Prod.mk.inj (Option.some.inj hrun)
      have hnone : ∀ j, symbolAt (errorWord ∅ 0) j = 0 := fun j =>
        symbolAt_errorWord (empty_subset _) 0 j
      refine .inl ⟨rfl, w, errorWord ∅ 0, fun k hk hk2 => ?_, symbolAt_inj fun j _ => ?_, ?_, rfl⟩
      · rw [← coeff_syndromes]
        exact hclean k hk hk2
      · rw [symbolAt_addWords, hnone, add_zero]
      · rw [support, filter_false_of_mem fun j _ => not_not.mpr (hnone j), card_empty]
        exact Nat.zero_le _
    · obtain ⟨s, hs, hdecoded⟩ := returns_decode codec.sound htt hover hclean recd state
      rw [hrun] at hs
      obtain rfl := Option.some.inj hs
      obtain ⟨hone, hout, hfailed⟩ | ⟨hzero, c, degree, hloc, hcor⟩ := hdecoded
      · refine .inr ⟨hone, hout, fun c e hc hw => Nat.lt_of_not_le fun he => ?_⟩
        rw [hw] at hfailed
        exact (correctable_addWords hc he).not_failed hfailed
      · obtain ⟨y, hy⟩ := hloc.correctable
        obtain ⟨hlocator, -, hdegree⟩ := hy.located hloc
        refine .inl ⟨hzero, _, errorWord (errorPositions c) y, isCodeword_addWords hy,
          (addWords_cancel w _).symm, (card_le_card ?_).trans hy.few,
          InPolyForm.eq_symbols fun j hj => ?_⟩
        · intro j hj
          by_contra hmem
          refine (mem_filter.mp hj).2 ?_
          rw [symbolAt_errorWord hy.positions, if_neg hmem]
        · rw [hcor j hj, corrected, symbolAt_addWords, symbolAt_errorWord hy.positions]
          split
          · rename_i hmem
            have hvalue := errorAt_eq hy hmem
            rw [← hlocator, ← hdegree] at hvalue
            rw [hvalue]
          · rw [add_zero]

/-- The same errors, by the nearest code word. -/
theorem decode_nearest_or_none_fourErrors : ∃ c e, IsCodeword 4 c ∧
    addWords (Vector.replicate nn 0) fourErrors = addWords c e ∧ (support e).card ≤ 4 ∧
      symbols (Vector.replicate nn 0) = symbols c :=
  ((decode_nearest_or_none clearedCodec (by decide) (addWords (Vector.replicate nn 0) fourErrors)
    (Vector.replicate nn 0) (clearedState 4) (by decide +kernel)).resolve_right
      fun h => zero_ne_one h.1).2

end DsdNeo.ReedSolomon
