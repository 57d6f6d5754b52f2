import DsdNeo.Models.Fec.ReedSolomon

/-!
# What each part of the Reed-Solomon decoder computes

In terms of the field: the words in either form, the syndromes as power sums of the
symbols, the roots of the locator as positions of the word, and the correction at a
position as the evaluator there over the product of the other factors.
-/

namespace DsdNeo.ReedSolomon

open Galois Program Polynomial Fec Gf64 Finset

variable {tt : ℕ} {σ : PowerSeries Gf64} {s : Vector ℤ (2 * tt + 1)} {tables : Tables}
  {recd recd' : Vector ℤ nn} {r : ℕ → Gf64} {c : Gf64[X]} {degree : ℕ}

/-- A word of symbols as the decoder reads it. -/
def symbols (w : Vector Gf64 nn) : Vector ℤ nn := w.map polyForm

/-- A symbol of a word, zero after its end. -/
def symbolAt (w : Vector Gf64 nn) (j : ℕ) : Gf64 := w[j]?.getD 0

/-- The syndromes of a word, all of them. -/
noncomputable def syndromes (w : Vector Gf64 nn) : PowerSeries Gf64 :=
  powerSums (Finset.range nn) power (symbolAt w)

/-- A word in polynomial form. -/
def InPolyForm (recd : Vector ℤ nn) (r : ℕ → Gf64) : Prop :=
  ∀ j < nn, recd[j]? = some (polyForm (r j))

/-- A word in index form. -/
def InIndexForm (recd : Vector ℤ nn) (r : ℕ → Gf64) : Prop :=
  ∀ j < nn, recd[j]? = some (indexForm (r j))

theorem inPolyForm_symbols (w : Vector Gf64 nn) : InPolyForm (symbols w) (symbolAt w) := by
  intro j hj
  rw [symbols, Vector.getElem?_map, symbolAt, getElem?_eq_some_getElem hj, Option.map_some,
    Option.getD_some]

theorem InPolyForm.eq_symbols {w : Vector Gf64 nn} (h : InPolyForm recd (symbolAt w)) :
    recd = symbols w := by
  refine Vector.ext fun j hj => Option.some.inj ?_
  rw [← getElem?_eq_some_getElem hj, ← getElem?_eq_some_getElem hj, h j hj,
    inPolyForm_symbols w j hj]

/-- A word is turned to index form. -/
theorem returns_convertPolyToIndexWord (htables : tables.Sound) {input : Vector ℤ nn}
    (h : InPolyForm input r) (recd : Vector ℤ nn) :
    Returns (convertPolyToIndexWord tables input recd) fun recd' => InIndexForm recd' r := by
  refine returns_forRange (fun i recd => ∀ j < i, recd[j]? = some (indexForm (r j)))
    (Nat.zero_le nn) (fun j hj => absurd hj (Nat.not_lt_zero j)) fun i recd _ hi hinv => ?_
  refine returns_bind_some (h i hi) (returns_bind_some (htables.readAt_indexOf _) ?_)
  refine (returns_store hi).mono fun recd' hs j hj => ?_
  exact hs.upTo (by rintro rfl; rfl) (hinv j) hj

/-- A word is turned back to polynomial form. -/
theorem returns_convertIndexToPolyWord (htables : tables.Sound) (h : InIndexForm recd r) :
    Returns (convertIndexToPolyWord tables recd) fun recd' => InPolyForm recd' r := by
  refine (returns_forRange (fun i recd' => (∀ j < i, recd'[j]? = some (polyForm (r j))) ∧
      ∀ j, i ≤ j → recd'[j]? = recd[j]?)
    (Nat.zero_le nn) ⟨fun j hj => absurd hj (Nat.not_lt_zero j), fun _ _ => rfl⟩
    fun i recd' _ hi hinv => ?_).mono fun recd' h => h.1
  refine returns_bind_some ((hinv.2 i le_rfl).trans (h i hi)) ?_
  refine (returns_toPoly htables _).bind fun x hx => ?_
  rw [hx]
  refine (returns_store hi).mono fun recd'' hs => ⟨fun j hj => ?_, fun j hij => ?_⟩
  · exact hs.upTo (by rintro rfl; rfl) (hinv.1 j) hj
  · exact (hs.rest j (by omega)).trans (hinv.2 j (by omega))

theorem returns_addSymbol (htables : tables.Sound) (h : InIndexForm recd r) {i j : ℕ} {g : Gf64}
    (hj : j < nn) (hi : i < 2 * tt + 1) (hs : s[i]? = some (polyForm g)) :
    Returns (addSymbol tables recd i j s) fun s' =>
      s'[i]? = some (polyForm (g + r j * power j ^ i)) ∧ ∀ k, k ≠ i → s'[k]? = s[k]? := by
  refine returns_bind_some (h j hj) (returns_ite (fun hne => ?_) fun hz => ?_)
  · have hr : r j ≠ 0 := fun h0 => hne (indexForm_eq_neg_one.mpr h0)
    refine returns_bind_some (htables.readAt_alphaTo_shift hr (i * j)) ?_
    refine returns_bind_some hs ((returns_store hi).mono fun s' hs' => ⟨?_, hs'.rest⟩)
    rw [hs'.here, polyForm_add, power_mul_eq_pow]
  · have hr : r j = 0 := by
      by_contra hne
      exact hz fun heq => hne (indexForm_eq_neg_one.mp heq)
    refine returns_some ⟨?_, fun _ _ => rfl⟩
    rw [hr, zero_mul, add_zero, hs]

/-- The syndromes are measured. -/
theorem returns_computeIndexSyndromes (htables : tables.Sound) (h : InIndexForm recd r)
    (s : Vector ℤ (2 * tt + 1)) :
    Returns (computeIndexSyndromes tables recd s) fun p =>
      Measured p.2 (powerSums (Finset.range nn) power r) ∧
        (p.1 = false ↔ ∀ k, 0 < k → k ≤ 2 * tt →
          PowerSeries.coeff k (powerSums (Finset.range nn) power r) = 0) := by
  refine (returns_store (Nat.succ_pos _)).bind fun s₀ _ => ?_
  refine (returns_forRange (fun (i : ℕ) (p : Bool × Vector ℤ (2 * tt + 1)) =>
    (∀ k, 0 < k → k < i → p.2[k]? =
      some (indexForm (PowerSeries.coeff k (powerSums (Finset.range nn) power r)))) ∧
    (p.1 = false ↔ ∀ k, 0 < k → k < i →
      PowerSeries.coeff k (powerSums (Finset.range nn) power r) = 0))
    (by omega) ⟨fun k _ _ => by omega, ⟨fun _ k _ _ => by omega, fun _ => rfl⟩⟩ ?_).mono ?_
  · rintro i ⟨synError, s⟩ hlo hhi ⟨hdone, hflag⟩
    dsimp only at hdone hflag ⊢
    refine (returns_store hhi).bind fun s₁ h₁ => ?_
    have hloop := returns_forRange (s := s₁) (a := 0) (b := nn)
      (f := fun j s => addSymbol tables recd i j s)
      (fun j s' => s'[i]? = some (polyForm (∑ k ∈ Finset.range j, r k * power k ^ i)) ∧
        ∀ k, k ≠ i → s'[k]? = s₁[k]?)
      (Nat.zero_le nn) ⟨h₁.here, fun _ _ => rfl⟩ fun j s' _ hj hinv => ?_
    · refine hloop.bind fun s₂ h₂ => ?_
      rw [← coeff_powerSums] at h₂
      refine returns_bind_some h₂.1 (returns_bind_some h₂.1 ?_)
      refine returns_bind_some (htables.readAt_indexOf _) ?_
      refine (returns_store hhi).bind fun s₃ h₃ => returns_some ⟨fun k hk hki => ?_, ?_⟩
      · obtain rfl | hlt := (Nat.lt_succ_iff.mp hki).eq_or_lt
        · exact h₃.here
        · rw [h₃.rest k hlt.ne, h₂.2 k hlt.ne, h₁.rest k hlt.ne, hdone k hk hlt]
      · dsimp only
        rw [forall_pos_lt_succ hlo]
        by_cases hzero : PowerSeries.coeff i (powerSums (Finset.range nn) power r) = 0
        · rw [if_neg (not_not.mpr (polyForm_eq_zero.mpr hzero)), hflag]
          exact (and_iff_left hzero).symm
        · rw [if_pos (polyForm_eq_zero.not.mpr hzero)]
          exact ⟨fun h => absurd h.symm Bool.false_ne_true, fun hall => absurd hall.2 hzero⟩
    · refine (returns_addSymbol htables h hj hhi hinv.1).mono fun s'' h'' => ⟨?_, fun k hk => ?_⟩
      · rw [sum_range_succ]
        exact h''.1
      · exact (h''.2 k hk).trans (hinv.2 k hk)
  · rintro p ⟨hdone, hflag⟩
    refine ⟨fun k hk hk2 => hdone k hk (by omega), hflag.trans ⟨fun hall k hk hk2 => ?_, ?_⟩⟩
    · exact hall k hk (by omega)
    · exact fun hall k hk hk2 => hall k hk (by omega)

/-- The row at hand as coefficients of the locator in index form. -/
def RowOf (locator : Vector ℤ (2 * tt)) (c : Gf64[X]) (degree : ℕ) : Prop :=
  ∀ i ≤ degree, locator[i]? = some (indexForm (c.coeff i))

variable {locator : Vector ℤ (2 * tt)}

/-- The search counts the roots and lists them with their positions. -/
theorem returns_findDecodeRoots (htables : tables.Sound) (hdeg : degree ≤ tt)
    (hrow : RowOf locator c degree) (hconst : c.coeff 0 = 1) (hdegree : c.natDegree ≤ degree)
    (reg : Vector ℤ (tt + 1)) (root loc : Vector ℕ tt) :
    Returns (findDecodeRoots tables locator degree reg root loc) fun f =>
      f.count = (rootsUpTo c nn).length ∧ ∀ k < f.count,
        f.root[k]? = (rootsUpTo c nn)[k]? ∧ f.loc[k]? = ((rootsUpTo c nn).map (nn - ·))[k]? := by
  refine (returns_loadRegisters hdeg hrow reg).bind fun reg hreg => ?_
  refine (returns_forRange (fun (i : ℕ) (f : Found tt) => RegistersAt f.reg c degree (i - 1) ∧
    f.count = (rootsUpTo c (i - 1)).length ∧ ∀ k < f.count,
      f.root[k]? = (rootsUpTo c (i - 1))[k]? ∧
        f.loc[k]? = ((rootsUpTo c (i - 1)).map (nn - ·))[k]?)
    (by omega) ⟨hreg, rfl, fun k hk => absurd hk (Nat.not_lt_zero k)⟩ ?_).mono fun f hf => hf.2
  rintro i f hlo hhi ⟨hregs, hcount, hfound⟩
  have hnext : i - 1 + 1 = i := Nat.sub_add_cancel hlo
  refine (returns_nextValue htables hdeg hconst hdegree hregs).bind fun p hp => ?_
  obtain ⟨q, reg'⟩ := p
  obtain ⟨hq, hreg'⟩ := hp
  dsimp only at hq hreg' ⊢
  have hlist := rootsUpTo_succ c (i - 1)
  rw [hnext] at hlist hq hreg'
  rw [hq, Nat.add_sub_cancel]
  refine returns_ite (fun hzero => ?_) fun hne => ?_
  · rw [if_pos (polyForm_eq_zero.mp hzero)] at hlist
    have hroom : f.count < tt := by
      have hbound := length_rootsUpTo_le hconst hdegree (show i ≤ nn by omega)
      rw [hlist, List.length_append, List.length_singleton] at hbound
      omega
    refine (returns_store hroom).bind fun root' hroot => ?_
    refine (returns_store hroom).bind fun loc' hloc => returns_some ⟨hreg', ?_, fun k hk => ?_⟩
    · rw [hlist, List.length_append, List.length_singleton, ← hcount]
    · dsimp only at hk ⊢
      rw [hlist, List.map_append]
      constructor
      · exact hroot.append hcount.symm (fun k hk => (hfound k hk).1) hk
      · exact hloc.append (by rw [List.length_map, hcount]) (fun k hk => (hfound k hk).2) hk
  · rw [if_neg (fun h => hne (polyForm_eq_zero.mpr h)), List.append_nil] at hlist
    rw [hlist]
    exact returns_some ⟨hreg', hcount, hfound⟩

/-- A coefficient of the sum of the locator and its product with the syndromes. -/
noncomputable def evaluatorCoeff (c : Gf64[X]) (σ : PowerSeries Gf64) (i : ℕ) : Gf64 :=
  c.coeff i + ∑ j ∈ Finset.range i, c.coeff j * PowerSeries.coeff (i - j) σ

theorem returns_evaluatorHead (htables : tables.Sound) (a b : Gf64) :
    Returns (evaluatorHead tables (indexForm a) (indexForm b)) fun x => x = polyForm (a + b) := by
  by_cases ha : a = 0
  · by_cases hb : b = 0
    · rw [ha, hb]
      exact returns_some rfl
    · have hib := indexForm_eq_neg_one.not.mpr hb
      rw [ha, indexForm_zero, evaluatorHead, if_neg (fun h => h.1 rfl), if_neg (fun h => h.1 rfl),
        if_pos ⟨rfl, hib⟩, zero_add]
      exact ⟨_, htables.readAt_alphaTo_index hb, rfl⟩
  · have hia := indexForm_eq_neg_one.not.mpr ha
    by_cases hb : b = 0
    · rw [hb, indexForm_zero, evaluatorHead, if_neg (fun h => h.2 rfl), if_pos ⟨hia, rfl⟩, add_zero]
      exact ⟨_, htables.readAt_alphaTo_index ha, rfl⟩
    · have hib := indexForm_eq_neg_one.not.mpr hb
      rw [evaluatorHead, if_pos ⟨hia, hib⟩]
      refine returns_bind_some (htables.readAt_alphaTo_index ha) ?_
      refine returns_bind_some (htables.readAt_alphaTo_index hb) (returns_some ?_)
      rw [polyForm_add]

theorem returns_addEvaluator (htables : tables.Sound) {i j : ℕ} {z : Vector ℤ (tt + 1)}
    {a b g : Gf64} (hs : s[j]? = some (indexForm a)) (hl : locator[i - j]? = some (indexForm b))
    (hi : i < tt + 1) (hz : z[i]? = some (polyForm g)) :
    Returns (addEvaluator tables s locator i j z) fun z' =>
      z'[i]? = some (polyForm (g + b * a)) ∧ ∀ k, k ≠ i → z'[k]? = z[k]? := by
  refine returns_bind_some hs (returns_bind_some hl (returns_ite (fun hne => ?_) fun hzero => ?_))
  · have ha : a ≠ 0 := fun h0 => hne.1 (indexForm_eq_neg_one.mpr h0)
    have hb : b ≠ 0 := fun h0 => hne.2 (indexForm_eq_neg_one.mpr h0)
    refine returns_bind_some hz (returns_bind_some (htables.readAt_alphaTo_mul hb ha) ?_)
    refine (returns_store hi).mono fun z' hz' => ⟨?_, hz'.rest⟩
    rw [hz'.here, polyForm_add]
  · have hprod : b * a = 0 := by
      by_contra hne
      refine hzero ⟨indexForm_eq_neg_one.not.mpr ?_, indexForm_eq_neg_one.not.mpr ?_⟩
      · exact right_ne_zero_of_mul hne
      · exact left_ne_zero_of_mul hne
    refine returns_some ⟨?_, fun _ _ => rfl⟩
    rw [hprod, add_zero, hz]

/-- The error evaluator is built. -/
theorem returns_buildErrorEvaluator (htables : tables.Sound) (hs : Measured s σ)
    (hdeg : degree ≤ tt) (hrow : RowOf locator c degree) (hconst : c.coeff 0 = 1)
    (z : Vector ℤ (tt + 1)) :
    Returns (buildErrorEvaluator tables s locator degree z) fun z =>
      ∀ i, 0 < i → i ≤ degree → z[i]? = some (indexForm (evaluatorCoeff c σ i)) := by
  refine (returns_forRange (fun (i : ℕ) (z : Vector ℤ (tt + 1)) => ∀ k, 0 < k → k < i →
    z[k]? = some (indexForm (evaluatorCoeff c σ k))) (by omega) (fun k _ _ => by omega) ?_).mono
    fun z hz i hi hid => hz i hi (by omega)
  intro i z hlo hhi hdone
  refine returns_bind_some (hs i hlo (by omega)) (returns_bind_some (hrow i (by omega)) ?_)
  refine (returns_evaluatorHead htables _ _).bind fun x hx => ?_
  rw [hx]
  refine (returns_store (by omega)).bind fun z₁ h₁ => ?_
  have hloop := returns_forRange (s := z₁) (a := 1) (b := i)
    (f := fun j z => addEvaluator tables s locator i j z)
    (fun j z' => z'[i]? = some (polyForm (PowerSeries.coeff i σ + c.coeff i +
        ∑ k ∈ Finset.range (j - 1), c.coeff (i - (k + 1)) * PowerSeries.coeff (k + 1) σ)) ∧
      ∀ k, k ≠ i → z'[k]? = z₁[k]?)
    hlo ?_ fun j z' hj hji hinv => ?_
  · refine hloop.bind fun z₂ h₂ => ?_
    refine returns_bind_some h₂.1 (returns_bind_some (htables.readAt_indexOf _) ?_)
    refine (returns_store (by omega)).mono fun z₃ h₃ k hk hki => ?_
    obtain rfl | hlt := (Nat.lt_succ_iff.mp hki).eq_or_lt
    · rw [h₃.here]
      refine congrArg (fun a => some (indexForm a)) ?_
      obtain ⟨m, rfl⟩ := Nat.exists_eq_succ_of_ne_zero hk.ne'
      -- The source runs over the syndromes, the definition over the coefficients.
      rw [evaluatorCoeff, sum_range_succ', hconst, one_mul, Nat.sub_zero,
        Nat.succ_sub_one, ← sum_range_reflect, add_comm (PowerSeries.coeff _ σ), add_assoc,
        add_comm (PowerSeries.coeff _ σ)]
      refine congrArg (c.coeff _ + ·) (congrArg (· + PowerSeries.coeff _ σ) ?_)
      refine sum_congr rfl fun k hk => ?_
      have hk' := mem_range.mp hk
      rw [show m.succ - (k + 1) = m - 1 - k + 1 by omega,
        show m + 1 - (m - 1 - k + 1) = k + 1 by omega]
    · rw [h₃.rest k hlt.ne, h₂.2 k hlt.ne, h₁.rest k hlt.ne, hdone k hk hlt]
  · refine ⟨?_, fun _ _ => rfl⟩
    rw [Nat.sub_self, sum_range_zero, add_zero]
    exact h₁.here
  · refine (returns_addEvaluator htables (hs j hj (by omega)) (hrow (i - j) (by omega)) (by omega)
      hinv.1).mono fun z'' h'' => ⟨?_, fun k hk => (h''.2 k hk).trans (hinv.2 k hk)⟩
    rw [h''.1, Nat.add_sub_cancel, add_assoc]
    obtain ⟨m, rfl⟩ := Nat.exists_eq_succ_of_ne_zero (show j ≠ 0 by omega)
    rw [Nat.succ_sub_one, sum_range_succ]

/-!
# Runs of the Reed-Solomon decoder

What a run does to a word: nothing, when no syndrome is set or the locator has not as many
roots as its length, or else the correction of every position found. Every access of a run
is inside its array exactly when the word does not leave the last syndrome alone set.
-/

/-- The evaluator at an element. -/
noncomputable def evaluatorAt (c : Gf64[X]) (σ : PowerSeries Gf64) (degree : ℕ) (x : Gf64) : Gf64 :=
  ∑ j ∈ Finset.range (degree + 1), evaluatorCoeff c σ j * x ^ j

/-- The product of the factors of the other positions found. -/
noncomputable def otherFactors (c : Gf64[X]) (p : ℕ) : Gf64 :=
  ∏ m ∈ (errorPositions c).erase p, (1 - power m * (power p)⁻¹)

/-- The error that the decoder takes a position to have. -/
noncomputable def errorAt (c : Gf64[X]) (σ : PowerSeries Gf64) (degree p : ℕ) : Gf64 :=
  evaluatorAt c σ degree (power p)⁻¹ / otherFactors c p

theorem otherFactors_ne_zero {p : ℕ} (hp : p ∈ errorPositions c) : otherFactors c p ≠ 0 := by
  refine prod_ne_zero_iff.mpr fun m hm => sub_ne_zero.mpr fun h => ?_
  have hone : power m = power p := by
    rw [eq_comm, ← div_eq_mul_inv] at h
    exact (div_eq_one_iff_eq (power_ne_zero p)).mp h
  have hmem := mem_erase.mp hm
  exact hmem.1 (injOn_errorPositions c hmem.2 hp hone)

theorem returns_computeErrorNumerator (htables : tables.Sound) {z : Vector ℤ (tt + 1)}
    (hconst : c.coeff 0 = 1)
    (hz : ∀ i, 0 < i → i ≤ degree → z[i]? = some (indexForm (evaluatorCoeff c σ i))) (k : ℕ) :
    Returns (computeErrorNumerator tables k degree z) fun x =>
      x = polyForm (evaluatorAt c σ degree (power k)) := by
  refine returns_forRange (fun (j : ℕ) (x : ℤ) => x = polyForm (∑ i ∈ Finset.range j,
    evaluatorCoeff c σ i * power k ^ i)) (by omega) ?_ fun j x hlo hhi hx => ?_
  · rw [sum_range_one, evaluatorCoeff, sum_range_zero, add_zero, hconst, pow_zero,
      mul_one, polyForm_one]
  · refine returns_bind_some (hz j hlo (by omega)) (returns_ite (fun hne => ?_) fun hzero => ?_)
    · have hcoeff : evaluatorCoeff c σ j ≠ 0 := fun h0 => hne (indexForm_eq_neg_one.mpr h0)
      refine returns_bind_some (htables.readAt_alphaTo_shift hcoeff (j * k)) (returns_some ?_)
      rw [sum_range_succ, polyForm_add, hx, power_mul_eq_pow]
    · have hcoeff : evaluatorCoeff c σ j = 0 := by
        by_contra hne
        exact hzero fun heq => hne (indexForm_eq_neg_one.mp heq)
      refine returns_some ?_
      rw [sum_range_succ, hcoeff, zero_mul, add_zero]
      exact hx

/-- The roots found and their positions, as the arrays hold them. -/
structure FoundRoots (root loc : Vector ℕ tt) (c : Gf64[X]) (degree : ℕ) : Prop where
  count : (rootsUpTo c nn).length = degree
  root : ∀ k < degree, root[k]? = (rootsUpTo c nn)[k]?
  loc : ∀ k < degree, loc[k]? = ((rootsUpTo c nn).map (nn - ·))[k]?

open FoundRoots

namespace FoundRoots

variable {root loc : Vector ℕ tt}

/-- The position found at an index. -/
noncomputable def position (c : Gf64[X]) (k : ℕ) : ℕ :=
  (((rootsUpTo c nn).map (nn - ·))[k]?).getD 0

theorem length_positions (h : FoundRoots root loc c degree) :
    ((rootsUpTo c nn).map (nn - ·)).length = degree := by
  rw [List.length_map, h.count]

variable {k : ℕ}

theorem getElem?_positions (h : FoundRoots root loc c degree) (hk : k < degree) :
    ((rootsUpTo c nn).map (nn - ·))[k]? = some (position c k) := by
  rw [position, List.getElem?_eq_getElem (h.length_positions.symm ▸ hk), Option.getD_some]

theorem loc_eq (h : FoundRoots root loc c degree) (hk : k < degree) :
    loc[k]? = some (position c k) := (h.loc k hk).trans (h.getElem?_positions hk)

theorem position_mem (h : FoundRoots root loc c degree) (hk : k < degree) :
    position c k ∈ errorPositions c := by
  rw [← toFinset_rootsUpTo, List.mem_toFinset]
  exact List.mem_of_getElem? (h.getElem?_positions hk)

theorem position_lt (h : FoundRoots root loc c degree) (hk : k < degree) : position c k < nn :=
  mem_range.mp (mem_filter.mp (h.position_mem hk)).1

theorem root_eq (h : FoundRoots root loc c degree) (hk : k < degree) :
    root[k]? = some (nn - position c k) := by
  have hroot := h.root k hk
  have hlen : k < (rootsUpTo c nn).length := h.count.symm ▸ hk
  rw [List.getElem?_eq_getElem hlen] at hroot
  have hmem := (mem_rootsUpTo.mp (List.getElem_mem hlen)).1
  have hpos := h.getElem?_positions hk
  rw [List.getElem?_map, List.getElem?_eq_getElem hlen, Option.map_some, Option.some.injEq] at hpos
  rw [hroot, ← hpos, Nat.sub_sub_self hmem.2]

theorem position_injOn (h : FoundRoots root loc c degree) {j : ℕ} (hj : j < degree)
    (hk : k < degree) (heq : position c j = position c k) : j = k := by
  have hj' : j < ((rootsUpTo c nn).map (nn - ·)).length := h.length_positions.symm ▸ hj
  have hk' : k < ((rootsUpTo c nn).map (nn - ·)).length := h.length_positions.symm ▸ hk
  have hsame : ((rootsUpTo c nn).map (nn - ·))[j] = ((rootsUpTo c nn).map (nn - ·))[k] := by
    refine Option.some.inj ?_
    rw [← List.getElem?_eq_getElem hj', ← List.getElem?_eq_getElem hk', h.getElem?_positions hj,
      h.getElem?_positions hk, heq]
  exact (nodup_positions c).getElem_inj_iff.mp hsame

theorem exists_position (h : FoundRoots root loc c degree) {p : ℕ} (hp : p ∈ errorPositions c) :
    ∃ k < degree, position c k = p := by
  rw [← toFinset_rootsUpTo, List.mem_toFinset] at hp
  obtain ⟨k, hk, rfl⟩ := List.getElem_of_mem hp
  rw [h.length_positions] at hk
  refine ⟨k, hk, Option.some.inj ?_⟩
  rw [← h.getElem?_positions hk, List.getElem?_eq_getElem]

theorem prod_factors (h : FoundRoots root loc c degree) {i : ℕ} (hi : i < degree) (f : ℕ → Gf64) :
    ∏ j ∈ (Finset.range degree).erase i, f (position c j) =
      ∏ m ∈ (errorPositions c).erase (position c i), f m := by
  refine prod_bij (fun j _ => position c j) ?_ ?_ ?_ fun _ _ => rfl
  · intro j hj
    obtain ⟨hne, hj⟩ := mem_erase.mp hj
    have hj' := mem_range.mp hj
    exact mem_erase.mpr
      ⟨fun heq => hne (h.position_injOn hj' hi heq), h.position_mem hj'⟩
  · intro j hj k hk heq
    exact h.position_injOn (mem_range.mp (mem_erase.mp hj).2)
      (mem_range.mp (mem_erase.mp hk).2) heq
  · intro m hm
    obtain ⟨hne, hm⟩ := mem_erase.mp hm
    obtain ⟨k, hk, rfl⟩ := h.exists_position hm
    exact ⟨k, mem_erase.mpr ⟨fun heq => hne (heq ▸ rfl), mem_range.mpr hk⟩, rfl⟩

end FoundRoots

section Corrections

variable {root loc : Vector ℕ tt} {z : Vector ℤ (tt + 1)} {err : Vector ℤ nn} {i : ℕ}

theorem returns_computeErrorDenominatorExponent (htables : tables.Sound)
    (h : FoundRoots root loc c degree) (hi : i < degree) :
    Returns (computeErrorDenominatorExponent tables i degree root loc) fun e =>
      0 ≤ e ∧ e < 63 ∧ power e.toNat = otherFactors c (FoundRoots.position c i) := by
  let p := FoundRoots.position c i
  let factor : ℕ → Gf64 := fun m => 1 - power m * (power p)⁻¹
  have hp : p < nn := h.position_lt hi
  have hloop : Returns (forRange 0 degree (0 : ℤ) fun j denominator => do
      if j ≠ i then
        let e : ℤ := ((← loc[j]?) + (← root[i]?) : ℕ)
        let v ← readAt tables.alphaTo (e.tmod nn)
        pure (denominator + (← readAt tables.indexOf (Int.xor 1 v)))
      else
        pure denominator) fun e => 0 ≤ e ∧ power e.toNat =
          ∏ j ∈ (Finset.range degree).erase i, factor (FoundRoots.position c j) := by
    refine returns_forRange (fun (j : ℕ) (e : ℤ) => 0 ≤ e ∧ power e.toNat =
      ∏ k ∈ (Finset.range j).erase i, factor (FoundRoots.position c k)) (Nat.zero_le _)
      ⟨le_rfl, rfl⟩ fun j e _ hj hinv => ?_
    rw [range_add_one]
    refine returns_ite (fun hne => ?_) fun heq => ?_
    · refine returns_bind_some (h.loc_eq hj) (returns_bind_some (h.root_eq hi) ?_)
      let m := FoundRoots.position c j
      have hread : readAt tables.alphaTo (((m + (nn - p) : ℕ) : ℤ).tmod nn) =
          some (polyForm (power m * (power p)⁻¹)) := by
        refine (htables.readAt_alphaTo (Int.natCast_nonneg _)).trans ?_
        rw [Int.toNat_natCast, ← power_mul_power, ← inv_power hp.le]
      refine returns_bind_some hread ?_
      have hfactor : Int.xor 1 (polyForm (power m * (power p)⁻¹)) =
          polyForm (factor m) := by
        rw [← polyForm_one, ← polyForm_add, ← CharTwo.sub_eq_add]
      have hnonzero : factor m ≠ 0 := by
        have hmem : m ∈ (errorPositions c).erase p :=
          mem_erase.mpr ⟨fun heq => hne (h.position_injOn hj hi heq), h.position_mem hj⟩
        exact prod_ne_zero_iff.mp (otherFactors_ne_zero (h.position_mem hi)) m hmem
      rw [hfactor]
      refine returns_bind_some (htables.readAt_indexOf _) (returns_some ?_)
      have hindex := indexForm_nonneg hnonzero
      refine ⟨by omega, ?_⟩
      rw [Int.toNat_add hinv.1 hindex, ← power_mul_power, power_indexForm hnonzero, hinv.2,
        erase_insert_of_ne hne, prod_insert, mul_comm]
      exact fun hmem => notMem_range_self (mem_of_mem_erase hmem)
    · have hji : j = i := not_not.mp heq
      refine returns_some ⟨hinv.1, ?_⟩
      rw [hinv.2, hji, erase_insert_eq_erase]
  refine hloop.bind fun e he => returns_some ?_
  obtain ⟨hnonneg, hpower⟩ := he
  lift e to ℕ using hnonneg
  have hmod : ((e : ℤ)).tmod nn = ((e % 63 : ℕ) : ℤ) := (Int.ofNat_tmod e 63).symm
  have hlt := Nat.mod_lt e (show 0 < 63 by decide)
  rw [hmod]
  refine ⟨Int.natCast_nonneg _, by exact_mod_cast hlt, ?_⟩
  rw [Int.toNat_natCast, power_mod, otherFactors, ← h.prod_factors hi factor, ← hpower,
    Int.toNat_natCast]

theorem returns_correctOne (htables : tables.Sound) (h : FoundRoots root loc c degree)
    (hi : i < degree) (hconst : c.coeff 0 = 1)
    (hz : ∀ i, 0 < i → i ≤ degree → z[i]? = some (indexForm (evaluatorCoeff c σ i)))
    (hrecd : InPolyForm recd r) (err : Vector ℤ nn) :
    Returns (correctOne tables degree root loc z i (recd, err)) fun s =>
      InPolyForm s.1 (Function.update r (FoundRoots.position c i)
        (r (FoundRoots.position c i) + errorAt c σ degree (FoundRoots.position c i))) := by
  let p := FoundRoots.position c i
  have hp : p < nn := h.position_lt hi
  refine returns_bind_some (h.root_eq hi) ?_
  refine (returns_computeErrorNumerator htables hconst hz _).bind fun x hx => ?_
  have hroot : power (nn - p) = (power p)⁻¹ := (inv_power hp.le).symm
  have hx' : x = polyForm (evaluatorAt c σ degree (power p)⁻¹) := by rw [hx, ← hroot]
  refine returns_bind_some (h.loc_eq hi) ?_
  refine (returns_store hp).bind fun err₁ h₁ => ?_
  refine returns_ite (fun hne => ?_) fun hzero => ?_
  · have ha : evaluatorAt c σ degree (power p)⁻¹ ≠ 0 := fun h0 =>
      hne (hx'.trans (polyForm_eq_zero.mpr h0))
    rw [hx']
    refine returns_bind_some (htables.readAt_indexOf _) ?_
    refine (returns_store hp).bind fun err₂ h₂ => ?_
    refine (returns_computeErrorDenominatorExponent htables h hi).bind fun e he => ?_
    obtain ⟨hnonneg, hlt, hpower⟩ := he
    refine returns_bind_some h₂.here ?_
    have hindex := indexForm_nonneg ha
    have hother : otherFactors c p ≠ 0 := otherFactors_ne_zero (h.position_mem hi)
    have hinv : power (63 - e.toNat) = (otherFactors c p)⁻¹ := by
      rw [← inv_power (by omega), hpower]
    have hread : readAt tables.alphaTo
        ((indexForm (evaluatorAt c σ degree (power p)⁻¹) - e + nn).tmod nn) =
          some (polyForm (errorAt c σ degree p)) := by
      refine (htables.readAt_alphaTo (by simp only [nn]; omega)).trans ?_
      have hexp : (indexForm (evaluatorAt c σ degree (power p)⁻¹) - e + nn).toNat =
          (indexForm (evaluatorAt c σ degree (power p)⁻¹)).toNat + (63 - e.toNat) := by
        simp only [nn]
        omega
      rw [hexp, ← power_mul_power, power_indexForm ha, hinv, errorAt, div_eq_mul_inv]
    refine returns_bind_some hread ?_
    refine (returns_store hp).bind fun err₃ h₃ => ?_
    refine returns_bind_some (hrecd p hp) (returns_bind_some h₃.here ?_)
    refine (returns_store hp).bind fun recd' hr => returns_some fun j hj => ?_
    by_cases hjp : j = p
    · subst hjp
      rw [Function.update_self, polyForm_add]
      exact hr.here
    · rw [Function.update_of_ne hjp, hr.rest j hjp]
      exact hrecd j hj
  · have ha : evaluatorAt c σ degree (power p)⁻¹ = 0 := by
      by_contra hne
      exact hzero fun heq => hne (polyForm_eq_zero.mp (hx'.symm.trans heq))
    refine returns_some fun j hj => ?_
    have herror : errorAt c σ degree p = 0 := by rw [errorAt, ha, zero_div]
    rw [herror, add_zero, Function.update_eq_self]
    exact hrecd j hj

/-- A word with every position found put right. -/
noncomputable def corrected (c : Gf64[X]) (σ : PowerSeries Gf64) (degree : ℕ) (r : ℕ → Gf64)
    (p : ℕ) : Gf64 :=
  if p ∈ errorPositions c then r p + errorAt c σ degree p else r p

/-- The error at each position found is taken away. -/
theorem returns_applyDecodeCorrections (htables : tables.Sound) (h : FoundRoots root loc c degree)
    (hconst : c.coeff 0 = 1)
    (hz : ∀ i, 0 < i → i ≤ degree → z[i]? = some (indexForm (evaluatorCoeff c σ i)))
    (hrecd : InPolyForm recd r) (err : Vector ℤ nn) :
    Returns (applyDecodeCorrections tables recd degree root loc z err) fun s =>
      InPolyForm s.1 (corrected c σ degree r) := by
  classical
  refine (returns_forRange (fun (i : ℕ) (s : Vector ℤ nn × Vector ℤ nn) =>
    InPolyForm s.1 fun p => if ∃ k < i, FoundRoots.position c k = p then
      r p + errorAt c σ degree p else r p) (Nat.zero_le _) ?_ ?_).mono ?_
  · intro j hj
    have hnone : ¬ ∃ k < 0, FoundRoots.position c k = j := by
      rintro ⟨k, hk, -⟩
      exact Nat.not_lt_zero k hk
    dsimp only
    rw [if_neg hnone]
    exact hrecd j hj
  · rintro i ⟨recd, err⟩ - hi hinv
    refine (returns_correctOne htables h hi hconst hz hinv err).mono fun s hs j hj => ?_
    rw [hs j hj]
    refine congrArg (fun a => some (polyForm a)) ?_
    by_cases hji : j = FoundRoots.position c i
    · subst hji
      have hfresh : ¬ ∃ k < i, FoundRoots.position c k = FoundRoots.position c i := by
        rintro ⟨k, hk, heq⟩
        exact hk.ne (h.position_injOn (hk.trans hi) hi heq)
      dsimp only
      rw [Function.update_self, if_neg hfresh, if_pos ⟨i, Nat.lt_succ_self i, rfl⟩]
    · rw [Function.update_of_ne hji]
      refine if_congr ⟨?_, ?_⟩ rfl rfl
      · rintro ⟨k, hk, heq⟩
        exact ⟨k, hk.trans (Nat.lt_succ_self i), heq⟩
      · rintro ⟨k, hk, heq⟩
        obtain rfl | hlt := (Nat.lt_succ_iff.mp hk).eq_or_lt
        · exact absurd heq.symm hji
        · exact ⟨k, hlt, heq⟩
  · intro s hs j hj
    rw [hs j hj, corrected]
    refine congrArg (fun a => some (polyForm a)) (if_congr ⟨?_, h.exists_position⟩ rfl rfl)
    rintro ⟨k, hk, rfl⟩
    exact h.position_mem hk

/-- Before a correction the word is back in polynomial form. -/
theorem returns_prepareDecodeCorrections (htables : tables.Sound) (hrecd : InIndexForm recd r)
    (err : Vector ℤ nn) :
    Returns (prepareDecodeCorrections tables recd err) fun s => InPolyForm s.1 r := by
  refine (returns_forRange (fun (i : ℕ) (s : Vector ℤ nn × Vector ℤ nn) =>
      (∀ j < i, s.1[j]? = some (polyForm (r j))) ∧ ∀ j, i ≤ j → s.1[j]? = recd[j]?)
    (Nat.zero_le nn) ⟨fun j hj => absurd hj (Nat.not_lt_zero j), fun _ _ => rfl⟩
    ?_).mono fun s h => h.1
  rintro i ⟨recd', err⟩ - hi hinv
  dsimp only at hinv ⊢
  refine (returns_store hi).bind fun err' _ => ?_
  refine returns_bind_some ((hinv.2 i le_rfl).trans (hrecd i hi)) ?_
  refine (returns_toPoly htables _).bind fun x hx => ?_
  rw [hx]
  refine (returns_store hi).bind fun recd'' hs => returns_some ⟨fun j hj => ?_, fun j hij => ?_⟩
  · exact hs.upTo (by rintro rfl; rfl) (hinv.1 j) hj
  · exact (hs.rest j (by omega)).trans (hinv.2 j (by omega))

end Corrections

end DsdNeo.ReedSolomon
