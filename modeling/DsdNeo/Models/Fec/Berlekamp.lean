import DsdNeo.Core.Galois.Massey
import DsdNeo.Models.Fec.GaloisTables

/-!
# The Berlekamp iteration of the block decoders

Both decoders keep the same arrays: a row of locator coefficients, a discrepancy, a length and a
reach for every step. The newest row is in polynomial form and the rows before it, like the
discrepancies, in index form. A step copies the newest row or corrects it by an earlier row whose
discrepancy is not zero, chosen for its reach; then it measures the next discrepancy.
-/

namespace DsdNeo.Fec

open Galois Program Polynomial

/-- The working arrays of the iteration. -/
structure Table (tt : ℕ) where
  elp : Vector (Vector ℤ (2 * tt)) (2 * tt + 2)
  d : Vector ℤ (2 * tt + 2)
  l : Vector ℕ (2 * tt + 2)
  uLu : Vector ℤ (2 * tt + 2)

variable {tt : ℕ}

def initializeBerlekampState (s : Vector ℤ (2 * tt + 1)) (t : Table tt) : Option (Table tt) := do
  let d ← store t.d 0 0
  let d ← store d 1 (← s[1]?)
  let elp ← storeCell t.elp 0 0 0
  let elp ← storeCell elp 1 0 1
  let elp ← forRange 1 (2 * tt) elp fun i elp => do
    let elp ← storeCell elp 0 i (-1)
    storeCell elp 1 i 0
  let l ← store t.l 0 0
  let l ← store l 1 0
  let uLu ← store t.uLu 0 (-1)
  let uLu ← store uLu 1 0
  pure { elp, d, l, uLu }

/-- Steps down while the discrepancy is zero. -/
def skipZero {n : ℕ} (d : Vector ℤ n) : ℕ → Option ℕ
  | 0 => some 0
  | q + 1 => do if (← d[q + 1]?) = -1 then skipZero d q else pure (q + 1)

/-- Steps down further for a row with a discrepancy that reaches further. -/
def furthest {n : ℕ} (d uLu : Vector ℤ n) : ℕ → ℕ → Option ℕ
  | 0, q => some q
  | j + 1, q => do
      if (← d[j + 1]?) ≠ -1 then
        if (← uLu[q]?) < (← uLu[j + 1]?) then furthest d uLu j (j + 1) else furthest d uLu j q
      else
        furthest d uLu j q

def selectBerlekampQ (t : Table tt) (u : ℕ) : Option ℕ := do
  let q ← skipZero t.d (u - 1)
  if 0 < q then furthest t.d t.uLu (q - 1) q else pure q

/-- The length of the next row when the newest is corrected by an earlier one. -/
def nextElpDegree {n : ℕ} (u q : ℕ) (l : Vector ℕ n) : Option ℕ := do
  let candidate := (← l[q]?) + u - q
  if candidate < (← l[u]?) then l[u]? else pure candidate

/-- The correction, written into a cleared row. -/
def formCorrection (tables : Tables) (u q : ℕ) (t : Table tt) :
    Option (Vector (Vector ℤ (2 * tt)) (2 * tt + 2)) := do
  let elp ← forRange 0 (2 * tt) t.elp fun i elp => storeCell elp (u + 1) i 0
  forRange 0 ((← t.l[q]?) + 1) elp fun i elp => do
    let e ← cell elp q i
    if e ≠ -1 then
      let power := ((← t.d[u]?) + nn - (← t.d[q]?) + e).tmod nn
      storeCell elp (u + 1) (i + u - q) (← readAt tables.alphaTo power)
    else
      pure elp

/-- One product of the sum that is the next discrepancy. -/
def addDiscrepancy (tables : Tables) (s : Vector ℤ (2 * tt + 1))
    (elp : Vector (Vector ℤ (2 * tt)) (2 * tt + 2)) (u i : ℕ) (acc : ℤ) : Option ℤ := do
  let si ← readAt s (u + 1 - i)
  if si ≠ -1 then
    let e ← cell elp (u + 1) i
    if e ≠ 0 then
      let power := (si + (← readAt tables.indexOf e)).tmod nn
      pure (Int.xor acc (← readAt tables.alphaTo power))
    else
      pure acc
  else
    pure acc

/-- A symbol in index form as one in polynomial form. -/
def toPoly (tables : Tables) (x : ℤ) : Option ℤ :=
  if x ≠ -1 then readAt tables.alphaTo x else some 0

/-- What the decoders do in their own words: the newest row kept, corrected by an earlier row,
and the next discrepancy measured. -/
structure Ops (tt : ℕ) where
  keep : ℕ → Table tt → Option (Table tt)
  change : ℕ → ℕ → Table tt → Option (Table tt)
  measure : ℕ → Table tt → Option (Table tt)

/-- The next row, from the newest. -/
def Ops.advance (ops : Ops tt) (u : ℕ) (t : Table tt) : Option (Table tt) := do
  if (← t.d[u]?) = -1 then ops.keep u t else ops.change u (← selectBerlekampQ t u) t

/-- One step of the iteration. -/
def Ops.step (ops : Ops tt) (u : ℕ) (t : Table tt) : Option (Table tt) := do
  let t ← ops.advance u t
  let uLu ← store t.uLu (u + 1) (u - (← t.l[u + 1]?))
  ops.measure u { t with uLu := uLu }

/-- Steps until every syndrome is used or the newest row is longer than the decoder corrects. -/
def Ops.iterate (ops : Ops tt) : ℕ → ℕ → Table tt → Option (ℕ × Table tt)
  | 0, u, t => some (u, t)
  | k + 1, u, t => do
      let t ← ops.step u t
      if u < 2 * tt ∧ (← t.l[u + 1]?) ≤ tt then ops.iterate k (u + 1) t else pure (u + 1, t)

/-- The last row written and the arrays with it. -/
def Ops.run (ops : Ops tt) (t : Table tt) : Option (ℕ × Table tt) := ops.iterate (2 * tt) 1 t

/-- Syndromes in index form. -/
def Measured (s : Vector ℤ (2 * tt + 1)) (σ : PowerSeries Gf64) : Prop :=
  ∀ k, 0 < k → k ≤ 2 * tt → s[k]? = some (indexForm (PowerSeries.coeff k σ))

/-- The arrays hold these rows, lengths and discrepancies: the row `u` in polynomial form, the
rows before it in index form, the discrepancies up to `n` and the reaches up to `m`. -/
structure Encodes (t : Table tt) (c : ℕ → Gf64[X]) (l : ℕ → ℕ) (d : ℕ → Gf64) (u n m : ℕ) :
    Prop where
  indexed : ∀ q < u, ∀ i ≤ l q, cell t.elp q i = some (indexForm ((c q).coeff i))
  plain : ∀ i ≤ l u, cell t.elp u i = some (polyForm ((c u).coeff i))
  lengths : ∀ q ≤ u, t.l[q]? = some (l q)
  failed : ∀ q ≤ n, t.d[q]? = some (indexForm (d q))
  reaches : ∀ q ≤ m, t.uLu[q]? = some ((q : ℤ) - 1 - l q)

section Select

variable {t : Table tt} {c : ℕ → Gf64[X]} {l : ℕ → ℕ} {d : ℕ → Gf64} {u n m : ℕ}

theorem returns_skipZero {k : ℕ} (h : ∀ q ≤ k, t.d[q]? = some (indexForm (d q))) :
    Returns (skipZero t.d k) fun q => q ≤ k ∧ (q ≠ 0 → d q ≠ 0) ∧ ∀ p, q < p → p ≤ k → d p = 0 := by
  induction k with
  | zero => exact returns_some ⟨le_rfl, fun h => absurd rfl h, fun p _ _ => by omega⟩
  | succ k ih =>
    refine returns_bind_some (h (k + 1) le_rfl) (returns_ite (fun hzero => ?_) fun hne => ?_)
    · refine (ih fun q hq => h q (by omega)).mono fun q hq => ?_
      refine ⟨hq.1.trans (Nat.le_succ k), hq.2.1, fun p hqp hpk => ?_⟩
      obtain rfl | hlt := hpk.eq_or_lt
      · exact indexForm_eq_neg_one.mp hzero
      · exact hq.2.2 p hqp (by omega)
    · refine returns_some ⟨le_rfl, fun _ hz => ?_, fun p _ _ => by omega⟩
      exact hne (indexForm_eq_neg_one.mpr hz)

theorem returns_furthest {j q v : ℕ} (hd : ∀ p ≤ v, t.d[p]? = some (indexForm (d p)))
    (hr : ∀ p ≤ v, t.uLu[p]? = some ((p : ℤ) - 1 - l p)) (hq : 0 < q) (hqv : q ≤ v) (hjv : j ≤ v)
    (hne : d q ≠ 0) (hbest : ∀ p, j < p → p ≤ v → d p ≠ 0 → p + l q ≤ q + l p) :
    Returns (furthest t.d t.uLu j q) fun r =>
      0 < r ∧ r ≤ v ∧ d r ≠ 0 ∧ ∀ p, 0 < p → p ≤ v → d p ≠ 0 → p + l r ≤ r + l p := by
  induction j generalizing q with
  | zero => exact returns_some ⟨hq, hqv, hne, hbest⟩
  | succ j ih =>
    -- The row at hand among those already compared, when it does not win.
    have hkeep : (d (j + 1) ≠ 0 → j + 1 + l q ≤ q + l (j + 1)) →
        ∀ p, j < p → p ≤ v → d p ≠ 0 → p + l q ≤ q + l p := by
      intro hnow p hjp hpv hpne
      obtain rfl | hlt := Nat.eq_or_lt_of_le hjp
      · exact hnow hpne
      · exact hbest p hlt hpv hpne
    refine returns_bind_some (hd (j + 1) hjv) (returns_ite (fun hfail => ?_) fun hzero => ?_)
    · have hjne : d (j + 1) ≠ 0 := fun h => hfail (indexForm_eq_neg_one.mpr h)
      refine returns_bind_some (hr q hqv) (returns_bind_some (hr (j + 1) hjv) ?_)
      refine returns_ite (fun hlt => ?_) fun hge => ?_
      · have hgain : q + l (j + 1) < j + 1 + l q := by
          push_cast at hlt
          omega
        refine ih (Nat.succ_pos j) hjv (by omega) hjne fun p hjp hpv hpne => ?_
        obtain rfl | hlt' := Nat.eq_or_lt_of_le hjp
        · rfl
        · have := hbest p hlt' hpv hpne
          omega
      · refine ih hq hqv (by omega) hne (hkeep fun _ => ?_)
        push_cast at hge
        omega
    · refine ih hq hqv (by omega) hne (hkeep fun hjne => ?_)
      exact absurd (indexForm_eq_neg_one.not.mpr hjne) hzero

/-- The chosen row comes before the newest, has a discrepancy, and no row reaches further. -/
theorem returns_selectBerlekampQ {v : ℕ} (h : Encodes t c l d (v + 1) (v + 1) (v + 1))
    (hzeroth : l 0 = 0) (hshort : ∀ q, 0 < q → q ≤ v → l q < q) :
    Returns (selectBerlekampQ t (v + 1)) fun q =>
      q ≤ v ∧ (q ≠ 0 → d q ≠ 0) ∧ (q = 0 → ∀ p, 0 < p → p ≤ v → d p = 0) ∧
        ∀ p ≤ v, d p ≠ 0 → p + l q ≤ q + l p := by
  refine (returns_skipZero (k := v) fun q hq => h.failed q (by omega)).bind fun q hq => ?_
  obtain ⟨hqv, hqne, hlast⟩ := hq
  refine returns_ite (fun hpos => ?_) fun hzero => ?_
  · have hfar := returns_furthest (j := q - 1) (fun p hp => h.failed p (by omega))
      (fun p hp => h.reaches p (by omega)) hpos hqv (by omega)
        (hqne hpos.ne') fun p hjp hpv hpne => by
        obtain rfl | hlt := Nat.eq_or_lt_of_le (show q ≤ p by omega)
        · rfl
        · exact absurd (hlast p hlt hpv) hpne
    refine hfar.mono fun r hr => ?_
    obtain ⟨hrpos, hrv, hrne, hrbest⟩ := hr
    refine ⟨hrv, fun _ => hrne, fun h0 => by omega, fun p hpv hpne => ?_⟩
    obtain rfl | hp := Nat.eq_zero_or_pos p
    · have := hshort r hrpos hrv
      omega
    · exact hrbest p hp hpv hpne
  · have hq0 : q = 0 := by omega
    subst hq0
    refine returns_some ⟨Nat.zero_le v, hqne, fun _ p hp hpv =>
      hlast p hp hpv, fun p hpv hpne => ?_⟩
    obtain rfl | hp := Nat.eq_zero_or_pos p
    · rfl
    · exact absurd (hlast p hp hpv) hpne

end Select

section Pieces

variable {t : Table tt} {c : ℕ → Gf64[X]} {l : ℕ → ℕ} {d : ℕ → Gf64} {u q : ℕ}
  {σ : PowerSeries Gf64} {s : Vector ℤ (2 * tt + 1)} {tables : Tables}

theorem indexForm_one : indexForm 1 = 0 := by decide

/-- The arrays before the first symbol hold two rows of length zero. -/
theorem returns_initializeBerlekampState (htt : 0 < tt) (hs : Measured s σ) (t : Table tt) :
    Returns (initializeBerlekampState s t) fun t' => Encodes t' (fun _ => 1) (fun _ => 0)
      (fun q => if q = 0 then 1 else PowerSeries.coeff q σ) 1 1 1 := by
  refine (returns_store (by omega)).bind fun d₀ hd₀ => ?_
  refine returns_bind_some (hs 1 (by omega) (by omega)) ?_
  refine (returns_store (by omega)).bind fun d₁ hd₁ => ?_
  refine (returns_storeCell (by omega) (by omega)).bind fun elp₀ he₀ => ?_
  refine (returns_storeCell (by omega) (by omega)).bind fun elp₁ he₁ => ?_
  have hloop : Returns (forRange 1 (2 * tt) elp₁ fun i elp => do
      let elp ← storeCell elp 0 i (-1)
      storeCell elp 1 i 0) fun elp => ∀ p, cell elp p 0 = cell elp₁ p 0 := by
    refine returns_forRange (fun _ elp => ∀ p, cell elp p 0 = cell elp₁ p 0) (by omega)
      (fun _ => rfl) fun i elp hlo hi hinv => ?_
    refine (returns_storeCell (by omega) hi).bind fun elp₂ he₂ => ?_
    refine (returns_storeCell (by omega) hi).mono fun elp₃ he₃ p => ?_
    rw [he₃.rest p 0 (by omega), he₂.rest p 0 (by omega), hinv p]
  refine hloop.bind fun elp help => ?_
  refine (returns_store (by omega)).bind fun l₀ hl₀ => ?_
  refine (returns_store (by omega)).bind fun l₁ hl₁ => ?_
  refine (returns_store (by omega)).bind fun r₀ hr₀ => ?_
  refine (returns_store (by omega)).bind fun r₁ hr₁ => ?_
  refine returns_some ⟨fun q hq i hi => ?_, fun i hi => ?_, fun q hq => ?_, fun q hq => ?_,
    fun q hq => ?_⟩
  · obtain rfl : q = 0 := by omega
    obtain rfl : i = 0 := by omega
    rw [help, he₁.rest 0 0 (by omega), he₀.here, coeff_one_zero, indexForm_one]
  · obtain rfl : i = 0 := by omega
    rw [help, he₁.here, coeff_one_zero, polyForm_one]
  · interval_cases q
    · rw [hl₁.rest 0 (by omega), hl₀.here]
    · exact hl₁.here
  · interval_cases q
    · rw [hd₁.rest 0 (by omega), hd₀.here, if_pos rfl, indexForm_one]
    · exact hd₁.here
  · interval_cases q
    · rw [hr₁.rest 0 (by omega), hr₀.here]
      rfl
    · exact hr₁.here

theorem returns_nextElpDegree {n : ℕ} {v : Vector ℕ n} (hq : v[q]? = some (l q))
    (hu : v[u]? = some (l u)) :
    Returns (nextElpDegree u q v) fun r => r = max (l u) (l q + u - q) := by
  refine returns_bind_some hq (returns_bind_some hu (returns_ite (fun hlt => ?_) fun hge => ?_))
  · exact ⟨l u, hu, by omega⟩
  · exact returns_some (by omega)

theorem coeff_correction (a : Gf64) (b : Gf64[X]) (k i : ℕ) :
    (C a * X ^ k * b).coeff i = if k ≤ i then a * b.coeff (i - k) else 0 := by
  rw [mul_assoc, coeff_C_mul, coeff_X_pow_mul', mul_ite, mul_zero]

theorem returns_formCorrection (htables : tables.Sound) (h : Encodes t c l d u u u)
    (hu : u ≤ 2 * tt) (hq : q < u) (hdu : d u ≠ 0) (hdq : d q ≠ 0)
    (hdegree : (c q).natDegree ≤ l q) (hfit : l q + (u - q) < 2 * tt) :
    Returns (formCorrection tables u q t) fun elp =>
      (∀ i < 2 * tt, cell elp (u + 1) i =
        some (polyForm ((C (d u / d q) * X ^ (u - q) * c q).coeff i))) ∧
      ∀ p ≠ u + 1, ∀ i, cell elp p i = cell t.elp p i := by
  have hclear : Returns (forRange 0 (2 * tt) t.elp fun i elp => storeCell elp (u + 1) i 0)
      fun elp => ∀ p k, cell elp p k =
        if 0 ≤ k ∧ k < 2 * tt then (if p = u + 1 then some 0 else cell t.elp p k)
        else cell t.elp p k := by
    refine returns_columns (Nat.zero_le _) fun j elp _ hj hcol => ?_
    refine (returns_storeCell (by omega) hj).mono fun elp' hs p k => ?_
    rw [hs.eq p k]
    by_cases hk : k = j
    · subst hk
      rw [if_pos rfl, hcol p]
      exact if_congr (by omega) rfl rfl
    · rw [if_neg hk, if_neg (by omega)]
  refine hclear.bind fun elp₀ hzero => ?_
  refine returns_bind_some (h.lengths q (by omega)) ?_
  -- What of the earlier row has been written before each index.
  have hshift := returns_forRange (s := elp₀) (a := 0) (b := l q + 1)
    (f := fun i elp => do
      let e ← cell elp q i
      if e ≠ -1 then
        let power := ((← t.d[u]?) + nn - (← t.d[q]?) + e).tmod nn
        storeCell elp (u + 1) (i + u - q) (← readAt tables.alphaTo power)
      else
        pure elp)
    (fun j elp => (∀ i < 2 * tt, cell elp (u + 1) i = some (polyForm
      (if u - q ≤ i ∧ i - (u - q) < j then d u / d q * (c q).coeff (i - (u - q)) else 0))) ∧
      ∀ p ≠ u + 1, ∀ i, cell elp p i = cell t.elp p i)
    (Nat.zero_le _) ?_ ?_
  · refine hshift.mono fun elp help => ⟨fun i hi => ?_, help.2⟩
    rw [help.1 i hi, coeff_correction]
    by_cases hle : u - q ≤ i
    · by_cases hin : i - (u - q) < l q + 1
      · rw [if_pos ⟨hle, hin⟩, if_pos hle]
      · rw [if_neg (by omega), if_pos hle,
          coeff_eq_zero_of_natDegree_lt (lt_of_le_of_lt hdegree (by omega)), mul_zero]
    · rw [if_neg (by omega), if_neg hle]
  · refine ⟨fun i hi => ?_, fun p hp i => ?_⟩
    · rw [hzero, if_pos ⟨Nat.zero_le i, hi⟩, if_pos rfl, if_neg (by omega), polyForm_zero]
    · rw [hzero, if_neg hp, ite_self]
  · rintro j elp - hj ⟨hrow, hrest⟩
    have hcell : cell elp q j = some (indexForm ((c q).coeff j)) := by
      rw [hrest q (by omega), h.indexed q hq j (by omega)]
    refine returns_bind_some hcell (returns_ite (fun hne => ?_) fun hz => ?_)
    · have hcoeff : (c q).coeff j ≠ 0 := fun h0 => hne (indexForm_eq_neg_one.mpr h0)
      refine returns_bind_some (h.failed u le_rfl) (returns_bind_some (h.failed q hq.le) ?_)
      refine returns_bind_some (htables.readAt_alphaTo_div hdu hdq hcoeff) ?_
      refine (returns_storeCell (by omega) (by omega)).mono fun elp' hs => ⟨fun i hi => ?_, ?_⟩
      · rw [hs.eq (u + 1) i]
        by_cases hhere : i = j + u - q
        · have hback : i - (u - q) = j := by omega
          rw [if_pos ⟨rfl, hhere⟩, if_pos (by omega), hback]
        · rw [if_neg (by omega), hrow i hi]
          exact congrArg (fun a => some (polyForm a)) (if_congr (by omega) rfl rfl)
      · intro p hp i
        rw [hs.rest p i (Or.inl hp), hrest p hp i]
    · have hcoeff : (c q).coeff j = 0 := by
        by_contra hne
        exact hz fun heq => hne (indexForm_eq_neg_one.mp heq)
      refine returns_some ⟨fun i hi => ?_, hrest⟩
      rw [hrow i hi]
      by_cases hhere : i - (u - q) = j ∧ u - q ≤ i
      · rw [if_neg (by omega), if_pos (by omega), hhere.1, hcoeff, mul_zero]
      · exact congrArg (fun a => some (polyForm a)) (if_congr (by omega) rfl rfl)

theorem formCorrection_none (h : Encodes t c l d (2 * tt) (2 * tt) (2 * tt)) (htt : 0 < tt)
    (hzeroth : l 0 = 0) (hrow : c 0 = 1) (tables : Tables) :
    formCorrection tables (2 * tt) 0 t = none := by
  have hclear : Returns (forRange 0 (2 * tt) t.elp fun i elp => storeCell elp (2 * tt + 1) i 0)
      fun elp => cell elp 0 0 = cell t.elp 0 0 := by
    refine returns_forRange (fun _ elp => cell elp 0 0 = cell t.elp 0 0) (Nat.zero_le _) rfl
      fun i elp _ hi hinv => ?_
    refine (returns_storeCell (by omega) hi).mono fun elp' hs => ?_
    rw [hs.rest 0 0 (by omega), hinv]
  refine hclear.bind_none fun elp help => ?_
  rw [h.lengths 0 (by omega), hzeroth]
  have hcell : cell elp 0 0 = some 0 := by
    rw [help, h.indexed 0 (by omega) 0 (by omega), hrow, coeff_one_zero, indexForm_one]
  have hout : 2 * tt ≤ 0 + 2 * tt - 0 := by omega
  simp only [forRange, loop, hcell, h.failed _ le_rfl, h.failed 0 (Nat.zero_le _),
    Option.bind_eq_bind, Option.bind_some, storeCell_none hout, Option.bind_fun_none]
  rfl

theorem returns_toPoly (htables : tables.Sound) (a : Gf64) :
    Returns (toPoly tables (indexForm a)) fun x => x = polyForm a := by
  refine returns_ite (fun hne => ?_) fun hz => ?_
  · have ha : a ≠ 0 := fun h => hne (indexForm_eq_neg_one.mpr h)
    exact ⟨_, htables.readAt_alphaTo_index ha, rfl⟩
  · have ha : a = 0 := by
      by_contra hne
      exact hz fun heq => hne (indexForm_eq_neg_one.mp heq)
    rw [ha]
    exact returns_some rfl

/-- One product joins the sum. -/
theorem returns_addDiscrepancy (htables : tables.Sound)
    {elp : Vector (Vector ℤ (2 * tt)) (2 * tt + 2)} {i : ℕ} {a b g : Gf64}
    (hi : i ≤ u + 1) (hs : s[u + 1 - i]? = some (indexForm b))
    (he : cell elp (u + 1) i = some (polyForm a)) :
    Returns (addDiscrepancy tables s elp u i (polyForm g)) fun x => x = polyForm (g + a * b) := by
  have hread : readAt s (u + 1 - i) = some (indexForm b) := by
    rw [show (u : ℤ) + 1 - i = ((u + 1 - i : ℕ) : ℤ) by omega, readAt_ofNat, hs]
  refine returns_bind_some hread (returns_ite (fun hne => ?_) fun hz => ?_)
  · have hb : b ≠ 0 := fun h => hne (indexForm_eq_neg_one.mpr h)
    refine returns_bind_some he (returns_ite (fun hne => ?_) fun hz => ?_)
    · have ha : a ≠ 0 := fun h => hne (polyForm_eq_zero.mpr h)
      refine returns_bind_some (htables.readAt_indexOf a) ?_
      refine returns_bind_some (htables.readAt_alphaTo_mul hb ha) (returns_some ?_)
      rw [polyForm_add, mul_comm]
    · have ha : a = 0 := by
        by_contra hne
        exact hz fun heq => hne (polyForm_eq_zero.mp heq)
      refine returns_some ?_
      rw [ha, zero_mul, add_zero]
  · have hb : b = 0 := by
      by_contra hne
      exact hz fun heq => hne (indexForm_eq_neg_one.mp heq)
    refine returns_some ?_
    rw [hb, mul_zero, add_zero]

end Pieces

end DsdNeo.Fec
