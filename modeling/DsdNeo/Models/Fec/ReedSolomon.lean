import DsdNeo.Models.Fec.Chien

/-!
# The Reed-Solomon decoder of length sixty-three

A received word is turned to index form and its syndromes are measured. When one is not
zero, the iteration finds the error locator, the search its roots, and the evaluator the
error at each position found. A locator longer than the decoder corrects, or with fewer
roots than its length, leaves the word as it was received.
-/

namespace DsdNeo.ReedSolomon

open Galois Program Polynomial Fec

variable {tt : ℕ}

/-- The arrays of one call, whatever they hold before it. -/
structure DecodeState (tt : ℕ) extends Table tt where
  s : Vector ℤ (2 * tt + 1)
  root : Vector ℕ tt
  loc : Vector ℕ tt
  z : Vector ℤ (tt + 1)
  err : Vector ℤ nn
  reg : Vector ℤ (tt + 1)

def convertPolyToIndexWord (tables : Tables) (input recd : Vector ℤ nn) : Option (Vector ℤ nn) :=
  forRange 0 nn recd fun i recd => do
    store recd i (← readAt tables.indexOf (← input[i]?))

def convertIndexToPolyWord (tables : Tables) (recd : Vector ℤ nn) : Option (Vector ℤ nn) :=
  forRange 0 nn recd fun i recd => do store recd i (← toPoly tables (← recd[i]?))

/-- Adds a symbol of the word to a syndrome. -/
def addSymbol (tables : Tables) (recd : Vector ℤ nn) (i j : ℕ) (s : Vector ℤ (2 * tt + 1)) :
    Option (Vector ℤ (2 * tt + 1)) := do
  let r ← recd[j]?
  if r ≠ -1 then
    let v ← readAt tables.alphaTo ((r + (i * j : ℕ)).tmod nn)
    store s i (Int.xor (← s[i]?) v)
  else
    pure s

/-- Whether a syndrome is not zero, and the syndromes in index form. -/
def computeIndexSyndromes (tables : Tables) (recd : Vector ℤ nn) (s : Vector ℤ (2 * tt + 1)) :
    Option (Bool × Vector ℤ (2 * tt + 1)) := do
  let s ← store s 0 0
  forRange 1 (2 * tt + 1) (false, s) fun i r => do
    let s ← store r.2 i 0
    let s ← forRange 0 nn s fun j s => addSymbol tables recd i j s
    let synError := if (← s[i]?) ≠ 0 then true else r.1
    let s ← store s i (← readAt tables.indexOf (← s[i]?))
    pure (synError, s)

def advanceBerlekampWithoutDiscrepancy (tables : Tables) (u : ℕ) (t : Table tt) :
    Option (Table tt) := do
  let l ← store t.l (u + 1) (← t.l[u]?)
  let elp ← forRange 0 ((← l[u]?) + 1) t.elp fun i elp => do
    let elp ← storeCell elp (u + 1) i (← cell elp u i)
    storeCell elp u i (← readAt tables.indexOf (← cell elp u i))
  pure { t with elp := elp, l := l }

def updateBerlekampWithDiscrepancy (tables : Tables) (u q : ℕ) (t : Table tt) :
    Option (Table tt) := do
  let l ← store t.l (u + 1) (← nextElpDegree u q t.l)
  let elp ← formCorrection tables u q { t with l := l }
  let elp ← forRange 0 ((← l[u]?) + 1) elp fun i elp => do
    let elp ← storeCell elp (u + 1) i (Int.xor (← cell elp (u + 1) i) (← cell elp u i))
    storeCell elp u i (← readAt tables.indexOf (← cell elp u i))
  pure { t with elp := elp, l := l }

def computeNextDiscrepancy (tables : Tables) (s : Vector ℤ (2 * tt + 1)) (u : ℕ) (t : Table tt) :
    Option (Table tt) := do
  let d ← store t.d (u + 1) (← toPoly tables (← s[u + 1]?))
  let d ← forRange 1 ((← t.l[u + 1]?) + 1) d fun i d => do
    store d (u + 1) (← addDiscrepancy tables s t.elp u i (← d[u + 1]?))
  let d ← store d (u + 1) (← readAt tables.indexOf (← d[u + 1]?))
  pure { t with d := d }

/-- The steps of the iteration in this decoder's words. -/
def ops (tables : Tables) (s : Vector ℤ (2 * tt + 1)) : Ops tt where
  keep := advanceBerlekampWithoutDiscrepancy tables
  change := updateBerlekampWithDiscrepancy tables
  measure u t := if u < 2 * tt then computeNextDiscrepancy tables s u t else pure t

def runBerlekampIterations (tables : Tables) (s : Vector ℤ (2 * tt + 1)) (t : Table tt) :
    Option (ℕ × Table tt) :=
  (ops tables s).run t

/-- The roots found so far, with their positions. -/
structure Found (tt : ℕ) where
  count : ℕ
  reg : Vector ℤ (tt + 1)
  root : Vector ℕ tt
  loc : Vector ℕ tt

def findDecodeRoots (tables : Tables) (locator : Vector ℤ (2 * tt)) (degree : ℕ)
    (reg : Vector ℤ (tt + 1)) (root loc : Vector ℕ tt) : Option (Found tt) := do
  let reg ← loadRegisters locator degree reg
  forRange 1 (nn + 1) { count := 0, reg, root, loc : Found tt } fun i f => do
    let (q, reg) ← nextValue tables degree f.reg
    if q = 0 then
      let root ← store f.root f.count i
      let loc ← store f.loc f.count (nn - i)
      pure { count := f.count + 1, reg, root, loc }
    else
      pure { f with reg := reg }

/-- The sum of a syndrome and a coefficient of the locator, either of them zero or not. -/
def evaluatorHead (tables : Tables) (si li : ℤ) : Option ℤ := do
  if si ≠ -1 ∧ li ≠ -1 then
    pure (Int.xor (← readAt tables.alphaTo si) (← readAt tables.alphaTo li))
  else if si ≠ -1 ∧ li = -1 then
    readAt tables.alphaTo si
  else if si = -1 ∧ li ≠ -1 then
    readAt tables.alphaTo li
  else
    pure 0

/-- Adds one product of a syndrome and a coefficient of the locator. -/
def addEvaluator (tables : Tables) (s : Vector ℤ (2 * tt + 1)) (locator : Vector ℤ (2 * tt))
    (i j : ℕ) (z : Vector ℤ (tt + 1)) : Option (Vector ℤ (tt + 1)) := do
  let sj ← s[j]?
  let lj ← locator[i - j]?
  if sj ≠ -1 ∧ lj ≠ -1 then
    store z i (Int.xor (← z[i]?) (← readAt tables.alphaTo ((lj + sj).tmod nn)))
  else
    pure z

def buildErrorEvaluator (tables : Tables) (s : Vector ℤ (2 * tt + 1))
    (locator : Vector ℤ (2 * tt)) (degree : ℕ) (z : Vector ℤ (tt + 1)) :
    Option (Vector ℤ (tt + 1)) :=
  forRange 1 (degree + 1) z fun i z => do
    let z ← store z i (← evaluatorHead tables (← s[i]?) (← locator[i]?))
    let z ← forRange 1 i z fun j z => addEvaluator tables s locator i j z
    store z i (← readAt tables.indexOf (← z[i]?))

def prepareDecodeCorrections (tables : Tables) (recd err : Vector ℤ nn) :
    Option (Vector ℤ nn × Vector ℤ nn) :=
  forRange 0 nn (recd, err) fun i r => do
    let err ← store r.2 i 0
    let recd ← store r.1 i (← toPoly tables (← r.1[i]?))
    pure (recd, err)

def computeErrorNumerator (tables : Tables) (rootValue degree : ℕ) (z : Vector ℤ (tt + 1)) :
    Option ℤ :=
  forRange 1 (degree + 1) (1 : ℤ) fun j numerator => do
    let zj ← z[j]?
    if zj ≠ -1 then
      pure (Int.xor numerator
        (← readAt tables.alphaTo ((zj + (j * rootValue : ℕ)).tmod nn)))
    else
      pure numerator

def computeErrorDenominatorExponent (tables : Tables) (rootIndex degree : ℕ)
    (root loc : Vector ℕ tt) : Option ℤ := do
  let denominator ← forRange 0 degree (0 : ℤ) fun j denominator => do
    if j ≠ rootIndex then
      let e : ℤ := ((← loc[j]?) + (← root[rootIndex]?) : ℕ)
      let v ← readAt tables.alphaTo (e.tmod nn)
      pure (denominator + (← readAt tables.indexOf (Int.xor 1 v)))
    else
      pure denominator
  pure (denominator.tmod nn)

/-- The error at one position found, put right in the word. -/
def correctOne (tables : Tables) (degree : ℕ) (root loc : Vector ℕ tt) (z : Vector ℤ (tt + 1))
    (i : ℕ) (r : Vector ℤ nn × Vector ℤ nn) : Option (Vector ℤ nn × Vector ℤ nn) := do
  let numerator ← computeErrorNumerator tables (← root[i]?) degree z
  let p ← loc[i]?
  let err ← store r.2 p numerator
  if numerator ≠ 0 then
    let err ← store err p (← readAt tables.indexOf numerator)
    let denominator ← computeErrorDenominatorExponent tables i degree root loc
    let value ← readAt tables.alphaTo (((← err[p]?) - denominator + nn).tmod nn)
    let err ← store err p value
    let recd ← store r.1 p (Int.xor (← r.1[p]?) (← err[p]?))
    pure (recd, err)
  else
    pure (r.1, err)

def applyDecodeCorrections (tables : Tables) (recd : Vector ℤ nn) (degree : ℕ)
    (root loc : Vector ℕ tt) (z : Vector ℤ (tt + 1)) (err : Vector ℤ nn) :
    Option (Vector ℤ nn × Vector ℤ nn) :=
  forRange 0 degree (recd, err) fun i r => correctOne tables degree root loc z i r

/-- The last row turned to index form. -/
def indexRow (tables : Tables) (u degree : ℕ) (elp : Vector (Vector ℤ (2 * tt)) (2 * tt + 2)) :
    Option (Vector (Vector ℤ (2 * tt)) (2 * tt + 2)) :=
  forRange 0 (degree + 1) elp fun i elp => do
    storeCell elp u i (← readAt tables.indexOf (← cell elp u i))

/-- One for a word that cannot be corrected, and the word. -/
def runDecode (tables : Tables) (recd : Vector ℤ nn) (state : DecodeState tt) :
    Option (ℤ × Vector ℤ nn) := do
  let t ← initializeBerlekampState state.s state.toTable
  let (u, t) ← runBerlekampIterations tables state.s t
  let degree ← t.l[u]?
  if tt < degree then
    pure (1, recd)
  else
    let elp ← indexRow tables u degree t.elp
    let row ← elp[u]?
    let f ← findDecodeRoots tables row degree state.reg state.root state.loc
    if f.count ≠ degree then
      pure (1, recd)
    else
      let z ← buildErrorEvaluator tables state.s row degree state.z
      let (recd, err) ← prepareDecodeCorrections tables recd state.err
      let (recd, _) ← applyDecodeCorrections tables recd degree f.root f.loc z err
      pure (0, recd)

/-- Zero for a word decoded, one for a word that cannot be, and the symbols either way. -/
def decode (tables : Tables) (input recd : Vector ℤ nn) (state : DecodeState tt) :
    Option (ℤ × Vector ℤ nn) := do
  let recd ← convertPolyToIndexWord tables input recd
  let (synError, s) ← computeIndexSyndromes tables recd state.s
  if synError = false then
    let recd ← convertIndexToPolyWord tables recd
    pure (0, recd)
  else
    let (irrecoverable, recd) ← runDecode tables recd { state with s := s }
    if irrecoverable ≠ 0 then
      let recd ← convertIndexToPolyWord tables recd
      pure (irrecoverable, recd)
    else
      pure (irrecoverable, recd)

/-!
# The steps of the Reed-Solomon decoder write the table of recurrences

The loops that copy or correct the newest row turn it to index form in the same pass, cell
by cell, and the discrepancy is summed in its own place in the array.
-/

variable {t : Table tt} {c : ℕ → Gf64[X]} {l : ℕ → ℕ} {d : ℕ → Gf64} {u q : ℕ}
  {σ : PowerSeries Gf64} {s : Vector ℤ (2 * tt + 1)} {tables : Tables}

/-- A column with the newest row in index form and the next one in polynomial form. -/
def newColumn (elp : Vector (Vector ℤ (2 * tt)) (2 * tt + 2)) (u : ℕ) (old new : ℕ → Gf64)
    (p k : ℕ) : Option ℤ :=
  if p = u + 1 then some (polyForm (new k))
  else if p = u then some (indexForm (old k))
  else cell elp p k

theorem newColumn_of_lt {elp : Vector (Vector ℤ (2 * tt)) (2 * tt + 2)} {old new : ℕ → Gf64}
    {p : ℕ} (hp : p < u) (k : ℕ) : newColumn elp u old new p k = cell elp p k := by
  rw [newColumn, if_neg (by omega), if_neg (by omega)]

theorem returns_writeColumn (htables : tables.Sound)
    {elp elp' : Vector (Vector ℤ (2 * tt)) (2 * tt + 2)} {i : ℕ} {old g : ℕ → Gf64}
    (hu : u ≤ 2 * tt) (hi : i < 2 * tt) (hcol : ∀ p, cell elp' p i = cell elp p i)
    (hold : cell elp u i = some (polyForm (old i))) :
    Returns (do
      let elp ← storeCell elp' (u + 1) i (polyForm (g i))
      storeCell elp u i (← readAt tables.indexOf (← cell elp u i))) fun elp'' =>
        ∀ p k, cell elp'' p k = if k = i then newColumn elp u old g p k else cell elp' p k := by
  refine (returns_storeCell (by omega) hi).bind fun elp₁ h₁ => ?_
  have hread : cell elp₁ u i = some (polyForm (old i)) := by
    rw [h₁.rest u i (by omega), hcol, hold]
  refine returns_bind_some hread (returns_bind_some (htables.readAt_indexOf _) ?_)
  refine (returns_storeCell (by omega) hi).mono fun elp₂ h₂ p k => ?_
  rw [h₂.eq, h₁.eq, newColumn]
  by_cases hk : k = i
  · subst hk
    rw [if_pos rfl, hcol]
    by_cases hp : p = u
    · rw [if_pos ⟨hp, rfl⟩, if_neg (by omega), if_pos hp]
    · rw [if_neg (by omega), if_neg hp]
      exact if_congr (by omega) rfl rfl
  · rw [if_neg (by omega), if_neg (by omega), if_neg hk]

theorem returns_advanceBerlekampWithoutDiscrepancy (htables : tables.Sound)
    (hu : u ≤ 2 * tt) (hshort : l u < u) (h : Encodes t c l d u u u) :
    Returns (advanceBerlekampWithoutDiscrepancy tables u t) fun t' =>
      Encodes t' (Function.update c (u + 1) (c u)) (Function.update l (u + 1) (l u)) d
        (u + 1) u u := by
  refine returns_bind_some (h.lengths u le_rfl) ?_
  refine (returns_store (by omega)).bind fun l' hl => ?_
  have hread : l'[u]? = some (l u) := (hl.rest u (by omega)).trans (h.lengths u le_rfl)
  refine returns_bind_some hread ?_
  have hloop := returns_columns (m := t.elp) (a := 0) (b := l u + 1)
    (f := fun i elp => do
      let elp ← storeCell elp (u + 1) i (← cell elp u i)
      storeCell elp u i (← readAt tables.indexOf (← cell elp u i)))
    (g := newColumn t.elp u (c u).coeff (c u).coeff) (Nat.zero_le _) ?_
  · refine hloop.bind fun elp help => returns_some (h.next ⟨?_, ?_, ?_⟩ hl)
    · intro i hi
      rw [help, if_pos (by omega), newColumn, if_pos rfl]
    · intro i hi
      rw [help, if_pos (by omega), newColumn, if_neg (by omega), if_pos rfl]
    · intro p hp i
      rw [help, newColumn_of_lt hp, ite_self]
  · intro i elp _ hi hcol
    have hold := h.plain i (by omega)
    refine returns_bind_some ((hcol u).trans hold) ?_
    exact returns_writeColumn (g := (c u).coeff) htables hu (by omega) hcol hold

theorem returns_updateBerlekampWithDiscrepancy (htables : tables.Sound) (hu : u ≤ 2 * tt)
    (hq : q < u) (hshort : l u < u) (hdu : d u ≠ 0) (hdq : d q ≠ 0)
    (hdegq : (c q).natDegree ≤ l q) (hdegu : (c u).natDegree ≤ l u)
    (hfit : l q + (u - q) < 2 * tt) (h : Encodes t c l d u u u) :
    Returns (updateBerlekampWithDiscrepancy tables u q t) fun t' =>
      Encodes t' (Function.update c (u + 1) (c u - C (d u / d q) * X ^ (u - q) * c q))
        (Function.update l (u + 1) (max (l u) (l q + u - q))) d (u + 1) u u := by
  refine (returns_nextElpDegree (h.lengths q hq.le) (h.lengths u le_rfl)).bind fun r hr => ?_
  rw [hr]
  refine (returns_store (by omega)).bind fun l' hl => ?_
  have henc := h.withLength hl
  refine (returns_formCorrection htables henc hu hq hdu hdq hdegq hfit).bind fun elp₀ hcor => ?_
  obtain ⟨hrow, hrest⟩ := hcor
  refine returns_bind_some (henc.lengths u le_rfl) ?_
  let b : Gf64[X] := C (d u / d q) * X ^ (u - q) * c q
  have hnew : ∀ i, (c u - b).coeff i = b.coeff i + (c u).coeff i := fun i => by
    rw [coeff_sub, CharTwo.sub_eq_add, add_comm]
  have hloop := returns_columns (m := elp₀) (a := 0) (b := l u + 1)
    (f := fun i elp => do
      let elp ← storeCell elp (u + 1) i (Int.xor (← cell elp (u + 1) i) (← cell elp u i))
      storeCell elp u i (← readAt tables.indexOf (← cell elp u i)))
    (g := newColumn elp₀ u (c u).coeff (c u - b).coeff) (Nat.zero_le _) ?_
  · refine hloop.bind fun elp help => returns_some (h.next ⟨?_, ?_, ?_⟩ hl)
    · intro i hi
      rw [help]
      by_cases hin : i < l u + 1
      · rw [if_pos ⟨Nat.zero_le i, hin⟩, newColumn, if_pos rfl]
      · rw [if_neg (by omega), hrow i (by omega), hnew,
          coeff_eq_zero_of_natDegree_lt (lt_of_le_of_lt hdegu (by omega)), add_zero]
    · intro i hi
      rw [help, if_pos (by omega), newColumn, if_neg (by omega), if_pos rfl]
    · intro p hp i
      rw [help, newColumn_of_lt hp, ite_self, hrest p (by omega)]
  · intro i elp _ hi hcol
    have hold : cell elp₀ u i = some (polyForm ((c u).coeff i)) := by
      rw [hrest u (by omega)]
      exact h.plain i (by omega)
    refine returns_bind_some ((hcol (u + 1)).trans (hrow i (by omega))) ?_
    refine returns_bind_some ((hcol u).trans hold) ?_
    rw [← polyForm_add, ← hnew]
    exact returns_writeColumn (g := (c u - b).coeff) htables hu (by omega) hcol hold

theorem returns_computeNextDiscrepancy (htables : tables.Sound) (hs : Measured s σ)
    (hu : u < 2 * tt) (hlen : l (u + 1) ≤ u) (hconst : (c (u + 1)).coeff 0 = 1)
    (hdegree : (c (u + 1)).natDegree ≤ l (u + 1)) (h : Encodes t c l d (u + 1) u (u + 1)) :
    Returns (computeNextDiscrepancy tables s u t) fun t' => Encodes t' c l
      (Function.update d (u + 1) (discrepancy σ (c (u + 1)) (u + 1))) (u + 1) (u + 1) (u + 1) := by
  refine returns_bind_some (hs (u + 1) (by omega) (by omega)) ?_
  refine (returns_toPoly htables _).bind fun x hx => ?_
  rw [hx]
  refine (returns_store (by omega)).bind fun d₀ hd₀ => ?_
  refine returns_bind_some (h.lengths (u + 1) le_rfl) ?_
  have hloop := returns_forRange (s := d₀) (a := 1) (b := l (u + 1) + 1)
    (f := fun i d => do
      store d (u + 1) (← addDiscrepancy tables s t.elp u i (← d[u + 1]?)))
    (fun i d' => Stored t.d d' (u + 1) (polyForm (∑ k ∈ Finset.range i,
      (c (u + 1)).coeff k * PowerSeries.coeff (u + 1 - k) σ))) (by omega) ?_ ?_
  · refine hloop.bind fun d₁ hd₁ => ?_
    rw [← discrepancy_eq_sum hdegree (by omega)] at hd₁
    refine returns_bind_some hd₁.here (returns_bind_some (htables.readAt_indexOf _) ?_)
    refine (returns_store (by omega)).bind fun d₂ hd₂ => returns_some (h.measured ?_)
    exact ⟨hd₂.here, fun k hk => (hd₂.rest k hk).trans (hd₁.rest k hk)⟩
  · rw [Finset.sum_range_one, hconst, one_mul]
    exact hd₀
  · intro i d' hlo hi hd'
    refine returns_bind_some hd'.here ?_
    refine (returns_addDiscrepancy htables (by omega) (hs (u + 1 - i) (by omega) (by omega))
      (h.plain i (by omega))).bind fun x hx => ?_
    rw [hx, ← Finset.sum_range_succ]
    refine (returns_store (by omega)).mono fun d'' hd'' => ⟨hd''.here, fun k hk => ?_⟩
    exact (hd''.rest k hk).trans (hd'.rest k hk)

/-- The steps of this decoder write the rows, lengths and discrepancies of the table. -/
theorem faithful_ops (htables : tables.Sound) (hs : Measured s σ) : (ops tables s).Faithful σ where
  keep _ hu hshort h := returns_advanceBerlekampWithoutDiscrepancy htables hu hshort h
  change hu hq hshort hdu hdq hdegq hdegu hfit h :=
    returns_updateBerlekampWithDiscrepancy htables hu hq hshort hdu hdq hdegq hdegu hfit h
  measure hu hlen hconst hdegree h := by
    refine returns_ite (fun _ => ?_) fun hge => absurd hu hge
    exact returns_computeNextDiscrepancy htables hs hu hlen hconst hdegree h
  last t := if_neg (lt_irrefl _)

/-- A correction by the first row in the last step is a bad access. -/
theorem updateBerlekampWithDiscrepancy_none (htt : 0 < tt)
    (h : Encodes t c l d (2 * tt) (2 * tt) (2 * tt)) (hzeroth : l 0 = 0) (hrow : c 0 = 1)
    (tables : Tables) : updateBerlekampWithDiscrepancy tables (2 * tt) 0 t = none := by
  refine (returns_nextElpDegree (h.lengths 0 (by omega)) (h.lengths (2 * tt) le_rfl)).bind_none
    fun r _ => ?_
  refine (returns_store (by omega)).bind_none fun l' hl => ?_
  rw [formCorrection_none (h.withLength hl) htt hzeroth hrow]
  rfl

end DsdNeo.ReedSolomon
