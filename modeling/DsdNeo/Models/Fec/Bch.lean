import DsdNeo.Models.Fec.Chien

/-!
# The BCH decoder of the network identifier

The sixty-three bits are reversed and their syndromes measured. When one is not zero, the
iteration finds the error locator and the search its roots; a locator with as many roots as
its length has the bits at their positions flipped. The first sixteen bits are the result.
-/

namespace DsdNeo.Bch

open Galois Program Polynomial Fec

/-- Data bits. -/
abbrev kk : ℕ := 16

/-- Errors the code is designed for. -/
abbrev tt : ℕ := 11

/-- The verdict on a word, with the number of bits corrected. -/
structure BchResult where
  success : Bool
  errorCount : ℕ
deriving DecidableEq, Repr

/-- The arrays of one call, whatever they hold before it. -/
structure Memory extends Table tt where
  recd : Vector Bool nn
  s : Vector ℤ (2 * tt + 1)
  loc : Vector ℕ tt

def reverseInputBits (input recd : Vector Bool nn) : Option (Vector Bool nn) :=
  forRange 0 nn recd fun i recd => do store recd i (← input[nn - 1 - i]?)

/-- Adds a set bit of the word to a syndrome. -/
def addBit (tables : Tables) (recd : Vector Bool nn) (i j : ℕ) (syndrome : ℤ) : Option ℤ := do
  if ← recd[j]? then
    pure (Int.xor syndrome (← tables.alphaTo[(i * j) % nn]?))
  else
    pure syndrome

def computeSyndromes (tables : Tables) (recd : Vector Bool nn) (s : Vector ℤ (2 * tt + 1)) :
    Option (Bool × Vector ℤ (2 * tt + 1)) :=
  forRange 1 (2 * tt + 1) (false, s) fun i r => do
    let syndrome ← forRange 0 nn (0 : ℤ) fun j syndrome => addBit tables recd i j syndrome
    let s ← store r.2 i (← readAt tables.indexOf syndrome)
    pure (r.1 || decide (syndrome ≠ 0), s)

def extractDataBits (recd : Vector Bool nn) (output : Vector Bool kk) : Option (Vector Bool kk) :=
  forRange 0 kk output fun i output => do store output i (← recd[nn - 1 - i]?)

def indexElpRow (tables : Tables) (row degree : ℕ)
    (elp : Vector (Vector ℤ (2 * tt)) (2 * tt + 2)) :
    Option (Vector (Vector ℤ (2 * tt)) (2 * tt + 2)) :=
  forRange 0 (degree + 1) elp fun i elp => do
    let e ← cell elp row i
    if 0 ≤ e then
      storeCell elp row i (← readAt tables.indexOf e)
    else
      pure elp

def propagateElpWhenDiscrepancyZero (tables : Tables) (u : ℕ) (t : Table tt) :
    Option (Table tt) := do
  let l ← store t.l (u + 1) (← t.l[u]?)
  let elp ← forRange 0 ((← l[u]?) + 1) t.elp fun i elp => do
    storeCell elp (u + 1) i (← cell elp u i)
  let elp ← indexElpRow tables u (← l[u]?) elp
  pure { t with elp := elp, l := l }

def formNextElp (tables : Tables) (u q : ℕ) (t : Table tt) : Option (Table tt) := do
  let l ← store t.l (u + 1) (← nextElpDegree u q t.l)
  let elp ← formCorrection tables u q { t with l := l }
  let elp ← forRange 0 ((← l[u]?) + 1) elp fun i elp => do
    storeCell elp (u + 1) i (Int.xor (← cell elp (u + 1) i) (← cell elp u i))
  let elp ← indexElpRow tables u (← l[u]?) elp
  pure { t with elp := elp, l := l }

def updateDiscrepancy (tables : Tables) (s : Vector ℤ (2 * tt + 1)) (u : ℕ) (t : Table tt) :
    Option (Table tt) := do
  if 2 * tt ≤ u then
    pure t
  else
    let discrepancy ← toPoly tables (← s[u + 1]?)
    let discrepancy ← forRange 1 ((← t.l[u + 1]?) + 1) discrepancy fun i discrepancy =>
      addDiscrepancy tables s t.elp u i discrepancy
    let d ← store t.d (u + 1) (← readAt tables.indexOf discrepancy)
    pure { t with d := d }

/-- The steps of the iteration in this decoder's words. -/
def ops (tables : Tables) (s : Vector ℤ (2 * tt + 1)) : Ops tt where
  keep := propagateElpWhenDiscrepancyZero tables
  change := formNextElp tables
  measure := updateDiscrepancy tables s

/-- Whether the locator is short enough, the last row and the arrays with it. -/
def runBerlekampMassey (tables : Tables) (s : Vector ℤ (2 * tt + 1)) (t : Table tt) :
    Option (Bool × ℕ × Table tt) := do
  let t ← initializeBerlekampState s t
  let (u, t) ← (ops tables s).run t
  pure (decide ((← t.l[u]?) ≤ tt), u, t)

/-- The positions found so far; the search stops when there is no room for another. -/
structure Found where
  stopped : Bool
  count : ℕ
  reg : Vector ℤ (tt + 1)
  loc : Vector ℕ tt

def findErrorLocations (tables : Tables) (elpRow : Vector ℤ (2 * tt)) (degree : ℕ)
    (loc : Vector ℕ tt) : Option Found := do
  let reg ← loadRegisters elpRow degree (Vector.replicate (tt + 1) 0)
  forRange 1 (nn + 1) { stopped := false, count := 0, reg, loc : Found } fun i f => do
    if f.stopped then
      pure f
    else
      let (q, reg) ← nextValue tables degree f.reg
      if q = 0 then
        if tt ≤ f.count then
          pure { f with stopped := true, reg := reg }
        else
          let loc ← store f.loc f.count (nn - i)
          pure { f with count := f.count + 1, reg := reg, loc := loc }
      else
        pure { f with reg := reg }

def correctErrorLocations (recd : Vector Bool nn) (loc : Vector ℕ tt) (count : ℕ) :
    Option (Vector Bool nn) :=
  forRange 0 count recd fun i recd => do
    let p ← loc[i]?
    if p < nn then
      store recd p (!(← recd[p]?))
    else
      pure recd

/-- The verdict on a word and the output, written when the word is accepted. -/
def decodeWithResult (tables : Tables) (input : Vector Bool nn) (output : Vector Bool kk)
    (memory : Memory) : Option (BchResult × Vector Bool kk) := do
  let recd ← reverseInputBits input memory.recd
  let (hasError, s) ← computeSyndromes tables recd memory.s
  if hasError = false then
    let output ← extractDataBits recd output
    pure (⟨true, 0⟩, output)
  else
    let (short, u, t) ← runBerlekampMassey tables s memory.toTable
    if short = false then
      pure (⟨false, 0⟩, output)
    else
      let degree ← t.l[u]?
      let elp ← indexElpRow tables u degree t.elp
      let f ← findErrorLocations tables (← elp[u]?) degree memory.loc
      if f.count ≠ degree then
        pure (⟨false, 0⟩, output)
      else
        let recd ← correctErrorLocations recd f.loc f.count
        let output ← extractDataBits recd output
        pure (⟨true, f.count⟩, output)

variable {t : Table tt} {c : ℕ → Gf64[X]} {l : ℕ → ℕ} {d : ℕ → Gf64} {u q degree : ℕ}
  {σ : PowerSeries Gf64} {s : Vector ℤ (2 * tt + 1)} {tables : Tables}
  {elp : Vector (Vector ℤ (2 * tt)) (2 * tt + 2)}

theorem returns_indexElpRow (htables : tables.Sound) {f : ℕ → Gf64} (hu : u ≤ 2 * tt + 1)
    (hdegree : degree < 2 * tt) (h : ∀ i ≤ degree, cell elp u i = some (polyForm (f i))) :
    Returns (indexElpRow tables u degree elp) fun elp' =>
      (∀ i ≤ degree, cell elp' u i = some (indexForm (f i))) ∧
        ∀ p ≠ u, ∀ i, cell elp' p i = cell elp p i := by
  refine (returns_columns (m := elp) (g := fun p k => if p = u then some (indexForm (f k))
    else cell elp p k) (Nat.zero_le _) fun i elp' _ hi hcol => ?_).mono fun elp' help => ⟨?_, ?_⟩
  · refine returns_bind_some ((hcol u).trans (h i (by omega))) ?_
    refine returns_ite (fun _ => ?_) fun hneg => absurd (polyForm_nonneg _) hneg
    refine returns_bind_some (htables.readAt_indexOf _) ?_
    refine (returns_storeCell (by omega) (by omega)).mono fun elp'' hs => hs.column hcol
  · intro i hi
    rw [help, if_pos (by omega), if_pos rfl]
  · intro p hp i
    rw [help, if_neg hp, ite_self]

theorem returns_nextRow {f : ℕ → Vector (Vector ℤ (2 * tt)) (2 * tt + 2) →
      Option (Vector (Vector ℤ (2 * tt)) (2 * tt + 2))} {g : ℕ → Gf64}
    (hbody : ∀ i elp', i ≤ degree → (∀ p, cell elp' p i = cell elp p i) →
      Returns (f i elp') fun elp'' => StoredCell elp' elp'' (u + 1) i (polyForm (g i))) :
    Returns (forRange 0 (degree + 1) elp f) fun elp' =>
      (∀ i, cell elp' (u + 1) i =
        if i ≤ degree then some (polyForm (g i)) else cell elp (u + 1) i) ∧
      ∀ p ≠ u + 1, ∀ i, cell elp' p i = cell elp p i := by
  refine (returns_columns (m := elp)
    (g := fun p k => if p = u + 1 then some (polyForm (g k)) else cell elp p k)
    (Nat.zero_le _) fun i elp' _ hi hcol => ?_).mono fun elp' h => ⟨fun i => ?_, fun p hp i => ?_⟩
  · refine (hbody i elp' (by omega) hcol).mono fun elp'' hs => hs.column hcol
  · rw [h, if_pos rfl]
    exact if_congr (by omega) rfl rfl
  · rw [h, if_neg hp, ite_self]

theorem returns_propagateElpWhenDiscrepancyZero (htables : tables.Sound) (hu : u ≤ 2 * tt)
    (hshort : l u < u) (h : Encodes t c l d u u u) :
    Returns (propagateElpWhenDiscrepancyZero tables u t) fun t' =>
      Encodes t' (Function.update c (u + 1) (c u)) (Function.update l (u + 1) (l u)) d
        (u + 1) u u := by
  refine returns_bind_some (h.lengths u le_rfl) ?_
  refine (returns_store (by omega)).bind fun l' hl => ?_
  have hread : l'[u]? = some (l u) := (hl.rest u (by omega)).trans (h.lengths u le_rfl)
  refine returns_bind_some hread ?_
  refine (returns_nextRow (u := u) (g := (c u).coeff) fun i elp' hi hcol => ?_).bind fun elp₁ h₁ =>
    ?_
  · refine returns_bind_some ((hcol u).trans (h.plain i hi)) ?_
    exact returns_storeCell (by omega) (by omega)
  · obtain ⟨hnext, hrest⟩ := h₁
    refine returns_bind_some hread ?_
    have hrow : ∀ i ≤ l u, cell elp₁ u i = some (polyForm ((c u).coeff i)) := fun i hi =>
      (hrest u (by omega) i).trans (h.plain i hi)
    refine (returns_indexElpRow htables (by omega) (by omega) hrow).bind fun elp₂ h₂ =>
      returns_some (h.next ⟨fun i hi => ?_, h₂.1, fun p hp i => ?_⟩ hl)
    · rw [h₂.2 (u + 1) (by omega), hnext, if_pos hi]
    · rw [h₂.2 p (by omega), hrest p (by omega)]

theorem returns_formNextElp (htables : tables.Sound) (hu : u ≤ 2 * tt)
    (hq : q < u) (hshort : l u < u) (hdu : d u ≠ 0) (hdq : d q ≠ 0)
    (hdegq : (c q).natDegree ≤ l q) (hdegu : (c u).natDegree ≤ l u)
    (hfit : l q + (u - q) < 2 * tt) (h : Encodes t c l d u u u) :
    Returns (formNextElp tables u q t) fun t' =>
      Encodes t' (Function.update c (u + 1) (c u - C (d u / d q) * X ^ (u - q) * c q))
        (Function.update l (u + 1) (max (l u) (l q + u - q))) d (u + 1) u u := by
  refine (returns_nextElpDegree (h.lengths q hq.le) (h.lengths u le_rfl)).bind fun r hr => ?_
  rw [hr]
  refine (returns_store (by omega)).bind fun l' hl => ?_
  have henc := h.withLength hl
  refine (returns_formCorrection htables henc hu hq hdu hdq hdegq hfit).bind fun elp₀ hcor => ?_
  obtain ⟨hrow, hrest⟩ := hcor
  refine returns_bind_some (henc.lengths u le_rfl) ?_
  let b : Gf64[X] := C (d u / d q) * X ^ (u - q) * c q
  have hnew : ∀ i, (c u - b).coeff i = b.coeff i + (c u).coeff i := fun i => by
    rw [coeff_sub, CharTwo.sub_eq_add, add_comm]
  have hold : ∀ i ≤ l u, cell elp₀ u i = some (polyForm ((c u).coeff i)) := fun i hi =>
    (hrest u (by omega) i).trans (h.plain i hi)
  refine (returns_nextRow (u := u) (g := (c u - b).coeff) fun i elp' hi hcol =>
    ?_).bind fun elp₁ h₁ => ?_
  · refine returns_bind_some ((hcol (u + 1)).trans (hrow i (by omega))) ?_
    refine returns_bind_some ((hcol u).trans (hold i hi)) ?_
    rw [← polyForm_add, ← hnew]
    exact returns_storeCell (by omega) (by omega)
  · obtain ⟨hnext, hrest₁⟩ := h₁
    refine returns_bind_some (henc.lengths u le_rfl) ?_
    have hplain : ∀ i ≤ l u, cell elp₁ u i = some (polyForm ((c u).coeff i)) := fun i hi =>
      (hrest₁ u (by omega) i).trans (hold i hi)
    refine (returns_indexElpRow htables (by omega) (by omega) hplain).bind fun elp₂ h₂ =>
      returns_some (h.next ⟨fun i hi => ?_, h₂.1, fun p hp i => ?_⟩ hl)
    · rw [h₂.2 (u + 1) (by omega), hnext]
      by_cases hin : i ≤ l u
      · rw [if_pos hin]
      · rw [if_neg hin, hrow i (by omega), hnew,
          coeff_eq_zero_of_natDegree_lt (lt_of_le_of_lt hdegu (by omega)), add_zero]
    · rw [h₂.2 p (by omega), hrest₁ p (by omega), hrest p (by omega)]

theorem returns_updateDiscrepancy (htables : tables.Sound) (hs : Measured s σ)
    (hu : u < 2 * tt) (hlen : l (u + 1) ≤ u) (hconst : (c (u + 1)).coeff 0 = 1)
    (hdegree : (c (u + 1)).natDegree ≤ l (u + 1)) (h : Encodes t c l d (u + 1) u (u + 1)) :
    Returns (updateDiscrepancy tables s u t) fun t' => Encodes t' c l
      (Function.update d (u + 1) (discrepancy σ (c (u + 1)) (u + 1))) (u + 1) (u + 1) (u + 1) := by
  refine returns_ite (fun hle => absurd hu (Nat.not_lt.mpr hle)) fun _ => ?_
  refine returns_bind_some (hs (u + 1) (by omega) (by omega)) ?_
  refine (returns_toPoly htables _).bind fun x hx => ?_
  refine returns_bind_some (h.lengths (u + 1) le_rfl) ?_
  refine (returns_forRange (fun (i : ℕ) (x : ℤ) => x = polyForm (∑ k ∈ Finset.range i,
    (c (u + 1)).coeff k * PowerSeries.coeff (u + 1 - k) σ)) (by omega) ?_ ?_).bind fun x hx => ?_
  · rw [Finset.sum_range_one, hconst, one_mul]
    exact hx
  · rintro i x hlo hi rfl
    rw [Finset.sum_range_succ]
    exact returns_addDiscrepancy htables (by omega) (hs (u + 1 - i) (by omega) (by omega))
      (h.plain i (by omega))
  · rw [← discrepancy_eq_sum hdegree (by omega)] at hx
    rw [hx]
    refine returns_bind_some (htables.readAt_indexOf _) ?_
    exact (returns_store (by omega)).bind fun d' hd => returns_some (h.measured hd)

/-- The steps of this decoder write the rows, lengths and discrepancies of the table. -/
theorem faithful_ops (htables : tables.Sound) (hs : Measured s σ) : (ops tables s).Faithful σ where
  keep _ hu hshort h := returns_propagateElpWhenDiscrepancyZero htables hu hshort h
  change hu hq hshort hdu hdq hdegq hdegu hfit h :=
    returns_formNextElp htables hu hq hshort hdu hdq hdegq hdegu hfit h
  measure hu hlen hconst hdegree h :=
    returns_updateDiscrepancy htables hs hu hlen hconst hdegree h
  last t := by
    change updateDiscrepancy tables s (2 * tt) t = some t
    rw [updateDiscrepancy, if_pos le_rfl]
    rfl

/-!
# The BCH decoder is an exact bounded-distance decoder

The syndromes of bits double by squaring, so the last one is never set alone, and the
weights of located positions are all one: flipping them gives a word with every syndrome
zero. In the other direction an error of at most eleven bits is located as it is.
-/

variable {recd : Vector Bool nn} {f : ℕ → Bool} {c : Gf64[X]}

/-- A bit as a symbol. -/
def bitSymbol (b : Bool) : Gf64 := if b then 1 else 0

/-- The syndromes of reversed bits, all of them. -/
noncomputable def bitSyndromes (f : ℕ → Bool) : PowerSeries Gf64 :=
  powerSums (Finset.range nn) Gf64.power fun j => bitSymbol (f j)

/-- Reversed bits as the array holds them. -/
def Holds (recd : Vector Bool nn) (f : ℕ → Bool) : Prop := ∀ j < nn, recd[j]? = some (f j)

/-- A bit of a word counted from its end. -/
def reversedBit (w : Vector Bool nn) (j : ℕ) : Bool := (w[nn - 1 - j]?).getD false

theorem getElem?_reversed (w : Vector Bool nn) {j : ℕ} (hj : j < nn) :
    w[nn - 1 - j]? = some (reversedBit w j) := by
  rw [reversedBit, getElem?_eq_some_getElem (show nn - 1 - j < nn by omega), Option.getD_some]

theorem returns_reverseInputBits (input recd : Vector Bool nn) :
    Returns (reverseInputBits input recd) fun recd' => Holds recd' (reversedBit input) := by
  refine returns_forRange (fun i recd => ∀ j < i, recd[j]? = some (reversedBit input j))
    (Nat.zero_le nn) (fun j hj => absurd hj (Nat.not_lt_zero j)) fun i recd _ hi hinv => ?_
  refine returns_bind_some (getElem?_reversed input hi) ?_
  refine (returns_store hi).mono fun recd' hs j hj => ?_
  exact hs.upTo (by rintro rfl; rfl) (hinv j) hj

theorem returns_addBit (htables : tables.Sound) (h : Holds recd f) {j : ℕ} (hj : j < nn) (i : ℕ)
    (g : Gf64) : Returns (addBit tables recd i j (polyForm g)) fun x =>
      x = polyForm (g + bitSymbol (f j) * Gf64.power j ^ i) := by
  refine returns_bind_some (h j hj) (returns_ite (fun hset => ?_) fun hclear => ?_)
  · refine returns_bind_some (htables.alphaTo _ (Nat.mod_lt _ (by decide))) (returns_some ?_)
    rw [hset, bitSymbol, if_pos rfl, one_mul, polyForm_add, Gf64.power_mod, Gf64.power_mul_eq_pow]
  · refine returns_some ?_
    rw [Bool.eq_false_iff.mpr hclear]
    exact congrArg polyForm (by rw [bitSymbol, if_neg Bool.false_ne_true, zero_mul, add_zero])

theorem returns_computeSyndromes (htables : tables.Sound) (h : Holds recd f)
    (s : Vector ℤ (2 * tt + 1)) :
    Returns (computeSyndromes tables recd s) fun p => Measured p.2 (bitSyndromes f) ∧
      (p.1 = false ↔ ∀ k, 0 < k → k ≤ 2 * tt → PowerSeries.coeff k (bitSyndromes f) = 0) := by
  refine (returns_forRange (fun (i : ℕ) (p : Bool × Vector ℤ (2 * tt + 1)) =>
    (∀ k, 0 < k → k < i → p.2[k]? = some (indexForm (PowerSeries.coeff k (bitSyndromes f)))) ∧
    (p.1 = false ↔ ∀ k, 0 < k → k < i → PowerSeries.coeff k (bitSyndromes f) = 0))
    (by omega) ⟨fun k _ _ => by omega, ⟨fun _ k _ _ => by omega, fun _ => rfl⟩⟩ ?_).mono ?_
  · rintro i ⟨hasError, s⟩ hlo hhi ⟨hdone, hflag⟩
    dsimp only at hdone hflag ⊢
    refine (returns_forRange (fun (j : ℕ) (x : ℤ) => x = polyForm (∑ k ∈ Finset.range j,
      bitSymbol (f k) * Gf64.power k ^ i)) (Nat.zero_le nn) rfl ?_).bind fun x hx => ?_
    · rintro j x - hj rfl
      rw [Finset.sum_range_succ]
      exact returns_addBit htables h hj i _
    · have hcoeff : x = polyForm (PowerSeries.coeff i (bitSyndromes f)) := by
        rw [hx, bitSyndromes, coeff_powerSums]
      rw [hcoeff]
      refine returns_bind_some (htables.readAt_indexOf _) ?_
      refine (returns_store hhi).bind fun s' hs => returns_some ⟨fun k hk hki => ?_, ?_⟩
      · exact hs.upTo (by rintro rfl; rfl) (hdone k hk) hki
      · dsimp only
        rw [Bool.or_eq_false_iff, hflag, decide_eq_false_iff_not, not_not, polyForm_eq_zero]
        exact (forall_pos_lt_succ hlo).symm
  · rintro p ⟨hdone, hflag⟩
    refine ⟨fun k hk hk2 => hdone k hk (by omega), hflag.trans ⟨fun hall k hk hk2 => ?_, ?_⟩⟩
    · exact hall k hk (by omega)
    · exact fun hall k hk hk2 => hall k hk (by omega)

/-- The first bits of a word. -/
def firstBits (w : Vector Bool nn) : Vector Bool kk := Vector.ofFn fun i => w[i.val]

theorem returns_extractDataBits {w : Vector Bool nn} (h : Holds recd (reversedBit w))
    (output : Vector Bool kk) :
    Returns (extractDataBits recd output) fun output' => output' = firstBits w := by
  refine (returns_forRange (fun (i : ℕ) (output : Vector Bool kk) =>
    ∀ j < i, output[j]? = w[j]?) (Nat.zero_le kk) (fun j hj => absurd hj (Nat.not_lt_zero j))
    fun i output _ hi hinv => ?_).mono fun output' hall => ?_
  · have hwide : i < nn := hi.trans (by decide)
    have hread : recd[nn - 1 - i]? = w[i]? := by
      rw [h (nn - 1 - i) (by omega), ← getElem?_reversed w (by omega),
        show nn - 1 - (nn - 1 - i) = i by omega]
    have hbit : w[i]? = some w[i] := getElem?_eq_some_getElem hwide
    refine returns_bind_some (hread.trans hbit) ?_
    refine (returns_store hi).mono fun output' hs j hj => ?_
    exact hs.upTo (by rintro rfl; exact hbit) (hinv j) hj
  · refine Vector.ext fun j hj => Option.some.inj ?_
    rw [← getElem?_eq_some_getElem hj, hall j hj,
      getElem?_eq_some_getElem (hj.trans (show kk < nn by decide)), firstBits, Vector.getElem_ofFn]

/-- The search counts the roots and lists their positions. -/
theorem returns_findErrorLocations (htables : tables.Sound) {elpRow : Vector ℤ (2 * tt)}
    (hdeg : degree ≤ tt) (hrow : ∀ i ≤ degree, elpRow[i]? = some (indexForm (c.coeff i)))
    (hconst : c.coeff 0 = 1) (hdegree : c.natDegree ≤ degree) (loc : Vector ℕ tt) :
    Returns (findErrorLocations tables elpRow degree loc) fun p =>
      p.count = (rootsUpTo c nn).length ∧ ∀ k < p.count,
        p.loc[k]? = ((rootsUpTo c nn).map (nn - ·))[k]? := by
  refine (returns_loadRegisters hdeg hrow _).bind fun reg hreg => ?_
  refine (returns_forRange (fun (i : ℕ) (p : Found) => p.stopped = false ∧
    RegistersAt p.reg c degree (i - 1) ∧ p.count = (rootsUpTo c (i - 1)).length ∧
      ∀ k < p.count, p.loc[k]? = ((rootsUpTo c (i - 1)).map (nn - ·))[k]?)
    (by omega) ⟨rfl, hreg, rfl, fun k hk => absurd hk (Nat.not_lt_zero k)⟩ ?_).mono
    fun p hp => hp.2.2
  rintro i p hlo hhi ⟨hgoing, hregs, hcount, hfound⟩
  have hnext : i - 1 + 1 = i := Nat.sub_add_cancel hlo
  refine returns_ite (fun hstop => absurd hstop (Bool.eq_false_iff.mp hgoing)) fun _ => ?_
  refine (returns_nextValue htables hdeg hconst hdegree hregs).bind fun r hr => ?_
  obtain ⟨q, reg'⟩ := r
  obtain ⟨hq, hreg'⟩ := hr
  dsimp only at hq hreg' ⊢
  have hlist := rootsUpTo_succ c (i - 1)
  rw [hnext] at hlist hq hreg'
  rw [hq, Nat.add_sub_cancel]
  refine returns_ite (fun hzero => ?_) fun hne => ?_
  · rw [if_pos (polyForm_eq_zero.mp hzero)] at hlist
    have hroom : p.count < tt := by
      have hbound := length_rootsUpTo_le hconst hdegree (show i ≤ nn by omega)
      rw [hlist, List.length_append, List.length_singleton] at hbound
      omega
    refine returns_ite (fun hfull => absurd hroom (Nat.not_lt.mpr hfull)) fun _ => ?_
    refine (returns_store hroom).bind fun loc' hloc => returns_some ⟨hgoing, hreg', ?_, ?_⟩
    · rw [hlist, List.length_append, List.length_singleton, ← hcount]
    · intro k hk
      dsimp only at hk ⊢
      rw [hlist, List.map_append]
      exact hloc.append (by rw [List.length_map, hcount]) hfound hk
  · rw [if_neg (fun h => hne (polyForm_eq_zero.mpr h)), List.append_nil] at hlist
    rw [hlist]
    exact returns_some ⟨hgoing, hreg', hcount, hfound⟩

/-- Bits with those at some positions flipped. -/
def flipAt (e : Finset ℕ) (f : ℕ → Bool) (j : ℕ) : Bool := f j ^^ decide (j ∈ e)

theorem returns_correctErrorLocations {loc : Vector ℕ tt} {count : ℕ} (h : Holds recd f)
    (hcount : count = (rootsUpTo c nn).length)
    (hloc : ∀ k < count, loc[k]? = ((rootsUpTo c nn).map (nn - ·))[k]?) :
    Returns (correctErrorLocations recd loc count) fun recd' =>
      Holds recd' (flipAt (errorPositions c) f) := by
  let positions := (rootsUpTo c nn).map (nn - ·)
  have hlen : positions.length = count := by rw [hcount, List.length_map]
  refine (returns_forRange (fun (i : ℕ) (recd : Vector Bool nn) =>
    Holds recd (flipAt (positions.take i).toFinset f)) (Nat.zero_le _) ?_ ?_).mono ?_
  · intro j hj
    rw [List.take_zero, flipAt, List.toFinset_nil, decide_eq_false (Finset.notMem_empty j),
      Bool.xor_false]
    exact h j hj
  · intro i recd' _ hi hinv
    have hi' : i < positions.length := hlen.symm ▸ hi
    have hread : loc[i]? = some positions[i] :=
      (hloc i hi).trans (List.getElem?_eq_getElem hi')
    have hmem : positions[i] ∈ errorPositions c := by
      rw [← toFinset_rootsUpTo, List.mem_toFinset]
      exact List.getElem_mem hi'
    have hp : positions[i] < nn := Finset.mem_range.mp (Finset.mem_filter.mp hmem).1
    have hfresh : positions[i] ∉ positions.take i := by
      intro hbefore
      obtain ⟨k, hk, heq⟩ := List.mem_take_iff_getElem.mp hbefore
      have hsame := (nodup_positions c).getElem_inj_iff.mp heq
      omega
    refine returns_bind_some hread (returns_ite (fun _ => ?_) fun hout => absurd hp hout)
    refine returns_bind_some (hinv _ hp) ?_
    refine (returns_store hp).mono fun recd'' hs j hj => ?_
    have htake : positions.take (i + 1) = positions.take i ++ [positions[i]] :=
      (List.take_concat_get' positions i hi').symm
    by_cases hjp : j = positions[i]
    · subst hjp
      rw [hs.here, flipAt, flipAt, htake, List.toFinset_append, decide_eq_false (by
        rw [List.mem_toFinset]
        exact hfresh), decide_eq_true (Finset.mem_union_right _ (by simp)), Bool.xor_false,
        Bool.xor_true]
    · rw [hs.rest j hjp, hinv j hj, flipAt, flipAt, htake, List.toFinset_append]
      refine congrArg (fun b => some (f j ^^ b)) (decide_eq_decide.mpr ?_)
      simp [hjp]
  · intro recd' hall j hj
    rw [hall j hj, ← hlen, List.take_length, toFinset_rootsUpTo]

end DsdNeo.Bch
