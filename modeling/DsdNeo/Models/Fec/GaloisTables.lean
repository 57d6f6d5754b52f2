import DsdNeo.Core.Galois.Field64
import DsdNeo.Core.Program.Returns
import Mathlib.Data.Int.Bitwise
import Mathlib.Tactic.IntervalCases
import Mathlib.Tactic.Ring

/-!
# Tables of the field of sixty-four elements

The decoders hold a symbol in polynomial form, its bits as an integer, or in index form,
the exponent of the primitive element with `-1` for zero. The two tables that lead from
one form to the other are written once, from the coefficients of the field polynomial,
into memory whose contents are arbitrary.
-/

namespace DsdNeo.Fec

open Galois Program Gf64

/-- Symbols of a word, and the order of the primitive element. -/
abbrev nn : ℕ := 63

/-- Bits of a symbol. -/
abbrev mm : ℕ := 6

/-- Conversion tables: powers of the primitive element, and exponents. -/
structure Tables where
  alphaTo : Vector ℤ (nn + 1)
  indexOf : Vector ℤ (nn + 1)

/-- An array with the entry written that an integer names. -/
def storeAt {α : Type} {n : ℕ} (v : Vector α n) (i : ℤ) (x : α) : Option (Vector α n) :=
  if 0 ≤ i then store v i.toNat x else none

/-- Adds a coefficient of the polynomial to the power at the degree. -/
def addCoefficient (generatorPolynomial : Vector ℤ (mm + 1)) (i : ℕ) (mask : ℤ)
    (alphaTo : Vector ℤ (nn + 1)) : Option (Vector ℤ (nn + 1)) := do
  if (← generatorPolynomial[i]?) ≠ 0 then
    store alphaTo mm (Int.xor (← alphaTo[mm]?) mask)
  else
    pure alphaTo

/-- The powers below the degree, and what the polynomial makes of the power at it. -/
def generateLow (generatorPolynomial : Vector ℤ (mm + 1)) (t : Tables) : Option (ℤ × Tables) := do
  let alphaTo ← store t.alphaTo mm 0
  forRange 0 mm ((1 : ℤ), { t with alphaTo := alphaTo }) fun i s => do
    let mask := s.1
    let alphaTo ← store s.2.alphaTo i mask
    let indexOf ← storeAt s.2.indexOf (← alphaTo[i]?) i
    let alphaTo ← addCoefficient generatorPolynomial i mask alphaTo
    pure (mask <<< 1, { alphaTo, indexOf })

/-- The power after one, reduced when it reaches the degree. -/
def nextPower (mask previous : ℤ) (alphaTo : Vector ℤ (nn + 1)) : Option ℤ := do
  if mask ≤ previous then
    pure (Int.xor (← alphaTo[mm]?) (Int.xor previous mask <<< 1))
  else
    pure (previous <<< 1)

/-- The powers from the degree on, each from the one before. -/
def generateHigh (mask : ℤ) (t : Tables) : Option Tables :=
  forRange (mm + 1) nn t fun i t => do
    let previous ← t.alphaTo[i - 1]?
    let value ← nextPower mask previous t.alphaTo
    let alphaTo ← store t.alphaTo i value
    let indexOf ← storeAt t.indexOf (← alphaTo[i]?) i
    pure { alphaTo, indexOf }

/-- Fills both tables from the coefficients of the field polynomial. -/
def generateGf (generatorPolynomial : Vector ℤ (mm + 1)) (t : Tables) : Option Tables := do
  let (mask, t) ← generateLow generatorPolynomial t
  let indexOf ← storeAt t.indexOf (← t.alphaTo[mm]?) mm
  let mask := mask >>> 1
  let t ← generateHigh mask { t with indexOf := indexOf }
  let indexOf ← store t.indexOf 0 (-1)
  pure { t with indexOf := indexOf }

/-- Coefficients of the field polynomial, from the constant one. -/
def pp : Vector ℤ (mm + 1) := #v[1, 1, 0, 0, 0, 0, 1]

/-- A symbol by its bits. -/
def polyForm (a : Gf64) : ℤ := a.bits.toNat

/-- A symbol by its exponent. -/
def indexForm (a : Gf64) : ℤ := if a = 0 then -1 else Gf64.log a.bits

@[simp] theorem polyForm_zero : polyForm 0 = 0 := rfl

@[simp] theorem polyForm_one : polyForm 1 = 1 := rfl

@[simp] theorem indexForm_zero : indexForm 0 = -1 := rfl

theorem polyForm_nonneg (a : Gf64) : 0 ≤ polyForm a := Int.natCast_nonneg _

theorem polyForm_lt (a : Gf64) : a.bits.toNat < 64 := a.bits.isLt

theorem polyForm_injective : Function.Injective polyForm := by
  intro a b h
  refine Gf64.ext (BitVec.eq_of_toNat_eq ?_)
  exact Int.ofNat.inj h

variable {a : Gf64}

theorem polyForm_eq_zero : polyForm a = 0 ↔ a = 0 := polyForm_injective.eq_iff' rfl

/-- The sum of two symbols is exclusive or of their polynomial forms. -/
theorem polyForm_add (a b : Gf64) : polyForm (a + b) = Int.xor (polyForm a) (polyForm b) := by
  rw [polyForm, bits_add, BitVec.toNat_xor]
  rfl

theorem indexForm_of_ne (h : a ≠ 0) : indexForm a = (Gf64.log a.bits : ℤ) := if_neg h

theorem indexForm_nonneg (h : a ≠ 0) : 0 ≤ indexForm a := by
  rw [indexForm_of_ne h]
  exact Int.natCast_nonneg _

theorem indexForm_lt (a : Gf64) : indexForm a < 63 := by
  by_cases h : a = 0
  · rw [h]
    decide
  · rw [indexForm_of_ne h]
    exact_mod_cast log_lt _ (bits_eq_zero.not.mpr h)

theorem indexForm_eq_neg_one : indexForm a = -1 ↔ a = 0 := by
  constructor
  · intro h
    by_contra hne
    have := indexForm_nonneg hne
    omega
  · rintro rfl
    rfl

theorem power_indexForm (h : a ≠ 0) : Gf64.power (indexForm a).toNat = a := by
  rw [indexForm_of_ne h, Int.toNat_natCast, power_log h]

theorem indexForm_power (k : ℕ) : indexForm (Gf64.power k) = ((k % 63 : ℕ) : ℤ) := by
  rw [indexForm_of_ne (power_ne_zero k), Gf64.power, log_antilog]

/-- Tables that lead between the two forms. -/
structure Tables.Sound (t : Tables) : Prop where
  alphaTo : ∀ k < nn, t.alphaTo[k]? = some (polyForm (Gf64.power k))
  indexOf : ∀ a : Gf64, t.indexOf[a.bits.toNat]? = some (indexForm a)

namespace Tables.Sound

variable {t : Tables} {a b c : Gf64}

theorem readAt_alphaTo (h : t.Sound) {e : ℤ} (he : 0 ≤ e) :
    readAt t.alphaTo (e.tmod 63) = some (polyForm (Gf64.power e.toNat)) := by
  lift e to ℕ using he
  have hmod : ((e : ℤ)).tmod 63 = ((e % 63 : ℕ) : ℤ) := (Int.ofNat_tmod e 63).symm
  rw [hmod, readAt_ofNat, h.alphaTo _ (Nat.mod_lt _ (by decide)), Int.toNat_natCast, power_mod]

theorem readAt_alphaTo_index (h : t.Sound) (ha : a ≠ 0) :
    readAt t.alphaTo (indexForm a) = some (polyForm a) := by
  have hlt := indexForm_lt a
  have hnonneg := indexForm_nonneg ha
  have hself : (indexForm a).tmod 63 = indexForm a := Int.tmod_eq_of_lt hnonneg hlt
  rw [← hself, h.readAt_alphaTo hnonneg, power_indexForm ha]

theorem readAt_alphaTo_mul (h : t.Sound) (ha : a ≠ 0) (hb : b ≠ 0) :
    readAt t.alphaTo ((indexForm a + indexForm b).tmod 63) = some (polyForm (a * b)) := by
  have ha' := indexForm_nonneg ha
  have hb' := indexForm_nonneg hb
  rw [h.readAt_alphaTo (by omega), Int.toNat_add ha' hb', ← power_mul_power,
    power_indexForm ha, power_indexForm hb]

theorem readAt_alphaTo_shift (h : t.Sound) (ha : a ≠ 0) (k : ℕ) :
    readAt t.alphaTo ((indexForm a + k).tmod 63) = some (polyForm (a * Gf64.power k)) := by
  have ha' := indexForm_nonneg ha
  rw [h.readAt_alphaTo (by omega), Int.toNat_add_nat ha', ← power_mul_power, power_indexForm ha]

theorem readAt_alphaTo_div (h : t.Sound) (ha : a ≠ 0) (hb : b ≠ 0) (hc : c ≠ 0) :
    readAt t.alphaTo ((indexForm a + nn - indexForm b + indexForm c).tmod 63) =
      some (polyForm (a / b * c)) := by
  have ha' := indexForm_nonneg ha
  have hb' := indexForm_nonneg hb
  have hc' := indexForm_nonneg hc
  have hlt := indexForm_lt b
  have hinv : Gf64.power (63 - (indexForm b).toNat) = b⁻¹ := by
    rw [← inv_power (by omega), power_indexForm hb]
  have hexp : (indexForm a + nn - indexForm b + indexForm c).toNat =
      (indexForm a).toNat + (63 - (indexForm b).toNat) + (indexForm c).toNat := by
    simp only [nn]
    omega
  rw [h.readAt_alphaTo (by simp only [nn]; omega), hexp, ← power_mul_power,
    ← power_mul_power, power_indexForm ha, power_indexForm hc, hinv, div_eq_mul_inv]

theorem readAt_indexOf (h : t.Sound) (a : Gf64) :
    readAt t.indexOf (polyForm a) = some (indexForm a) := by
  rw [polyForm, readAt_ofNat]
  exact h.indexOf a

end Tables.Sound

/-- Both tables up to a power. -/
structure Tables.Filled (t : Tables) (i : ℕ) : Prop where
  alphaTo : ∀ k < i, t.alphaTo[k]? = some (polyForm (Gf64.power k))
  indexOf : ∀ k < i, t.indexOf[(Gf64.power k).bits.toNat]? = some (k : ℤ)

theorem returns_storeAt {α : Type} {n i : ℕ} {v : Vector α n} {x : α} (h : i < n) :
    Returns (storeAt v (i : ℤ) x) fun v' => Stored v v' i x := by
  rw [storeAt, if_pos (Int.natCast_nonneg i), Int.toNat_natCast]
  exact returns_store h

/-- The next power, and its exponent under it, both filled in. -/
theorem Tables.Filled.write {t : Tables} {i : ℕ} {alphaTo' indexOf' : Vector ℤ (nn + 1)}
    (h : t.Filled i) (hi : i < nn)
    (ha : Stored t.alphaTo alphaTo' i (polyForm (Gf64.power i)))
    (hx : Stored t.indexOf indexOf' (Gf64.power i).bits.toNat (i : ℤ)) :
    Tables.Filled ⟨alphaTo', indexOf'⟩ (i + 1) where
  alphaTo k hk := by
    exact ha.upTo (by rintro rfl; rfl) (h.alphaTo k) hk
  indexOf k hk := by
    obtain rfl | hlt := (Nat.lt_succ_iff.mp hk).eq_or_lt
    · exact hx.here
    · refine (hx.rest _ fun heq => ?_).trans (h.indexOf k hlt)
      have hpower : Gf64.power k = Gf64.power i := Gf64.ext (BitVec.eq_of_toNat_eq heq)
      have hmod := power_inj.mp hpower
      rw [Nat.mod_eq_of_lt hi, Nat.mod_eq_of_lt (hlt.trans hi)] at hmod
      omega

theorem polyForm_power_low : ∀ k < mm, polyForm (Gf64.power k) = 1 <<< k := by decide

/-- The next power by the shift of the tables. -/
theorem polyForm_next : ∀ b : BitVec 6,
    (if (32 : ℤ) ≤ b.toNat then Int.xor 3 (Int.xor b.toNat 32 <<< 1) else (b.toNat : ℤ) <<< 1) =
      (Gf64.timesX b).toNat := by
  decide

theorem returns_addCoefficient {i : ℕ} {alphaTo : Vector ℤ (nn + 1)} (hi : i < mm)
    (htop : alphaTo[mm]? = some (if i = 0 then 0 else if i = 1 then 1 else 3)) :
    Returns (addCoefficient pp i (polyForm (Gf64.power i)) alphaTo) fun alphaTo' =>
      (∀ k < mm, alphaTo'[k]? = alphaTo[k]?) ∧
        alphaTo'[mm]? = some (if i + 1 = 0 then 0 else if i + 1 = 1 then 1 else 3) := by
  refine returns_bind_some (getElem?_eq_some_getElem (hi.trans (by decide))) ?_
  refine returns_ite (fun hone => ?_) fun hzero => ?_
  · refine returns_bind_some htop ?_
    refine (returns_store (by decide)).mono fun alphaTo' hs => ⟨fun k hk => hs.rest k hk.ne, ?_⟩
    refine hs.here.trans (congrArg some ?_)
    clear htop hs
    interval_cases i
    · decide
    · decide
    all_goals exact absurd rfl hone
  · refine returns_some ⟨fun _ _ => rfl, htop.trans (congrArg some ?_)⟩
    clear htop
    interval_cases i
    · exact absurd one_ne_zero hzero
    · exact absurd one_ne_zero hzero
    all_goals rfl

theorem returns_generateLow (t : Tables) : Returns (generateLow pp t) fun s =>
    s.1 = 64 ∧ s.2.Filled mm ∧ s.2.alphaTo[mm]? = some 3 := by
  refine (returns_store (by decide)).bind fun alphaTo hzero => ?_
  refine (returns_forRange
    (fun (i : ℕ) (s : ℤ × Tables) => s.1 = 1 <<< i ∧ s.2.Filled i ∧
      s.2.alphaTo[mm]? = some (if i = 0 then 0 else if i = 1 then 1 else 3))
    (Nat.zero_le mm) ⟨rfl, ⟨by omega, by omega⟩, hzero.here⟩ ?_).mono ?_
  · rintro i ⟨mask, t⟩ - hi ⟨hmask, hfilled, htop⟩
    dsimp only at hmask hfilled htop ⊢
    have hpoly : mask = polyForm (Gf64.power i) := hmask.trans (polyForm_power_low i hi).symm
    refine (returns_store (hi.trans (by decide))).bind fun alphaTo ha => ?_
    refine returns_bind_some ha.here ?_
    rw [hpoly] at ha ⊢
    refine (returns_storeAt (polyForm_lt _)).bind fun indexOf hx => ?_
    have hnext := hfilled.write (hi.trans (by decide)) ha hx
    have htop' : alphaTo[mm]? = some (if i = 0 then 0 else if i = 1 then 1 else 3) :=
      (ha.rest mm (by omega)).trans htop
    have hmask' : polyForm (Gf64.power i) <<< 1 = 1 <<< (i + 1) := by
      rw [polyForm_power_low i hi]
      interval_cases i <;> rfl
    refine (returns_addCoefficient hi htop').bind fun alphaTo' hs => ?_
    refine returns_some ⟨hmask', ⟨fun k hk => ?_, hnext.indexOf⟩, hs.2⟩
    exact (hs.1 k (by omega)).trans (hnext.alphaTo k hk)
  · rintro s ⟨hmask, hfilled, htop⟩
    exact ⟨hmask, hfilled, htop⟩

theorem returns_nextPower {i : ℕ} {alphaTo : Vector ℤ (nn + 1)} (hi : 1 ≤ i)
    (htop : alphaTo[mm]? = some 3) :
    Returns (nextPower 32 (polyForm (Gf64.power (i - 1))) alphaTo) fun v =>
      v = polyForm (Gf64.power i) := by
  have hpower : Gf64.timesX (Gf64.power (i - 1)).bits = (Gf64.power i).bits := by
    conv_rhs => rw [← Nat.sub_add_cancel hi]
    rfl
  have hnext : (if (32 : ℤ) ≤ polyForm (Gf64.power (i - 1)) then
      Int.xor 3 (Int.xor (polyForm (Gf64.power (i - 1))) 32 <<< 1)
      else polyForm (Gf64.power (i - 1)) <<< 1) = polyForm (Gf64.power i) := by
    rw [polyForm, polyForm, ← hpower]
    exact polyForm_next _
  refine returns_ite (fun hge => ?_) fun hlt => ?_
  · refine returns_bind_some htop (returns_some ?_)
    rwa [if_pos hge] at hnext
  · rw [if_neg hlt] at hnext
    exact returns_some hnext

theorem returns_generateHigh {t : Tables} (h : t.Filled (mm + 1)) :
    Returns (generateHigh 32 t) fun t' => t'.Filled nn := by
  refine returns_forRange (fun (i : ℕ) (t : Tables) => t.Filled i) (by decide) h
    fun i t hlow hi hfilled => ?_
  have hprevious := hfilled.alphaTo (i - 1) (by omega)
  have htop : t.alphaTo[mm]? = some 3 := hfilled.alphaTo mm (by omega)
  refine returns_bind_some hprevious ?_
  refine (returns_nextPower (by omega) htop).bind fun v hv => ?_
  rw [hv]
  refine (returns_store (hi.trans (by decide))).bind fun alphaTo ha => ?_
  refine returns_bind_some ha.here ?_
  refine (returns_storeAt (polyForm_lt _)).bind fun indexOf hx => ?_
  exact returns_some (hfilled.write hi ha hx)

/-- Whatever the memory held, the tables lead between the two forms. -/
theorem returns_generateGf (t : Tables) : Returns (generateGf pp t) Tables.Sound := by
  refine (returns_generateLow t).bind ?_
  rintro ⟨mask, t⟩ ⟨rfl, hfilled, htop⟩
  refine returns_bind_some htop ?_
  refine (returns_storeAt (i := 3) (by decide)).bind fun indexOf hx => ?_
  have hseven : Tables.Filled { t with indexOf := indexOf } (mm + 1) := by
    refine ⟨fun k hk => ?_, fun k hk => ?_⟩
    · obtain rfl | hlt := (Nat.lt_succ_iff.mp hk).eq_or_lt
      · exact htop
      · exact hfilled.alphaTo k hlt
    · obtain rfl | hlt := (Nat.lt_succ_iff.mp hk).eq_or_lt
      · exact hx.here
      · refine (hx.rest _ ?_).trans (hfilled.indexOf k hlt)
        interval_cases k <;> decide
  refine (returns_generateHigh hseven).bind fun t' hfull => ?_
  refine (returns_store (by decide)).bind fun indexOf hzero => returns_some ⟨hfull.alphaTo, ?_⟩
  intro a
  rcases eq_zero_or_power a with rfl | ⟨k, hk, rfl⟩
  · exact hzero.here
  · have hne : (Gf64.power k).bits.toNat ≠ 0 := fun h =>
      power_ne_zero k (bits_eq_zero.mp (BitVec.eq_of_toNat_eq h))
    refine (hzero.rest _ hne).trans ((hfull.indexOf k hk).trans (congrArg some ?_))
    rw [indexForm_power, Nat.mod_eq_of_lt hk]

/-- A decoder object: tables that its constructor wrote into the memory it was given. -/
structure Codec where
  tables : Tables
  generated : ∃ memory, generateGf pp memory = some tables

theorem Codec.sound (codec : Codec) : codec.tables.Sound := by
  obtain ⟨memory, hmemory⟩ := codec.generated
  obtain ⟨tables, htables, hsound⟩ := returns_generateGf memory
  rw [hmemory] at htables
  exact Option.some.inj htables ▸ hsound

/-- The constructor. -/
def Codec.make (memory : Tables) : Codec :=
  match h : generateGf pp memory with
  | some tables => ⟨tables, memory, h⟩
  | none => absurd h (by
      obtain ⟨tables, htables, -⟩ := returns_generateGf memory
      rw [htables]
      exact Option.some_ne_none _)

end DsdNeo.Fec
