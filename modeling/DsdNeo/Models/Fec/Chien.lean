import DsdNeo.Core.Galois.Locator
import DsdNeo.Models.Fec.BerlekampRows

/-!
# Searching for the error positions

The registers start as the coefficients of the locator in index form. Each step multiplies the
register of a power by that power of the primitive element, so that after a step the exclusive or
of them all is the locator's value at the next element.
-/

namespace DsdNeo.Fec

open Galois Program Polynomial Gf64 Finset

variable {tt : ℕ}

/-- The registers loaded with a row of coefficients. -/
def loadRegisters (locator : Vector ℤ (2 * tt)) (degree : ℕ) (reg : Vector ℤ (tt + 1)) :
    Option (Vector ℤ (tt + 1)) :=
  forRange 1 (degree + 1) reg fun i reg => do store reg i (← locator[i]?)

/-- One step of the search: the registers moved on, and the value of the locator. -/
def nextValue (tables : Tables) (degree : ℕ) (reg : Vector ℤ (tt + 1)) :
    Option (ℤ × Vector ℤ (tt + 1)) :=
  forRange 1 (degree + 1) ((1 : ℤ), reg) fun j s => do
    let r ← s.2[j]?
    if r ≠ -1 then
      let reg ← store s.2 j ((r + j).tmod nn)
      pure (Int.xor s.1 (← readAt tables.alphaTo (← reg[j]?)), reg)
    else
      pure s

/-- Registers that stand at one of the elements. -/
def RegistersAt (reg : Vector ℤ (tt + 1)) (c : Gf64[X]) (degree i : ℕ) : Prop :=
  ∀ j, 0 < j → j ≤ degree → reg[j]? = some (indexForm (c.coeff j * power (i * j)))

variable {c : Gf64[X]} {degree i : ℕ} {reg : Vector ℤ (tt + 1)} {tables : Tables}

theorem returns_loadRegisters {locator : Vector ℤ (2 * tt)} (hdeg : degree ≤ tt)
    (hrow : ∀ i ≤ degree, locator[i]? = some (indexForm (c.coeff i))) (reg : Vector ℤ (tt + 1)) :
    Returns (loadRegisters locator degree reg) fun reg => RegistersAt reg c degree 0 := by
  refine (returns_forRange (fun (i : ℕ) (reg : Vector ℤ (tt + 1)) =>
    ∀ j, 0 < j → j < i → reg[j]? = some (indexForm (c.coeff j))) (by omega)
    (fun j _ _ => by omega) fun i reg hlo hhi hinv => ?_).mono fun reg hreg j hj hjd => ?_
  · refine returns_bind_some (hrow i (by omega)) ?_
    refine (returns_store (by omega)).mono fun reg' hs j hj hji => ?_
    exact hs.upTo (by rintro rfl; rfl) (hinv j hj) hji
  · rw [hreg j hj (by omega), Nat.zero_mul, show power 0 = 1 from rfl, mul_one]

theorem indexForm_mul_power {a : Gf64} (ha : a ≠ 0) (k : ℕ) :
    (indexForm a + k).tmod nn = indexForm (a * power k) := by
  have ha' := indexForm_nonneg ha
  conv_rhs => rw [← power_indexForm ha, power_mul_power, indexForm_power]
  rw [show indexForm a + (k : ℤ) = (((indexForm a).toNat + k : ℕ) : ℤ) by omega]
  exact (Int.ofNat_tmod _ 63).symm

theorem returns_nextValue (htables : tables.Sound) (hdeg : degree ≤ tt)
    (hconst : c.coeff 0 = 1) (hdegree : c.natDegree ≤ degree) (h : RegistersAt reg c degree i) :
    Returns (nextValue tables degree reg) fun s =>
      s.1 = polyForm (c.eval (power (i + 1))) ∧ RegistersAt s.2 c degree (i + 1) := by
  have hmove : ∀ j, c.coeff j * power (i * j) * power j =
      c.coeff j * power (i + 1) ^ j := by
    intro j
    rw [mul_assoc, power_mul_power, ← Nat.succ_mul, Nat.mul_comm, power_mul_eq_pow]
  refine (returns_forRange (fun (j : ℕ) (s : ℤ × Vector ℤ (tt + 1)) =>
    s.1 = polyForm (∑ k ∈ Finset.range j, c.coeff k * power (i + 1) ^ k) ∧
      (∀ k, 0 < k → k < j → s.2[k]? = some (indexForm (c.coeff k * power ((i + 1) * k)))) ∧
      ∀ k, j ≤ k → k ≤ degree → s.2[k]? = some (indexForm (c.coeff k * power (i * k))))
    (by omega) ⟨?_, fun k _ _ => by omega, fun k hk hkd => h k hk hkd⟩ ?_).mono ?_
  · rw [sum_range_one, hconst, pow_zero, mul_one, polyForm_one]
  · rintro j ⟨q, reg⟩ hlo hhi ⟨hsum, hdone, hleft⟩
    dsimp only at hsum hdone hleft ⊢
    have hstep : c.coeff j * power (i * j) * power j =
        c.coeff j * power ((i + 1) * j) := by
      rw [mul_assoc, power_mul_power, Nat.succ_mul]
    refine returns_bind_some (hleft j le_rfl (by omega)) (returns_ite (fun hne => ?_) fun hz => ?_)
    · have ha : c.coeff j * power (i * j) ≠ 0 := fun h0 => hne (indexForm_eq_neg_one.mpr h0)
      have hnew : c.coeff j * power ((i + 1) * j) ≠ 0 := by
        rw [← hstep]
        exact mul_ne_zero ha (power_ne_zero j)
      refine (returns_store (by omega)).bind fun reg' hs => ?_
      rw [indexForm_mul_power ha j, hstep] at hs
      refine returns_bind_some hs.here (returns_bind_some (htables.readAt_alphaTo_index hnew) ?_)
      refine returns_some ⟨?_, fun k hk hkj => ?_, fun k hjk hkd => ?_⟩
      · rw [sum_range_succ, polyForm_add, hsum, ← hmove, hstep]
      · exact hs.upTo (by rintro rfl; rfl) (hdone k hk) hkj
      · exact (hs.rest k (by omega)).trans (hleft k (by omega) hkd)
    · have ha : c.coeff j * power (i * j) = 0 := by
        by_contra hne
        exact hz fun heq => hne (indexForm_eq_neg_one.mp heq)
      have hcoeff : c.coeff j = 0 := (mul_eq_zero.mp ha).resolve_right (power_ne_zero _)
      refine returns_some ⟨?_, fun k hk hkj => ?_, fun k hjk hkd => hleft k (by omega) hkd⟩
      · rw [sum_range_succ, hcoeff, zero_mul, add_zero]
        exact hsum
      · obtain rfl | hlt := (Nat.lt_succ_iff.mp hkj).eq_or_lt
        · rw [hleft k le_rfl (by omega), hcoeff, zero_mul, zero_mul]
        · exact hdone k hk hlt
  · rintro s ⟨hsum, hdone, -⟩
    refine ⟨?_, fun j hj hjd => hdone j hj (by omega)⟩
    rw [hsum, eval_eq_sum_range' (Nat.lt_succ_of_le hdegree)]

/-- The elements up to one that are roots, as exponents. -/
noncomputable def rootsUpTo (c : Gf64[X]) (i : ℕ) : List ℕ :=
  ((List.range i).map Nat.succ).filter fun k => c.eval (power k) = 0

theorem rootsUpTo_succ (c : Gf64[X]) (i : ℕ) :
    rootsUpTo c (i + 1) = rootsUpTo c i ++ if c.eval (power (i + 1)) = 0 then [i + 1] else [] := by
  rw [rootsUpTo, List.range_succ, List.map_append, List.filter_append]
  refine congrArg (rootsUpTo c i ++ ·) ?_
  by_cases h : c.eval (power (i + 1)) = 0
  · rw [if_pos h]
    exact List.filter_cons_of_pos (decide_eq_true h)
  · rw [if_neg h]
    exact List.filter_cons_of_neg (by simpa using h)

/-- The positions whose elements are the inverses of roots. -/
noncomputable def errorPositions (c : Gf64[X]) : Finset ℕ :=
  (Finset.range nn).filter fun p => c.eval (power p)⁻¹ = 0

theorem power_injOn : Set.InjOn power (Finset.range nn : Set ℕ) := by
  intro p hp q hq h
  have hp' := mem_range.mp (mem_coe.mp hp)
  have hq' := mem_range.mp (mem_coe.mp hq)
  have := power_inj.mp h
  rwa [Nat.mod_eq_of_lt hp', Nat.mod_eq_of_lt hq'] at this

theorem injOn_errorPositions (c : Gf64[X]) : Set.InjOn power (errorPositions c : Set ℕ) :=
  power_injOn.mono (by exact_mod_cast filter_subset _ _)

theorem mem_rootsUpTo {k : ℕ} : k ∈ rootsUpTo c i ↔ (0 < k ∧ k ≤ i) ∧ c.eval (power k) = 0 := by
  rw [rootsUpTo, List.mem_filter, List.mem_map, decide_eq_true_iff]
  refine and_congr_left fun _ => ⟨?_, fun hk => ?_⟩
  · rintro ⟨j, hj, rfl⟩
    have := List.mem_range.mp hj
    omega
  · exact ⟨k - 1, List.mem_range.mpr (by omega), by omega⟩

theorem nodup_rootsUpTo (c : Gf64[X]) (i : ℕ) : (rootsUpTo c i).Nodup :=
  (List.nodup_range.map Nat.succ_injective).filter _

theorem inv_power_sub {k : ℕ} (hk : k ≤ nn) : (power (nn - k))⁻¹ = power k := by
  rw [← inv_power hk, inv_inv]

theorem toFinset_rootsUpTo (c : Gf64[X]) :
    ((rootsUpTo c nn).map (nn - ·)).toFinset = errorPositions c := by
  ext p
  rw [List.mem_toFinset, List.mem_map, errorPositions, mem_filter, mem_range]
  constructor
  · rintro ⟨k, hk, rfl⟩
    obtain ⟨⟨hpos, hle⟩, hroot⟩ := mem_rootsUpTo.mp hk
    refine ⟨by omega, ?_⟩
    rw [inv_power_sub hle]
    exact hroot
  · rintro ⟨hp, hroot⟩
    refine ⟨nn - p, mem_rootsUpTo.mpr ⟨by omega, ?_⟩, by omega⟩
    rw [← inv_power_sub (Nat.sub_le nn p), Nat.sub_sub_self hp.le]
    exact hroot

theorem nodup_positions (c : Gf64[X]) : ((rootsUpTo c nn).map (nn - ·)).Nodup := by
  refine List.Nodup.map_on ?_ (nodup_rootsUpTo c nn)
  intro k hk m hm heq
  have hk' := (mem_rootsUpTo.mp hk).1
  have hm' := (mem_rootsUpTo.mp hm).1
  omega

theorem card_errorPositions (c : Gf64[X]) : (errorPositions c).card = (rootsUpTo c nn).length := by
  rw [← toFinset_rootsUpTo, List.toFinset_card_of_nodup (nodup_positions c), List.length_map]

theorem card_errorPositions_le (hconst : c.coeff 0 = 1) (hdegree : c.natDegree ≤ degree) :
    (errorPositions c).card ≤ degree := by
  refine (card_le_of_roots (injOn_errorPositions c) hconst fun p hp => ?_).trans hdegree
  exact (mem_filter.mp hp).2

theorem length_rootsUpTo_le (hconst : c.coeff 0 = 1) (hdegree : c.natDegree ≤ degree)
    (hi : i ≤ nn) : (rootsUpTo c i).length ≤ degree := by
  refine le_trans (List.Sublist.length_le ?_)
    ((card_errorPositions c).symm.le.trans (card_errorPositions_le hconst hdegree))
  exact ((List.range_sublist.mpr hi).map Nat.succ).filter _

/-!
# What a decoder learns of the error

The iteration and the search either give up or locate positions: as many as the length of
the last row, which is then their locator. An error at no more positions than the decoder
corrects is located as it is, and located positions explain every syndrome.
-/

variable {tt degree : ℕ} {σ : PowerSeries Gf64} {c : Gf64[X]}

/-- The last row is too long, or its roots are fewer than its length. -/
def Failed (σ : PowerSeries Gf64) (tt : ℕ) : Prop :=
  ∃ (c : ℕ → Gf64[X]) (l : ℕ → ℕ) (d : ℕ → Gf64) (u : ℕ), Rows σ c l d u ∧ u ≤ 2 * tt + 1 ∧
    (tt < l u ∨ u = 2 * tt + 1 ∧ (errorPositions (c u)).card ≠ l u)

/-- The last row has as many roots as its length, and the decoder corrects that many. -/
structure Located (σ : PowerSeries Gf64) (tt : ℕ) (c : Gf64[X]) (degree : ℕ) : Prop where
  generates : Generates σ c degree (2 * tt)
  least : ∀ {b m}, Generates σ b m (2 * tt) → degree ≤ m
  short : degree ≤ tt
  card : (errorPositions c).card = degree

/-- A last row short enough with as many roots as its length locates them. -/
theorem Finished.located {t : Table tt} {c : ℕ → Gf64[X]} {l : ℕ → ℕ} {d : ℕ → Gf64}
    {u : ℕ} (h : Finished σ t c l d u) (hshort : l u ≤ tt)
    (hcard : (errorPositions (c u)).card = l u) : Located σ tt (c u) (l u) := by
  obtain rfl : u = 2 * tt + 1 := h.complete.resolve_left (Nat.not_lt.mpr hshort)
  exact ⟨h.rows.generates _ le_rfl, fun hb => h.rows.least hb, hshort, hcard⟩

theorem Finished.failed {t : Table tt} {c : ℕ → Gf64[X]} {l : ℕ → ℕ} {d : ℕ → Gf64} {u : ℕ}
    (h : Finished σ t c l d u) (hbad : tt < l u ∨ (errorPositions (c u)).card ≠ l u) :
    Failed σ tt := by
  refine ⟨c, l, d, u, h.rows, h.bounds.2, ?_⟩
  by_cases hlong : tt < l u
  · exact Or.inl hlong
  · exact Or.inr ⟨h.complete.resolve_left hlong, hbad.resolve_left hlong⟩

section Errors

variable {e : Finset ℕ} {y : ℕ → Gf64}

theorem injOn_power (he : e ⊆ Finset.range nn) : Set.InjOn power (e : Set ℕ) :=
  power_injOn.mono (by exact_mod_cast he)

/-- The errors whose power sums the syndromes are, no more of them than the decoder corrects. -/
structure Correctable (σ : PowerSeries Gf64) (tt : ℕ) (e : Finset ℕ) (y : ℕ → Gf64) : Prop where
  positions : e ⊆ Finset.range nn
  few : e.card ≤ tt
  nonzero : ∀ p ∈ e, y p ≠ 0
  sums : ∀ k, 0 < k → k ≤ 2 * tt →
    PowerSeries.coeff k σ = PowerSeries.coeff k (powerSums e power y)

namespace Correctable

theorem generates (h : Correctable σ tt e y) : Generates σ (locator e power) e.card (2 * tt) :=
  (generates_locator (fun p _ => power_ne_zero p) (2 * tt)).congr
    fun k hk hk2 => (h.sums k hk hk2).symm

theorem not_overflows (h : Correctable σ tt e y) (htt : 0 < tt) : ¬ Overflows σ tt := by
  intro hover
  have hone : Generates σ 1 0 (2 * tt - 1) :=
    generates_one fun k hk hk2 => hover.1 k hk (by omega)
  have hfails : discrepancy σ 1 (2 * tt) ≠ 0 := by
    rw [discrepancy_one]
    exact hover.2
  have := hone.le_add hfails h.generates
  have := h.few
  omega

/-- A recurrence no longer than the errors are many is their locator. -/
theorem eq_locator (h : Correctable σ tt e y) (hgen : Generates σ c degree (2 * tt))
    (hdegree : degree ≤ e.card) : c = locator e power := by
  have hne : ∀ p ∈ e, power p ≠ 0 := fun p _ => power_ne_zero p
  have hfew := h.few
  refine Galois.eq_locator (injOn_power h.positions) hne hgen.const
    (hgen.degree.trans hdegree) fun p hp => ?_
  exact (hgen.congr h.sums).root (injOn_power h.positions) hne (by omega) p hp (h.nonzero p hp)

theorem errorPositions_locator (he : e ⊆ Finset.range nn) :
    errorPositions (locator e power) = e := by
  have hsub : e ⊆ errorPositions (locator e power) := fun p hp =>
    mem_filter.mpr ⟨he hp, eval_locator_inv hp (power_ne_zero p)⟩
  have hcard : (errorPositions (locator e power)).card ≤ e.card :=
    card_errorPositions_le coeff_zero_locator natDegree_locator_le
  exact (eq_of_subset_of_card_le hsub hcard).symm

/-- The length of a least recurrence is the number of errors. -/
theorem degree_eq (h : Correctable σ tt e y) (hgen : Generates σ c degree (2 * tt))
    (hdegree : degree ≤ e.card) : degree = e.card := by
  refine le_antisymm hdegree ?_
  have hpositions := card_errorPositions_le hgen.const hgen.degree
  rwa [h.eq_locator hgen hdegree, errorPositions_locator h.positions] at hpositions

/-- Correctable errors are not given up. -/
theorem not_failed (h : Correctable σ tt e y) : ¬ Failed σ tt := by
  rintro ⟨c, l, d, u, hrows, hu, hbad⟩
  have hleast : l u ≤ e.card := hrows.least (h.generates.mono (by omega))
  have hfew := h.few
  obtain hlong | ⟨rfl, hcard⟩ := hbad
  · omega
  · have hgen := hrows.generates (2 * tt + 1) le_rfl
    rw [Nat.add_sub_cancel] at hgen
    refine hcard ?_
    rw [h.eq_locator hgen hleast, errorPositions_locator h.positions, h.degree_eq hgen hleast]

theorem located (h : Correctable σ tt e y) (hloc : Located σ tt c degree) :
    c = locator e power ∧ errorPositions c = e ∧ degree = e.card := by
  have hleast := hloc.least h.generates
  have hc := h.eq_locator hloc.generates hleast
  exact ⟨hc, hc ▸ errorPositions_locator h.positions, h.degree_eq hloc.generates hleast⟩

end Correctable

end Errors

theorem Located.correctable (h : Located σ tt c degree) :
    ∃ y, Correctable σ tt (errorPositions c) y := by
  have hne : ∀ p ∈ errorPositions c, power p ≠ 0 := fun p _ => power_ne_zero p
  have hgen := h.generates
  rw [← h.card] at hgen
  obtain ⟨y, hy⟩ := hgen.exists_powerSums (injOn_errorPositions c) hne fun p hp =>
    (mem_filter.mp hp).2
  refine ⟨y, filter_subset _ _, h.card.le.trans h.short, fun p hp hzero => ?_, hy⟩
  -- Without a position of weight zero the others would generate the syndromes too.
  have hrest : powerSums ((errorPositions c).erase p) power y =
      powerSums (errorPositions c) power y := by
    refine PowerSeries.ext fun k => ?_
    rw [coeff_powerSums, coeff_powerSums]
    have hterm : y p * power p ^ k = 0 := by rw [hzero, zero_mul]
    exact sum_erase _ hterm
  have hshorter := h.least ((generates_locator (s := (errorPositions c).erase p) (y := y)
    (fun q _ => power_ne_zero q) (2 * tt)).congr fun k hk hk2 => by
      rw [hrest]
      exact (hy k hk hk2).symm)
  have hcard := card_erase_add_one hp
  have := h.card
  omega

end DsdNeo.Fec
