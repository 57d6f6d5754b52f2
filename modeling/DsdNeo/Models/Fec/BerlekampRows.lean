import DsdNeo.Models.Fec.Berlekamp

/-!
# The iteration keeps shortest recurrences

Whatever words a decoder uses for its steps, they write the next row, length and
discrepancy of the table of recurrences. A run therefore returns with the last row of such
a table, unless the first syndrome that is not zero is the last one: the correction then
has nothing but the first row to start from and falls off the end of the newest.
-/

namespace DsdNeo.Fec

open Galois Program Polynomial Function

variable {tt : ℕ} {t : Table tt} {c : ℕ → Gf64[X]} {l : ℕ → ℕ} {d : ℕ → Gf64} {u q n m : ℕ}
  {σ : PowerSeries Gf64}

/-- The newest row turned to index form and the next one written in polynomial form. -/
structure RowWritten (elp elp' : Vector (Vector ℤ (2 * tt)) (2 * tt + 2)) (u : ℕ)
    (old : Gf64[X]) (oldLength : ℕ) (new : Gf64[X]) (newLength : ℕ) : Prop where
  plain : ∀ i ≤ newLength, cell elp' (u + 1) i = some (polyForm (new.coeff i))
  indexed : ∀ i ≤ oldLength, cell elp' u i = some (indexForm (old.coeff i))
  rest : ∀ p < u, ∀ i, cell elp' p i = cell elp p i

/-- An array of lengths with the next one written holds the same rows. -/
theorem Encodes.withLength {l' : Vector ℕ (2 * tt + 2)} {m : ℕ} (h : Encodes t c l d u u u)
    (hl : Stored t.l l' (u + 1) m) : Encodes { t with l := l' } c l d u u u where
  indexed := h.indexed
  plain := h.plain
  lengths q hq := (hl.rest q (by omega)).trans (h.lengths q hq)
  failed := h.failed
  reaches := h.reaches

theorem Encodes.next {elp' : Vector (Vector ℤ (2 * tt)) (2 * tt + 2)}
    {l' : Vector ℕ (2 * tt + 2)} {b : Gf64[X]} {m : ℕ} (h : Encodes t c l d u u u)
    (hrow : RowWritten t.elp elp' u (c u) (l u) b m) (hl : Stored t.l l' (u + 1) m) :
    Encodes { t with elp := elp', l := l' } (Function.update c (u + 1) b)
      (Function.update l (u + 1) m) d (u + 1) u u where
  indexed q hq i hi := by
    rw [update_of_ne (by omega)] at hi ⊢
    obtain rfl | hlt := (Nat.lt_succ_iff.mp hq).eq_or_lt
    · exact hrow.indexed i hi
    · exact (hrow.rest q hlt i).trans (h.indexed q hlt i hi)
  plain i hi := by
    rw [update_self] at hi ⊢
    exact hrow.plain i hi
  lengths q hq := by
    obtain rfl | hlt := hq.eq_or_lt
    · rw [update_self]
      exact hl.here
    · rw [update_of_ne (by omega)]
      exact (hl.rest q (by omega)).trans (h.lengths q (by omega))
  failed := h.failed
  reaches q hq := by
    rw [update_of_ne (by omega)]
    exact h.reaches q hq

theorem Encodes.reached {r : Vector ℤ (2 * tt + 2)} (h : Encodes t c l d (u + 1) n u)
    (hr : Stored t.uLu r (u + 1) ((u : ℤ) - l (u + 1))) :
    Encodes { t with uLu := r } c l d (u + 1) n (u + 1) where
  indexed := h.indexed
  plain := h.plain
  lengths := h.lengths
  failed := h.failed
  reaches q hq := by
    obtain rfl | hlt := hq.eq_or_lt
    · refine hr.here.trans (congrArg some ?_)
      push_cast
      ring
    · exact (hr.rest q (by omega)).trans (h.reaches q (by omega))

theorem Encodes.measured {d' : Vector ℤ (2 * tt + 2)} {g : Gf64}
    (h : Encodes t c l d (u + 1) u m) (hd : Stored t.d d' (u + 1) (indexForm g)) :
    Encodes { t with d := d' } c l (Function.update d (u + 1) g) (u + 1) (u + 1) m where
  indexed := h.indexed
  plain := h.plain
  lengths := h.lengths
  failed q hq := by
    obtain rfl | hlt := hq.eq_or_lt
    · rw [update_self]
      exact hd.here
    · rw [update_of_ne (by omega)]
      exact (hd.rest q (by omega)).trans (h.failed q (by omega))
  reaches := h.reaches

/-- Operations that write the next row, length and discrepancy of the table. -/
structure Ops.Faithful (ops : Ops tt) (σ : PowerSeries Gf64) : Prop where
  keep : ∀ {t c l d u}, 0 < u → u ≤ 2 * tt → l u < u → Encodes t c l d u u u →
    Returns (ops.keep u t) fun t' =>
      Encodes t' (Function.update c (u + 1) (c u)) (Function.update l (u + 1) (l u)) d (u + 1) u u
  change : ∀ {t c l d u q}, u ≤ 2 * tt → q < u → l u < u → d u ≠ 0 → d q ≠ 0 →
    (c q).natDegree ≤ l q → (c u).natDegree ≤ l u → l q + (u - q) < 2 * tt →
    Encodes t c l d u u u → Returns (ops.change u q t) fun t' =>
      Encodes t' (Function.update c (u + 1) (c u - C (d u / d q) * X ^ (u - q) * c q))
        (Function.update l (u + 1) (max (l u) (l q + u - q))) d (u + 1) u u
  measure : ∀ {t c l d u}, u < 2 * tt → l (u + 1) ≤ u → (c (u + 1)).coeff 0 = 1 →
    (c (u + 1)).natDegree ≤ l (u + 1) → Encodes t c l d (u + 1) u (u + 1) →
    Returns (ops.measure u t) fun t' => Encodes t' c l
      (Function.update d (u + 1) (discrepancy σ (c (u + 1)) (u + 1))) (u + 1) (u + 1) (u + 1)
  last : ∀ t, ops.measure (2 * tt) t = some t

/-- The only syndrome that is not zero, of all before it and itself, is the last. -/
def Overflows (σ : PowerSeries Gf64) (tt : ℕ) : Prop :=
  (∀ k, 0 < k → k < 2 * tt → PowerSeries.coeff k σ = 0) ∧ PowerSeries.coeff (2 * tt) σ ≠ 0

/-- The arrays hold a table whose newest row has been measured. -/
structure Progress (σ : PowerSeries Gf64) (t : Table tt) (c : ℕ → Gf64[X]) (l : ℕ → ℕ)
    (d : ℕ → Gf64) (u : ℕ) : Prop where
  encodes : Encodes t c l d u u u
  rows : Rows σ c l d u
  latest : d u = discrepancy σ (c u) u

/-- The arrays before the first symbol hold a measured table. -/
theorem progress_initial {t : Table tt} (h : Encodes t (fun _ => 1) (fun _ => 0)
    (fun q => if q = 0 then 1 else PowerSeries.coeff q σ) 1 1 1) :
    Progress σ t (fun _ => 1) (fun _ => 0)
      (fun q => if q = 0 then 1 else PowerSeries.coeff q σ) 1 where
  encodes := h
  rows := Rows.first (fun _ _ => rfl) (fun _ _ => rfl) rfl
  latest := (discrepancy_one σ 1).symm

/-- What a run leaves: a table whose last row is too long or has used every syndrome. -/
structure Finished (σ : PowerSeries Gf64) (t : Table tt) (c : ℕ → Gf64[X]) (l : ℕ → ℕ)
    (d : ℕ → Gf64) (u : ℕ) : Prop where
  plain : ∀ i ≤ l u, cell t.elp u i = some (polyForm ((c u).coeff i))
  length : t.l[u]? = some (l u)
  rows : Rows σ c l d u
  bounds : 1 < u ∧ u ≤ 2 * tt + 1
  complete : tt < l u ∨ u = 2 * tt + 1

/-- With no failed row but the first, every syndrome so far is zero. -/
theorem Rows.coeff_eq_zero (h : Rows σ c l d u) (hzero : ∀ p, 0 < p → p < u → d p = 0) :
    c u = 1 ∧ ∀ k, 0 < k → k < u → PowerSeries.coeff k σ = 0 := by
  obtain ⟨q, hq, hne, heq⟩ := h.attained
  obtain rfl : q = 0 := by
    by_contra hpos
    exact hne (hzero q (by omega) hq)
  have hzeroth := h.zeroth.1
  have hlen : l u = 0 := by omega
  have hgen := h.generates u le_rfl
  rw [hlen] at hgen
  refine ⟨hgen.eq_one, fun k hk hku => ?_⟩
  have := hgen.zero k hk (by omega)
  rwa [hgen.eq_one, discrepancy_one] at this

namespace Ops.Faithful

variable {ops : Ops tt}

/-- The next row is written, unless the sequence overflows the rows in the last step. -/
theorem returns_advance (h : ops.Faithful σ) (hp : Progress σ t c l d u) (hpos : 0 < u)
    (hu : u ≤ 2 * tt) (hfree : ¬ Overflows σ tt ∨ u < 2 * tt) :
    Returns (ops.advance u t) fun t' => ∃ c' l',
      Encodes t' c' l' d (u + 1) u u ∧ Rows σ c' l' d (u + 1) := by
  have hshort := hp.rows.short u hpos le_rfl
  refine returns_bind_some (hp.encodes.failed u le_rfl) (returns_ite (fun hz => ?_) fun hne => ?_)
  · have hdu : d u = 0 := indexForm_eq_neg_one.mp hz
    refine (h.keep hpos hu hshort hp.encodes).mono fun t' ht => ⟨_, _, ht, ?_⟩
    exact hp.rows.keep hpos hp.latest (Rows.Agree.update c l d u _ _) hdu
      (update_self _ _ _) (update_self _ _ _)
  · have hdu : d u ≠ 0 := fun h0 => hne (indexForm_eq_neg_one.mpr h0)
    obtain ⟨v, rfl⟩ := Nat.exists_eq_succ_of_ne_zero hpos.ne'
    have hselect := returns_selectBerlekampQ hp.encodes hp.rows.zeroth.1
      fun q hq hqv => hp.rows.short q hq (by omega)
    refine hselect.bind fun q hq => ?_
    obtain ⟨hqv, hqne, hqzero, hbest⟩ := hq
    have hdq : d q ≠ 0 := by
      by_cases hq0 : q = 0
      · rw [hq0, hp.rows.zeroth.2]
        exact one_ne_zero
      · exact hqne hq0
    have hfit : l q + (v + 1 - q) < 2 * tt := by
      by_cases hq0 : q = 0
      · subst hq0
        have hzeroth := hp.rows.zeroth.1
        by_contra hlarge
        have hlast : v + 1 = 2 * tt := by omega
        have hzero := Rows.coeff_eq_zero hp.rows fun p hp0 hpv => hqzero rfl p hp0 (by omega)
        refine (hfree.resolve_right (by omega)) ⟨fun k hk hk2 => hzero.2 k hk (by omega), ?_⟩
        have hlatest := hp.latest
        rw [hzero.1, discrepancy_one] at hlatest
        rw [← hlast, ← hlatest]
        exact hdu
      · have := hp.rows.short q (by omega) (by omega)
        omega
    have hgq := hp.rows.generates q (by omega)
    have hgu := hp.rows.generates (v + 1) le_rfl
    refine (h.change hu (by omega) hshort hdu hdq hgq.degree hgu.degree hfit hp.encodes).mono
      fun t' ht => ⟨_, _, ht, ?_⟩
    exact hp.rows.change hpos hp.latest (Rows.Agree.update c l d (v + 1) _ _) hdu (by omega) hdq
      (fun p hpv hpne => hbest p (by omega) hpne) (update_self _ _ _)
      (update_self _ _ _)

/-- A step before the last keeps the table and measures its newest row. -/
theorem returns_step (h : ops.Faithful σ) (hp : Progress σ t c l d u) (hpos : 0 < u)
    (hu : u < 2 * tt) : Returns (ops.step u t) fun t' => ∃ c' l' d', Progress σ t' c' l' d'
    (u + 1) := by
  refine (h.returns_advance hp hpos hu.le (Or.inr hu)).bind fun t₁ ht => ?_
  obtain ⟨c', l', henc, hrows⟩ := ht
  refine returns_bind_some (henc.lengths (u + 1) le_rfl) ?_
  refine (returns_store (by omega)).bind fun r hr => ?_
  have hgen := hrows.generates (u + 1) le_rfl
  have hshort := hrows.short (u + 1) (Nat.succ_pos u) le_rfl
  refine (h.measure hu (by omega) hgen.const hgen.degree (henc.reached hr)).mono fun t' ht' => ?_
  refine ⟨c', l', _, ht', hrows.congr_failed (Nat.succ_pos u) fun q hq => ?_, ?_⟩
  · exact update_of_ne (by omega) _ _
  · exact update_self _ _ _

theorem returns_step_last (h : ops.Faithful σ) (hp : Progress σ t c l d (2 * tt)) (htt : 0 < tt)
    (hfree : ¬ Overflows σ tt) :
    Returns (ops.step (2 * tt) t) fun t' => ∃ c' l', Finished σ t' c' l' d (2 * tt + 1) := by
  refine (h.returns_advance hp (by omega) le_rfl (Or.inl hfree)).bind fun t₁ ht => ?_
  obtain ⟨c', l', henc, hrows⟩ := ht
  refine returns_bind_some (henc.lengths (2 * tt + 1) le_rfl) ?_
  refine (returns_store (by omega)).bind fun r _ => ?_
  refine ⟨_, h.last _, c', l', henc.plain, henc.lengths _ le_rfl, hrows, by omega, Or.inr rfl⟩

theorem returns_iterate (h : ops.Faithful σ) (hfree : ¬ Overflows σ tt) {k : ℕ} (hpos : 0 < u)
    (hk : u + (k + 1) = 2 * tt + 1) (hp : Progress σ t c l d u) :
    Returns (ops.iterate (k + 1) u t) fun r => ∃ c' l' d', Finished σ r.2 c' l' d' r.1 := by
  induction k generalizing u t c l d with
  | zero =>
    obtain rfl : u = 2 * tt := by omega
    refine (h.returns_step_last hp (by omega) hfree).bind fun t' ht => ?_
    obtain ⟨c', l', hfin⟩ := ht
    refine returns_bind_some hfin.length (returns_ite (fun hlt => by omega) fun _ => ?_)
    exact returns_some ⟨c', l', d, hfin⟩
  | succ k ih =>
    refine (h.returns_step hp hpos (by omega)).bind fun t' ht => ?_
    obtain ⟨c', l', d', hp'⟩ := ht
    refine returns_bind_some (hp'.encodes.lengths _ le_rfl)
      (returns_ite (fun _ => ih (Nat.succ_pos u) (by omega) hp') fun hstop => ?_)
    have hlong : tt < l' (u + 1) := by omega
    exact returns_some ⟨c', l', d', hp'.encodes.plain, hp'.encodes.lengths _ le_rfl, hp'.rows,
      by omega, Or.inl hlong⟩

/-- A run returns the last row of a table of shortest recurrences. -/
theorem returns_run (h : ops.Faithful σ) (hfree : ¬ Overflows σ tt) (htt : 0 < tt)
    (hp : Progress σ t c l d 1) :
    Returns (ops.run t) fun r => ∃ c' l' d', Finished σ r.2 c' l' d' r.1 := by
  have hrun := h.returns_iterate hfree (k := 2 * tt - 1) (by omega) (by omega) hp
  rwa [Nat.sub_add_cancel (by omega)] at hrun

theorem run_none (h : ops.Faithful σ) (hover : Overflows σ tt) (htt : 0 < tt)
    (hbad : ∀ {t c l d}, Encodes t c l d (2 * tt) (2 * tt) (2 * tt) → l 0 = 0 → c 0 = 1 →
      ops.change (2 * tt) 0 t = none) (hp : Progress σ t c l d 1) : ops.run t = none := by
  -- Every row before the last step has length zero, so no step stops the run early.
  have hiterate : ∀ k u, 0 < u → u + (k + 1) = 2 * tt + 1 → ∀ t c l d, Progress σ t c l d u →
      ops.iterate (k + 1) u t = none := by
    intro k
    induction k with
    | zero =>
      intro u _ hu t c l d hp
      obtain rfl : u = 2 * tt := by omega
      have hshort : l (2 * tt) ≤ 0 :=
        hp.rows.least (generates_one fun k hk hk2 => hover.1 k hk (by omega))
      have hzeroth := hp.rows.zeroth
      have hrow : c (2 * tt) = 1 := by
        have hgen := hp.rows.generates _ le_rfl
        rw [Nat.le_zero.mp hshort] at hgen
        exact hgen.eq_one
      have hfirst : c 0 = 1 := by
        have hgen := hp.rows.generates 0 (by omega)
        rw [hzeroth.1] at hgen
        exact hgen.eq_one
      have hd : d (2 * tt) ≠ 0 := by
        rw [hp.latest, hrow, discrepancy_one]
        exact hover.2
      have hzero : ∀ p, 0 < p → p < 2 * tt → d p = 0 := by
        intro p hp0 hpu
        by_contra hne
        have := hp.rows.reach p hpu hne
        have := hp.rows.short p hp0 hpu.le
        omega
      obtain ⟨v, hv⟩ := Nat.exists_eq_succ_of_ne_zero (show 2 * tt ≠ 0 by omega)
      have hselect : Returns (selectBerlekampQ t (2 * tt)) fun q => q = 0 := by
        have henc := hp.encodes
        rw [hv] at henc ⊢
        refine (returns_selectBerlekampQ henc hzeroth.1
          fun q hq hqv => hp.rows.short q hq (by omega)).mono fun q hq => ?_
        by_contra hne
        exact hq.2.1 hne (hzero q (by omega) (by omega))
      have hadvance : ops.advance (2 * tt) t = none := by
        have hfailed := hp.encodes.failed (2 * tt) le_rfl
        unfold Ops.advance
        rw [hfailed, Option.bind_eq_bind, Option.bind_some,
          if_neg (indexForm_eq_neg_one.not.mpr hd)]
        exact hselect.bind_none fun q hq => hq ▸ hbad hp.encodes hzeroth.1 hfirst
      unfold Ops.iterate Ops.step
      rw [hadvance]
      rfl
    | succ k ih =>
      intro u hpos hu t c l d hp
      refine (h.returns_step hp hpos (by omega)).bind_none fun t' ht => ?_
      obtain ⟨c', l', d', hp'⟩ := ht
      have hshort : l' (u + 1) ≤ 0 :=
        hp'.rows.least (generates_one fun k hk hk2 => hover.1 k hk (by omega))
      rw [hp'.encodes.lengths _ le_rfl, Option.bind_eq_bind, Option.bind_some,
        if_pos ⟨by omega, by omega⟩]
      exact ih (u + 1) (by omega) (by omega) t' c' l' d' hp'
  have hrun := hiterate (2 * tt - 1) 1 (by omega) (by omega) t c l d hp
  rwa [Nat.sub_add_cancel (by omega)] at hrun

end Ops.Faithful

end DsdNeo.Fec
