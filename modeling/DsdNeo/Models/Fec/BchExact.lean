import DsdNeo.Models.Fec.Bch

/-!
# Acceptance by the BCH decoder

A run ends in one of three ways, with every access inside its array: the word has no
syndrome set, or it is given up, or the located bits are flipped. The words accepted are
those within eleven bits of a word with every syndrome zero, and that word is the result.
-/

namespace DsdNeo.Bch

open Galois Program Polynomial Fec Gf64 Finset

variable {tables : Tables} {f : ℕ → Bool} {c : Gf64[X]} {degree : ℕ} {e : Finset ℕ}
  {input w : Vector Bool nn}

theorem bitSymbol_sq (b : Bool) : bitSymbol b ^ 2 = bitSymbol b := by
  cases b
  · exact zero_pow two_ne_zero
  · exact one_pow 2

theorem bitSymbol_xor (a b : Bool) : bitSymbol (a ^^ b) = bitSymbol a + bitSymbol b := by
  cases a <;> cases b <;> rfl

theorem coeff_double (f : ℕ → Bool) (k : ℕ) :
    PowerSeries.coeff (2 * k) (bitSyndromes f) = PowerSeries.coeff k (bitSyndromes f) ^ 2 := by
  rw [bitSyndromes, coeff_powerSums, coeff_powerSums, CharTwo.sum_sq]
  refine sum_congr rfl fun j _ => ?_
  rw [mul_pow, bitSymbol_sq, ← pow_mul, Nat.mul_comm]

theorem not_overflows_bitSyndromes (f : ℕ → Bool) : ¬ Overflows (bitSyndromes f) tt := by
  intro hover
  refine hover.2 ?_
  rw [coeff_double, hover.1 tt (by decide) (by decide)]
  exact zero_pow two_ne_zero

theorem weight_eq_one {y : ℕ → Gf64} (h : Correctable (bitSyndromes f) tt e y) :
    ∀ p ∈ e, y p = 1 := by
  have hinj : Set.InjOn (fun p => power p ^ 2) (e : Set ℕ) := fun p hp q hq heq =>
    injOn_power h.positions hp hq (CharTwo.sq_injective heq)
  have hsquare := eq_zero_of_sums (a := fun p => y p ^ 2 - y p) hinj
    (fun p _ => pow_ne_zero 2 (power_ne_zero p)) 1 fun k hk hkc => by
      have hfew := h.few
      have hk11 : k ≤ tt := by omega
      have honce := h.sums k hk (by omega)
      have htwice := h.sums (2 * k) (by omega) (by omega)
      rw [coeff_double, honce, coeff_powerSums, coeff_powerSums, CharTwo.sum_sq] at htwice
      calc
        ∑ p ∈ e, (y p ^ 2 - y p) * (power p ^ 2) ^ k =
            ∑ p ∈ e, ((y p * power p ^ k) ^ 2 - y p * power p ^ (2 * k)) := by
          refine sum_congr rfl fun p _ => ?_
          ring
        _ = 0 := by rw [sum_sub_distrib, htwice, sub_self]
  intro p hp
  have hzero : y p ^ 2 - y p = 0 := hsquare p hp
  have hfactor : y p * (y p - 1) = 0 := by
    rw [← hzero]
    ring
  exact sub_eq_zero.mp ((mul_eq_zero.mp hfactor).resolve_left (h.nonzero p hp))

/-- Flipped bits add their power sums. -/
theorem coeff_flipAt (he : e ⊆ Finset.range nn) (f : ℕ → Bool) (k : ℕ) :
    PowerSeries.coeff k (bitSyndromes (flipAt e f)) =
      PowerSeries.coeff k (bitSyndromes f) + ∑ p ∈ e, power p ^ k := by
  have hterm : ∀ j, bitSymbol (flipAt e f j) * power j ^ k =
      bitSymbol (f j) * power j ^ k + if j ∈ e then power j ^ k else 0 := by
    intro j
    rw [flipAt, bitSymbol_xor, add_mul]
    by_cases hj : j ∈ e
    · rw [decide_eq_true hj, if_pos hj, show bitSymbol true = 1 from rfl, one_mul]
    · rw [decide_eq_false hj, if_neg hj, show bitSymbol false = 0 from rfl, zero_mul]
  rw [bitSyndromes, bitSyndromes, coeff_powerSums, coeff_powerSums,
    sum_congr rfl fun j _ => hterm j, sum_add_distrib, ← sum_filter,
    filter_mem_eq_inter, inter_eq_right.mpr he]

/-- A syndrome of a word. -/
def bitSyndrome (w : Vector Bool nn) (k : ℕ) : Gf64 :=
  ∑ j ∈ Finset.range nn, bitSymbol (reversedBit w j) * power j ^ k

/-- A word with every syndrome zero. -/
def IsCodeword (w : Vector Bool nn) : Prop := ∀ k, 0 < k → k ≤ 2 * tt → bitSyndrome w k = 0

/-- The number of places where two words differ. -/
def distance (v w : Vector Bool nn) : ℕ := ((Finset.range nn).filter fun i => v[i]? ≠ w[i]?).card

/-- The places where two words differ, counted from their end. -/
def differing (v w : Vector Bool nn) : Finset ℕ :=
  (Finset.range nn).filter fun j => reversedBit v j ≠ reversedBit w j

/-- A word with the bits at some places flipped, counted from its end. -/
def flipWord (v : Vector Bool nn) (e : Finset ℕ) : Vector Bool nn :=
  Vector.ofFn fun i => v[i.val] ^^ decide (nn - 1 - i.val ∈ e)

theorem coeff_bitSyndromes (w : Vector Bool nn) (k : ℕ) :
    PowerSeries.coeff k (bitSyndromes (reversedBit w)) = bitSyndrome w k := coeff_powerSums k

theorem reversedBit_eq (w : Vector Bool nn) {i : ℕ} (hi : i < nn) :
    reversedBit w (nn - 1 - i) = w[i] := by
  refine Option.some.inj ?_
  rw [← getElem?_reversed w (by omega), show nn - 1 - (nn - 1 - i) = i by omega,
    getElem?_eq_some_getElem hi]

theorem reversedBit_flipWord (v : Vector Bool nn) (e : Finset ℕ) {j : ℕ} (hj : j < nn) :
    reversedBit (flipWord v e) j = flipAt e (reversedBit v) j := by
  have hback : nn - 1 - (nn - 1 - j) = j := by omega
  have hlt : nn - 1 - j < nn := by omega
  have hflip := reversedBit_eq (flipWord v e) hlt
  have hword := reversedBit_eq v hlt
  rw [hback] at hflip hword
  rw [hflip, flipAt, hword, flipWord, Vector.getElem_ofFn, hback]

theorem ext_reversedBit {v w : Vector Bool nn}
    (h : ∀ j < nn, reversedBit v j = reversedBit w j) : v = w := by
  refine Vector.ext fun i hi => ?_
  rw [← reversedBit_eq v hi, ← reversedBit_eq w hi, h _ (by omega)]

theorem differing_subset (v w : Vector Bool nn) : differing v w ⊆ Finset.range nn :=
  filter_subset _ _

theorem flipWord_differing (v w : Vector Bool nn) : flipWord v (differing v w) = w := by
  refine ext_reversedBit fun j hj => ?_
  rw [reversedBit_flipWord v _ hj, flipAt]
  by_cases hne : reversedBit v j ≠ reversedBit w j
  · have hmem : j ∈ differing v w := mem_filter.mpr ⟨mem_range.mpr hj, hne⟩
    rw [decide_eq_true hmem, Bool.xor_true]
    exact Bool.not_eq.mpr hne
  · have hmem : j ∉ differing v w := fun h => hne (mem_filter.mp h).2
    rw [decide_eq_false hmem, Bool.xor_false]
    exact not_not.mp hne

theorem differing_flipWord (v : Vector Bool nn) (he : e ⊆ Finset.range nn) :
    differing v (flipWord v e) = e := by
  refine Finset.ext fun j => ?_
  rw [differing, mem_filter, mem_range]
  constructor
  · rintro ⟨hj, hne⟩
    by_contra hmem
    rw [reversedBit_flipWord v e hj, flipAt, decide_eq_false hmem, Bool.xor_false] at hne
    exact hne rfl
  · intro hmem
    have hj := mem_range.mp (he hmem)
    refine ⟨hj, ?_⟩
    rw [reversedBit_flipWord v e hj, flipAt, decide_eq_true hmem, Bool.xor_true]
    exact (Bool.not_ne_self _).symm

theorem card_differing (v w : Vector Bool nn) : (differing v w).card = distance v w := by
  refine card_bij (fun j _ => nn - 1 - j) ?_ ?_ ?_
  · intro j hj
    obtain ⟨hj, hne⟩ := mem_filter.mp hj
    have hj' := mem_range.mp hj
    refine mem_filter.mpr ⟨mem_range.mpr (by omega), ?_⟩
    rw [getElem?_reversed v hj', getElem?_reversed w hj']
    exact fun h => hne (Option.some.inj h)
  · intro j hj k hk heq
    have hj' := mem_range.mp (mem_filter.mp hj).1
    have hk' := mem_range.mp (mem_filter.mp hk).1
    omega
  · intro i hi
    obtain ⟨hi, hne⟩ := mem_filter.mp hi
    have hi' := mem_range.mp hi
    have hback : nn - 1 - (nn - 1 - i) = i := by omega
    refine ⟨nn - 1 - i, mem_filter.mpr ⟨mem_range.mpr (by omega), ?_⟩, hback⟩
    intro heq
    rw [reversedBit_eq v hi', reversedBit_eq w hi'] at heq
    rw [getElem?_eq_some_getElem hi', getElem?_eq_some_getElem hi'] at hne
    exact hne (congrArg some heq)

theorem correctable_differing (hw : IsCodeword w) (hnear : distance input w ≤ tt) :
    Correctable (bitSyndromes (reversedBit input)) tt (differing input w) fun _ => 1 where
  positions := differing_subset input w
  few := by rwa [card_differing]
  nonzero _ _ := one_ne_zero
  sums k hk hk2 := by
    have hflip := coeff_flipAt (differing_subset input w) (reversedBit input) k
    have hsame : PowerSeries.coeff k
      (bitSyndromes (flipAt (differing input w) (reversedBit input))) =
        bitSyndrome w k := by
      rw [← coeff_bitSyndromes, bitSyndromes, bitSyndromes, coeff_powerSums, coeff_powerSums]
      refine sum_congr rfl fun j hj => ?_
      rw [← reversedBit_flipWord input _ (mem_range.mp hj), flipWord_differing]
    rw [hsame, hw k hk hk2] at hflip
    have hsum := CharTwo.add_eq_zero.mp hflip.symm
    rw [hsum, coeff_powerSums]
    exact sum_congr rfl fun p _ => (one_mul _).symm

theorem isCodeword_flipWord (h : Located (bitSyndromes (reversedBit input)) tt c degree) :
    IsCodeword (flipWord input (errorPositions c)) := by
  obtain ⟨y, hy⟩ := h.correctable
  have hone := weight_eq_one hy
  intro k hk hk2
  have hsame : bitSyndrome (flipWord input (errorPositions c)) k =
      PowerSeries.coeff k (bitSyndromes (flipAt (errorPositions c) (reversedBit input))) := by
    rw [bitSyndromes, coeff_powerSums]
    exact sum_congr rfl fun j hj => by
      rw [reversedBit_flipWord input _ (mem_range.mp hj)]
  rw [hsame, coeff_flipAt hy.positions, hy.sums k hk hk2, coeff_powerSums]
  refine CharTwo.add_eq_zero.mpr (sum_congr rfl fun p hp => ?_)
  rw [hone p hp, one_mul]

/-- The three ways a run ends. -/
def Ended (input : Vector Bool nn) (output : Vector Bool kk) (result : BchResult)
    (output' : Vector Bool kk) : Prop :=
  IsCodeword input ∧ result = ⟨true, 0⟩ ∧ output' = firstBits input ∨
    ¬ IsCodeword input ∧ Failed (bitSyndromes (reversedBit input)) tt ∧ result = ⟨false, 0⟩ ∧
      output' = output ∨
    ∃ c degree, Located (bitSyndromes (reversedBit input)) tt c degree ∧
      result = ⟨true, degree⟩ ∧ output' = firstBits (flipWord input (errorPositions c))

theorem returns_decodeWithResult (htables : tables.Sound) (input : Vector Bool nn)
    (output : Vector Bool kk) (memory : Memory) :
    Returns (decodeWithResult tables input output memory) fun r => Ended input output r.1 r.2 := by
  have hclean : IsCodeword input ↔ ∀ k, 0 < k → k ≤ 2 * tt →
      PowerSeries.coeff k (bitSyndromes (reversedBit input)) = 0 := by
    refine forall_congr' fun k => ?_
    rw [coeff_bitSyndromes]
  refine (returns_reverseInputBits input memory.recd).bind fun recd hrecd => ?_
  refine (returns_computeSyndromes htables hrecd memory.s).bind fun p hp => ?_
  obtain ⟨hasError, s⟩ := p
  obtain ⟨hs, hflag⟩ := hp
  dsimp only at hs hflag ⊢
  rw [← hclean] at hflag
  refine returns_ite (fun hzero => ?_) fun hset => ?_
  · refine (returns_extractDataBits hrecd output).bind fun output' hout => returns_some ?_
    exact Or.inl ⟨hflag.mp hzero, rfl, hout⟩
  · have hnot : ¬ IsCodeword input := fun h => hset (hflag.mpr h)
    have hrun : Returns (runBerlekampMassey tables s memory.toTable) fun r => ∃ c l d,
        Finished (bitSyndromes (reversedBit input)) r.2.2 c l d r.2.1 ∧
          r.1 = decide (l r.2.1 ≤ tt) := by
      refine (returns_initializeBerlekampState (by decide) hs memory.toTable).bind fun t ht => ?_
      refine ((faithful_ops htables hs).returns_run (not_overflows_bitSyndromes _) (by decide)
        (progress_initial ht)).bind fun r hr => ?_
      obtain ⟨u, t⟩ := r
      obtain ⟨c, l, d, hfin⟩ := hr
      exact returns_bind_some hfin.length (returns_some ⟨c, l, d, hfin, rfl⟩)
    refine hrun.bind fun r hr => ?_
    obtain ⟨short, u, t⟩ := r
    obtain ⟨c, l, d, hfin, hshort⟩ := hr
    dsimp only at hfin hshort ⊢
    rw [hshort]
    refine returns_ite (fun hlong => ?_) fun hle => ?_
    · have hlong' : tt < l u := Nat.not_le.mp (of_decide_eq_false hlong)
      exact returns_some (Or.inr (Or.inl ⟨hnot, hfin.failed (Or.inl hlong'), rfl, rfl⟩))
    · have hle' : l u ≤ tt := by
        by_contra hgt
        exact hle (decide_eq_false hgt)
      have hgen := hfin.rows.generates u le_rfl
      have hu := hfin.bounds.2
      refine returns_bind_some hfin.length ?_
      have hwidth : l u < 2 * tt := lt_of_le_of_lt hle' (by decide)
      refine (returns_indexElpRow htables hu hwidth hfin.plain).bind fun elp help => ?_
      have hrow : elp[u]? = some elp[u] := getElem?_eq_some_getElem (by omega)
      refine returns_bind_some hrow ?_
      have hlocator : ∀ i ≤ l u, elp[u][i]? = some (indexForm ((c u).coeff i)) := fun i hi => by
        have hcell := help.1 i hi
        rw [cell, hrow] at hcell
        exact hcell
      refine (returns_findErrorLocations htables hle' hlocator hgen.const hgen.degree _).bind
        fun p hp => ?_
      obtain ⟨hcount, hloc⟩ := hp
      have hcard := hcount
      rw [← card_errorPositions] at hcard
      refine returns_ite (fun hne => ?_) fun heq => ?_
      · rw [hcard] at hne
        exact returns_some (Or.inr (Or.inl ⟨hnot, hfin.failed (Or.inr hne), rfl, rfl⟩))
      · have hdegree : p.count = l u := not_not.mp heq
        refine (returns_correctErrorLocations hrecd hcount hloc).bind fun recd' hflip => ?_
        have hholds : Holds recd' (reversedBit (flipWord input (errorPositions (c u)))) :=
          fun j hj => by rw [hflip j hj, reversedBit_flipWord input _ hj]
        refine (returns_extractDataBits hholds output).bind fun output' hout => returns_some ?_
        refine Or.inr (Or.inr ⟨c u, l u, hfin.located hle' (hcard.symm.trans hdegree), ?_, hout⟩)
        rw [hdegree]

/-- Every run ends with its accesses in range. It accepts exactly the words within eleven bits
of a codeword; that codeword is the only one so near, the count is its distance and the output
its first bits. Otherwise the count is zero and the output stays as it was. -/
theorem decodeWithResult_exact (codec : Codec) (input : Vector Bool nn) (output : Vector Bool kk)
    (memory : Memory) :
    ∃ result output', decodeWithResult codec.tables input output memory = some (result, output') ∧
      (result.success = true ↔ ∃ w, IsCodeword w ∧ distance input w ≤ tt) ∧
      (∀ w, IsCodeword w → distance input w ≤ tt →
        (∀ v, IsCodeword v → distance input v ≤ tt → v = w) ∧
          result.errorCount = distance input w ∧ output' = firstBits w) ∧
      (result.success = false → result.errorCount = 0 ∧ output' = output) := by
  obtain ⟨⟨result, output'⟩, hrun, hended⟩ :=
    returns_decodeWithResult codec.sound input output memory
  refine ⟨result, output', hrun, ?_⟩
  dsimp only at hended
  -- An accepting run names one codeword; every codeword as near is that one.
  have haccept : ∀ w, IsCodeword w → distance input w ≤ tt →
      (∀ v, IsCodeword v → distance input v ≤ tt → v = w) → result = ⟨true, distance input w⟩ →
      output' = firstBits w →
      (result.success = true ↔ ∃ w, IsCodeword w ∧ distance input w ≤ tt) ∧
      (∀ w, IsCodeword w → distance input w ≤ tt →
        (∀ v, IsCodeword v → distance input v ≤ tt → v = w) ∧
          result.errorCount = distance input w ∧ output' = firstBits w) ∧
      (result.success = false → result.errorCount = 0 ∧ output' = output) := by
    intro w hw hnear honly hresult hout
    refine ⟨⟨fun _ => ⟨w, hw, hnear⟩, fun _ => by rw [hresult]⟩, fun v hv hvnear => ?_, ?_⟩
    · obtain rfl := honly v hv hvnear
      exact ⟨honly, by rw [hresult], hout⟩
    · rw [hresult]
      exact fun h => absurd h.symm Bool.false_ne_true
  obtain ⟨hclean, hresult, hout⟩ | ⟨-, hfailed, rfl, rfl⟩ | ⟨c, degree, hloc, hresult, hout⟩ :=
    hended
  · have hself : distance input input = 0 := by
      rw [distance, card_eq_zero]
      exact filter_false_of_mem fun i _ => not_not.mpr rfl
    refine haccept input hclean (by omega) (fun v hv hnear => ?_) (by rw [hself, hresult]) hout
    have hcorrectable := correctable_differing hv hnear
    have hempty : differing input v = ∅ := by
      by_contra hne
      obtain ⟨p, hp⟩ := nonempty_iff_ne_empty.mpr hne
      have hzero := eq_zero_of_sums (a := fun _ => (1 : Gf64)) (injOn_power hcorrectable.positions)
        (fun q _ => power_ne_zero q) 1 (fun k hk hkc => by
          have hfew := hcorrectable.few
          rw [← coeff_powerSums, ← hcorrectable.sums k hk (by omega), coeff_bitSyndromes]
          exact hclean k hk (by omega)) p hp
      exact one_ne_zero hzero
    rw [← flipWord_differing input v, hempty]
    refine ext_reversedBit fun j hj => ?_
    rw [reversedBit_flipWord input ∅ hj, flipAt, decide_eq_false (notMem_empty j), Bool.xor_false]
  · have hnone : ¬ ∃ w, IsCodeword w ∧ distance input w ≤ tt := by
      rintro ⟨w, hw, hnear⟩
      exact (correctable_differing hw hnear).not_failed hfailed
    refine ⟨⟨fun h => absurd h Bool.false_ne_true, fun h => absurd h hnone⟩, ?_,
      fun _ => ⟨rfl, rfl⟩⟩
    exact fun w hw hnear => absurd ⟨w, hw, hnear⟩ hnone
  · have hsub : errorPositions c ⊆ Finset.range nn := filter_subset _ _
    have hdistance : distance input (flipWord input (errorPositions c)) = degree := by
      rw [← card_differing, differing_flipWord input hsub, hloc.card]
    refine haccept _ (isCodeword_flipWord hloc) (hdistance.le.trans hloc.short)
      (fun v hv hnear => ?_) (by rw [hdistance, hresult]) hout
    obtain ⟨-, hpositions, -⟩ := (correctable_differing hv hnear).located hloc
    rw [hpositions, flipWord_differing]

end DsdNeo.Bch
