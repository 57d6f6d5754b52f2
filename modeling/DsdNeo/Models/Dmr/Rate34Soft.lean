import DsdNeo.Models.Dmr.Rate34
import Mathlib.Algebra.Order.BigOperators.Group.Finset

/-!
# The hard and the soft decoder find the best word

A word of eighteen bytes is a path of the trellis from state zero to state zero,
and its metric is the cost of that path. Both decoders return the word of a
cheapest path under their own cost. A clean word costs nothing under either, and
no other word does.
-/

namespace DsdNeo.Dmr.Rate34

open Trellis Trellis34 List

/-- States that a candidate passes, from state zero. -/
def candidatePath (bytes18 : Fin 18 → UInt8) : ℕ → Fin 8
  | 0 => 0
  | t + 1 => (candidateStates bytes18).getD t 0

theorem candidatePath_last (bytes18 : Fin 18 → UInt8) : candidatePath bytes18 49 = 0 :=
  getD_candidateStates_last bytes18

theorem candidateMetric_eq_pathCost (dibits98 : Fin 98 → UInt8)
    (reliab98 : Option (Fin 98 → UInt8)) (bytes18 : Fin 18 → UInt8) :
    candidateMetric dibits98 reliab98 bytes18 =
      pathCost (softCost (prepareNibbles dibits98) (prepareReliabilityWeights reliab98)) 49
        (candidatePath bytes18) := by
  have hrun : ∀ n, (List.range n).foldl
      (fun metric t => metric + softCost (prepareNibbles dibits98)
        (prepareReliabilityWeights reliab98) t
          (if t = 0 then 0 else (candidateStates bytes18).getD (t - 1) 0)
          ((candidateStates bytes18).getD t 0)) 0 =
      pathCost (softCost (prepareNibbles dibits98) (prepareReliabilityWeights reliab98)) n
        (candidatePath bytes18) := by
    intro n
    induction n with
    | zero => simp
    | succ n ih =>
      rw [range_succ, foldl_append, foldl_cons, foldl_nil, ih, pathCost_succ]
      cases n with
      | zero => rfl
      | succ n => rfl
  exact hrun 49

/-- Words whose paths agree are equal. -/
theorem eq_of_candidatePath {a b : Fin 18 → UInt8}
    (h : ∀ t, t ≤ 49 → candidatePath a t = candidatePath b t) : a = b := by
  rw [← packStatesToBytes_candidateStates a, ← packStatesToBytes_candidateStates b]
  exact packStatesToBytes_congr fun k hk => h (k + 1) (by omega)

variable {t : ℕ}

theorem candidatePath_pack {p : ℕ → Fin 8} (hstart : p 0 = 0) (hend : p 49 = 0) (ht : t ≤ 49) :
    candidatePath (packStatesToBytes ((List.range 49).map fun t => p (t + 1))) t = p t := by
  cases t with
  | zero => exact hstart.symm
  | succ t =>
    by_cases hlast : t = 48
    · subst t
      rw [candidatePath_last, hend]
    · rw [candidatePath, getD_candidateStates_pack _ (by omega), getD_range_map _ (by omega)]

section Decoder

variable {cost : ℕ → Fin 8 → Fin 8 → ℕ} {stale : ℕ → Fin 8 → Fin 8}

/-- The loops over the states scan the predecessors of each. -/
theorem scans_viterbiStep (cost : Fin 8 → Fin 8 → ℕ) (stale : Fin 8 → Fin 8) (old : Metrics 8) :
    Scans cost inf (viterbiStep cost stale) old := by
  intro s
  refine ⟨stale s, ?_⟩
  have hcolumn : ∀ (rs : List (Fin 8)) (curr : List.Vector (ℕ × Fin 8) 8), (curr.get s).1 ≤ inf →
      (rs.foldl (fun curr ps => if inf ≤ old.get ps then curr
        else offerAll (fun ns => old.get ps + cost ps ns) ps (List.finRange 8) curr) curr).get s =
      scan (fun r => old.get r + cost r s) (curr.get s) rs := by
    intro rs
    induction rs with
    | nil => intro curr _; rfl
    | cons r rs ih =>
      intro curr hle
      rw [foldl_cons, scan_cons]
      by_cases hdead : inf ≤ old.get r
      · -- a predecessor that is not reached offers nothing less than what is held
        have hnot : ¬ old.get r + cost r s < (curr.get s).1 := by omega
        rw [if_pos hdead, if_neg hnot, ih curr hle]
      · have hget :=
          get_offerAll (fun ns => old.get r + cost r ns) r (nodup_finRange 8) curr s
        simp only [mem_finRange, true_and] at hget
        have hkept :
            ((offerAll (fun ns => old.get r + cost r ns) r (List.finRange 8) curr).get s).1 ≤
              inf := by
          rw [hget]
          split
          · next hlt => exact hlt.le.trans hle
          · exact hle
        rw [if_neg hdead, ih _ hkept, hget]
  have hstart := hcolumn (List.finRange 8) (List.Vector.ofFn fun ns => (inf, stale ns))
  rw [List.Vector.get_ofFn] at hstart
  exact hstart le_rfl

theorem traceback_least (hcost : ∀ t, t < 49 → cost t 0 0 < 20000000) :
    traceback (runViterbi cost stale).back 49 0 0 = 0 ∧
      ∀ q : ℕ → Fin 8, q 0 = 0 → q 49 = 0 →
        pathCost cost 49 (traceback (runViterbi cost stale).back 49 0) ≤ pathCost cost 49 q := by
  have hscan : ∀ t, t < 49 → Scans (cost t) inf (viterbiStep (cost t) (stale t))
      (Survivors.run (fun t => viterbiStep (cost t) (stale t)) ⟨metricInit, stale⟩ t).metric :=
    fun t _ => scans_viterbiStep (cost t) (stale t) _
  have hinit : ∀ s : Fin 8, metricInit.get s = if s = 0 then 0 else inf :=
    fun s => List.Vector.get_ofFn _ s
  have hupper : ∀ q : ℕ → Fin 8, q 0 = 0 → q 49 = 0 →
      (runViterbi cost stale).metric.get 0 ≤ pathCost cost 49 q := by
    intro q hstart hend
    have hpath := metric_run_le_pathCost hscan q
    rw [hstart, hend, hinit, if_pos rfl, Nat.zero_add] at hpath
    exact hpath
  have hbelow : (runViterbi cost stale).metric.get 0 < inf := by
    -- the path that stays in state zero is not that dear
    refine (hupper (fun _ => 0) rfl rfl).trans_lt ?_
    have hsum : pathCost cost 49 (fun _ => 0) ≤ ∑ _t ∈ Finset.range 49, 20000000 :=
      Finset.sum_le_sum fun t ht => (hcost t (Finset.mem_range.mp ht)).le
    rw [Finset.sum_const, Finset.card_range] at hsum
    exact hsum.trans_lt (by decide)
  obtain ⟨hstart, hattained⟩ := traceback_scans hscan hbelow
  rw [hinit, ← runViterbi] at hstart hattained
  have hzero : traceback (runViterbi cost stale).back 49 0 0 = 0 := by
    by_contra hne
    rw [if_neg hne] at hstart
    exact absurd hstart (lt_irrefl _)
  refine ⟨hzero, fun q hq0 hq49 => ?_⟩
  have hle := hupper q hq0 hq49
  rw [hattained, hzero, if_pos rfl, Nat.zero_add] at hle
  exact hle

theorem decoded_least (hcost : ∀ t, t < 49 → cost t 0 0 < 20000000) {q : ℕ → Fin 8}
    (hstart : q 0 = 0) (hend : q 49 = 0) :
    pathCost cost 49
        (candidatePath (packStatesToBytes (statesBack (runViterbi cost stale).back 49 0 []))) ≤
      pathCost cost 49 q := by
  obtain ⟨hzero, hleast⟩ := @traceback_least cost stale hcost
  rw [statesBack_eq, append_nil,
    pathCost_congr cost fun t ht => candidatePath_pack hzero (traceback_self _ _ _) ht]
  exact hleast q hstart hend

end Decoder

theorem weightedNibbleCost_le (expectNib obsNib rhi rlo : ℕ) :
    weightedNibbleCost expectNib obsNib rhi rlo ≤ 2 * rhi + 2 * rlo := by
  simp only [weightedNibbleCost]
  split <;> split <;> split <;> split <;> omega

theorem weightedNibbleCost_eq_zero {expectNib obsNib rhi rlo : ℕ} (he : expectNib < 16)
    (ho : obsNib < 16) (hhi : 0 < rhi) (hlo : 0 < rlo) :
    weightedNibbleCost expectNib obsNib rhi rlo = 0 ↔ expectNib = obsNib := by
  have hbits : ∀ e, e < 16 → ∀ o, o < 16 →
      (((e ^^^ o) &&& 0x8 = 0 ∧ (e ^^^ o) &&& 0x4 = 0 ∧ (e ^^^ o) &&& 0x2 = 0 ∧
        (e ^^^ o) &&& 0x1 = 0) ↔ e = o) := by decide
  rw [← hbits _ he _ ho]
  simp only [weightedNibbleCost, ne_eq, ite_not]
  split <;> split <;> split <;> split <;> simp_all <;> omega

/-- The weights of a step are two of the reliabilities. -/
theorem weights_splitReliability (reliab98 : Fin 98 → UInt8) (ht : t < 49) :
    ∃ i j, (prepareReliabilityWeights (some reliab98)).1.getD t 0 = (reliab98 i).toNat ∧
      (prepareReliabilityWeights (some reliab98)).2.getD t 0 = (reliab98 j).toNat := by
  obtain ⟨i, -, hi⟩ := exists_getD_deinterleave 0 (fun i => (reliab98 i).toNat)
    (by omega : t * 2 < 98)
  obtain ⟨j, -, hj⟩ := exists_getD_deinterleave 0 (fun i => (reliab98 i).toNat)
    (by omega : t * 2 + 1 < 98)
  refine ⟨i, j, ?_, ?_⟩
  · rw [prepareReliabilityWeights, splitReliability, getD_range_map _ ht, hi]
  · rw [prepareReliabilityWeights, splitReliability, getD_range_map _ ht, hj]

theorem softCost_lt (nibs : List ℕ) (reliab98 : Fin 98 → UInt8) (ht : t < 49) (ps ns : Fin 8) :
    softCost nibs (prepareReliabilityWeights (some reliab98)) t ps ns < 20000000 := by
  obtain ⟨i, j, hi, hj⟩ := weights_splitReliability reliab98 ht
  have hle := weightedNibbleCost_le (edgeNibble ps ns) (nibs.getD t 0)
    ((prepareReliabilityWeights (some reliab98)).1.getD t 0)
    ((prepareReliabilityWeights (some reliab98)).2.getD t 0)
  have hihi := (reliab98 i).toNat_lt
  have hjlo := (reliab98 j).toNat_lt
  rw [softCost]
  omega

theorem hardCost_lt (obsPoint : List ℕ) (t : ℕ) (ps ns : Fin 8) :
    hardCost obsPoint t ps ns < 20000000 := by
  have hle : hardCost obsPoint t ps ns ≤ 64 := by
    rw [hardCost, popcount64, Bits.bitsBelow]
    exact (length_filter_le _ _).trans (by simp)
  omega

/-- Dibits of a word as a transmitter sends them: the nibbles of its path, through the
inverse of the interleaver. -/
def encode (bytes18 : Fin 18 → UInt8) : Fin 98 → UInt8 := fun i =>
  let p := (place i).val
  let nib := edgeNibble (candidatePath bytes18 (p / 2)) (candidatePath bytes18 (p / 2 + 1))
  (if p % 2 = 0 then nib >>> 2 else nib &&& 3).toUInt8

/-- The nibbles received for a clean word are those of its path. -/
theorem prepareNibbles_encode (bytes18 : Fin 18 → UInt8) (ht : t < 49) :
    (prepareNibbles (encode bytes18)).getD t 0 =
      edgeNibble (candidatePath bytes18 t) (candidatePath bytes18 (t + 1)) := by
  have hjoin : ∀ nib, nib < 16 → (((nib >>> 2).toUInt8 &&& 3).toNat &&& 3) <<< 2 |||
      (((nib &&& 3).toUInt8 &&& 3).toNat &&& 3) = nib := by decide
  obtain ⟨i, hi, hfirst⟩ := exists_getD_deinterleave 0 (fun i => (encode bytes18 i &&& 3).toNat)
    (by omega : t * 2 < 98)
  obtain ⟨j, hj, hsecond⟩ := exists_getD_deinterleave 0 (fun i => (encode bytes18 i &&& 3).toNat)
    (by omega : t * 2 + 1 < 98)
  have heven : t * 2 / 2 = t ∧ t * 2 % 2 = 0 := by omega
  have hodd : (t * 2 + 1) / 2 = t ∧ (t * 2 + 1) % 2 = 1 := by omega
  rw [prepareNibbles, packNibbles, getD_range_map _ ht, deinterleaveDibits, hfirst, hsecond]
  simp only [encode, hi, hj, heven, hodd, ite_true, Nat.one_ne_zero, ite_false]
  exact hjoin _ (edgeNibble_lt _ _)

/-- The points received for a clean word are those of its path. -/
theorem mapNibblesToPoints_encode (bytes18 : Fin 18 → UInt8) (ht : t < 49) :
    (mapNibblesToPoints (prepareNibbles (encode bytes18))).getD t 0 =
      edgePoint (candidatePath bytes18 t) (candidatePath bytes18 (t + 1)) := by
  have hlen : t < (prepareNibbles (encode bytes18)).length := by
    simpa [prepareNibbles, packNibbles] using ht
  have hnib := prepareNibbles_encode bytes18 ht
  have hmask : ∀ nib, nib < 16 → nib &&& 0x0F = nib := by decide
  rw [getD_eq_getElem _ _ hlen] at hnib
  rw [mapNibblesToPoints, getD_eq_getElem _ _ (by rwa [length_map]), getElem_map,
    hnib, hmask _ (edgeNibble_lt _ _), getD_constellation_edgeNibble]

/-- Only the point received is at no distance from it. -/
theorem popcount64_eq_zero {a b : ℕ} (ha : a < 16) (hb : b < 16) :
    popcount64 ((a ^^^ b) &&& 0x0F) = 0 ↔ a = b := by
  have hall : ∀ a, a < 16 → ∀ b, b < 16 → (popcount64 ((a ^^^ b) &&& 0x0F) = 0 ↔ a = b) := by
    decide
  exact hall a ha b hb

theorem decoded_clean {cost : ℕ → Fin 8 → Fin 8 → ℕ} {stale : ℕ → Fin 8 → Fin 8}
    {word : Fin 18 → UInt8} (hcost : ∀ t, t < 49 → cost t 0 0 < 20000000)
    (hfree : ∀ t, t < 49 → ∀ s, cost t (candidatePath word t) s = 0 ↔
      s = candidatePath word (t + 1)) :
    packStatesToBytes (statesBack (runViterbi cost stale).back 49 0 []) = word := by
  have hword : pathCost cost 49 (candidatePath word) = 0 :=
    Finset.sum_eq_zero fun t ht => (hfree t (Finset.mem_range.mp ht) _).mpr rfl
  have hleast := @decoded_least cost stale hcost _ rfl (candidatePath_last word)
  rw [hword, Nat.le_zero] at hleast
  refine eq_of_candidatePath ?_
  exact eq_of_pathCost_zero (fun t ht s => (hfree t ht s).mp) rfl hleast

/-- The soft decoder is maximum-likelihood under the metric of its candidates, and a clean
word is returned by the hard decoder and by the soft one where no reliability is zero. -/
theorem decodeSoft_least_and_clean (stale : ℕ → Fin 8 → Fin 8) :
    (∀ (dibits98 reliab98 : Fin 98 → UInt8) (word : Fin 18 → UInt8),
      candidateMetric dibits98 (some reliab98) (decodeSoft stale dibits98 reliab98) ≤
        candidateMetric dibits98 (some reliab98) word) ∧
    ∀ word : Fin 18 → UInt8, decode stale (encode word) = word ∧
      ∀ reliab98 : Fin 98 → UInt8, (∀ i, reliab98 i ≠ 0) →
        decodeSoft stale (encode word) reliab98 = word := by
  refine ⟨fun dibits98 reliab98 word => ?_, fun word => ⟨?_, fun reliab98 hreliab => ?_⟩⟩
  · rw [candidateMetric_eq_pathCost, candidateMetric_eq_pathCost]
    exact decoded_least (fun t ht => softCost_lt _ reliab98 ht 0 0) rfl (candidatePath_last word)
  · refine decoded_clean (fun t _ => hardCost_lt _ t 0 0) fun t ht s => ?_
    rw [hardCost, mapNibblesToPoints_encode word ht,
      popcount64_eq_zero (edgePoint_lt _ _) (edgePoint_lt _ _)]
    exact ⟨edgePoint_inj, fun h => by rw [h]⟩
  · refine decoded_clean (fun t ht => softCost_lt _ reliab98 ht 0 0) fun t ht s => ?_
    obtain ⟨i, j, hi, hj⟩ := weights_splitReliability reliab98 ht
    have hpos : ∀ i, 0 < (reliab98 i).toNat := by
      intro i
      have hne := hreliab i
      rw [ne_eq, ← UInt8.toNat_inj] at hne
      exact Nat.pos_of_ne_zero hne
    rw [softCost, weightedNibbleCost_eq_zero (edgeNibble_lt _ _)
      (by rw [prepareNibbles_encode word ht]; exact edgeNibble_lt _ _) (by rw [hi]; exact hpos i)
      (by rw [hj]; exact hpos j), prepareNibbles_encode word ht]
    exact ⟨edgeNibble_inj, fun h => by rw [h]⟩

end DsdNeo.Dmr.Rate34
