import DsdNeo.Models.DStar.Decoded
import Mathlib.Dynamics.PeriodicPts.Defs
import Mathlib.Tactic.IntervalCases

/-!
# Headers that arrive unchanged

The walk of the deinterleaver takes the twelve longer columns of 24 apart first and the shorter
ones after them, so that it comes to each place once. The scrambler is the sequence of
x^7 + x^4 + 1, whose period makes the index of the receiver the one of the sender.
-/

namespace DsdNeo.DStar

open Trellis

/-- The place of a bit. -/
def place (i : ℕ) : ℕ :=
  if i < 336 then i / 28 + 24 * (i % 28) else 12 + (i - 336) / 27 + 24 * ((i - 336) % 27)

/-- The bit of a place. -/
def rank (k : ℕ) : ℕ :=
  if k % 24 < 12 then 28 * (k % 24) + k / 24 else 336 + 27 * (k % 24 - 12) + k / 24

variable {i k j : ℕ}

theorem place_succ (hi : i + 1 < headerCodedBits) : place (i + 1) = nextPlace (place i) := by
  unfold headerCodedBits at hi
  unfold place nextPlace
  dsimp only
  split_ifs <;> omega

theorem iterate_nextPlace (hi : i < headerCodedBits) : nextPlace^[i] 0 = place i := by
  induction i with
  | zero => rfl
  | succ i ih => rw [Function.iterate_succ_apply', ih (by omega), ← place_succ hi]

theorem rank_lt (hk : k < headerCodedBits) : rank k < headerCodedBits := by
  unfold headerCodedBits at *
  unfold rank
  split_ifs <;> omega

theorem place_rank (hk : k < headerCodedBits) : place (rank k) = k := by
  unfold headerCodedBits at hk
  unfold place rank
  split_ifs <;> omega

theorem rank_place (hi : i < headerCodedBits) : rank (place i) = i := by
  unfold headerCodedBits at hi
  by_cases hlong : i < 336
  · have hmod : (i / 28 + 24 * (i % 28)) % 24 = i / 28 := by
      rw [Nat.add_mul_mod_self_left, Nat.mod_eq_of_lt (by omega)]
    have hdiv : (i / 28 + 24 * (i % 28)) / 24 = i % 28 := by omega
    rw [place, if_pos hlong, rank, hmod, hdiv, if_pos (by omega)]
    omega
  · have hmod : (12 + (i - 336) / 27 + 24 * ((i - 336) % 27)) % 24 = 12 + (i - 336) / 27 := by
      rw [Nat.add_mul_mod_self_left, Nat.mod_eq_of_lt (by omega)]
    have hdiv : (12 + (i - 336) / 27 + 24 * ((i - 336) % 27)) / 24 = (i - 336) % 27 := by omega
    rw [place, if_neg hlong, rank, hmod, hdiv, if_neg (by omega)]
    omega

theorem existsUnique_place (hk : k < headerCodedBits) :
    ∃! i, i < headerCodedBits ∧ nextPlace^[i] 0 = k := by
  refine ⟨rank k, ⟨rank_lt hk, ?_⟩, ?_⟩
  · rw [iterate_nextPlace (rank_lt hk), place_rank hk]
  · rintro i ⟨hi, hik⟩
    rw [← hik, iterate_nextPlace hi, rank_place hi]

/-- The loop writes to a place the last of the bits that it has there, and none where it has
none. -/
theorem deinterleaveLoop_of_ne (input : ℕ → Cost) {left : ℕ} (output : ℕ → Cost)
    (hne : ∀ m, m < left → nextPlace^[m] k ≠ j) :
    deinterleaveLoop input left i k output j = output j := by
  induction left generalizing i k output with
  | zero => rfl
  | succ left ih =>
    rw [deinterleaveLoop, ih]
    · exact Function.update_of_ne (hne 0 left.succ_pos).symm _ _
    · intro m hm
      exact hne (m + 1) (by omega)

theorem deinterleaveLoop_eq (input : ℕ → Cost) {left m : ℕ} (output : ℕ → Cost) (hm : m < left)
    (hlast : ∀ m', m < m' → m' < left → nextPlace^[m'] k ≠ nextPlace^[m] k) :
    deinterleaveLoop input left i k output (nextPlace^[m] k) = input (i + m) := by
  induction left generalizing i k m output with
  | zero => exact absurd hm m.not_lt_zero
  | succ left ih =>
    rw [deinterleaveLoop]
    cases m with
    | zero =>
      rw [deinterleaveLoop_of_ne]
      · exact Function.update_self _ _ _
      · intro m' hm'
        exact hlast (m' + 1) m'.succ_pos (by omega)
    | succ m =>
      rw [Function.iterate_succ_apply, ih _ (by omega), Nat.add_assoc, Nat.add_comm 1]
      intro m' hlt hm'
      exact hlast (m' + 1) (by omega) (by omega)

theorem deinterleaveSoftCosts_place (input output : ℕ → Cost) (hi : i < headerCodedBits) :
    deinterleaveSoftCosts input output headerCodedBits (place i) = input i := by
  have hnot : ¬ headerCodedBits ≠ headerCodedBits := fun h => h rfl
  rw [deinterleaveSoftCosts, if_neg hnot, ← iterate_nextPlace hi, deinterleaveLoop_eq _ _ hi,
    Nat.zero_add]
  intro m hlt hm heq
  rw [iterate_nextPlace hm, iterate_nextPlace hi] at heq
  have := congrArg rank heq
  rw [rank_place hm, rank_place hi] at this
  omega

/-- The sequence of x^7 + x^4 + 1 that begins with 0000111. -/
def pnSequence : ℕ → Bool
  | 0 | 1 | 2 | 3 => false
  | 4 | 5 | 6 => true
  | n + 7 => pnSequence n ^^ pnSequence (n + 3)

theorem getLsbD_clockScrambler_zero (reg : BitVec 32) :
    (clockScrambler reg).getLsbD 0 = (reg.getLsbD 6 ^^ reg.getLsbD 3) := by
  simp [clockScrambler]

theorem getLsbD_clockScrambler_succ (reg : BitVec 32) (hj : j < 6) :
    (clockScrambler reg).getLsbD (j + 1) = reg.getLsbD j := by
  interval_cases j <;> simp [clockScrambler]

/-- The bits of the register move up a place a step. -/
theorem getLsbD_iterate (reg : BitVec 32) {m : ℕ} (hj : j + m ≤ 6) :
    (clockScrambler^[m] reg).getLsbD (j + m) = reg.getLsbD j := by
  induction m with
  | zero => rfl
  | succ m ih =>
    rw [← Nat.add_assoc, Function.iterate_succ_apply', getLsbD_clockScrambler_succ _ (by omega),
      ih (by omega)]

theorem scramblerSequence_add (n m : ℕ) :
    scramblerSequence (n + m) = (clockScrambler^[m] (clockScrambler^[n] 0x07)).getLsbD 6 := by
  rw [scramblerSequence, Nat.add_comm, Function.iterate_add_apply]

/-- The register puts out the sequence of its polynomial. -/
theorem scramblerSequence_eq (n : ℕ) : scramblerSequence n = pnSequence n := by
  induction n using pnSequence.induct with
  | case8 n ih ih3 =>
    rw [pnSequence, ← ih, ← ih3, scramblerSequence_add n 7, scramblerSequence_add n 3,
      getLsbD_iterate _ (j := 3) (m := 3) (by omega), Function.iterate_succ_apply,
      getLsbD_iterate _ (j := 0) (m := 6) (by omega), getLsbD_clockScrambler_zero]
    rfl
  | _ => rfl

theorem scramblerSequence_mod (n : ℕ) :
    scramblerSequence (n % scramblerPeriod) = scramblerSequence n := by
  have hperiod : Function.IsPeriodicPt clockScrambler scramblerPeriod 0x07 := by
    unfold Function.IsPeriodicPt Function.IsFixedPt
    decide +kernel
  rw [scramblerSequence, scramblerSequence, hperiod.iterate_mod_apply]

/-- The state after an input: the last input and the one before it. -/
def nextState (r : Fin 4) (b : Bool) : Fin 4 := ⟨(2 * r.val + b.toNat) % 4, Nat.mod_lt _ four_pos⟩

/-- The state of the encoder after so many inputs, from none. -/
def encoderState (header : Vector Bool headerInfoBits) : ℕ → Fin 4
  | 0 => 0
  | t + 1 => nextState (encoderState header t) (header.toList.getD t false)

/-- The bits of the convolutional code, those of the generators 7 and 5 in turn. -/
def convolutionEncode (header : Vector Bool headerInfoBits) (j : ℕ) : Bool :=
  let state := (encoderState header (j / 2)).val
  let b := header.toList.getD (j / 2) false
  if j % 2 = 0 then b ^^ state.testBit 0 ^^ state.testBit 1 else b ^^ state.testBit 1

/-- The coded bits in the order of the walk. -/
def interleaveHeaderBits (header : Vector Bool headerInfoBits) (i : ℕ) : Bool :=
  convolutionEncode header (nextPlace^[i] 0)

/-- The cost of a bit that is certain. -/
def costOf (bit : Bool) : Cost := if bit then 0xFFFF else 0

/-- The costs of the interleaved bits, scrambled. -/
def receivedCosts (header : Vector Bool headerInfoBits) (i : ℕ) : Cost :=
  costOf (interleaveHeaderBits header i ^^ pnSequence i)

theorem decodedBit_nextState : ∀ r b, decodedBit (nextState r b) = b := by decide

theorem edge_iff (r s : Fin 4) : Edge r s ↔ ∃ b, s = nextState r b := by
  unfold Edge
  revert r s
  decide

theorem isPath_encoderState (header : Vector Bool headerInfoBits) :
    IsPath Edge headerInfoBits (encoderState header) := fun _ _ => (edge_iff _ _).mpr ⟨_, rfl⟩

theorem codeOut_encoderState (header : Vector Bool headerInfoBits) (t : ℕ) :
    codeOut (encoderState header t) (encoderState header (t + 1)) =
      (convolutionEncode header (2 * t), convolutionEncode header (2 * t + 1)) := by
  have hfirst : 2 * t / 2 = t := by omega
  have hsecond : (2 * t + 1) / 2 = t := by omega
  have heven : 2 * t % 2 = 0 := by omega
  have hodd : (2 * t + 1) % 2 ≠ 0 := by omega
  simp only [codeOut, convolutionEncode, encoderState, decodedBit_nextState, hfirst, hsecond,
    if_pos heven, if_neg hodd]

theorem distance_costOf (b c : Bool) : distance (costOf b) c = 0 ↔ c = b := by
  cases b <;> cases c <;> simp [distance, costOf]

/-- Descrambling takes the sequence out again. -/
theorem scrambleSoftCosts_received (header : Vector Bool headerInfoBits) (output : ℕ → Cost)
    (hi : i < headerCodedBits) :
    scrambleSoftCosts (receivedCosts header) output headerCodedBits i =
      costOf (interleaveHeaderBits header i) := by
  rw [scrambleSoftCosts, if_neg hi.not_ge, scramblerSequence_mod, scramblerSequence_eq,
    receivedCosts]
  cases pnSequence i <;> cases interleaveHeaderBits header i <;> rfl

theorem deinterleaved_received (header : Vector Bool headerInfoBits) (output output' : ℕ → Cost)
    (hj : j < headerCodedBits) :
    deinterleaveSoftCosts (scrambleSoftCosts (receivedCosts header) output headerCodedBits) output'
      headerCodedBits j = costOf (convolutionEncode header j) := by
  have hplace := deinterleaveSoftCosts_place
    (scrambleSoftCosts (receivedCosts header) output headerCodedBits) output' (rank_lt hj)
  rw [place_rank hj] at hplace
  rw [hplace, scrambleSoftCosts_received _ _ (rank_lt hj), interleaveHeaderBits,
    iterate_nextPlace (rank_lt hj), place_rank hj]

theorem decodedBit_of_codeOut : ∀ r s r' s' : Fin 4, codeOut r s = codeOut r' s' →
    decodedBit r = decodedBit r' := by decide

/-- The second coded bit of a step tells its input from the one before the last. -/
theorem decodedBit_of_codeOut_edge {q r s q' r' s' : Fin 4} (hr : Edge q r) (hr' : Edge q' r')
    (hq : decodedBit q = decodedBit q') (hout : codeOut r s = codeOut r' s') :
    decodedBit s = decodedBit s' := by
  have hold : ∀ q r : Fin 4, Edge q r → r.val.testBit 1 = decodedBit q := by
    unfold Edge
    decide
  have hsecond := congrArg Prod.snd hout
  simp only [codeOut, hold q r hr, hold q' r' hr', hq] at hsecond
  simpa using hsecond

theorem decodedBit_eq_of_codeOut {p p' : ℕ → Fin 4} {n : ℕ} (hp : IsPath Edge (n + 2) p)
    (hp' : IsPath Edge (n + 2) p')
    (hout : ∀ t, t < n + 2 → codeOut (p t) (p (t + 1)) = codeOut (p' t) (p' (t + 1))) :
    ∀ t, t < n + 2 → decodedBit (p (t + 1)) = decodedBit (p' (t + 1)) := by
  intro t ht
  by_cases hlast : t = n + 1
  · subst hlast
    exact decodedBit_of_codeOut_edge (hp n (by omega)) (hp' n (by omega))
      (decodedBit_of_codeOut _ _ _ _ (hout n (by omega))) (hout (n + 1) ht)
  · exact decodedBit_of_codeOut _ _ _ _ (hout (t + 1) (by omega))

/-- A path through the costs of coded bits is free exactly where its own are the same. -/
theorem branchCost_eq_zero {soft : ℕ → Cost} {header : Vector Bool headerInfoBits} {t : ℕ}
    (hsoft : ∀ j, j < headerCodedBits → soft j = costOf (convolutionEncode header j))
    (ht : t < headerInfoBits) (r s : Fin 4) :
    branchCost soft t r s = 0 ↔
      codeOut r s = codeOut (encoderState header t) (encoderState header (t + 1)) := by
  have hcoded : 2 * t + 1 < headerCodedBits := by
    unfold headerInfoBits at ht
    unfold headerCodedBits
    omega
  rw [branchCost, hsoft _ hcoded, hsoft _ (by omega), Nat.add_eq_zero_iff, distance_costOf,
    distance_costOf, codeOut_encoderState, Prod.ext_iff]

/-- The decoder's path has the inputs of the header. -/
theorem decodedBit_bestPath {soft : ℕ → Cost} {header : Vector Bool headerInfoBits}
    (hsoft : ∀ j, j < headerCodedBits → soft j = costOf (convolutionEncode header j)) {t : ℕ}
    (ht : t < headerInfoBits) :
    decodedBit (bestPath soft (t + 1)) = header.toList.getD t false := by
  obtain ⟨hpath, hleast⟩ := bestPath_least soft
  have hsent : pathCost (branchCost soft) headerInfoBits (encoderState header) = 0 :=
    Finset.sum_eq_zero fun t ht =>
      (branchCost_eq_zero hsoft (Finset.mem_range.mp ht) _ _).mpr rfl
  have hfree : pathCost (branchCost soft) headerInfoBits (bestPath soft) = 0 :=
    Nat.eq_zero_of_le_zero (hsent ▸ hleast _ (isPath_encoderState header))
  have hout : ∀ t, t < headerInfoBits → codeOut (bestPath soft t) (bestPath soft (t + 1)) =
      codeOut (encoderState header t) (encoderState header (t + 1)) := fun t ht =>
    (branchCost_eq_zero hsoft ht _ _).mp
      (Finset.sum_eq_zero_iff.mp hfree t (Finset.mem_range.mpr ht))
  rw [decodedBit_eq_of_codeOut (n := 328) hpath (isPath_encoderState header) hout t ht,
    encoderState, decodedBit_nextState]

theorem headerViterbiDecodeSoft_received (header : Vector Bool headerInfoBits)
    (output output' : ℕ → Cost) {outCapacity : ℕ} (hroom : headerInfoBits ≤ outCapacity) :
    headerViterbiDecodeSoft
      (deinterleaveSoftCosts (scrambleSoftCosts (receivedCosts header) output headerCodedBits)
        output' headerCodedBits) headerCodedBits outCapacity = some header.toList := by
  rw [headerViterbiDecodeSoft_eq _ hroom]
  congr 1
  refine List.ext_getElem (by simp) fun t ht _ => ?_
  rw [List.length_map, List.length_range] at ht
  rw [List.getElem_map, List.getElem_range,
    decodedBit_bestPath (fun j hj => deinterleaved_received header output output' hj) ht,
    List.getD_eq_getElem _ _ (by simpa using ht)]

/-- The decoder returns the inputs of a path of least cost, in sums that stay in their range; the
deinterleaver writes each place once; and a header that arrives unchanged is decoded. -/
theorem header_decoding_exact {outCapacity : ℕ} (hroom : headerInfoBits ≤ outCapacity) :
    (∀ soft : ℕ → Cost,
      (∃ p, IsPath Edge headerInfoBits p ∧
        headerViterbiDecodeSoft soft headerCodedBits outCapacity =
          some ((List.range headerInfoBits).map fun t => decodedBit (p (t + 1))) ∧
        ∀ q, IsPath Edge headerInfoBits q →
          pathCost (branchCost soft) headerInfoBits p ≤
            pathCost (branchCost soft) headerInfoBits q) ∧
      ∀ t, t < headerInfoBits → ∀ r s, Edge r s →
        (softBranchMetric (soft (2 * t)) (soft (2 * t + 1)) (codeOut r s).1
          (codeOut r s).2).toNat + (viterbiSteps soft t).1[r].toNat < 2 ^ 32) ∧
    (∀ k, k < headerCodedBits → ∃! i, i < headerCodedBits ∧ nextPlace^[i] 0 = k) ∧
    (∀ (input output : ℕ → Cost) (i : ℕ), i < headerCodedBits →
      deinterleaveSoftCosts input output headerCodedBits (nextPlace^[i] 0) = input i) ∧
    ∀ (header : Vector Bool headerInfoBits) (output output' : ℕ → Cost),
      headerViterbiDecodeSoft
        (deinterleaveSoftCosts (scrambleSoftCosts (receivedCosts header) output headerCodedBits)
          output' headerCodedBits) headerCodedBits outCapacity = some header.toList := by
  refine ⟨fun soft => ⟨?_, fun t ht r s _ => ?_⟩, fun k hk => existsUnique_place hk,
    fun input output i hi => ?_, fun header output output' =>
      headerViterbiDecodeSoft_received header output output' hroom⟩
  · obtain ⟨hpath, hleast⟩ := bestPath_least soft
    exact ⟨bestPath soft, hpath, headerViterbiDecodeSoft_eq soft hroom, hleast⟩
  · have hmetric : metric soft t r ≤ 131070 * t := metric_le ht.le r
    rw [toNat_softBranchMetric, Nat.add_comm]
    exact (toNat_offer ht hmetric).2
  · rw [iterate_nextPlace hi, deinterleaveSoftCosts_place input output hi]

/-- Every third bit of a header set. -/
def thirdsHeader : Vector Bool headerInfoBits := Vector.ofFn fun t => decide (t.val % 3 = 0)

/-- A header with every third bit set. -/
theorem header_decoding_exact_thirds :
    headerViterbiDecodeSoft
      (deinterleaveSoftCosts
        (scrambleSoftCosts (receivedCosts thirdsHeader) (fun _ => 0) headerCodedBits)
        (fun _ => 0) headerCodedBits) headerCodedBits headerInfoBits = some thirdsHeader.toList :=
  (header_decoding_exact le_rfl).2.2.2 _ _ _

end DsdNeo.DStar
