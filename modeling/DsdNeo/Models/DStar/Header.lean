import DsdNeo.Core.Trellis.Scan

/-!
# The radio header of D-STAR

The header is convolutionally coded at rate one half, interleaved by a walk over its places in
columns of 24, and scrambled. The receiver undoes this on soft costs: it inverts those that were
scrambled, writes them where the walk says, and searches the trellis of the code from every state
to the best of its end states.
-/

namespace DsdNeo.DStar

open Trellis

/-- `DSD_DSTAR_HEADER_INFO_BITS`. -/
def headerInfoBits : ℕ := 330

/-- `DSD_DSTAR_HEADER_CODED_BITS`. -/
def headerCodedBits : ℕ := 660

/-- `DSD_DSTAR_SCRAMBLER_PERIOD`. -/
def scramblerPeriod : ℕ := 127

/-- A soft cost: small for a zero, large for a one. -/
abbrev Cost := BitVec 16

/-- The register of `dstar_fill_scrambler_sequence` after one bit. -/
def clockScrambler (reg : BitVec 32) : BitVec 32 :=
  let feedback := (reg >>> 6 &&& 1) ^^^ (reg >>> 3 &&& 1)
  reg <<< 1 &&& 0x7E ||| feedback

/-- `dstar_fill_scrambler_sequence`. -/
def scramblerSequence (i : ℕ) : Bool := (clockScrambler^[i] 0x07).getLsbD 6

/-- `dstar_scramble_soft_costs`. -/
def scrambleSoftCosts (input output : ℕ → Cost) (bitCount : ℕ) (i : ℕ) : Cost :=
  if bitCount ≤ i then output i
  else if scramblerSequence (i % scramblerPeriod) then 0xFFFF - input i
  else input i

/-- The place after one in the walk of `dstar_deinterleave_soft_costs`. -/
def nextPlace (k : ℕ) : ℕ :=
  let k := k + 24
  if 672 ≤ k then k - 671 else if 660 ≤ k then k - 647 else k

/-- The loop of `dstar_deinterleave_soft_costs`: the bits left, the one read and the place it is
written to. -/
def deinterleaveLoop (input : ℕ → Cost) : ℕ → ℕ → ℕ → (ℕ → Cost) → (ℕ → Cost)
  | 0, _, _, output => output
  | left + 1, i, k, output =>
    deinterleaveLoop input left (i + 1) (nextPlace k) (Function.update output k (input i))

/-- `dstar_deinterleave_soft_costs`. -/
def deinterleaveSoftCosts (input output : ℕ → Cost) (bitCount : ℕ) : ℕ → Cost :=
  if bitCount ≠ headerCodedBits then output else deinterleaveLoop input bitCount 0 0 output

/-- `soft_branch_metric`. -/
def softBranchMetric (sym1 sym0 : Cost) (ref1 ref0 : Bool) : BitVec 32 :=
  let d1 := if ref1 = false then sym1 else 0xFFFF - sym1
  let d0 := if ref0 = false then sym0 else 0xFFFF - sym0
  d1.setWidth 32 + d0.setWidth 32

/-- `dstar_select_survivor_u32`: the decision and the metric that survives. -/
def selectSurvivor (metricA metricB : BitVec 32) : Bool × BitVec 32 :=
  if metricA ≤ metricB then (false, metricA) else (true, metricB)

/-- `dstar_viterbi_step_soft`: decision and metric of each state. -/
def viterbiStepSoft (s1 s0 : Cost) (pathMetric : Vector (BitVec 32) 4) :
    Vector (Bool × BitVec 32) 4 :=
  #v[selectSurvivor (softBranchMetric s1 s0 false false + pathMetric.get 0)
      (softBranchMetric s1 s0 true true + pathMetric.get 2),
    selectSurvivor (softBranchMetric s1 s0 true true + pathMetric.get 0)
      (softBranchMetric s1 s0 false false + pathMetric.get 2),
    selectSurvivor (softBranchMetric s1 s0 true false + pathMetric.get 1)
      (softBranchMetric s1 s0 false true + pathMetric.get 3),
    selectSurvivor (softBranchMetric s1 s0 false true + pathMetric.get 1)
      (softBranchMetric s1 s0 true false + pathMetric.get 3)]

/-- The steps of `dstar_header_viterbi_decode_soft`: the metrics after so many of them, and the
decisions, those of the last step first. -/
def viterbiSteps (softSymbols : ℕ → Cost) : ℕ → Vector (BitVec 32) 4 × List (Vector Bool 4)
  | 0 => (#v[0, 0, 0, 0], [])
  | n + 1 =>
    let (pathMetric, pathMemory) := viterbiSteps softSymbols n
    let row := viterbiStepSoft (softSymbols (2 * n)) (softSymbols (2 * n + 1)) pathMetric
    (row.map Prod.snd, row.map Prod.fst :: pathMemory)

/-- `prev_state` of `dstar_traceback_header_bits`. -/
def prevState (decision : Bool) (state : Fin 4) : Fin 4 :=
  if decision then #v[2, 2, 3, 3].get state else #v[0, 0, 1, 1].get state

/-- `decoded_bit` of `dstar_traceback_header_bits`. -/
def decodedBit (state : Fin 4) : Bool := #v[false, true, false, true].get state

/-- The loop of `dstar_traceback_header_bits`: the decisions from the last step back, the state,
and the bits stored so far. -/
def tracebackHeaderBits : List (Vector Bool 4) → Fin 4 → List Bool → List Bool
  | [], _, outBits => outBits
  | decisions :: pathMemory, state, outBits =>
    tracebackHeaderBits pathMemory (prevState (decisions.get state) state)
      (decodedBit state :: outBits)

/-- `dstar_select_best_state_u32`. -/
def selectBestState (pathMetric : Vector (BitVec 32) 4) : Fin 4 :=
  ([1, 2, 3] : List (Fin 4)).foldl
    (fun state s => if pathMetric.get s < pathMetric.get state then s else state) 0

/-- `dstar_header_viterbi_decode_soft`: the bits, when there are as many symbols as a header
has and room for its bits. -/
def headerViterbiDecodeSoft (softSymbols : ℕ → Cost) (symbolCount outCapacity : ℕ) :
    Option (List Bool) :=
  if symbolCount ≠ headerCodedBits ∨ outCapacity < headerInfoBits then none
  else
    let (pathMetric, pathMemory) := viterbiSteps softSymbols (symbolCount / 2)
    some (tracebackHeaderBits pathMemory (selectBestState pathMetric) [])

end DsdNeo.DStar
