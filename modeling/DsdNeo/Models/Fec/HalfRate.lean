import DsdNeo.Core.Trellis.Separation
import Mathlib.Tactic.IntervalCases

/-!
# The rate-1/2 code of constraint length five

The code with generators `1 + D^3 + D^4` and `1 + D + D^2 + D^4`, shared by the link setup, stream
and test frames of one protocol and the channels of another. State bit `k` is the input `k + 1`
steps ago, a step shifts the input in at the bottom, and the decision bit of a step is the input
that leaves at the top.
-/

namespace DsdNeo.HalfRate

open Trellis List

/-- The predecessor of state `j` with a clear top bit. -/
def low (j : Fin 16) : Fin 16 := ⟨j.val / 2, by omega⟩

/-- The predecessor of state `j` with a set top bit. -/
def high (j : Fin 16) : Fin 16 := ⟨j.val / 2 + 8, by omega⟩

/-- Sum of the terms of a register that a generator selects. -/
def parity (x : ℕ) : Bool := (List.range 5).foldl (fun a i => a ^^ x.testBit i) false

/-- Successor state: the input enters at the bottom. -/
def nextState (s : Fin 16) (b : Bool) : Fin 16 :=
  ⟨(2 * s.val + b.toNat) % 16, Nat.mod_lt _ (by decide)⟩

/-- Input recorded in a state. -/
def inputOf (s : Fin 16) : Bool := s.val % 2 == 1

/-- Coded bits of one step. -/
def codedBits (s : Fin 16) (b : Bool) : List Bool :=
  [parity ((16 * b.toNat + s.val) &&& 0x1C), parity ((16 * b.toNat + s.val) &&& 0x1B)]

/-- The rate-1/2 code of the decoder, as a linear code on its sixteen states. -/
def code : LinearCode 16 where
  next := nextState
  out := codedBits
  diff r s := ⟨(r.val ^^^ s.val) % 16, Nat.mod_lt _ (by decide)⟩
  zero := 0
  table :=
    [[(0, false, [false, false]), (8, false, [true, true])],
     [(0, true, [true, true]), (8, true, [false, false])],
     [(1, false, [false, true]), (9, false, [true, false])],
     [(1, true, [true, false]), (9, true, [false, true])],
     [(2, false, [false, true]), (10, false, [true, false])],
     [(2, true, [true, false]), (10, true, [false, true])],
     [(3, false, [false, false]), (11, false, [true, true])],
     [(3, true, [true, true]), (11, true, [false, false])],
     [(4, false, [true, false]), (12, false, [false, true])],
     [(4, true, [false, true]), (12, true, [true, false])],
     [(5, false, [true, true]), (13, false, [false, false])],
     [(5, true, [false, false]), (13, true, [true, true])],
     [(6, false, [true, true]), (14, false, [false, false])],
     [(6, true, [false, false]), (14, true, [true, true])],
     [(7, false, [true, false]), (15, false, [false, true])],
     [(7, true, [false, true]), (15, true, [true, false])]]
  mem_table := by decide
  length_table := rfl
  diff_self := by decide
  next_diff := by decide
  out_diff := by decide

theorem inputOf_next (r : Fin 16) (b : Bool) : inputOf (code.next r b) = b := by
  revert r b
  decide

theorem length_out (d : Fin 16) (b : Bool) :
    (code.out d b).length = (code.out code.zero false).length := rfl

/-- The two predecessors are the only ones. -/
theorem edge_iff (r s : Fin 16) : code.Edge inputOf r s ↔ r = low s ∨ r = high s := by
  revert r s
  decide

/-- The top bit of a state is the input four steps before. -/
theorem top_states (s : Fin 16) (u : ℕ → Bool) (t : ℕ) :
    decide (8 ≤ (code.states s u (t + 4)).val) = u t := by
  have hfour : ∀ (r : Fin 16) (a b c d : Bool),
      decide (8 ≤ (nextState (nextState (nextState (nextState r a) b) c) d).val) = a := by
    decide
  exact hfour _ _ _ _ _

/-- Four zero inputs clear the register. -/
theorem states_flush (s : Fin 16) (u : ℕ → Bool) (t : ℕ) (h0 : u t = false)
    (h1 : u (t + 1) = false) (h2 : u (t + 2) = false) (h3 : u (t + 3) = false) :
    code.states s u (t + 4) = 0 := by
  have hfour : ∀ r : Fin 16,
      nextState (nextState (nextState (nextState r false) false) false) false = 0 := by
    decide
  show nextState (nextState (nextState (nextState _ _) _) _) _ = 0
  rw [h0, h1, h2, h3]
  exact hfour _

/-- Predecessor of a state under a decision word: the decision is its top bit. -/
abbrev predecessorOf (word : ℕ) (j : Fin 16) : Fin 16 := predecessor low high word j

/-- The decision bits a chainback reads, latest step first. -/
def decisionBits (decisions : ℕ → ℕ) : ℕ → ℕ → Fin 16 → List Bool
  | 0, _, _ => []
  | nBits + 1, dp, j =>
    (decisions (dp - 1)).testBit j.val ::
      decisionBits decisions nBits (dp - 1) (predecessorOf (decisions (dp - 1)) j)

theorem register_shift (bit : Bool) (state : ℕ) (j : Fin 16) (h : state >>> 4 = j.val)
    (word : ℕ) (hb : word.testBit j.val = bit) :
    ((bit.toNat <<< 7) ||| (state >>> 1)) >>> 4 = (predecessorOf word j).val := by
  have hlow : state >>> 1 >>> 4 = j.val / 2 := by
    rw [← Nat.shiftRight_add, Nat.add_comm, Nat.shiftRight_add, h, Nat.shiftRight_one]
  rw [Nat.shiftRight_or_distrib, hlow]
  simp only [predecessorOf, predecessor, low, high]
  cases bit <;> simp only [hb, Bool.false_eq_true, ite_true, ite_false]
  · simp
  · have hj : j.val / 2 < 8 := by omega
    generalize j.val / 2 = k at hj
    interval_cases k <;> rfl

theorem testBit_eq_top (word : ℕ) (j : Fin 16) :
    word.testBit j.val = decide (8 ≤ (predecessorOf word j).val) := by
  have hlow : ∀ k : Fin 16, decide (8 ≤ (low k).val) = false := by decide
  have hhigh : ∀ k : Fin 16, decide (8 ≤ (high k).val) = true := by decide
  by_cases h : word.testBit j.val = true
  · simp only [predecessorOf, predecessor, h, ite_true, hhigh]
  · simp only [predecessorOf, predecessor, h, Bool.false_eq_true, ite_false, hlow]

theorem decisionBits_eq (decisions : ℕ → ℕ) (nBits n : ℕ) (f : Fin 16) (h : nBits ≤ n) :
    decisionBits decisions nBits n f = (List.range nBits).map fun i =>
      decide (8 ≤ (traceback (fun t => predecessorOf (decisions t)) n f (n - 1 - i)).val) := by
  induction nBits generalizing n f with
  | zero => rfl
  | succ nBits ih =>
    obtain ⟨n, rfl⟩ : ∃ k, n = k + 1 := ⟨n - 1, by omega⟩
    rw [decisionBits, Nat.add_sub_cancel, ih n _ (by omega), range_succ_eq_map,
      map_cons, map_map, testBit_eq_top]
    congr 1
    · rw [Nat.sub_zero, traceback_succ_of_le _ _ le_rfl, traceback_self]
    · apply map_congr_left
      intro i hi
      have hidx : n - (i + 1) = n - 1 - i := by omega
      rw [Function.comp_apply, hidx, traceback_succ_of_le _ _ (by omega)]

theorem decisionBits_congr {decisions decisions' : ℕ → ℕ} {nBits n : ℕ} {f : Fin 16}
    (h : ∀ t, t < n → decisions t = decisions' t) (hn : nBits ≤ n) :
    decisionBits decisions nBits n f = decisionBits decisions' nBits n f := by
  induction nBits generalizing n f with
  | zero => rfl
  | succ nBits ih =>
    rw [decisionBits, decisionBits, h (n - 1) (by omega),
      ih (fun t ht => h t (by omega)) (by omega)]

/-- A chainback through all steps reads the four bits before the first input last. -/
theorem drop_reverse_decisionBits (decisions : ℕ → ℕ) (nBits : ℕ) (f : Fin 16) :
    (decisionBits decisions (nBits + 4) (nBits + 4) f).reverse.drop 4 =
      (decisionBits decisions nBits (nBits + 4) f).reverse := by
  rw [decisionBits_eq _ _ _ _ le_rfl, decisionBits_eq _ _ _ _ (Nat.le_add_right nBits 4),
    drop_reverse, ← map_take, length_map, length_range, Nat.add_sub_cancel,
    take_range, min_eq_left (Nat.le_add_right nBits 4)]

/-- Where the states passed are a path that records the inputs `u`, the bits read
back, earliest first, are the inputs up to the four still in the register. -/
theorem reverse_decisionBits {decisions : ℕ → ℕ} {nBits : ℕ} {f : Fin 16} {u : ℕ → Bool}
    (hpath : IsPath (code.Edge inputOf) (nBits + 4)
      (traceback (fun t => predecessorOf (decisions t)) (nBits + 4) f))
    (hu : ∀ t, t < nBits + 4 →
      inputOf (traceback (fun t => predecessorOf (decisions t)) (nBits + 4) f (t + 1)) = u t) :
    (decisionBits decisions nBits (nBits + 4) f).reverse = (List.range nBits).map u := by
  rw [decisionBits_eq _ _ _ _ (by omega)]
  apply ext_getElem
  · simp
  · intro i hi _
    have hi' : i < nBits := by simpa using hi
    have hidx : nBits + 4 - 1 - (nBits - 1 - i) = i + 4 := by omega
    simp only [getElem_reverse, getElem_map, getElem_range, length_map, length_range, hidx]
    rw [← LinearCode.states_eq_of_isPath hpath (by omega), top_states, hu i (by omega)]

/-- The number a butterfly adds on the edge of a zero input from its low half. -/
def butterfly (full s0 s1 : ℕ) (j : Fin 16) : ℕ :=
  laneCost (lanePrices full [s0, s1]) (codedBits (low j) false)

/-- Both edges of a destination cost the butterfly's number or its complement. -/
theorem branch_eq {full s0 s1 : ℕ} (h0 : s0 ≤ full) (h1 : s1 ≤ full) (j : Fin 16) :
    code.branch inputOf (lanePrices full [s0, s1]) (low j) j =
        (if j.val % 2 = 0 then butterfly full s0 s1 j else 2 * full - butterfly full s0 s1 j) ∧
      code.branch inputOf (lanePrices full [s0, s1]) (high j) j =
        (if j.val % 2 = 0 then 2 * full - butterfly full s0 s1 j else butterfly full s0 s1 j) ∧
      butterfly full s0 s1 j ≤ 2 * full := by
  have hbits : ∀ j : Fin 16, ∃ a b : Bool, codedBits (low j) false = [a, b] ∧
      codedBits (low j) (inputOf j) = (if j.val % 2 = 0 then [a, b] else [!a, !b]) ∧
      codedBits (high j) (inputOf j) = (if j.val % 2 = 0 then [!a, !b] else [a, b]) := by
    decide
  obtain ⟨a, b, hzero, hlow, hhigh⟩ := hbits j
  simp only [LinearCode.branch, butterfly]
  rw [show code.out = codedBits from rfl, hzero, hlow, hhigh]
  by_cases hj : j.val % 2 = 0 <;> simp only [hj, ite_true, ite_false]
  all_goals
    cases a <;> cases b <;> simp only [laneCost, lanePrices, map_cons, map_nil, zipWith_cons_cons,
      zipWith_nil_right, sum_cons, sum_nil, cond_true, cond_false, Bool.not_true,
      Bool.not_false, true_and] <;> omega

theorem branch_le {full s0 s1 : ℕ} (h0 : s0 ≤ full) (h1 : s1 ≤ full) (r j : Fin 16) :
    code.branch inputOf (lanePrices full [s0, s1]) r j ≤ 2 * full := by
  have hlen : (code.out r (inputOf j)).length = 2 := rfl
  obtain ⟨a, b, hout⟩ := length_eq_two.mp hlen
  simp only [LinearCode.branch, hout, laneCost, lanePrices, map_cons, map_nil, zipWith_cons_cons,
    zipWith_nil_right, sum_cons, sum_nil]
  cases a <;> cases b <;> simp only [cond_true, cond_false] <;> omega

section Run

variable {full : ℕ} {s : List (ℕ × ℕ)} {cells : List (Cells 16)}

/-- Prices of the lanes at each step. -/
def pricesAt (full : ℕ) (s : List (ℕ × ℕ)) (t : ℕ) : List (ℕ × ℕ) :=
  lanePrices full [(s.getD t (0, 0)).1, (s.getD t (0, 0)).2]

theorem traceback_sent {ws : List (List (ℕ × ℕ))} {u : ℕ → Bool} {ceiling nBits : ℕ}
    {old : Metrics 16} (hlen : cells.length = nBits + 4) (hws : ws.length = nBits + 4)
    (hs : ∀ t, t < nBits + 4 → (s.getD t (0, 0)).1 ≤ full ∧ (s.getD t (0, 0)).2 ≤ full)
    (hsel : ∀ t (h : t < cells.length),
      Selects low high (code.branch inputOf (pricesAt full s t)) (2 * full * t) cells[t])
    (hold : ∀ j, old.get j = 0) (hflush : ∀ t, nBits ≤ t → u t = false)
    (hpos : LinearCode.agreements ws < code.leastCharge ceiling (fun _ => true) ws)
    (hc : code.Prices ws (pricesAt full s) 0 u) :
    IsPath (code.Edge inputOf) (nBits + 4)
        (traceback (fun t => predecessorOf (wordAt cells old t)) (nBits + 4) 0) ∧
      ∀ t, t < nBits + 4 →
        inputOf (traceback (fun t => predecessorOf (wordAt cells old t)) (nBits + 4) 0 (t + 1)) =
          u t := by
  have hcost : ∀ t, t < cells.length → ∀ r j,
      code.branch inputOf (pricesAt full s t) r j ≤ 2 * full := by
    intro t ht r j
    obtain ⟨h0, h1⟩ := hs t (by omega)
    exact branch_le h0 h1 r j
  have hend : code.states 0 u ws.length = 0 := by
    rw [hws]
    exact states_flush 0 u nBits (hflush _ (by omega)) (hflush _ (by omega))
      (hflush _ (by omega)) (hflush _ (by omega))
  have hrecords := @LinearCode.traceback_records _ code inputOf _
    ((metricsAt cells old ws.length).get 0 + 1) _ ws (pricesAt full s)
    (fun t => (metricsAt cells old t).get) (fun t => predecessorOf (wordAt cells old t)) 0 0 u
    inputOf_next length_out
    (fun t ht => relaxed_run hsel hcost edge_iff hold (by omega))
    (fun t ht => traced_run hsel hcost edge_iff _ hold (by omega))
    (fun r _ => ⟨(hold 0).le.trans (Nat.zero_le _), rfl⟩) hend (Nat.lt_succ_self _) hpos hc
  rw [hws] at hrecords
  exact hrecords

end Run

/-- Coded bits of an input sequence from state `s`. -/
def codedStream (s : Fin 16) (input : List Bool) : List Bool := code.codedStream s input

theorem codedStream_cons (s : Fin 16) (b : Bool) (input : List Bool) :
    codedStream s (b :: input) = codedBits s b ++ codedStream (nextState s b) input := rfl

@[simp] theorem length_codedStream (s : Fin 16) (input : List Bool) :
    (codedStream s input).length = 2 * input.length :=
  LinearCode.length_codedStream (fun _ _ => rfl) s input

/-- The received values two at a time. -/
def pairs (values : List ℕ) (n : ℕ) : List (ℕ × ℕ) :=
  (List.range n).map fun i => (values.getD (2 * i) 0, values.getD (2 * i + 1) 0)

@[simp] theorem length_pairs (values : List ℕ) (n : ℕ) : (pairs values n).length = n := by
  simp [pairs]

theorem getElem?_pairs (values : List ℕ) {n t : ℕ} (ht : t < n) :
    (pairs values n)[t]? = some (values.getD (2 * t) 0, values.getD (2 * t + 1) 0) := by
  simp only [pairs, getElem?_map, getElem?_range ht, Option.map_some]

/-- Two at a time is the code's own order of lanes. -/
theorem pricesAt_pairs (full : ℕ) {values : List ℕ} {n t : ℕ} (hlen : values.length = 2 * n)
    (ht : t < n) : pricesAt full (pairs values n) t = lanePrices full (stepOf 2 t values) := by
  have hstep : stepOf 2 t values = [values.getD (2 * t) 0, values.getD (2 * t + 1) 0] := by
    apply ext_getElem?
    intro i
    rcases i with _ | _ | i
    · rw [getElem?_stepOf (by omega), getElem?_eq_getElem (by omega)]
      simp [getD_eq_getElem?_getD, show 2 * t < values.length by omega]
    · rw [getElem?_stepOf (by omega), getElem?_eq_getElem (by omega)]
      simp [getD_eq_getElem?_getD, show 2 * t + 1 < values.length by omega]
    · rw [getElem?_eq_none (by rw [length_stepOf hlen ht]; omega)]
      rfl
  rw [pricesAt, getD_eq_getElem?_getD, getElem?_pairs values ht, hstep]
  rfl

/-- The values received for a punctured word separate it as charged. -/
theorem prices_received {full fill doubt : ℕ} (hlow : full ≤ 2 * fill + doubt)
    (hhigh : 2 * fill ≤ full + doubt) (hfill : fill ≤ full) {mask input : List Bool}
    (hmask : mask.length = 2 * input.length) :
    code.Prices (charges full doubt 2 input.length mask)
      (pricesAt full (pairs (received full fill mask (codedStream 0 input)) input.length)) 0
      (input.getD · false) := by
  have hlen : (received full fill mask (codedStream 0 input)).length = 2 * input.length := by
    rw [length_received _ _ (hmask.trans (length_codedStream 0 input).symm), length_codedStream]
  intro t ht
  rw [pricesAt_pairs full hlen (by simpa using ht)]
  exact LinearCode.prices_received (fun _ _ => rfl) hlow hhigh hfill hmask 0 t ht

theorem getD_flush (message : List Bool) (t : ℕ) (ht : message.length ≤ t) :
    (message ++ List.replicate 4 false).getD t false = false := by
  rw [getD_eq_getElem?_getD, getElem?_append_right ht, getElem?_replicate]
  split <;> rfl

theorem map_getD_flush (message : List Bool) :
    ((List.range message.length).map ((message ++ List.replicate 4 false).getD · false)) =
      message := by
  apply ext_getElem
  · simp
  · intro i _ h
    simp [getD_eq_getElem?_getD, getElem?_append_left h, getElem?_eq_getElem h]

end DsdNeo.HalfRate
