import DsdNeo.Core.Bits.Bytes
import DsdNeo.Models.Fec.HalfRate

/-!
# The soft decoder of link setup frames

`viterbi_decode` of `dsd_misc.c`. Its metrics and history are file-static too,
but they are cleared at the start of every call, so that a call is a function of
its input. The current metrics are written in full before they are read and need
no place in the state. Decisions are read back four bits later in the output than
the step that wrote them, which leaves a lead of one byte before the first input.
-/

namespace DsdNeo.M17

open Trellis HalfRate List

/-- `COST_TABLE_0`. -/
def costTable0 : List ℕ := [0, 0, 0, 0, 0xFFFF, 0xFFFF, 0xFFFF, 0xFFFF]

/-- `COST_TABLE_1`. -/
def costTable1 : List ℕ := [0, 0xFFFF, 0xFFFF, 0, 0, 0xFFFF, 0xFFFF, 0]

/-- `q_abs_diff`. -/
def qAbsDiff (v1 v2 : ℕ) : ℕ := if v2 > v1 then v2 - v1 else v1 - v2

/-- Metric and decision of state `j` in `viterbi_decode_bit`, in `uint32_t`. -/
def viterbiCell (s0 s1 : ℕ) : Cells 16 := fun old j =>
  let i := j.val / 2
  let metric := qAbsDiff (costTable0.getD i 0) s0 + qAbsDiff (costTable1.getD i 0) s1
  let complement := (0x1FFFE + 2 ^ 32 - metric) % 2 ^ 32
  let m0 := (old.get (low j) + if j.val % 2 = 0 then metric else complement) % 2 ^ 32
  let m1 := (old.get (high j) + if j.val % 2 = 0 then complement else metric) % 2 ^ 32
  (if m0 ≥ m1 then m1 else m0, decide (m0 ≥ m1))

/-- The file-static storage. -/
structure Viterbi where
  prevMetrics : Metrics 16
  history : ℕ → ℕ

/-- `viterbi_reset`. -/
def viterbiReset : Viterbi := ⟨List.Vector.replicate 16 0, fun _ => 0⟩

/-- `viterbi_decode_bit`. -/
def viterbiDecodeBit (s0 s1 pos : ℕ) (v : Viterbi) : Viterbi :=
  ⟨(viterbiCell s0 s1).metrics v.prevMetrics,
    Function.update v.history pos ((viterbiCell s0 s1).word v.prevMetrics)⟩

/-- The loop of `viterbi_decode` over the input two values at a time. -/
def viterbiDecodeLoop : List ℕ → ℕ → Viterbi → ℕ × Viterbi
  | s0 :: s1 :: input, pos, v => viterbiDecodeLoop input (pos + 1) (viterbiDecodeBit s0 s1 pos v)
  | _, pos, v => (pos, v)

/-- The loop of `viterbi_chainback` with `pos` steps left. -/
def viterbiChainbackLoop (history : ℕ → ℕ) : ℕ → ℕ → ℕ → List ℕ → List ℕ
  | 0, _, _, out => out
  | pos + 1, bitPos, state, out =>
    let bitPos := bitPos - 1
    let bit := (history pos).testBit (state >>> 4)
    let state := state >>> 1
    if bit then
      viterbiChainbackLoop history pos bitPos (state ||| 0x80)
        (out.modify (bitPos / 8) (· ||| 1 <<< (7 - bitPos % 8)))
    else viterbiChainbackLoop history pos bitPos state out

/-- `viterbi_chainback` into the bytes `out`, with the least final metric. -/
def viterbiChainback (out : List ℕ) (pos len : ℕ) (v : Viterbi) : List ℕ × ℕ :=
  let cleared := (len - 1) / 8 + 1
  (viterbiChainbackLoop v.history pos (len + 4) 0 (List.replicate cleared 0 ++ out.drop cleared),
    v.prevMetrics.toList.tail.foldl min (v.prevMetrics.get 0))

/-- `viterbi_decode`: the output bytes and the returned cost. -/
def viterbiDecode (out input : List ℕ) : List ℕ × ℕ :=
  let r := viterbiDecodeLoop input 0 viterbiReset
  viterbiChainback out r.1 (input.length / 2) r.2

theorem qAbsDiff_zero (s : ℕ) : qAbsDiff 0 s = s := by
  unfold qAbsDiff
  split <;> omega

theorem qAbsDiff_full {s : ℕ} (h : s ≤ 0xFFFF) : qAbsDiff 0xFFFF s = 0xFFFF - s := by
  unfold qAbsDiff
  split <;> omega

private theorem costTables (j : Fin 16) : ∃ a b : Bool, codedBits (low j) false = [a, b] ∧
    costTable0.getD (j.val / 2) 0 = (bif a then 0xFFFF else 0) ∧
    costTable1.getD (j.val / 2) 0 = bif b then 0xFFFF else 0 := by
  revert j
  decide

theorem viterbi_metric {s0 s1 : ℕ} (h0 : s0 ≤ 0xFFFF) (h1 : s1 ≤ 0xFFFF) (j : Fin 16) :
    qAbsDiff (costTable0.getD (j.val / 2) 0) s0 + qAbsDiff (costTable1.getD (j.val / 2) 0) s1 =
      butterfly 0xFFFF s0 s1 j := by
  obtain ⟨a, b, hbits, ha, hb⟩ := costTables j
  rw [butterfly, hbits, ha, hb]
  cases a <;> cases b <;> simp [laneCost, lanePrices, qAbsDiff_zero, qAbsDiff_full, h0, h1]

/-- A step selects the smaller sum as long as no metric reaches `2 ^ 32`. -/
theorem selects_viterbiCell {s0 s1 bound : ℕ} (h0 : s0 ≤ 0xFFFF) (h1 : s1 ≤ 0xFFFF)
    (hb : bound + 0x1FFFE < 2 ^ 32) :
    Selects low high (code.branch inputOf (lanePrices 0xFFFF [s0, s1])) bound
      (viterbiCell s0 s1) := by
  intro old hold j
  have hmetric := viterbi_metric h0 h1 j
  obtain ⟨hlow, hhigh, hle⟩ := branch_eq h0 h1 j
  have hcomplement : (0x1FFFE + 2 ^ 32 - butterfly 0xFFFF s0 s1 j) % 2 ^ 32 =
      2 * 0xFFFF - butterfly 0xFFFF s0 s1 j := by omega
  have hl := hold (low j)
  have hh := hold (high j)
  have hblow := branch_le h0 h1 (low j) j
  have hbhigh := branch_le h0 h1 (high j) j
  simp only [viterbiCell]
  rw [hmetric, hcomplement, ← hlow, ← hhigh, Nat.mod_eq_of_lt (by omega),
    Nat.mod_eq_of_lt (by omega)]

/-- The steps of an input. -/
def viterbiCells (s : List (ℕ × ℕ)) : List (Cells 16) := s.map fun p => viterbiCell p.1 p.2

theorem viterbiCells_cons (p : ℕ × ℕ) (s : List (ℕ × ℕ)) :
    viterbiCells (p :: s) = viterbiCell p.1 p.2 :: viterbiCells s := rfl

@[simp] theorem length_viterbiCells (s : List (ℕ × ℕ)) : (viterbiCells s).length = s.length := by
  simp [viterbiCells]

theorem pairs_cons (s0 s1 : ℕ) (input : List ℕ) (n : ℕ) :
    pairs (s0 :: s1 :: input) (n + 1) = (s0, s1) :: pairs input n := by
  simp [pairs, range_succ_eq_map, map_map, Function.comp_def, Nat.mul_succ]

/-- The loop leaves earlier history alone and writes its own words in order. -/
theorem viterbiDecodeLoop_eq (input : List ℕ) (pos : ℕ) (v : Viterbi) :
    (viterbiDecodeLoop input pos v).1 = pos + input.length / 2 ∧
      ∀ k, (viterbiDecodeLoop input pos v).2.history k =
        if k < pos then v.history k
        else
          ((decisionWords (viterbiCells (pairs input (input.length / 2)))
            v.prevMetrics)[k - pos]?).getD (v.history k) := by
  fun_induction viterbiDecodeLoop input pos v with
  | case1 s0 s1 input pos v ih =>
    obtain ⟨hpos, hhist⟩ := ih
    have hlen : (s0 :: s1 :: input).length / 2 = input.length / 2 + 1 := by
      simp only [length_cons]
      omega
    refine ⟨by rw [hpos, hlen]; omega, fun k => ?_⟩
    rw [hhist k, hlen, pairs_cons, viterbiCells_cons, decisionWords]
    by_cases hlt : k < pos
    · have hne : k ≠ pos := by omega
      have hlt' : k < pos + 1 := by omega
      simp [hlt, hlt', viterbiDecodeBit, Function.update_of_ne hne]
    · by_cases heq : k = pos
      · subst heq
        simp [viterbiDecodeBit]
      · obtain ⟨e, he⟩ : ∃ e, k = pos + 1 + e := ⟨k - pos - 1, by omega⟩
        have h1 : ¬ k < pos + 1 := by omega
        have h2 : k - (pos + 1) = e := by omega
        have h3 : k - pos = e + 1 := by omega
        simp [hlt, h1, h2, h3, viterbiDecodeBit, Function.update_of_ne heq]
  | case2 input pos v hshort =>
    have hlen : input.length / 2 = 0 := by
      rcases input with _ | ⟨x, _ | ⟨y, rest⟩⟩
      · rfl
      · simp
      · exact absurd rfl (hshort x y rest)
    refine ⟨by simp [hlen], fun k => ?_⟩
    simp [hlen, pairs, viterbiCells, decisionWords]

private theorem shifted_mask (k : ℕ) : 1 <<< (7 - k % 8) = Bytes.bitMask k := by
  have hk : k % 8 < 8 := Nat.mod_lt _ (by decide)
  unfold Bytes.bitMask
  generalize k % 8 = r at hk
  interval_cases r <;> rfl

/-- Below the bits already written the output is still clear, so that a chainback
stores every decision at its place. -/
theorem bitsOf_viterbiChainbackLoop (history : ℕ → ℕ) (pos state lead : ℕ) (out : List ℕ)
    (j : Fin 16) (h : state >>> 4 = j.val) {tail : List Bool}
    (hout : Bytes.bitsOf out = List.replicate (pos + lead) false ++ tail) :
    Bytes.bitsOf (viterbiChainbackLoop history pos (pos + lead) state out) =
      List.replicate lead false ++ ((decisionBits history pos pos j).reverse ++ tail) := by
  induction pos generalizing state out j tail with
  | zero => simpa [viterbiChainbackLoop, decisionBits] using hout
  | succ pos ih =>
    have hidx : pos + 1 + lead - 1 = pos + lead := by omega
    have hsplit : List.replicate (pos + 1 + lead) false ++ tail =
        List.replicate (pos + lead) false ++ (false :: tail) := by
      rw [show pos + 1 + lead = pos + lead + 1 by omega, replicate_succ']
      simp
    have hshift := register_shift _ state j h (history pos) rfl
    rw [viterbiChainbackLoop, decisionBits, Nat.add_sub_cancel]
    simp only [hidx, h]
    cases hbit : (history pos).testBit j.val with
    | false =>
      rw [hbit] at hshift
      rw [if_neg Bool.false_ne_true, ih _ _ _ (by simpa using hshift) (hout.trans hsplit)]
      simp
    | true =>
      rw [hbit] at hshift
      have hwrite : out.modify ((pos + lead) / 8) (· ||| 1 <<< (7 - (pos + lead) % 8)) =
          Bytes.writeBit out (pos + lead) true := by
        rw [shifted_mask, Bytes.writeBit]
        rfl
      have hset : Bytes.bitsOf (Bytes.writeBit out (pos + lead) true) =
          List.replicate (pos + lead) false ++ (true :: tail) := by
        rw [Bytes.bitsOf_writeBit, hout, hsplit, set_append_right _ _ (by simp)]
        simp
      rw [if_pos rfl, hwrite, ih _ _ _ (by rw [Nat.lor_comm]; exact hshift) hset]
      simp

private theorem bitsOf_replicate_zero (n : ℕ) :
    Bytes.bitsOf (List.replicate n 0) = List.replicate (8 * n) false := by
  induction n with
  | zero => rfl
  | succ n ih =>
    rw [replicate_succ, Bytes.bitsOf_cons, ih, Nat.mul_succ, Nat.add_comm, replicate_add]
    rfl

/-- The stores of a chainback keep bytes bytes. -/
theorem viterbiChainbackLoop_lt (history : ℕ → ℕ) (pos bitPos state : ℕ) {out : List ℕ}
    (h : ∀ x ∈ out, x < 256) :
    ∀ x ∈ viterbiChainbackLoop history pos bitPos state out, x < 256 := by
  induction pos generalizing bitPos state out with
  | zero => exact h
  | succ pos ih =>
    rw [viterbiChainbackLoop]
    split
    · refine ih _ _ fun x hx => ?_
      obtain ⟨k, hk, rfl⟩ := mem_iff_getElem.mp hx
      have hk' : k < out.length := by simpa using hk
      have hold := h out[k] (getElem_mem hk')
      have hmask : 1 <<< (7 - (bitPos - 1) % 8) < 256 := by
        rw [shifted_mask]
        exact Nat.lt_of_le_of_lt (Nat.shiftRight_le _ _) (by decide)
      rw [getElem_modify]
      split
      · exact Nat.or_lt_two_pow (n := 8) hold hmask
      · exact hold
    · exact ih _ _ h

theorem viterbiDecode_lt (out input : List ℕ) (h : ∀ x ∈ out, x < 256) :
    ∀ x ∈ (viterbiDecode out input).1, x < 256 := by
  refine viterbiChainbackLoop_lt _ _ _ _ fun x hx => ?_
  rcases mem_append.mp hx with hzero | hold
  · rw [eq_of_mem_replicate hzero]
    decide
  · exact h x (mem_of_mem_drop hold)

section Decode

variable {values : List ℕ} {n : ℕ}

theorem pairs_le (hvalues : ∀ k, values.getD k 0 ≤ 0xFFFF) (t : ℕ) (ht : t < n) :
    ((pairs values n).getD t (0, 0)).1 ≤ 0xFFFF ∧ ((pairs values n).getD t (0, 0)).2 ≤ 0xFFFF := by
  rw [getD_eq_getElem?_getD, getElem?_pairs values ht]
  exact ⟨hvalues _, hvalues _⟩

/-- Every step of a call selects, its metrics staying below `2 ^ 32`. -/
theorem selects_viterbiCells (hvalues : ∀ k, values.getD k 0 ≤ 0xFFFF)
    (hsmall : 0x1FFFE * n < 2 ^ 32) (t : ℕ) (ht : t < (viterbiCells (pairs values n)).length) :
    Selects low high (code.branch inputOf (pricesAt 0xFFFF (pairs values n) t)) (2 * 0xFFFF * t)
      (viterbiCells (pairs values n))[t] := by
  have htn : t < n := by simpa [pairs] using ht
  obtain ⟨h0, h1⟩ := pairs_le hvalues t htn
  have hcell : (viterbiCells (pairs values n))[t]? = some
      (viterbiCell ((pairs values n).getD t (0, 0)).1 ((pairs values n).getD t (0, 0)).2) := by
    rw [viterbiCells, getElem?_map, getD_eq_getElem?_getD, getElem?_pairs values htn]
    rfl
  rw [Option.some.inj ((getElem?_eq_getElem ht).symm.trans hcell)]
  exact selects_viterbiCell h0 h1 (by omega)

/-- The history a call reads back. -/
theorem history_viterbiDecodeLoop (hlen : values.length = 2 * n) {t : ℕ} (ht : t < n) :
    (viterbiDecodeLoop values 0 viterbiReset).2.history t =
      wordAt (viterbiCells (pairs values n)) viterbiReset.prevMetrics t := by
  have hhalf : values.length / 2 = n := by omega
  have hlt : t < (decisionWords (viterbiCells (pairs values n))
      viterbiReset.prevMetrics).length := by simpa [pairs] using ht
  rw [(viterbiDecodeLoop_eq values 0 viterbiReset).2 t, hhalf]
  simp only [Nat.not_lt_zero, ite_false, Nat.sub_zero, wordAt, getElem?_eq_getElem hlt,
    Option.getD_some]

theorem bitsOf_viterbiDecode_eq (hlen : values.length = 2 * n) (out : List ℕ)
    (hfull : 8 * ((n - 1) / 8 + 1) = n + 4) :
    Bytes.bitsOf (viterbiDecode out values).1 =
      List.replicate 4 false ++ ((decisionBits
        (wordAt (viterbiCells (pairs values n)) viterbiReset.prevMetrics) n n 0).reverse ++
          Bytes.bitsOf (out.drop ((n - 1) / 8 + 1))) := by
  have hhalf : values.length / 2 = n := by omega
  have hzero : Bytes.bitsOf (List.replicate ((n - 1) / 8 + 1) 0 ++ out.drop ((n - 1) / 8 + 1)) =
      List.replicate (n + 4) false ++ Bytes.bitsOf (out.drop ((n - 1) / 8 + 1)) := by
    rw [← hfull, ← bitsOf_replicate_zero]
    exact flatMap_append
  simp only [viterbiDecode, viterbiChainback, (viterbiDecodeLoop_eq values 0 viterbiReset).1,
    hhalf, Nat.zero_add]
  rw [bitsOf_viterbiChainbackLoop _ n 0 4 _ 0 rfl hzero,
    decisionBits_congr (fun t ht => history_viterbiDecodeLoop hlen ht) le_rfl]

end Decode

theorem bitsOf_viterbiDecode {values out : List ℕ} {ws : List (List (ℕ × ℕ))} {u : ℕ → Bool}
    {ceiling nBits : ℕ} (hlen : values.length = 2 * (nBits + 4))
    (hvalues : ∀ k, values.getD k 0 ≤ 0xFFFF) (hsmall : 0x1FFFE * (nBits + 4) < 2 ^ 32)
    (hws : ws.length = nBits + 4) (hfull : nBits % 8 = 0)
    (hflush : ∀ t, nBits ≤ t → u t = false)
    (hpos : LinearCode.agreements ws < code.leastCharge ceiling (fun _ => true) ws)
    (hc : code.Prices ws (pricesAt 0xFFFF (pairs values (nBits + 4))) 0 u) :
    (Bytes.bitsOf (viterbiDecode out values).1).drop 8 =
      (List.range nBits).map u ++ Bytes.bitsOf (out.drop (nBits / 8 + 1)) := by
  obtain ⟨hpath, hinput⟩ := traceback_sent (by simp [pairs]) hws (pairs_le hvalues)
    (selects_viterbiCells hvalues hsmall)
    (show ∀ j, viterbiReset.prevMetrics.get j = 0 from fun j => List.Vector.get_replicate 0 j)
    hflush hpos hc
  have hbytes : (nBits + 4 - 1) / 8 + 1 = nBits / 8 + 1 := by omega
  rw [bitsOf_viterbiDecode_eq hlen out (by omega), ← reverse_decisionBits hpath hinput,
    ← drop_reverse_decisionBits, hbytes]
  have hlead : (decisionBits (wordAt (viterbiCells (pairs values (nBits + 4)))
      viterbiReset.prevMetrics) (nBits + 4) (nBits + 4) 0).reverse.length = nBits + 4 := by
    rw [length_reverse, decisionBits_eq _ _ _ _ le_rfl, length_map, length_range]
  rw [drop_append, drop_of_length_le (by rw [length_replicate]; omega),
    nil_append, length_replicate, drop_append_of_le_length (by omega)]

end DsdNeo.M17
