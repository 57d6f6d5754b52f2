import DsdNeo.Core.Bits.Bytes
import DsdNeo.Models.Fec.HalfRate

/-!
# The shared convolutional decoder

`nxdn_convolution.c`: a 16-state add-compare-select decoder whose metrics,
decision memory and pointers are file-static and shared by every protocol that
calls it. A call is a function of the whole storage, so what one frame leaves
behind is visible to the next. The two pointers always name the two metric
buffers, so one of them is enough. The decision memory has room for 2400 steps;
every caller stays far below that, and it is a plain map from step to word here.

Metrics are `uint16_t`: sums are reduced where the source stores them.
-/

namespace DsdNeo.CNXDNConvolution

open Trellis HalfRate List

/-- The metric buffer a pointer names. -/
inductive Buffer where
  | metrics1
  | metrics2
  deriving DecidableEq, Repr

/-- The buffer the other pointer names. -/
def Buffer.swap : Buffer → Buffer
  | .metrics1 => .metrics2
  | .metrics2 => .metrics1

/-- The file-static storage of the decoder. -/
structure Storage where
  metrics1 : Metrics 16
  metrics2 : Metrics 16
  /-- Decision word of each step, bit `j` for state `j`. -/
  decisions : ℕ → ℕ
  /-- The buffer named by `m_oldMetrics`; `m_newMetrics` names the other one. -/
  oldMetrics : Buffer
  /-- Offset of `m_dp` into the decision memory. -/
  dp : ℕ

open Storage

/-- Contents of a metric buffer. -/
def Storage.read (d : Storage) : Buffer → Metrics 16
  | .metrics1 => d.metrics1
  | .metrics2 => d.metrics2

/-- Replace the contents of a metric buffer. -/
def Storage.write (d : Storage) (m : Metrics 16) : Buffer → Storage
  | .metrics1 => { d with metrics1 := m }
  | .metrics2 => { d with metrics2 := m }

/-- The metrics the next step starts from. -/
def Storage.old (d : Storage) : Metrics 16 := d.read d.oldMetrics

/-- `BRANCH_TABLE1`, the first coded bit of a zero input, doubled. -/
def branchTable1 : List ℕ := [0, 0, 0, 0, 2, 2, 2, 2]

/-- `BRANCH_TABLE2`, the second coded bit of a zero input, doubled. -/
def branchTable2 : List ℕ := [0, 2, 2, 0, 0, 2, 2, 0]

/-- `CNXDNConvolution_M`, the branch metric of a word opposite to the received one. -/
def m : ℕ := 4

/-- C `abs` of the difference of two `uint8_t`. -/
def absDiff (a b : ℕ) : ℕ := ((a : ℤ) - (b : ℤ)).natAbs

/-- Metric and decision of state `j` after one step of `CNXDNConvolution_decode`:
both sums are stored in a `uint16_t` before they are compared, and the
complement `M - metric` is taken in `uint32_t`. -/
def decodeCell (s0 s1 : ℕ) : Cells 16 := fun old j =>
  let i := j.val / 2
  let metric := absDiff (branchTable1.getD i 0) s0 + absDiff (branchTable2.getD i 0) s1
  let complement := (m + 2 ^ 32 - metric) % 2 ^ 32
  let m0 := (old.get (low j) + if j.val % 2 = 0 then metric else complement) % 2 ^ 16
  let m1 := (old.get (high j) + if j.val % 2 = 0 then complement else metric) % 2 ^ 16
  (if m0 ≥ m1 then m1 else m0, decide (m0 ≥ m1))

/-- `full_metric` of the soft decoder: `M * 256 / scale`. -/
def fullMetric : ℕ := m * 256 / 128

/-- Metric and decision of state `j` after one step of `CNXDNConvolution_decode_soft`:
the branch is weighted by the reliabilities and clamped, and the sums are
compared in `uint32_t` before the chosen one is stored. -/
def decodeSoftCell (s0 s1 r0 r1 : ℕ) : Cells 16 := fun old j =>
  let i := j.val / 2
  let diff0 := absDiff (branchTable1.getD i 0) s0
  let diff1 := absDiff (branchTable2.getD i 0) s1
  let metric := min ((diff0 * r0 + diff1 * r1) / 128) fullMetric
  let m0 := old.get (low j) + if j.val % 2 = 0 then metric else fullMetric - metric
  let m1 := old.get (high j) + if j.val % 2 = 0 then fullMetric - metric else metric
  ((if m0 ≥ m1 then m1 else m0) % 2 ^ 16, decide (m0 ≥ m1))

/-- The common end of both steps: store the decision word and the new metrics,
advance the decision pointer and exchange the metric pointers. -/
def Storage.advance (d : Storage) (cell : Cells 16) : Storage :=
  { d.write (cell.metrics d.old) d.oldMetrics.swap with
    decisions := Function.update d.decisions d.dp (cell.word d.old)
    dp := d.dp + 1
    oldMetrics := d.oldMetrics.swap }

/-- `CNXDNConvolution_decode`. -/
def decode (s0 s1 : ℕ) (d : Storage) : Storage := d.advance (decodeCell s0 s1)

/-- `CNXDNConvolution_decode_soft`. -/
def decodeSoft (s0 s1 r0 r1 : ℕ) (d : Storage) : Storage :=
  d.advance (decodeSoftCell s0 s1 r0 r1)

/-- `CNXDNConvolution_start`: the pointers only. -/
def start (d : Storage) : Storage := { d with oldMetrics := .metrics1, dp := 0 }

/-- `CNXDNConvolution_init`: the buffers only. -/
def init (d : Storage) : Storage :=
  { d with
    metrics1 := List.Vector.replicate 16 0
    metrics2 := List.Vector.replicate 16 0
    decisions := fun _ => 0 }

/-- The loop of `CNXDNConvolution_chainback` with `nBits` rounds left: the
decision of the state in the top bits of the register is written out and shifted in. -/
def chainbackLoop : ℕ → ℕ → Storage → List ℕ → List ℕ × Storage
  | 0, _, d, out => (out, d)
  | nBits + 1, state, d, out =>
    let dp := d.dp - 1
    let bit := (d.decisions dp).testBit (state >>> 4)
    chainbackLoop nBits ((bit.toNat <<< 7) ||| (state >>> 1)) { d with dp := dp }
      (Bytes.writeBit out nBits bit)

/-- `CNXDNConvolution_chainback` into the bytes `out`. -/
def chainback (out : List ℕ) (nBits : ℕ) (d : Storage) : List ℕ × Storage :=
  chainbackLoop nBits 0 d out

/-- One call of the two step functions. -/
inductive Step where
  | hard (s0 s1 : ℕ)
  | soft (s0 s1 r0 r1 : ℕ)
  deriving DecidableEq, Repr

/-- Metrics and decisions of either step. -/
def Step.cell : Step → Cells 16
  | .hard s0 s1 => decodeCell s0 s1
  | .soft s0 s1 r0 r1 => decodeSoftCell s0 s1 r0 r1

/-- Run one step call. -/
def Step.run : Step → Storage → Storage
  | .hard s0 s1 => decode s0 s1
  | .soft s0 s1 r0 r1 => decodeSoft s0 s1 r0 r1

theorem Step.run_eq (st : Step) (d : Storage) : st.run d = d.advance st.cell := by
  cases st <;> rfl

/-- Run step calls in order. -/
def runSteps (steps : List Step) (d : Storage) : Storage := steps.foldl (fun d st => st.run d) d

/-- One frame as the callers decode it: the pointers are reset, every step is
run, and `nBits` bits are read back into `out`. -/
def decodeFrame (steps : List Step) (out : List ℕ) (nBits : ℕ) (d : Storage) : List ℕ × Storage :=
  chainback out nBits (runSteps steps (start d))

@[simp] theorem Storage.advance_dp (d : Storage) (cell : Cells 16) :
    (d.advance cell).dp = d.dp + 1 := rfl

@[simp] theorem Storage.advance_decisions (d : Storage) (cell : Cells 16) :
    (d.advance cell).decisions =
      Function.update d.decisions d.dp (cell.word d.old) := rfl

/-- The new metrics are the ones the next step reads. -/
@[simp] theorem Storage.advance_old (d : Storage) (cell : Cells 16) :
    (d.advance cell).old = cell.metrics d.old := by
  cases h : d.oldMetrics <;> simp [advance, old, read, write, h,
    Buffer.swap]

@[simp] theorem start_old (d : Storage) : (start d).old = d.metrics1 := rfl

@[simp] theorem start_dp (d : Storage) : (start d).dp = 0 := rfl

theorem runSteps_dp (steps : List Step) (d : Storage) :
    (runSteps steps d).dp = d.dp + steps.length := by
  induction steps generalizing d with
  | nil => rfl
  | cons st steps ih =>
    rw [runSteps, foldl_cons, ← runSteps, ih, st.run_eq, advance_dp, length_cons]
    omega

theorem runSteps_decisions (steps : List Step) (d : Storage) (k : ℕ) :
    (runSteps steps d).decisions k =
      if k < d.dp then d.decisions k
      else ((decisionWords (steps.map Step.cell) d.old)[k - d.dp]?).getD (d.decisions k) := by
  induction steps generalizing d with
  | nil => simp [runSteps, decisionWords]
  | cons st steps ih =>
    rw [runSteps, foldl_cons, ← runSteps, ih, st.run_eq, advance_dp,
      advance_decisions, advance_old, map_cons, decisionWords]
    by_cases hlt : k < d.dp
    · have hne : k ≠ d.dp := by omega
      have hlt' : k < d.dp + 1 := by omega
      simp [hlt, hlt', Function.update_of_ne hne]
    · by_cases heq : k = d.dp
      · subst heq
        simp
      · obtain ⟨e, he⟩ : ∃ e, k = d.dp + 1 + e := ⟨k - d.dp - 1, by omega⟩
        have h1 : ¬ k < d.dp + 1 := by omega
        have h2 : k - (d.dp + 1) = e := by omega
        have h3 : k - d.dp = e + 1 := by omega
        simp [hlt, h1, h2, h3, Function.update_of_ne heq]

theorem bitsOf_chainbackLoop (nBits state : ℕ) (d : Storage) (out : List ℕ) (j : Fin 16)
    (h : state >>> 4 = j.val) (hout : nBits ≤ 8 * out.length) :
    Bytes.bitsOf (chainbackLoop nBits state d out).1 =
      (decisionBits d.decisions nBits d.dp j).reverse ++ (Bytes.bitsOf out).drop nBits := by
  induction nBits generalizing state d out j with
  | zero => simp [chainbackLoop, decisionBits]
  | succ nBits ih =>
    rw [chainbackLoop]
    simp only [h]
    rw [ih _ _ _ (predecessorOf (d.decisions (d.dp - 1)) j)
      (register_shift _ _ _ h _ rfl) (by simp; omega), Bytes.bitsOf_writeBit]
    have hlt : nBits < (Bytes.bitsOf out).length := by simp; omega
    rw [decisionBits, reverse_cons, append_assoc]
    congr 1
    rw [drop_set]
    have hsub : nBits - nBits = 0 := by omega
    simp only [lt_self_iff_false, ite_false, hsub]
    rw [drop_eq_getElem_cons hlt, set_cons_zero]
    rfl

/-!
# What one decode leaves for the next

A frame reads the decision words it wrote itself and the sixteen metrics that
`CNXDNConvolution_start` selects without clearing them. Its output is therefore
a function of the frame and of the contents of `m_metrics1`, and of nothing else
in the shared storage. The first buffer is cleared by `CNXDNConvolution_init`
alone, so that an earlier frame reaches the output of a later one through it.
-/

/-- A frame as a caller decodes it, with the size of its output in bytes. No
caller reads back more bits than it ran steps. -/
structure Frame where
  steps : List Step
  bytes : ℕ
  nBits : ℕ
  nBits_le : nBits ≤ steps.length

/-- Output bytes of a frame and the storage it leaves. -/
def Frame.decode (f : Frame) (d : Storage) : List ℕ × Storage :=
  decodeFrame f.steps (List.replicate f.bytes 0) f.nBits d

/-- What a process can do with the decoder. -/
inductive Event where
  | init
  | frame (f : Frame)

/-- Storage after one event. -/
def Event.run : Event → Storage → Storage
  | .init, d => CNXDNConvolution.init d
  | .frame f, d => (f.decode d).2

/-- Zero-initialised statics. -/
def Storage.zero : Storage :=
  { metrics1 := List.Vector.replicate 16 0
    metrics2 := List.Vector.replicate 16 0
    decisions := fun _ => 0
    oldMetrics := .metrics1
    dp := 0 }

/-- Storage of a process after the events so far. -/
def history (events : List Event) : Storage := events.foldl (fun d e => e.run d) Storage.zero

/-- Chainback reads only the decision words below its pointer. -/
theorem chainbackLoop_congr {nBits state : ℕ} {d e : Storage} {out : List ℕ}
    (hdp : d.dp = e.dp) (h : ∀ k, k < d.dp → d.decisions k = e.decisions k)
    (hn : nBits ≤ d.dp) :
    (chainbackLoop nBits state d out).1 = (chainbackLoop nBits state e out).1 := by
  induction nBits generalizing state d e out with
  | zero => rfl
  | succ nBits ih =>
    have hword : d.decisions (d.dp - 1) = e.decisions (e.dp - 1) := by
      rw [← hdp]
      exact h _ (by omega)
    simp only [chainbackLoop, hword]
    refine ih ?_ ?_ ?_
    · show d.dp - 1 = e.dp - 1
      rw [hdp]
    · intro k hk
      exact h k (by have : k < d.dp - 1 := hk; omega)
    · show nBits ≤ d.dp - 1
      omega

theorem Frame.decode_congr (f : Frame) {d e : Storage} (h : d.metrics1 = e.metrics1) :
    (f.decode d).1 = (f.decode e).1 := by
  have hdp : ∀ x : Storage, (runSteps f.steps (start x)).dp = f.steps.length := by
    intro x
    rw [runSteps_dp, start_dp, Nat.zero_add]
  apply chainbackLoop_congr
  · rw [hdp d, hdp e]
  · intro k hk
    rw [hdp d] at hk
    have hlt : k < (decisionWords (f.steps.map Step.cell) e.metrics1).length := by simpa using hk
    simp only [runSteps_decisions, start_dp, start_old, Nat.not_lt_zero, ite_false, Nat.sub_zero,
      h, getElem?_eq_getElem hlt, Option.getD_some]
  · rw [hdp d]
    exact f.nBits_le

/-- For any two histories that leave the same path metrics in `m_metrics1`, every
frame decodes to the same output. -/
theorem decode_history_independent (before before' : List Event) (f : Frame)
    (h : (history before).metrics1 = (history before').metrics1) :
    (f.decode (history before)).1 = (f.decode (history before')).1 :=
  f.decode_congr h

/-- Clearing the buffers restores the metrics of a fresh process. -/
theorem history_init_metrics1 (before : List Event) :
    (history (before ++ [.init])).metrics1 = (history []).metrics1 := by
  rw [history, foldl_append]
  rfl

/-- The positions `nxdn_depuncture_12_5_rel` fills for each ten bits; the rest are punctured. -/
def depunctureMap : List (Option ℕ) :=
  [some 0, some 1, some 2, some 3, some 4, none, some 5, some 6, some 7, some 8, some 9, none]

/-- `nxdn_depuncture_12_5_rel`: 60 bits with their reliabilities to 72, a punctured
position being a zero of no reliability. -/
def depuncture125 (deperm : List (ℕ × ℕ)) : List (ℕ × ℕ) :=
  [0, 10, 20, 30, 40, 50].flatMap fun p =>
    depunctureMap.map fun i => match i with
      | none => (0, 0)
      | some i => deperm.getD (p + i) (0, 0)

/-- The soft steps of `nxdn_conv_decode_soft`, two positions at a time. -/
def softSteps : List (ℕ × ℕ) → List Step
  | (b0, r0) :: (b1, r1) :: rest => .soft (b0 <<< 1) (b1 <<< 1) r0 r1 :: softSteps rest
  | _ => []

theorem length_softSteps (l : List (ℕ × ℕ)) : (softSteps l).length = l.length / 2 := by
  fun_induction softSteps l with
  | case1 b0 r0 b1 r1 rest ih => simp [ih]; omega
  | case2 l h =>
    rcases l with _ | ⟨x, _ | ⟨y, rest⟩⟩
    · rfl
    · simp
    · exact absurd rfl (h x.1 x.2 y.1 y.2 rest)

/-- The frame `nxdn_deperm_sacch_soft` decodes for 60 depermuted bits. -/
def sacchFrame (deperm : List (ℕ × ℕ)) : Frame where
  steps := softSteps (depuncture125 deperm)
  bytes := 5
  nBits := 32
  nBits_le := by
    rw [length_softSteps]
    simp [depuncture125, depunctureMap]

/-- After a clear, a slow associated channel frame decodes as in a fresh process,
whatever was decoded before. -/
theorem decode_history_independent_cleared :
    ((sacchFrame (List.replicate 60 (1, 255))).decode (history
        ([.frame (sacchFrame (List.replicate 60 (0, 255)))] ++ [.init]))).1 =
      ((sacchFrame (List.replicate 60 (1, 255))).decode (history [])).1 :=
  decode_history_independent _ [] _ (history_init_metrics1 _)

/-- One all-zero slow associated channel frame, fully reliable, changes what the
next one decodes to. -/
theorem sacch_depends_on_history :
    ((sacchFrame (List.replicate 60 (1, 255))).decode
        (history [.frame (sacchFrame (List.replicate 60 (0, 255)))])).1 ≠
      ((sacchFrame (List.replicate 60 (1, 255))).decode (history [])).1 := by
  decide +kernel

/-!
# Hard decisions from cleared metrics

With received values within `0 .. 2` a step of `CNXDNConvolution_decode` adds,
compares and selects over the lanes of the code, as long as no metric reaches
`2 ^ 16`. A frame that starts from cleared metrics and whose received values
separate the word sent therefore reads that word back.
-/

private theorem hard_metric (s0 s1 : Fin 3) (j : Fin 16) :
    absDiff (branchTable1.getD (j.val / 2) 0) s0.val +
        absDiff (branchTable2.getD (j.val / 2) 0) s1.val = butterfly 2 s0.val s1.val j := by
  revert s0 s1 j
  decide

/-- A hard step within range selects the smaller sum. -/
theorem selects_hard {s0 s1 bound : ℕ} (h0 : s0 ≤ 2) (h1 : s1 ≤ 2) (hb : bound + 4 < 2 ^ 16) :
    Selects low high (code.branch inputOf (lanePrices 2 [s0, s1])) bound (decodeCell s0 s1) := by
  intro old hold j
  have hmetric := hard_metric ⟨s0, by omega⟩ ⟨s1, by omega⟩ j
  obtain ⟨hlow, hhigh, hle⟩ := branch_eq h0 h1 j
  have hcomplement : (m + 2 ^ 32 - butterfly 2 s0 s1 j) % 2 ^ 32 = 2 * 2 - butterfly 2 s0 s1 j := by
    unfold m
    omega
  have hl := hold (low j)
  have hh := hold (high j)
  have hblow := branch_le h0 h1 (low j) j
  have hbhigh := branch_le h0 h1 (high j) j
  simp only [decodeCell]
  dsimp only at hmetric
  rw [hmetric, hcomplement, ← hlow, ← hhigh, Nat.mod_eq_of_lt (by omega),
    Nat.mod_eq_of_lt (by omega)]

/-- Hard steps for the received pairs. -/
def hardSteps (s : List (ℕ × ℕ)) : List Step := s.map fun p => .hard p.1 p.2

@[simp] theorem length_hardSteps (s : List (ℕ × ℕ)) : (hardSteps s).length = s.length := by
  simp [hardSteps]

theorem bitsOf_decodeFrame_hard {s : List (ℕ × ℕ)} {ws : List (List (ℕ × ℕ))} {u : ℕ → Bool}
    {ceiling nBits : ℕ} {out : List ℕ} {d : Storage}
    (hs : ∀ p ∈ s, p.1 ≤ 2 ∧ p.2 ≤ 2) (hn : 4 * s.length < 2 ^ 16)
    (hd : ∀ j, d.metrics1.get j = 0) (hlen : ws.length = s.length)
    (hbits : nBits + 4 = s.length) (hout : nBits ≤ 8 * out.length)
    (hflush : ∀ t, nBits ≤ t → u t = false)
    (hpos : LinearCode.agreements ws < code.leastCharge ceiling (fun _ => true) ws)
    (hc : code.Prices ws (pricesAt 2 s) 0 u) :
    Bytes.bitsOf (decodeFrame (hardSteps s) out nBits d).1 =
      (List.range nBits).map u ++ (Bytes.bitsOf out).drop nBits := by
  let cells := (hardSteps s).map Step.cell
  have hcells : cells.length = nBits + 4 := by simp [cells]; omega
  have hs' : ∀ t, t < s.length → (s.getD t (0, 0)).1 ≤ 2 ∧ (s.getD t (0, 0)).2 ≤ 2 := by
    intro t ht
    rw [getD_eq_getElem?_getD, getElem?_eq_getElem ht]
    exact hs _ (getElem_mem ht)
  have hsel : ∀ t (h : t < cells.length),
      Selects low high (code.branch inputOf (pricesAt 2 s t)) (2 * 2 * t) cells[t] := by
    intro t ht
    obtain ⟨h0, h1⟩ := hs' t (by omega)
    have hcell : cells[t] = decodeCell (s.getD t (0, 0)).1 (s.getD t (0, 0)).2 := by
      rw [getD_eq_getElem?_getD, getElem?_eq_getElem (by omega)]
      simp [cells, hardSteps, Step.cell]
    rw [hcell]
    exact selects_hard h0 h1 (by omega)
  obtain ⟨hpath, hinput⟩ := traceback_sent hcells (by omega) (fun t ht => hs' t (by omega)) hsel
    hd hflush hpos hc
  have hdp : (runSteps (hardSteps s) (start d)).dp = nBits + 4 := by
    rw [runSteps_dp, start_dp, length_hardSteps]
    omega
  rw [decodeFrame, chainback, bitsOf_chainbackLoop nBits 0 _ out 0 rfl hout, hdp,
    @decisionBits_congr _ (wordAt cells d.metrics1) _ _ _ ?_ (by omega),
    reverse_decisionBits hpath hinput]
  intro t ht
  have hlt : t < (decisionWords cells d.metrics1).length := by simp; omega
  simp only [runSteps_decisions, start_dp, start_old, Nat.not_lt_zero, ite_false, Nat.sub_zero,
    wordAt, cells, getElem?_eq_getElem hlt, Option.getD_some]

end DsdNeo.CNXDNConvolution
