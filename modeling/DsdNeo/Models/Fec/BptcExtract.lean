import DsdNeo.Models.Fec.Bptc
import Mathlib.Data.UInt

/-!
# BPTC extraction

`BPTC_196x96_Extract_Data` and `BPTC_16x2_Extract_Data`. The larger code takes a pass
over nine rows and one over fifteen columns, twice. Rows are always corrected; a column
that is not keeps its nine data bits only when it repeats the column corrected before
it, and the single line of the smaller code never does.
-/

namespace DsdNeo.Fec.Bptc

open Fec.Hamming

/-- `bptc_196x96_fill_matrix`. -/
def fillMatrix (input : ℕ → UInt8) : ℕ → ℕ → UInt8 := fun i j => input (1 + 15 * i + j) &&& 1

/-- `bptc_196x96_decode_rows`, over a `line_corrected` that holds what the memory held. -/
def decodeRows (lineCorrected : Fin 11 → UInt8) (matrix : ℕ → ℕ → UInt8) : Pass 11 :=
  decodeLines hamming1511 9 lineCorrected matrix

/-- A matrix read by its columns. -/
def columns (matrix : ℕ → ℕ → UInt8) : ℕ → ℕ → UInt8 := fun i j => matrix j i

/-- `bptc_196x96_decode_cols`, over a `col_corrected` that holds what the memory held. -/
def decodeCols (colCorrected : Fin 9 → UInt8) (matrix : ℕ → ℕ → UInt8) : Pass 9 :=
  let pass := decodeLines hamming139 15 colCorrected (columns matrix)
  { pass with lines := columns pass.lines }

/-- The payload of `bptc_196x96_extract_payload_and_r`. -/
def extractPayload (matrix : ℕ → ℕ → UInt8) : List UInt8 :=
  (List.range' 3 8).map (matrix 0) ++
    (List.range' 1 8).flatMap fun i => (List.range 11).map (matrix i)

/-- The reserved bits of `bptc_196x96_extract_payload_and_r`. -/
def extractR (matrix : ℕ → ℕ → UInt8) : List UInt8 := [matrix 0 2, matrix 0 1, matrix 0 0]

/-- What the memory holds where the four passes put their outputs. -/
structure Unwritten where
  rows : Fin 11 → UInt8
  cols : Fin 9 → UInt8
  rowsAgain : Fin 11 → UInt8
  colsAgain : Fin 9 → UInt8

section Stages

variable (u : Unwritten) (input : ℕ → UInt8)

/-- The matrix after the first pass over the rows. -/
def afterRows : ℕ → ℕ → UInt8 := (decodeRows u.rows (fillMatrix input)).lines

/-- The matrix after the first pass over the columns. -/
def afterCols : ℕ → ℕ → UInt8 := (decodeCols u.cols (afterRows u input)).lines

/-- The matrix after the second pass over the rows. -/
def afterRowsAgain : ℕ → ℕ → UInt8 := (decodeRows u.rowsAgain (afterCols u input)).lines

/-- The matrix after the second pass over the columns. -/
def afterColsAgain : ℕ → ℕ → UInt8 := (decodeCols u.colsAgain (afterRowsAgain u input)).lines

end Stages

/-- What an extraction returns. -/
structure Extracted where
  irrecoverable : ℕ
  extracted : List UInt8
  rBits : List UInt8

/-- `BPTC_196x96_Extract_Data`. -/
def extractData196x96 (u : Unwritten) (input : ℕ → UInt8) : Extracted where
  irrecoverable := (decodeRows u.rowsAgain (afterCols u input)).errors +
    (decodeCols u.colsAgain (afterRowsAgain u input)).errors
  extracted := extractPayload (afterColsAgain u input)
  rBits := extractR (afterColsAgain u input)

/-- The rows with each one corrected. -/
def rowsCorrected (matrix : ℕ → ℕ → UInt8) : ℕ → ℕ → UInt8 := corrections hamming1511 9 matrix

/-- The columns with each one corrected that can be, and the others as they are. -/
def colsCorrected (matrix : ℕ → ℕ → UInt8) : ℕ → ℕ → UInt8 :=
  columns (corrections hamming139 15 (columns matrix))

/-- A pass over the rows corrects each of them. -/
theorem lines_decodeRows (lineCorrected : Fin 11 → UInt8) (matrix : ℕ → ℕ → UInt8) :
    (decodeRows lineCorrected matrix).lines = rowsCorrected matrix := by
  refine decodeLines_eq_corrections fun i _ hnone => ?_
  have hsome := isSome_correct_hamming1511 (matrix i)
  rw [hnone] at hsome
  cases hsome

theorem errors_decodeRows (lineCorrected : Fin 11 → UInt8) (matrix : ℕ → ℕ → UInt8) :
    (decodeRows lineCorrected matrix).errors = 0 :=
  (decodeLines_errors ..).mpr fun _ _ => isSome_correct_hamming1511 _

theorem errors_decodeCols (colCorrected : Fin 9 → UInt8) (matrix : ℕ → ℕ → UInt8) :
    (decodeCols colCorrected matrix).errors =
      (decodeLines hamming139 15 colCorrected (columns matrix)).errors := by
  simp only [decodeCols]

theorem errors_decodeCols_eq (colCorrected colCorrected' : Fin 9 → UInt8)
    (matrix : ℕ → ℕ → UInt8) :
    (decodeCols colCorrected matrix).errors = (decodeCols colCorrected' matrix).errors := by
  rw [errors_decodeCols, errors_decodeCols]
  exact decodeLines_errors_eq hamming139 15 colCorrected colCorrected' (columns matrix)

/-- Every column that `Hamming_13_9_decode` rejects has the nine data bits it had before. -/
def ColumnsKept (before after : ℕ → ℕ → UInt8) : Prop :=
  RejectedKept hamming139 15 (columns before) (columns after)

/-- Every rejected column comes after a corrected one, and the last one corrected before it
has the nine data bits of the rejected column. -/
def ColumnsRepeat (matrix : ℕ → ℕ → UInt8) : Prop := Repeats hamming139 15 (columns matrix)

theorem columnsKept_iff (matrix : ℕ → ℕ → UInt8) :
    (∀ colCorrected, ColumnsKept matrix (decodeCols colCorrected matrix).lines) ↔
      ColumnsRepeat matrix :=
  rejectedKept_iff (by decide) hamming139 15 (columns matrix)

theorem lines_decodeCols_of_kept {colCorrected : Fin 9 → UInt8} {matrix : ℕ → ℕ → UInt8}
    (h : ColumnsKept matrix (decodeCols colCorrected matrix).lines) :
    (decodeCols colCorrected matrix).lines = colsCorrected matrix :=
  congrArg columns (decodeLines_eq_corrections h)

/-- Whatever the memory holds, both passes over the columns keep the rejected ones, and
what is extracted depends on the input alone. -/
def KeptAsReceived196x96 (input : ℕ → UInt8) : Prop :=
  (∀ u, ColumnsKept (afterRows u input) (afterCols u input) ∧
    ColumnsKept (afterRowsAgain u input) (afterColsAgain u input)) ∧
  ∀ u u', extractData196x96 u input = extractData196x96 u' input

/-- The rows of what was received are corrected. -/
def firstColumns (input : ℕ → UInt8) : ℕ → ℕ → UInt8 := rowsCorrected (fillMatrix input)

/-- The rows are corrected once more after the columns that can be. -/
def secondColumns (input : ℕ → UInt8) : ℕ → ℕ → UInt8 :=
  rowsCorrected (colsCorrected (firstColumns input))

theorem afterRows_eq (u : Unwritten) (input : ℕ → UInt8) : afterRows u input = firstColumns input :=
  lines_decodeRows ..

theorem afterRowsAgain_eq {u : Unwritten} {input : ℕ → UInt8}
    (h : ColumnsKept (afterRows u input) (afterCols u input)) :
    afterRowsAgain u input = secondColumns input := by
  rw [afterRowsAgain, lines_decodeRows, afterCols, lines_decodeCols_of_kept h, afterRows_eq]
  rfl

theorem keptAsReceived196x96_iff (input : ℕ → UInt8) :
    KeptAsReceived196x96 input ↔
      ColumnsRepeat (firstColumns input) ∧ ColumnsRepeat (secondColumns input) := by
  have hfirst : (∀ u, ColumnsKept (afterRows u input) (afterCols u input)) ↔
      ColumnsRepeat (firstColumns input) := by
    rw [← columnsKept_iff]
    constructor
    · intro h colCorrected
      have hkept := h ⟨0, colCorrected, 0, 0⟩
      rwa [afterCols, afterRows_eq] at hkept
    · intro h u
      rw [afterCols, afterRows_eq]
      exact h u.cols
  have hsecond (h : ∀ u, ColumnsKept (afterRows u input) (afterCols u input)) :
      (∀ u, ColumnsKept (afterRowsAgain u input) (afterColsAgain u input)) ↔
        ColumnsRepeat (secondColumns input) := by
    rw [← columnsKept_iff]
    constructor
    · intro hagain colCorrected
      have hkept := hagain ⟨0, 0, 0, colCorrected⟩
      rwa [afterColsAgain, afterRowsAgain_eq (h _)] at hkept
    · intro hagain u
      rw [afterColsAgain, afterRowsAgain_eq (h u)]
      exact hagain u.colsAgain
  constructor
  · rintro ⟨hkept, -⟩
    have h := fun u => (hkept u).1
    exact ⟨hfirst.mp h, (hsecond h).mp fun u => (hkept u).2⟩
  · rintro ⟨hone, htwo⟩
    have h := hfirst.mpr hone
    have hagain := (hsecond h).mpr htwo
    have hlast : ∀ u, extractData196x96 u input =
        ⟨(decodeCols 0 (secondColumns input)).errors,
          extractPayload (colsCorrected (secondColumns input)),
          extractR (colsCorrected (secondColumns input))⟩ := by
      intro u
      have hlines : afterColsAgain u input = colsCorrected (afterRowsAgain u input) :=
        lines_decodeCols_of_kept (hagain u)
      rw [extractData196x96, errors_decodeRows, zero_add, hlines, afterRowsAgain_eq (h u),
        errors_decodeCols_eq u.colsAgain 0]
    exact ⟨fun u => ⟨h u, hagain u⟩, fun u u' => (hlast u).trans (hlast u').symm⟩

/-- `DeInterleaveReverseChannelBptc`. -/
def deInterleaveReverseChannelBptc : List ℕ :=
  [0, 17, 2, 19, 4, 21, 6, 23, 8, 25, 10, 27, 12, 29, 14, 31,
    16, 1, 18, 3, 20, 5, 22, 7, 24, 9, 26, 11, 28, 13, 30, 15]

/-- `DeInterleaveReverseChannelBptcPlacement`. -/
def deInterleaveReverseChannelBptcPlacement : List ℕ :=
  [0, 16, 1, 17, 2, 18, 3, 19, 4, 20, 5, 21, 6, 22, 7, 23, 8, 24, 9, 25, 10, 26,
    11, 27, 12, 28, 13, 29, 14, 30, 15, 31]

/-- Where bit `i` of the input goes. -/
def place (i : ℕ) : ℕ :=
  deInterleaveReverseChannelBptcPlacement.getD (deInterleaveReverseChannelBptc.getD i 0) 0

/-- The matrix of the line and its parity bits, stored over what the memory held. -/
def dataMatrix (unwritten : Vector UInt8 32) (input : ℕ → UInt8) : ℕ → UInt8 :=
  fun p => (Reorder.scatter ((List.range 32).map fun i => (place i, input i &&& 1))
    unwritten.toList).getD p 0

/-- What is returned, with the 32 bits that are written. -/
structure Line where
  errors : ℕ
  extracted : ℕ → UInt8

/-- How many of the sixteen parity bits are not as they should be. -/
def parityErrors (parityCheckTypeOdd : Bool) (extracted : ℕ → UInt8) : ℕ :=
  if parityCheckTypeOdd then
    (List.range 16).countP fun i => extracted i &&& 1 = extracted (i + 16) &&& 1
  else (List.range 16).countP fun i => extracted i &&& 1 ≠ extracted (i + 16) &&& 1

/-- `BPTC_16x2_Extract_Data`, over a matrix and a `LineCorrected` that hold what the memory held. -/
def extractData16x2 (unwritten : Vector UInt8 32) (lineCorrected : Fin 11 → UInt8)
    (input : ℕ → UInt8) (parityCheckTypeOdd : Bool) : Line :=
  let matrix := dataMatrix unwritten input
  let decoded := hamming16114Decode (fun i => matrix i &&& 1) lineCorrected
  let extracted := inject (fun j => decoded.decodedBits j &&& 1) fun i => matrix i &&& 1
  let hammingErrors := if decoded.correctable then 0 else 1
  ⟨hammingErrors + parityErrors parityCheckTypeOdd extracted, extracted⟩

/-- The bits of the input in the order they are placed in. -/
def deinterleaved (input : ℕ → UInt8) : ℕ → UInt8 :=
  fun p => input (((List.range 32).map place).idxOf p) &&& 1

/-- The places are the thirty-two bits in another order. -/
theorem dataMatrix_eq (unwritten : Vector UInt8 32) (input : ℕ → UInt8) {p : ℕ} (hp : p < 32) :
    dataMatrix unwritten input p = deinterleaved input p := by
  have hplace : ∀ p < 32, ((List.range 32).map place).idxOf p < 32 ∧
      place (((List.range 32).map place).idxOf p) = p := by decide
  have hdistinct : ((List.range 32).map place).Nodup := by decide
  obtain ⟨hlt, hfrom⟩ := hplace p hp
  have hstores : (((List.range 32).map fun i => (place i, input i &&& 1)).map Prod.fst).Nodup := by
    rw [List.map_map]
    exact hdistinct
  have hmem : (p, deinterleaved input p) ∈ (List.range 32).map fun i => (place i, input i &&& 1) :=
    List.mem_map.mpr ⟨_, List.mem_range.mpr hlt, Prod.ext hfrom rfl⟩
  have hroom : p < unwritten.toList.length := by simpa using hp
  rw [dataMatrix, List.getD_eq_getElem?_getD, Reorder.getElem?_scatter hstores hmem hroom]
  rfl

theorem deinterleaved_and_one (input : ℕ → UInt8) (p : ℕ) :
    deinterleaved input p &&& 1 = deinterleaved input p := by
  rw [deinterleaved, UInt8.and_assoc, UInt8.and_self]

/-- What the output holds in place of the information bits. -/
theorem extractData16x2_information (unwritten : Vector UInt8 32) (lineCorrected : Fin 11 → UInt8)
    (input : ℕ → UInt8) (parityCheckTypeOdd : Bool) (j : Fin 11) :
    (extractData16x2 unwritten lineCorrected input parityCheckTypeOdd).extracted j =
      ((correct hamming16114 (deinterleaved input)).map (information 11)).getD lineCorrected j
        &&& 1 := by
  have hline : ∀ i, i < 16 → dataMatrix unwritten input i &&& 1 = deinterleaved input i := by
    intro i hi
    rw [dataMatrix_eq unwritten input (by omega), deinterleaved_and_one]
  simp only [extractData16x2, hamming16114Decode]
  rw [inject_of_lt _ _ j.isLt, decode_decodedBits, correct_congr hamming16114 hline]

theorem extractData16x2_parity (unwritten : Vector UInt8 32) (lineCorrected : Fin 11 → UInt8)
    (input : ℕ → UInt8) (parityCheckTypeOdd : Bool) {j : ℕ} (hj : 11 ≤ j) (hlast : j < 32) :
    (extractData16x2 unwritten lineCorrected input parityCheckTypeOdd).extracted j =
      deinterleaved input j := by
  simp only [extractData16x2]
  rw [inject_of_le _ _ hj, dataMatrix_eq unwritten input hlast, deinterleaved_and_one]

/-- The line is rejected or not by its received bits alone. -/
theorem extractData16x2_correctable (unwritten : Vector UInt8 32) (lineCorrected : Fin 11 → UInt8)
    (input : ℕ → UInt8) :
    (hamming16114Decode (fun i => dataMatrix unwritten input i &&& 1) lineCorrected).correctable =
      (correct hamming16114 (deinterleaved input)).isSome := by
  have hline : ∀ i, i < 16 → dataMatrix unwritten input i &&& 1 = deinterleaved input i := by
    intro i hi
    rw [dataMatrix_eq unwritten input (by omega), deinterleaved_and_one]
  have hcorrect := congrArg Option.isSome (correct_congr hamming16114 hline)
  rw [Option.isSome_map, Option.isSome_map] at hcorrect
  rw [hamming16114Decode, decode_correctable, hcorrect]

theorem extractData16x2_errors (unwritten : Vector UInt8 32) (lineCorrected : Fin 11 → UInt8)
    (input : ℕ → UInt8) (parityCheckTypeOdd : Bool) :
    (extractData16x2 unwritten lineCorrected input parityCheckTypeOdd).errors =
      (if (correct hamming16114 (deinterleaved input)).isSome then 0 else 1) +
        parityErrors parityCheckTypeOdd
          (extractData16x2 unwritten lineCorrected input parityCheckTypeOdd).extracted := by
  simp only [extractData16x2, extractData16x2_correctable]

theorem parityErrors_congr (parityCheckTypeOdd : Bool) {extracted extracted' : ℕ → UInt8}
    (h : ∀ j, j < 32 → extracted j = extracted' j) :
    parityErrors parityCheckTypeOdd extracted = parityErrors parityCheckTypeOdd extracted' := by
  have hpair : ∀ i ∈ List.range 16, extracted i = extracted' i ∧
      extracted (i + 16) = extracted' (i + 16) := by
    intro i hi
    have hi := List.mem_range.mp hi
    exact ⟨h i (by omega), h (i + 16) (by omega)⟩
  rw [parityErrors, parityErrors]
  split_ifs
  · exact List.countP_congr fun i hi => by rw [(hpair i hi).1, (hpair i hi).2]
  · exact List.countP_congr fun i hi => by rw [(hpair i hi).1, (hpair i hi).2]

/-- Whatever the memory holds, a line that `Hamming_16_11_4_decode` rejects leaves the
de-interleaved bits in the output, and what is extracted depends on the input alone. -/
def KeptAsReceived16x2 (input : ℕ → UInt8) (parityCheckTypeOdd : Bool) : Prop :=
  (correct hamming16114 (deinterleaved input) = none → ∀ unwritten lineCorrected, ∀ j, j < 11 →
    (extractData16x2 unwritten lineCorrected input parityCheckTypeOdd).extracted j =
      deinterleaved input j) ∧
  ∀ unwritten lineCorrected unwritten' lineCorrected',
    let line := extractData16x2 unwritten lineCorrected input parityCheckTypeOdd
    let line' := extractData16x2 unwritten' lineCorrected' input parityCheckTypeOdd
    line.errors = line'.errors ∧ ∀ j, j < 32 → line.extracted j = line'.extracted j

theorem keptAsReceived16x2_iff (input : ℕ → UInt8) (parityCheckTypeOdd : Bool) :
    KeptAsReceived16x2 input parityCheckTypeOdd ↔
      (correct hamming16114 (deinterleaved input)).isSome := by
  constructor
  · rintro ⟨hkept, -⟩
    by_contra hnone
    rw [Option.not_isSome_iff_eq_none] at hnone
    have hbit : ∀ b : UInt8, b &&& 1 = deinterleaved input 0 := by
      intro b
      have hout := extractData16x2_information (Vector.replicate 32 0) (fun _ => b) input
        parityCheckTypeOdd 0
      rw [hnone] at hout
      exact hout.symm.trans (hkept hnone _ _ 0 (by decide))
    exact absurd ((hbit 0).trans (hbit 1).symm) (by decide)
  · intro hsome
    obtain ⟨v, hv⟩ := Option.isSome_iff_exists.mp hsome
    constructor
    · intro hnone
      rw [hv] at hnone
      cases hnone
    · intro unwritten lineCorrected unwritten' lineCorrected'
      have hsame : ∀ j, j < 32 →
          (extractData16x2 unwritten lineCorrected input parityCheckTypeOdd).extracted j =
            (extractData16x2 unwritten' lineCorrected' input parityCheckTypeOdd).extracted j := by
        intro j hj
        by_cases hinfo : j < 11
        · have hout := fun u l =>
            extractData16x2_information u l input parityCheckTypeOdd ⟨j, hinfo⟩
          rw [hv] at hout
          exact (hout unwritten lineCorrected).trans (hout unwritten' lineCorrected').symm
        · rw [extractData16x2_parity _ _ _ _ (by omega) hj,
            extractData16x2_parity _ _ _ _ (by omega) hj]
      refine ⟨?_, hsame⟩
      rw [extractData16x2_errors, extractData16x2_errors, parityErrors_congr _ hsame]

/-- A rejected line is kept as received, over every input of either extraction, exactly when
the rejected columns of both passes repeat the column corrected before them, and when the
single line is not rejected at all. -/
theorem uncorrectable_lines_kept_iff (input line : ℕ → UInt8) (parityCheckTypeOdd : Bool) :
    (KeptAsReceived196x96 input ↔
      ColumnsRepeat (firstColumns input) ∧ ColumnsRepeat (secondColumns input)) ∧
    (KeptAsReceived16x2 line parityCheckTypeOdd ↔
      (hamming16114Decode (deinterleaved line) 0).correctable = true) := by
  refine ⟨keptAsReceived196x96_iff input, ?_⟩
  rw [keptAsReceived16x2_iff, hamming16114Decode, decode_correctable]

/-- Two bits of rows 0 and 1 make the first two columns, and two parity bits are all there
is of the third. -/
def overwritten : ℕ → UInt8 := fun i => if i ∈ [1, 2, 13, 16, 17, 28, 181, 138, 183] then 1 else 0

/-- The third column is rejected and is given the data bits of the second. -/
theorem overwritten_not_kept : ¬ KeptAsReceived196x96 overwritten := by
  rw [keptAsReceived196x96_iff]
  rintro ⟨hrepeat, -⟩
  have hrejected : (correct hamming139 (columns (firstColumns overwritten) 2)).isSome = false := by
    decide
  have hbefore :
      (correct hamming139 (columns (firstColumns overwritten) 1)).map (· 0) = some 1 := by
    decide
  obtain ⟨i, v, hi, hv, hnone, hdata⟩ := hrepeat 2 (by decide)
    (Option.isSome_eq_false_iff.mp hrejected |> Option.isNone_iff_eq_none.mp)
  obtain rfl : i = 1 := by
    by_contra hne
    rw [hnone 1 (by omega) (by omega)] at hbefore
    cases hbefore
  have hzero : v 0 = columns (firstColumns overwritten) 2 0 := congrFun hdata 0
  rw [hv, Option.map_some, Option.some.injEq, hzero] at hbefore
  exact absurd hbefore (by decide)

end DsdNeo.Fec.Bptc
