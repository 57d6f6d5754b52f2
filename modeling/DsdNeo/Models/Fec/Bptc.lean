import DsdNeo.Core.Bits.Reorder
import DsdNeo.Core.Register.Sticky
import DsdNeo.Models.Fec.Hamming

/-!
# Block product turbo codes

The extractions of `bptc.c` whose passes copy the output of a Hamming decoder back after every
line. The decoder leaves its output alone on a failure, so what is copied then is what the last
corrected line of the pass left there, or what the memory held before.
-/

namespace DsdNeo.Fec.Bptc

open Fec.Hamming Register

/-- Where a pass stands: the lines, the output of the decoder and the failures so far. -/
structure Pass (k : ℕ) where
  lines : ℕ → ℕ → UInt8
  corrected : Fin k → UInt8
  errors : ℕ

variable {n k r : ℕ}

/-- Decode a line and copy the output of the decoder over its information bits. -/
def lineStep (c : Code n k r) (s : Pass k) (i : ℕ) : Pass k :=
  let decoded := decode c (s.lines i) s.corrected
  { lines := Function.update s.lines i (inject decoded.decodedBits (s.lines i))
    corrected := decoded.decodedBits
    errors := if decoded.correctable then s.errors else s.errors + 1 }

/-- Decode the first `count` lines in order, over an output that holds `corrected`. -/
def decodeLines (c : Code n k r) (count : ℕ) (corrected : Fin k → UInt8)
    (lines : ℕ → ℕ → UInt8) : Pass k :=
  (List.range count).foldl (lineStep c) ⟨lines, corrected, 0⟩

/-- What a line leaves in the output of the decoder. -/
def leaves (c : Code n k r) (line : ℕ → UInt8) : Register.Effect (Fin k → UInt8) :=
  match correct c line with
  | some corrected => .receive (information k corrected)
  | none => .keep

/-- The output of the decoder after the first `count` lines. -/
def output (c : Code n k r) (lines : ℕ → ℕ → UInt8) (corrected : Fin k → UInt8) (count : ℕ) :
    Fin k → UInt8 :=
  (held (fun i => leaves c (lines i)) (List.range count)).getD corrected

theorem output_succ (c : Code n k r) (lines : ℕ → ℕ → UInt8) (corrected : Fin k → UInt8) (i : ℕ) :
    output c lines corrected (i + 1) =
      ((correct c (lines i)).map (information k)).getD (output c lines corrected i) := by
  rw [output, List.range_succ, held_append_singleton, leaves]
  cases correct c (lines i) <;> rfl

/-- A pass over more lines is one step further. -/
theorem decodeLines_succ (c : Code n k r) (count : ℕ) (corrected : Fin k → UInt8)
    (lines : ℕ → ℕ → UInt8) :
    decodeLines c (count + 1) corrected lines =
      lineStep c (decodeLines c count corrected lines) count := by
  rw [decodeLines, List.range_succ, List.foldl_append]
  rfl

variable {count i : ℕ}

theorem decodeLines_lines_of_le (c : Code n k r) (corrected : Fin k → UInt8) (lines : ℕ → ℕ → UInt8)
    (h : count ≤ i) : (decodeLines c count corrected lines).lines i = lines i := by
  induction count with
  | zero => rfl
  | succ count ih =>
    rw [decodeLines_succ]
    exact (Function.update_of_ne (by omega) _ _).trans (ih (by omega))

/-- The output after a pass depends only on the lines it has read. -/
theorem decodeLines_corrected (c : Code n k r) (count : ℕ) (corrected : Fin k → UInt8)
    (lines : ℕ → ℕ → UInt8) :
    (decodeLines c count corrected lines).corrected = output c lines corrected count := by
  induction count with
  | zero => rfl
  | succ count ih =>
    rw [decodeLines_succ, output_succ, ← ih]
    exact (decode_decodedBits ..).trans
      (by rw [decodeLines_lines_of_le c corrected lines le_rfl])

/-- A line that was passed carries the output as it stood after it. -/
theorem decodeLines_lines (c : Code n k r) (corrected : Fin k → UInt8) (lines : ℕ → ℕ → UInt8)
    (h : i < count) :
    (decodeLines c count corrected lines).lines i =
      inject (output c lines corrected (i + 1)) (lines i) := by
  induction count with
  | zero => omega
  | succ count ih =>
    rw [decodeLines_succ]
    rcases Nat.lt_succ_iff_lt_or_eq.mp h with hlt | rfl
    · exact (Function.update_of_ne (by omega) _ _).trans (ih hlt)
    · refine (Function.update_self ..).trans ?_
      rw [decode_decodedBits, decodeLines_corrected, decodeLines_lines_of_le c _ _ le_rfl,
        output_succ]

/-- The failures of a pass do not depend on what its output held. -/
theorem decodeLines_errors_eq (c : Code n k r) (count : ℕ) (corrected corrected' : Fin k → UInt8)
    (lines : ℕ → ℕ → UInt8) :
    (decodeLines c count corrected lines).errors =
      (decodeLines c count corrected' lines).errors := by
  induction count with
  | zero => rfl
  | succ count ih =>
    simp only [decodeLines_succ, lineStep, decode_correctable,
      decodeLines_lines_of_le c _ _ le_rfl, ih]

theorem decodeLines_errors (c : Code n k r) (count : ℕ) (corrected : Fin k → UInt8)
    (lines : ℕ → ℕ → UInt8) :
    (decodeLines c count corrected lines).errors = 0 ↔
      ∀ i, i < count → (correct c (lines i)).isSome := by
  induction count with
  | zero => simp [decodeLines]
  | succ count ih =>
    rw [decodeLines_succ, lineStep, decode_correctable, decodeLines_lines_of_le c _ _ le_rfl]
    simp only
    constructor
    · intro h i hi
      split_ifs at h with hsome
      · rcases Nat.lt_succ_iff_lt_or_eq.mp hi with hlt | rfl
        · exact ih.mp h i hlt
        · exact hsome
    · intro h
      rw [if_pos (h count (by omega))]
      exact ih.mpr fun i hi => h i (by omega)

variable {c : Code n k r}

theorem decodeLines_lines_of_some (corrected : Fin k → UInt8) {lines : ℕ → ℕ → UInt8}
    (h : i < count) {v : ℕ → UInt8} (hv : correct c (lines i) = some v) :
    (decodeLines c count corrected lines).lines i = inject (information k v) (lines i) := by
  rw [decodeLines_lines c corrected lines h, output_succ, hv]
  rfl

/-- The lines with each one that can be corrected written back, and the others alone. -/
def corrections (c : Code n k r) (count : ℕ) (lines : ℕ → ℕ → UInt8) : ℕ → ℕ → UInt8 :=
  fun i => if i < count then inject (information k ((correct c (lines i)).getD (lines i))) (lines i)
    else lines i

/-- Every line the decoder rejects has the information bits it had before. -/
def RejectedKept (c : Code n k r) (count : ℕ) (before after : ℕ → ℕ → UInt8) : Prop :=
  ∀ i, i < count → correct c (before i) = none → information k (after i) = information k (before i)

/-- Every rejected line comes after a corrected one, and the last one corrected before it
has the information bits of the rejected line. -/
def Repeats (c : Code n k r) (count : ℕ) (lines : ℕ → ℕ → UInt8) : Prop :=
  ∀ i, i < count → correct c (lines i) = none → ∃ i' v, i' < i ∧ correct c (lines i') = some v ∧
    (∀ j, i' < j → j < i → correct c (lines j) = none) ∧
    information k v = information k (lines i)

theorem information_inject (decodedBits : Fin k → UInt8) (line : ℕ → UInt8) :
    information k (inject decodedBits line) = decodedBits := by
  ext1 j
  exact inject_of_lt decodedBits line j.isLt

theorem leaves_eq_receive {line : ℕ → UInt8} {d : Fin k → UInt8} :
    leaves c line = .receive d ↔ ∃ v, correct c line = some v ∧ information k v = d := by
  rw [leaves]
  cases correct c line <;> simp

theorem leaves_eq_keep {line : ℕ → UInt8} : leaves c line = .keep ↔ correct c line = none := by
  rw [leaves]
  cases correct c line <;> simp

theorem forall_output_eq_iff (hk : 0 < k) (c : Code n k r) (lines : ℕ → ℕ → UInt8) (i : ℕ)
    (d : Fin k → UInt8) :
    (∀ corrected, output c lines corrected i = d) ↔
      ∃ i' v, i' < i ∧ correct c (lines i') = some v ∧
        (∀ j, i' < j → j < i → correct c (lines j) = none) ∧ information k v = d := by
  have hheld : (∀ corrected, output c lines corrected i = d) ↔
      held (fun i => leaves c (lines i)) (List.range i) = some d := by
    constructor
    · intro h
      cases hheld : held (fun i => leaves c (lines i)) (List.range i) with
      | some d' =>
        have hd := h d
        rw [output, hheld] at hd
        exact congrArg some hd
      | none =>
        -- the memory held other bits
        have hd := h fun j => d j + 1
        rw [output, hheld] at hd
        exact absurd (congrFun hd ⟨0, hk⟩) (by simp)
    · intro h corrected
      rw [output, h]
      rfl
  rw [hheld, held_eq_some_iff, since_range]
  constructor
  · rintro ⟨i', hi', hreceive, hkeep⟩
    obtain ⟨v, hv, hd⟩ := leaves_eq_receive.mp hreceive
    exact ⟨i', v, hi', hv, fun j hj hji => leaves_eq_keep.mp (hkeep j hj hji), hd⟩
  · rintro ⟨i', v, hi', hv, hnone, hd⟩
    exact ⟨i', hi', leaves_eq_receive.mpr ⟨v, hv, hd⟩,
      fun j hj hji => leaves_eq_keep.mpr (hnone j hj hji)⟩

theorem rejectedKept_iff (hk : 0 < k) (c : Code n k r) (count : ℕ) (lines : ℕ → ℕ → UInt8) :
    (∀ corrected, RejectedKept c count lines (decodeLines c count corrected lines).lines) ↔
      Repeats c count lines := by
  have hline : ∀ corrected i, i < count → correct c (lines i) = none →
      information k ((decodeLines c count corrected lines).lines i) =
        output c lines corrected i := by
    intro corrected i hi hnone
    rw [decodeLines_lines c corrected lines hi, information_inject, output_succ, hnone]
    rfl
  constructor
  · intro h i hi hnone
    refine (forall_output_eq_iff hk c lines i _).mp fun corrected => ?_
    rw [← hline corrected i hi hnone]
    exact h corrected i hi hnone
  · intro h corrected i hi hnone
    rw [hline corrected i hi hnone]
    exact (forall_output_eq_iff hk c lines i _).mpr (h i hi hnone) corrected

theorem decodeLines_eq_corrections {corrected : Fin k → UInt8} {lines : ℕ → ℕ → UInt8}
    (h : RejectedKept c count lines (decodeLines c count corrected lines).lines) :
    (decodeLines c count corrected lines).lines = corrections c count lines := by
  ext1 i
  by_cases hi : i < count
  · rw [corrections, if_pos hi]
    cases hc : correct c (lines i) with
    | some v => exact decodeLines_lines_of_some corrected hi hc
    | none =>
      have hkept := h i hi hc
      rw [decodeLines_lines c corrected lines hi, information_inject] at hkept
      rw [decodeLines_lines c corrected lines hi, hkept]
      rfl
  · rw [corrections, if_neg hi, decodeLines_lines_of_le c corrected lines (by omega)]

end DsdNeo.Fec.Bptc
