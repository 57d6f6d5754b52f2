import Mathlib.Data.List.Range
import Mathlib.Data.Nat.Init

/-!
# Cyclic checks

A register takes the bits of a word one by one. Words that bring it to the same state are equal
where they differ in a burst no longer than the register, and a word is sealed when the bits after
it are the state it left.
-/

namespace DsdNeo.Checksum

open BitVec

/-- A register of `n` bits, shifted past a polynomial with a constant term. -/
structure Cyclic (n : ℕ) where
  poly : BitVec n
  constant : poly.getLsbD 0 = true

namespace Cyclic

variable {n : ℕ} (c : Cyclic n) {r s : BitVec n} {b d : Bool} {v w : ℕ → Bool}

/-- A bit is added to the one that leaves, and the polynomial to the rest if that is set. -/
def feed (reg : BitVec n) (b : Bool) : BitVec n :=
  if reg.msb ^^ b then reg <<< 1 ^^^ c.poly else reg <<< 1

/-- The register after so many bits of a word. -/
def run (reg : BitVec n) (w : ℕ → Bool) (len : ℕ) : BitVec n :=
  (List.range len).foldl (fun reg i => c.feed reg (w i)) reg

@[simp] theorem run_zero : c.run r w 0 = r := rfl

theorem run_succ (len : ℕ) : c.run r w (len + 1) = c.feed (c.run r w len) (w len) := by
  simp [run, List.range_succ]

include c in
theorem pos : 0 < n := lt_of_getLsbD c.constant

theorem feed_zero : (c.feed r b).getLsbD 0 = (r.msb ^^ b) := by
  have hpos := c.pos
  rw [feed]
  cases r.msb ^^ b <;> simp [c.constant]

theorem feed_succ {i : ℕ} (h : i + 1 < n) :
    (c.feed r b).getLsbD (i + 1) = (r.getLsbD i ^^ ((r.msb ^^ b) && c.poly.getLsbD (i + 1))) := by
  have hshift : (r <<< 1).getLsbD (i + 1) = r.getLsbD i := by
    rw [getLsbD_shiftLeft, decide_eq_true h, decide_eq_false (by omega), Nat.add_sub_cancel]
    rfl
  rw [feed]
  cases r.msb ^^ b
  · rw [if_neg Bool.false_ne_true, hshift, Bool.false_and, Bool.xor_false]
  · rw [if_pos rfl, getLsbD_xor, hshift, Bool.true_and]

theorem getMsbD_feed (i : ℕ) : (c.feed r b).getMsbD i =
    (r.getMsbD (i + 1) ^^ ((r.msb ^^ b) && c.poly.getMsbD i)) := by
  rw [feed]
  cases r.msb ^^ b <;> simp [getMsbD_shiftLeft]

/-- States whose low bits agree after a step agreed in the bits these came from. -/
theorem before {m : ℕ} (hm : m < n)
    (h : ∀ i < m + 1, (c.feed r b).getLsbD i = (c.feed s d).getLsbD i) :
    ∀ i < m, r.getLsbD i = s.getLsbD i := by
  intro i hi
  have hout := h 0 (Nat.succ_pos m)
  have hbit := h (i + 1) (by omega)
  rw [c.feed_zero, c.feed_zero] at hout
  rw [c.feed_succ (by omega), c.feed_succ (by omega), hout] at hbit
  exact Bool.xor_right_inj.mp (by rwa [Bool.xor_comm, Bool.xor_comm (s.getLsbD i)] at hbit)

/-- Equal bits keep different states apart. -/
theorem feed_injective (h : c.feed r b = c.feed s b) : r = s := by
  have hmsb : r.msb = s.msb := by
    have hout := c.feed_zero (r := r) (b := b)
    rw [h, c.feed_zero] at hout
    exact (Bool.xor_left_inj.mp hout).symm
  have hpos := c.pos
  refine eq_of_getLsbD_eq fun i hi => ?_
  by_cases hlast : i = n - 1
  · rw [hlast, ← msb_eq_getLsbD_last, ← msb_eq_getLsbD_last, hmsb]
  · exact c.before (m := n - 1) (by omega) (fun k _ => by rw [h]) i (by omega)

/-- Words that end in one state and differ in no more bits in a row than it has are equal. -/
theorem eq_of_run_eq {total k : ℕ} (hrun : c.run r v total = c.run r w total)
    (hburst : ∀ i < total, i < k ∨ k + n ≤ i → v i = w i) : ∀ i < total, v i = w i := by
  -- Behind the burst the states have been the same ever since its last bit.
  have hbehind : ∀ e i, i + e = total → k + n ≤ i ∨ i = total →
      c.run r v i = c.run r w i := by
    intro e
    induction e with
    | zero =>
      rintro i rfl -
      exact hrun
    | succ e ih =>
      intro i hi hki
      have hnext := ih (i + 1) (by omega) (by omega)
      rw [run_succ, run_succ, hburst i (by omega) (.inr (by omega))] at hnext
      exact c.feed_injective hnext
  have hend := hbehind (total - min total (k + n)) (min total (k + n)) (by omega) (by omega)
  -- Before its last bit they still agree in their low bits, one fewer for each step back.
  have hlow : ∀ e i, i + e = min total (k + n) →
      ∀ t < n - e, (c.run r v i).getLsbD t = (c.run r w i).getLsbD t := by
    intro e
    induction e with
    | zero =>
      rintro i hi t -
      rw [show i = min total (k + n) from hi, hend]
    | succ e ih =>
      intro i hi t ht
      refine c.before (b := v i) (d := w i) (m := n - (e + 1)) (by omega) (fun j hj => ?_) t ht
      rw [← run_succ, ← run_succ]
      exact ih (i + 1) (by omega) j (by omega)
  have hall : ∀ i ≤ total, c.run r v i = c.run r w i ∧ ∀ j < i, v j = w j := by
    intro i
    induction i with
    | zero => exact fun _ => ⟨rfl, fun j hj => absurd hj (Nat.not_lt_zero j)⟩
    | succ i ih =>
      intro hi
      obtain ⟨hsame, hprefix⟩ := ih (by omega)
      have hbit : v i = w i := by
        by_cases hin : k ≤ i ∧ i < k + n
        · have hout := hlow (min total (k + n) - (i + 1)) (i + 1) (by omega) 0 (by omega)
          rw [run_succ, run_succ, c.feed_zero, c.feed_zero, hsame] at hout
          exact Bool.xor_right_inj.mp hout
        · exact hburst i (by omega) (by omega)
      refine ⟨by rw [run_succ, run_succ, hsame, hbit], fun j hj => ?_⟩
      rcases Nat.lt_succ_iff_lt_or_eq.mp hj with hlt | rfl
      · exact hprefix j hlt
      · exact hbit
  exact (hall total (Nat.le_refl _)).2

theorem run_congr {len : ℕ} (h : ∀ i < len, v i = w i) : c.run r v len = c.run r w len := by
  induction len with
  | zero => rfl
  | succ len ih => rw [run_succ, run_succ, ih fun i hi => h i (by omega), h len (by omega)]

theorem run_add (len m : ℕ) :
    c.run r w (len + m) = c.run (c.run r w len) (fun i => w (len + i)) m := by
  induction m with
  | zero => rfl
  | succ m ih => rw [← Nat.add_assoc, run_succ, run_succ, ih]

theorem feed_xor (u : BitVec n) : c.feed (r ^^^ u) (b ^^ u.msb) = c.feed r b ^^^ u <<< 1 := by
  have hout : ((r ^^^ u).msb ^^ (b ^^ u.msb)) = (r.msb ^^ b) := by
    rw [msb_xor]
    cases r.msb <;> cases u.msb <;> cases b <;> rfl
  rw [feed, feed, hout, shiftLeft_xor_distrib]
  split
  · ac_rfl
  · rfl

/-- What is added to a state is shifted out by the bits that undo it where it leaves. -/
theorem run_xor (u : BitVec n) (len : ℕ) :
    c.run (r ^^^ u) (fun i => w i ^^ u.getMsbD i) len = c.run r w len ^^^ u <<< len := by
  induction len with
  | zero => simp
  | succ len ih =>
    have hmsb : u.getMsbD len = (u <<< len).msb := by
      rw [msb_shiftLeft]
    rw [run_succ, run_succ, ih, hmsb, c.feed_xor, shiftLeft_add]

/-- Whether the bits after the first `len` are the state these left, but for a mask. -/
def Sealed (r mask : BitVec n) (w : ℕ → Bool) (len : ℕ) : Prop :=
  ∀ i < n, w (len + i) = (c.run r w len ^^^ mask).getMsbD i

/-- A sealed word brings the register to a state that only the mask decides. -/
theorem run_of_sealed {mask : BitVec n} {len : ℕ} (h : c.Sealed r mask w len) :
    c.run r w (len + n) = c.run 0#n mask.getMsbD n := by
  have hcheck : ∀ i < n, w (len + i) = (mask.getMsbD i ^^ (c.run r w len).getMsbD i) := by
    intro i hi
    rw [h i hi, getMsbD_xor, Bool.xor_comm]
  have hout := c.run_xor (r := 0#n) (w := mask.getMsbD) (c.run r w len) n
  rw [BitVec.zero_xor, shiftLeft_eq_zero (Nat.le_refl n), xor_zero] at hout
  rw [run_add, c.run_congr hcheck, hout]

end Cyclic

/-- No two words of this length that are accepted differ in one burst. -/
def TellsBursts (burst total : ℕ) (accepts : (ℕ → Bool) → Prop) : Prop :=
  ∀ k v w, accepts v → accepts w → (∀ i < total, i < k ∨ k + burst ≤ i → v i = w i) →
    ∀ i < total, v i = w i

/-- A check that accepts sealed words only tells the bursts that fit in its register. -/
theorem Cyclic.tellsBursts {n : ℕ} (c : Cyclic n) {r mask : BitVec n} {len : ℕ}
    {accepts : (ℕ → Bool) → Prop} (h : ∀ w, accepts w → c.Sealed r mask w len) :
    TellsBursts n (len + n) accepts := fun _ v w hv hw hburst =>
  c.eq_of_run_eq ((c.run_of_sealed (h v hv)).trans (c.run_of_sealed (h w hw)).symm) hburst

end DsdNeo.Checksum
