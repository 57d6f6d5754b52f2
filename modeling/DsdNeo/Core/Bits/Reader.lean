import Mathlib.Algebra.Order.Ring.Nat
import Mathlib.Data.List.Basic
import Mathlib.Data.List.Induction

/-!
# Reading fields from a bit string

Fields are read most significant bit first. A read that would run past the end fails
the reader for good: it gives zero and moves nothing, so an element can be read as a
whole and checked once.
-/

namespace DsdNeo.Bits

/-- A place in a bit string, and whether a read has run past its end. -/
structure Reader where
  bits : List Bool
  pos : Nat
  failed : Bool

/-- A reader over the first bits of a string, at a place in them. -/
def Reader.over (bits : List Bool) (nbits pos : Nat) : Reader :=
  ⟨bits.take nbits, pos, decide (pos > (bits.take nbits).length)⟩

/-- A number, most significant bit first. -/
def number (bits : List Bool) : Nat := bits.foldl (fun v b => 2 * v + b.toNat) 0

/-- Read a field of this width. -/
def read (width : Nat) : StateM Reader Nat := fun r =>
  if r.failed ∨ width > r.bits.length - r.pos then (0, { r with failed := true })
  else (number ((r.bits.drop r.pos).take width), { r with pos := r.pos + width })

/-- Read a field and forget it. -/
def skip (width : Nat) : StateM Reader Unit := do
  let _ ← read width

/-- Where `n` bits from a place on are. -/
def slice (bits : List Bool) (start stop : Nat) : List Bool := (bits.take stop).drop start

theorem number_append_singleton (bits : List Bool) (b : Bool) :
    number (bits ++ [b]) = 2 * number bits + b.toNat := by
  simp [number]

theorem number_lt (bits : List Bool) : number bits < 2 ^ bits.length := by
  induction bits using List.reverseRecOn with
  | nil => simp [number]
  | append_singleton bits b ih =>
    rw [number_append_singleton, List.length_append, List.length_singleton, Nat.pow_succ]
    have hb := Bool.toNat_lt b
    omega

/-- A field read is below its range. -/
theorem read_lt (width : Nat) (r : Reader) : (read width r).1 < 2 ^ width := by
  unfold read
  split
  · exact Nat.two_pow_pos width
  · refine Nat.lt_of_lt_of_le (number_lt _) (Nat.pow_le_pow_right (by decide) ?_)
    exact List.length_take_le _ _

end DsdNeo.Bits

/-!
# Reading a prefix of a tape

A reader over the first cells of a tape that keeps which cells it looked at. What a
program of reads gives depends on the cells up to where it stopped and on nothing after
them, so over growing prefixes it fails until it fits and then gives one value for good.
-/

namespace DsdNeo

/-- Cells in memory, how many may be read, the place reached, and the places looked at. -/
structure Tape where
  cells : ℕ → Bool
  nbits : ℕ
  pos : ℕ
  failed : Bool
  seen : List ℕ

namespace Tape

/-- A reader over the first `nbits` cells, at a place in them. -/
def ofCells (cells : ℕ → Bool) (nbits pos : ℕ) : Tape :=
  ⟨cells, nbits, pos, decide (nbits < pos), []⟩

/-- The number in `width` cells from a place on, most significant first. -/
def numberAt (cells : ℕ → Bool) (pos width : ℕ) : ℕ :=
  (List.range width).foldl (fun v i => 2 * v + (cells (pos + i)).toNat) 0

/-- Fail for good. -/
def fail : StateM Tape Unit := fun t => ((), { t with failed := true })

/-- Whether every read so far fitted. -/
def ok : StateM Tape Bool := fun t => (!t.failed, t)

/-- Move over cells without looking at them; whether they were there. -/
def skip (width : ℕ) : StateM Tape Bool := fun t =>
  if t.failed ∨ width > t.nbits - t.pos then (false, { t with failed := true })
  else (true, { t with pos := t.pos + width })

/-- Read a field of this width. -/
def read (width : ℕ) : StateM Tape ℕ := fun t =>
  if t.failed ∨ width > t.nbits - t.pos then (0, { t with failed := true })
  else (numberAt t.cells t.pos width,
    { t with pos := t.pos + width, seen := t.seen ++ (List.range width).map (t.pos + ·) })

/-- A reader that has not failed stands inside its prefix. -/
def Sound (t : Tape) : Prop := t.failed = false → t.pos ≤ t.nbits

/-- A second tape at the same place, with the same cells up to `stop`. -/
structure Agrees (t t' : Tape) (stop : ℕ) : Prop where
  live : t'.failed = false
  place : t'.pos = t.pos
  room : stop ≤ t'.nbits
  cells : ∀ i < stop, t'.cells i = t.cells i

theorem sound_ofCells (cells : ℕ → Bool) (nbits pos : ℕ) : (ofCells cells nbits pos).Sound := by
  intro h
  simpa [ofCells] using h

theorem Agrees.mono {t t' : Tape} {stop first : ℕ} (h : Agrees t t' stop) (le : first ≤ stop) :
    Agrees t t' first :=
  ⟨h.live, h.place, Nat.le_trans le h.room, fun i hi => h.cells i (by omega)⟩

variable {pos width : ℕ} {cells : ℕ → Bool}

theorem numberAt_congr {cells' : ℕ → Bool} {stop : ℕ} (fits : pos + width ≤ stop)
    (same : ∀ i < stop, cells' i = cells i) :
    numberAt cells' pos width = numberAt cells pos width := by
  unfold numberAt
  refine List.foldl_ext _ _ _ fun v i hi => ?_
  have hi' := List.mem_range.mp hi
  rw [same (pos + i) (by omega)]

theorem numberAt_ext {cells' : ℕ → Bool} {pos' : ℕ}
    (h : ∀ k < width, cells (pos + k) = cells' (pos' + k)) :
    numberAt cells pos width = numberAt cells' pos' width := by
  unfold numberAt
  refine List.foldl_ext _ _ _ fun v k hk => ?_
  rw [h k (List.mem_range.mp hk)]

theorem numberAt_succ (cells : ℕ → Bool) (pos width : ℕ) :
    numberAt cells pos (width + 1) = 2 * numberAt cells pos width +
      (cells (pos + width)).toNat := by
  simp [numberAt, List.range_succ]

theorem testBit_numberAt {j : ℕ} (h : j < width) :
    (numberAt cells pos width).testBit j = cells (pos + (width - 1 - j)) := by
  induction width generalizing j with
  | zero => omega
  | succ width ih =>
    rw [numberAt_succ]
    cases j with
    | zero => cases hcell : cells (pos + width) <;> simp [hcell, Nat.testBit_zero]
    | succ j =>
      have hhalf : (2 * numberAt cells pos width + (cells (pos + width)).toNat) / 2 =
          numberAt cells pos width := by
        have := Bool.toNat_lt (cells (pos + width))
        omega
      rw [Nat.testBit_succ, hhalf, ih (by omega)]
      congr 2
      omega

theorem numberAt_eq_zero : numberAt cells pos width = 0 ↔ ∀ k < width, cells (pos + k) = false := by
  induction width with
  | zero => simp [numberAt]
  | succ width ih =>
    rw [numberAt_succ, Nat.add_eq_zero_iff, Nat.mul_eq_zero, ih, Nat.forall_lt_succ_right]
    simp

theorem numberAt_lt (cells : ℕ → Bool) (pos width : ℕ) : numberAt cells pos width < 2 ^ width := by
  induction width with
  | zero => simp [numberAt]
  | succ width ih =>
    have := Bool.toNat_lt (cells (pos + width))
    rw [numberAt_succ, Nat.pow_succ]
    omega

theorem numberAt_eq {v : ℕ} (hv : v < 2 ^ width)
    (h : ∀ k < width, cells (pos + k) = v.testBit (width - 1 - k)) :
    numberAt cells pos width = v := by
  apply Nat.eq_of_testBit_eq
  intro j
  by_cases hj : j < width
  · rw [testBit_numberAt hj, h _ (by omega)]
    congr 1
    omega
  · have hpow : 2 ^ width ≤ 2 ^ j := Nat.pow_le_pow_right (by decide) (Nat.le_of_not_lt hj)
    rw [Nat.testBit_lt_two_pow (Nat.lt_of_lt_of_le (numberAt_lt _ _ _) hpow),
      Nat.testBit_lt_two_pow (Nat.lt_of_lt_of_le hv hpow)]

end Tape

open Tape

/-- A program of reads: what it gives hangs on the cells up to where it stops. -/
structure Prefixed {α : Type} (p : StateM Tape α) : Prop where
  sticky : ∀ t, t.failed = true → (p t).2.failed = true
  cells : ∀ t, (p t).2.cells = t.cells
  nbits : ∀ t, (p t).2.nbits = t.nbits
  inside : ∀ t, t.Sound → (p t).2.failed = false → t.pos ≤ (p t).2.pos ∧ (p t).2.pos ≤ t.nbits
  seen : ∀ t, t.Sound → ∀ i ∈ (p t).2.seen, i ∈ t.seen ∨ i < t.nbits
  same : ∀ t t', t.Sound → (p t).2.failed = false → Agrees t t' (p t).2.pos →
    (p t').1 = (p t).1 ∧ (p t').2.failed = false ∧ (p t').2.pos = (p t).2.pos

namespace Prefixed

variable {α β : Type}

variable {p : StateM Tape α}

/-- A program that goes through had not failed before. -/
theorem live (h : Prefixed p) {t : Tape} (hl : (p t).2.failed = false) : t.failed = false := by
  cases hf : t.failed with
  | false => rfl
  | true => rw [h.sticky t hf] at hl; cases hl

/-- The tape after a program is sound again. -/
theorem sound (h : Prefixed p) {t : Tape} (hs : t.Sound) : (p t).2.Sound := by
  intro hl
  rw [h.nbits]
  exact (h.inside t hs hl).2

protected theorem pure (a : α) : Prefixed (pure a : StateM Tape α) where
  sticky := fun _ h => h
  cells := fun _ => rfl
  nbits := fun _ => rfl
  inside := fun _ hs hl => ⟨Nat.le_refl _, hs hl⟩
  seen := fun _ _ _ hi => Or.inl hi
  same := fun _ _ _ _ ha => ⟨rfl, ha.live, ha.place⟩

protected theorem bind {f : α → StateM Tape β} (hp : Prefixed p) (hf : ∀ a, Prefixed (f a)) :
    Prefixed (p >>= f) where
  sticky := fun t h => (hf _).sticky _ (hp.sticky t h)
  cells := fun t => ((hf _).cells _).trans (hp.cells t)
  nbits := fun t => ((hf _).nbits _).trans (hp.nbits t)
  inside := fun t hs hl => by
    have first := hp.inside t hs ((hf _).live hl)
    have second := (hf _).inside _ (hp.sound hs) hl
    rw [hp.nbits] at second
    exact ⟨Nat.le_trans first.1 second.1, second.2⟩
  seen := fun t hs i hi => by
    cases (hf _).seen _ (hp.sound hs) i hi with
    | inl h => exact hp.seen t hs i h
    | inr h => rw [hp.nbits] at h; exact Or.inr h
  same := fun t t' hs hl ha => by
    have first := (hf _).live hl
    have later := (hf _).inside _ (hp.sound hs) hl
    obtain ⟨value, live', place⟩ := hp.same t t' hs first (ha.mono later.1)
    have agrees : Agrees (p t).2 (p t').2 ((p >>= f) t).2.pos := by
      refine ⟨live', place, ?_, fun i hi => ?_⟩
      · rw [hp.nbits]; exact ha.room
      · rw [hp.cells, hp.cells]; exact ha.cells i hi
    have second := (hf (p t).1).same (p t).2 (p t').2 (hp.sound hs) hl agrees
    show (f (p t').1 (p t').2).1 = _ ∧ (f (p t').1 (p t').2).2.failed = false ∧
      (f (p t').1 (p t').2).2.pos = _
    rw [value]
    exact second

/-- A condition on what was read chooses between two programs. -/
protected theorem ite {c : Prop} [Decidable c] {q : StateM Tape α} (hp : Prefixed p)
    (hq : Prefixed q) : Prefixed (if c then p else q) := by
  split
  · exact hp
  · exact hq

protected theorem map (hp : Prefixed p) (f : α → β) : Prefixed (f <$> p) :=
  hp.bind fun a => Prefixed.pure (f a)

theorem fail : Prefixed Tape.fail where
  sticky := fun _ _ => rfl
  cells := fun _ => rfl
  nbits := fun _ => rfl
  inside := fun _ _ hl => by cases hl
  seen := fun _ _ _ hi => Or.inl hi
  same := fun _ _ _ hl => by cases hl

theorem ok : Prefixed Tape.ok where
  sticky := fun _ h => h
  cells := fun _ => rfl
  nbits := fun _ => rfl
  inside := fun _ hs hl => ⟨Nat.le_refl _, hs hl⟩
  seen := fun _ _ _ hi => Or.inl hi
  same := fun t t' _ hl ha => by
    have hl' : t.failed = false := hl
    refine ⟨?_, ha.live, ha.place⟩
    show (!t'.failed) = !t.failed
    rw [ha.live, hl']

end Prefixed

/-- What a read that goes through found: the reader was live and the cells fitted. -/
theorem Tape.fits_of_live {t : Tape} {width : ℕ} {stuck moved : α × Tape}
    (dead : stuck.2.failed = true)
    (hl : (if t.failed ∨ width > t.nbits - t.pos then stuck else moved).2.failed = false) :
    ¬ (t.failed ∨ width > t.nbits - t.pos) := by
  intro h
  rw [if_pos h, dead] at hl
  cases hl

theorem Tape.Agrees.fits {t t' : Tape} {width : ℕ} (ha : Agrees t t' (t.pos + width)) :
    ¬ (t'.failed ∨ width > t'.nbits - t'.pos) := by
  have room := ha.room
  rw [ha.live, ha.place]
  rintro (h | h)
  · cases h
  · omega

namespace Prefixed

theorem skip (width : ℕ) : Prefixed (Tape.skip width) where
  sticky := fun t h => by simp [Tape.skip, h]
  cells := fun t => by unfold Tape.skip; split <;> rfl
  nbits := fun t => by unfold Tape.skip; split <;> rfl
  inside := fun t hs hl => by
    have fits := fits_of_live rfl hl
    have live : t.failed = false := by simpa using fun hf => fits (Or.inl hf)
    have := hs live
    rw [Tape.skip, if_neg fits]
    show t.pos ≤ t.pos + width ∧ t.pos + width ≤ t.nbits
    omega
  seen := fun t _ i hi => by
    refine Or.inl ?_
    unfold Tape.skip at hi
    split at hi <;> exact hi
  same := fun t t' _ hl ha => by
    have fits := fits_of_live rfl hl
    have stop : (Tape.skip width t).2.pos = t.pos + width := by rw [Tape.skip, if_neg fits]
    rw [stop] at ha
    rw [Tape.skip, Tape.skip, if_neg ha.fits, if_neg fits]
    exact ⟨rfl, ha.live, by show t'.pos + width = _; rw [ha.place]⟩

theorem read (width : ℕ) : Prefixed (Tape.read width) where
  sticky := fun t h => by simp [Tape.read, h]
  cells := fun t => by unfold Tape.read; split <;> rfl
  nbits := fun t => by unfold Tape.read; split <;> rfl
  inside := fun t hs hl => by
    have fits := fits_of_live rfl hl
    have live : t.failed = false := by simpa using fun hf => fits (Or.inl hf)
    have := hs live
    rw [Tape.read, if_neg fits]
    show t.pos ≤ t.pos + width ∧ t.pos + width ≤ t.nbits
    omega
  seen := fun t hs i hi => by
    unfold Tape.read at hi
    split at hi
    · exact Or.inl hi
    · rename_i fits
      rcases List.mem_append.mp hi with h | h
      · exact Or.inl h
      · obtain ⟨j, hj, rfl⟩ := List.mem_map.mp h
        have hj' := List.mem_range.mp hj
        have live : t.failed = false := by simpa using fun hf => fits (Or.inl hf)
        have := hs live
        have : ¬ width > t.nbits - t.pos := fun hw => fits (Or.inr hw)
        exact Or.inr (by omega)
  same := fun t t' _ hl ha => by
    have fits := fits_of_live rfl hl
    have stop : (Tape.read width t).2.pos = t.pos + width := by rw [Tape.read, if_neg fits]
    rw [stop] at ha
    rw [Tape.read, Tape.read, if_neg ha.fits, if_neg fits]
    refine ⟨?_, ha.live, by show t'.pos + width = _; rw [ha.place]⟩
    show numberAt t'.cells t'.pos width = numberAt t.cells t.pos width
    rw [ha.place]
    exact numberAt_congr (Nat.le_refl _) ha.cells

/-- Over growing prefixes a program fails until it fits, and from then on gives one value. -/
theorem threshold {p : StateM Tape α} (h : Prefixed p) (cells : ℕ → Bool) (pos : ℕ) :
    (∀ n, (p (ofCells cells n pos)).2.failed = true) ∨
      ∃ k a, (∀ n < k, (p (ofCells cells n pos)).2.failed = true) ∧
        ∀ n, k ≤ n → (p (ofCells cells n pos)).2.failed = false ∧
          (p (ofCells cells n pos)).1 = a := by
  by_cases hall : ∀ n, (p (ofCells cells n pos)).2.failed = true
  · exact Or.inl hall
  · obtain ⟨n, hn⟩ := not_forall.mp hall
    have hl : (p (ofCells cells n pos)).2.failed = false := by simpa using hn
    have within := h.inside _ (sound_ofCells cells n pos) hl
    refine Or.inr ⟨(p (ofCells cells n pos)).2.pos, (p (ofCells cells n pos)).1, ?_, ?_⟩
    · intro m hm
      cases hf : (p (ofCells cells m pos)).2.failed with
      | true => rfl
      | false =>
        -- a shorter prefix that fits would stop where this one does
        have short := h.inside _ (sound_ofCells cells m pos) hf
        have hlive : (ofCells cells n pos).failed = false := h.live hl
        have le : (p (ofCells cells n pos)).2.pos ≤ n := within.2
        have le' : (p (ofCells cells m pos)).2.pos ≤ m := short.2
        have agrees : Agrees (ofCells cells m pos) (ofCells cells n pos)
            (p (ofCells cells m pos)).2.pos :=
          ⟨hlive, rfl, by show _ ≤ n; omega, fun _ _ => rfl⟩
        have := (h.same _ _ (sound_ofCells cells m pos) hf agrees).2.2
        omega
    · intro m hm
      have ge : pos ≤ (p (ofCells cells n pos)).2.pos := within.1
      have agrees : Agrees (ofCells cells n pos) (ofCells cells m pos)
        (p (ofCells cells n pos)).2.pos :=
        ⟨by simp only [ofCells, decide_eq_false_iff_not]; omega, rfl, hm, fun _ _ => rfl⟩
      have same := h.same _ _ (sound_ofCells cells n pos) hl agrees
      exact ⟨same.2.1, same.1⟩

end Prefixed

end DsdNeo
