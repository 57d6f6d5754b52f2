import Mathlib.Data.List.Nodup
import Mathlib.Data.List.Perm.Subperm

/-!
# Taking turns

A list in the order of its next turns. Whoever has a turn goes to the end; members come
and go anywhere, as long as those that stay keep their order. Between two turns of a
member that stays, every other member that stays has exactly one.
-/

namespace DsdNeo.Queue

open List

variable {α : Type}

section Pair

variable [DecidableEq α]

/-- What is left of an order when only two of its members are looked at. -/
def pair (x y : α) (order : List α) : List α := order.filter fun z => z = x ∨ z = y

theorem pair_comm (x y : α) (order : List α) : pair x y order = pair y x order := by
  simp only [pair, or_comm]

theorem pair_append (x y : α) (l m : List α) : pair x y (l ++ m) = pair x y l ++ pair x y m := by
  simp [pair]

@[simp]
theorem pair_cons_left (x y : α) (l : List α) : pair x y (x :: l) = x :: pair x y l := by
  simp [pair]

@[simp]
theorem pair_cons_right (x y : α) (l : List α) : pair x y (y :: l) = y :: pair x y l := by
  simp [pair]

theorem pair_cons_other {x y z : α} (hx : z ≠ x) (hy : z ≠ y) (l : List α) :
    pair x y (z :: l) = pair x y l := by
  simp [pair, hx, hy]

@[simp]
theorem pair_nil (x y : α) : pair x y [] = [] := rfl

/-- Two members of an order stand in it one way or the other. -/
theorem pair_of_mem {x y : α} {order : List α} (hnodup : order.Nodup) (hne : x ≠ y)
    (hx : x ∈ order) (hy : y ∈ order) : pair x y order = [x, y] ∨ pair x y order = [y, x] := by
  induction order with
  | nil => simp at hx
  | cons z rest ih =>
    obtain ⟨hz, hrest⟩ := nodup_cons.mp hnodup
    by_cases hzx : z = x
    · subst hzx
      left
      have hy' : y ∈ rest := (mem_cons.mp hy).resolve_left hne.symm
      have honly : pair z y rest = [y] := by
        have hfilter : pair z y rest = rest.filter (· = y) := by
          apply filter_congr
          intro w hw
          have hwz : w ≠ z := fun h => hz (h ▸ hw)
          simp [hwz]
        rw [hfilter, filter_eq, count_eq_one_of_mem hrest hy']
        rfl
      rw [pair_cons_left, honly]
    · by_cases hzy : z = y
      · subst hzy
        right
        have hx' : x ∈ rest := (mem_cons.mp hx).resolve_left hne
        have honly : pair x z rest = [x] := by
          have hfilter : pair x z rest = rest.filter (· = x) := by
            apply filter_congr
            intro w hw
            have hwz : w ≠ z := fun h => hz (h ▸ hw)
            simp [hwz]
          rw [hfilter, filter_eq, count_eq_one_of_mem hrest hx']
          rfl
        rw [pair_cons_right, honly]
      · rw [pair_cons_other hzx hzy]
        exact ih hrest ((mem_cons.mp hx).resolve_left fun h => hzx h.symm)
          ((mem_cons.mp hy).resolve_left fun h => hzy h.symm)

end Pair

/-- One moment of a rotation: who had a turn, if any, and the order after it. -/
structure Moment (α : Type) where
  examined : Option α
  order : List α

/-- The order a log ends in. -/
def ends : List α → List (Moment α) → List α
  | order, [] => order
  | _, m :: log => ends m.order log

@[simp]
theorem ends_append (order : List α) (log log' : List (Moment α)) :
    ends order (log ++ log') = ends (ends order log) log' := by
  induction log generalizing order with
  | nil => rfl
  | cons m log ih => exact ih m.order

/-- What one moment may do to the order before it. -/
inductive Turns [DecidableEq α] : List α → Moment α → Prop
  | examine (x : α) (rest : List α) : Turns (x :: rest) ⟨some x, rest ++ [x]⟩
  | change (order order' : List α)
      (hkept : order'.filter (· ∈ order) = order.filter (· ∈ order')) : Turns order ⟨none, order'⟩

variable [DecidableEq α]

/-- An order left as it is. -/
theorem Turns.still (order : List α) : Turns order ⟨none, order⟩ := .change order order rfl

/-- Everyone gone. -/
theorem Turns.cleared (order : List α) : Turns order ⟨none, []⟩ := .change order [] (by simp)

variable {order : List α}

theorem Turns.of_kept {order' kept : List α} (hnodup : order.Nodup) (hnodup' : order'.Nodup)
    (hs : kept.Sublist order) (hs' : kept.Sublist order')
    (hboth : ∀ z ∈ order, z ∈ order' → z ∈ kept) : Turns order ⟨none, order'⟩ := by
  have hpick : ∀ l l' : List α, l.Nodup → kept.Sublist l → kept.Sublist l' →
      (∀ z ∈ l, z ∈ l' → z ∈ kept) → l.filter (· ∈ l') = kept := by
    intro l l' hl hsub hsub' hin
    have hself : kept.filter (· ∈ l') = kept := by
      apply filter_eq_self.mpr
      intro z hz
      simpa using hsub'.subset hz
    have hkept : kept.Sublist (l.filter (· ∈ l')) := hself ▸ hsub.filter _
    have hback : l.filter (· ∈ l') ⊆ kept := by
      intro z hz
      simp only [mem_filter, decide_eq_true_eq] at hz
      exact hin z hz.1 hz.2
    have hle := (subperm_of_subset (hl.filter _) hback).length_le
    exact (hkept.eq_of_length_le hle).symm
  apply Turns.change
  rw [hpick order' order hnodup' hs' hs fun z hz hz' => hboth z hz' hz,
    hpick order order' hnodup hs hs' hboth]

/-- A log of moments, each from the order the one before it left. -/
def Rotates : List α → List (Moment α) → Prop
  | _, [] => True
  | order, m :: log => Turns order m ∧ m.order.Nodup ∧ Rotates m.order log

/-- A log rotates where its two parts do. -/
theorem rotates_append {log log' : List (Moment α)} :
    Rotates order (log ++ log') ↔ Rotates order log ∧ Rotates (ends order log) log' := by
  induction log generalizing order with
  | nil => simp [Rotates, ends]
  | cons m log ih => simp [Rotates, ends, ih, and_assoc]

variable {m : Moment α} {x y : α}

/-- A turn of neither of two members leaves them as they stand, if they stay. -/
theorem Turns.pair_kept (h : Turns order m) (hx : x ∈ order) (hy : y ∈ order) (hx' : x ∈ m.order)
    (hy' : y ∈ m.order) (hex : m.examined ≠ some x) (hey : m.examined ≠ some y) :
    pair x y m.order = pair x y order := by
  cases h with
  | examine z rest =>
    have hzx : z ≠ x := fun hz => hex (congrArg some hz)
    have hzy : z ≠ y := fun hz => hey (congrArg some hz)
    simp [pair_append, pair_cons_other hzx hzy]
  | change _ order' hkept =>
    have hpair : ∀ l l' : List α, x ∈ l' → y ∈ l' → pair x y (l.filter (· ∈ l')) = pair x y l := by
      intro l l' hxl hyl
      rw [pair, filter_filter]
      apply filter_congr
      intro z _
      by_cases hz : z = x ∨ z = y
      · rcases hz with rfl | rfl <;> simp [hxl, hyl]
      · simp [hz]
    rw [← hpair order' order hx hy, hkept, hpair order order' hx' hy']

/-- A turn brings nobody in and leaves nobody out. -/
theorem Turns.mem_iff (h : Turns order m) (hex : m.examined = some x) :
    y ∈ m.order ↔ y ∈ order := by
  cases h with
  | examine z rest => simp [or_comm]
  | change => simp at hex

/-- Who has a turn stood before the other member, and stands behind it then. -/
theorem Turns.pair_turned (h : Turns order m) (hnodup : m.order.Nodup) (hne : x ≠ y)
    (hy : y ∈ order) (hex : m.examined = some x) :
    pair x y order = [x, y] ∧ pair x y m.order = [y, x] := by
  cases h with
  | change => simp at hex
  | examine z rest =>
    have hz : z = x := by simpa using hex
    subst hz
    have hrest : y ∈ rest := (mem_cons.mp hy).resolve_left hne.symm
    have hcases := pair_of_mem hnodup hne (by simp) (by simp [hrest])
    have hsplit : pair z y (rest ++ [z]) = pair z y rest ++ [z] := by simp [pair_append]
    rw [hsplit] at hcases ⊢
    have honly : pair z y rest = [y] := by
      rcases hcases with h | h
      · have hlast := congrArg List.getLast? h
        simp [hne] at hlast
      · have hlast : pair z y rest ++ [z] = [y] ++ [z] := h
        exact append_cancel_right hlast
    rw [pair_cons_left, honly]
    exact ⟨rfl, rfl⟩

/-- How often a member had a turn. -/
def turns (y : α) (log : List (Moment α)) : ℕ := (log.filter fun m => m.examined = some y).length

theorem Rotates.turns_between {log : List (Moment α)} (h : Rotates order log) (hne : x ≠ y)
    (hx : x ∈ order) (hy : y ∈ order) (hstays : ∀ m ∈ log, x ∈ m.order ∧ y ∈ m.order)
    (hnone : ∀ m ∈ log, m.examined ≠ some x) :
    (pair x y order = [x, y] → turns y log = 0 ∧ pair x y (ends order log) = [x, y]) ∧
    (pair x y order = [y, x] →
      turns y log = 0 ∧ pair x y (ends order log) = [y, x] ∨
      turns y log = 1 ∧ pair x y (ends order log) = [x, y]) := by
  induction log generalizing order with
  | nil => exact ⟨fun hp => ⟨rfl, hp⟩, fun hp => Or.inl ⟨rfl, hp⟩⟩
  | cons m log ih =>
    obtain ⟨hturn, hnodup, hrest⟩ := h
    obtain ⟨hx', hy'⟩ := hstays m (by simp)
    have hex := hnone m (by simp)
    obtain ⟨ihxy, ihyx⟩ := ih hrest hx' hy' (fun m' h' => hstays m' (by simp [h']))
      fun m' h' => hnone m' (by simp [h'])
    by_cases hey : m.examined = some y
    · obtain ⟨hbefore, hafter⟩ := hturn.pair_turned hnodup hne.symm hx hey
      rw [pair_comm] at hbefore hafter
      have hcount : turns y (m :: log) = turns y log + 1 := by simp [turns, hey]
      have hother : [y, x] ≠ [x, y] := by simp [hne.symm]
      rw [hbefore, hcount]
      constructor
      · intro hp
        exact absurd hp hother
      · intro _
        obtain ⟨hzero, hends⟩ := ihxy hafter
        exact Or.inr ⟨by rw [hzero], hends⟩
    · have hcount : turns y (m :: log) = turns y log := by simp [turns, hey]
      rw [← hturn.pair_kept hx hy hx' hy' hex hey, hcount]
      exact ⟨ihxy, ihyx⟩

/-- Turns are fair: between two of a member that stays, with none of its own between them, every
other member that stays has exactly one. -/
def Fair (log : List (Moment α)) : Prop :=
  ∀ (x y : α) (before between after : List (Moment α)) (first last : Moment α),
    log = before ++ first :: between ++ last :: after → x ≠ y →
    first.examined = some x → last.examined = some x → (∀ m ∈ between, m.examined ≠ some x) →
    (∀ m ∈ first :: between, x ∈ m.order ∧ y ∈ m.order) → turns y between = 1

/-- What rotates is fair. -/
theorem Rotates.fair {log : List (Moment α)} (h : Rotates order log) : Fair log := by
  intro x y before between after first last hlog hne hfirst hlast hnone hstays
  rw [hlog, append_assoc, rotates_append, cons_append] at h
  obtain ⟨-, hturn, hnodup, hrest⟩ := h
  rw [rotates_append] at hrest
  obtain ⟨hbetween, hturn', hnodup', -⟩ := hrest
  obtain ⟨hx', hy'⟩ := hstays first (by simp)
  have hstart := (hturn.pair_turned hnodup hne ((hturn.mem_iff hfirst).mp hy') hfirst).2
  have hmid := (hbetween.turns_between hne hx' hy' (fun m hm => hstays m (by simp [hm])) hnone).2
    hstart
  have hyends : y ∈ ends first.order between := by
    rcases eq_nil_or_concat between with rfl | ⟨init, m, rfl⟩
    · exact hy'
    · simpa [ends] using (hstays m (by simp)).2
  have hend := (hturn'.pair_turned hnodup' hne hyends hlast).1
  rcases hmid with ⟨-, hother⟩ | ⟨hone, -⟩
  · rw [hend] at hother
    simp [hne] at hother
  · exact hone

end DsdNeo.Queue
