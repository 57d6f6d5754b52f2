import Mathlib.Data.List.Basic
import Mathlib.Order.MinMax
import Mathlib.Order.Nat

/-!
# Bisection of an ascending list

A search that halves an interval finds the place where a predicate turns from true to false. In a
list whose keys ascend, that place is the number of keys below the one searched for: there the list
splits into what is below and what is not, and an entry put in there leaves the list ascending.
-/

namespace DsdNeo.Search

open List

/-- The first index of `[lo, hi)` from which on `below` fails, in at most `fuel` halvings. -/
def bisect (below : ℕ → Bool) : ℕ → ℕ → ℕ → ℕ
  | 0, lo, _ => lo
  | fuel + 1, lo, hi =>
    if lo < hi then
      let mid := lo + (hi - lo) / 2
      if below mid then bisect below fuel (mid + 1) hi else bisect below fuel lo mid
    else lo

/-- Where a predicate turns from true to false. -/
structure Turns (below : ℕ → Bool) (lo hi r : ℕ) : Prop where
  ge : lo ≤ r
  le : r ≤ hi
  before : ∀ i, lo ≤ i → i < r → below i = true
  after : ∀ i, r ≤ i → i < hi → below i = false

theorem bisect_turns {below : ℕ → Bool} {fuel lo hi : ℕ} (hle : lo ≤ hi) (hfuel : hi - lo ≤ fuel)
    (hanti : ∀ i j, i ≤ j → j < hi → below j = true → below i = true) :
    Turns below lo hi (bisect below fuel lo hi) := by
  induction fuel generalizing lo hi with
  | zero =>
    rw [bisect]
    exact ⟨Nat.le_refl lo, hle, fun i _ _ => by omega, fun i _ _ => by omega⟩
  | succ fuel ih =>
    rw [bisect]
    split
    case isFalse hdone =>
      exact ⟨Nat.le_refl lo, hle, fun i _ _ => by omega, fun i _ _ => by omega⟩
    case isTrue hlt =>
      dsimp only
      have hmid : lo + (hi - lo) / 2 < hi := by omega
      split
      case isTrue hbelow =>
        have h : Turns below (lo + (hi - lo) / 2 + 1) hi _ := ih hmid (by omega) hanti
        refine ⟨by have := h.ge; omega, h.le, fun i _ hi' => ?_, h.after⟩
        by_cases hpast : lo + (hi - lo) / 2 + 1 ≤ i
        · exact h.before i hpast hi'
        · exact hanti i _ (by omega) hmid hbelow
      case isFalse hbelow =>
        have h : Turns below lo (lo + (hi - lo) / 2) _ :=
          ih (by omega) (by omega) fun i j hij hj => hanti i j hij (by omega)
        refine ⟨h.ge, by have := h.le; omega, h.before, fun i hr hi' => ?_⟩
        by_cases hpast : lo + (hi - lo) / 2 ≤ i
        · cases hval : below i with
          | false => rfl
          | true => exact absurd (hanti _ i hpast hi' hval) hbelow
        · exact h.after i hr (by omega)

variable {α β : Type*} [LinearOrder β] {key : α → β} {l : List α}

/-- Keys ascend strictly. -/
def Ascending (key : α → β) (l : List α) : Prop := l.Pairwise fun a b => key a < key b

/-- The number of keys below a key. -/
def rank (key : α → β) (l : List α) (k : β) : ℕ := l.countP fun a => decide (key a < k)

theorem ascending_nil : Ascending key [] := List.Pairwise.nil

theorem Ascending.split (h : Ascending key l) (k : β) :
    l.take (rank key l k) = l.filter (fun a => decide (key a < k)) ∧
      l.drop (rank key l k) = l.filter fun a => !decide (key a < k) := by
  induction l with
  | nil => exact ⟨rfl, rfl⟩
  | cons a l ih =>
    obtain ⟨hfirst, hrest⟩ := pairwise_cons.mp h
    obtain ⟨htake, hdrop⟩ := ih hrest
    by_cases ha : key a < k
    · have hrank : rank key (a :: l) k = rank key l k + 1 :=
        countP_cons_of_pos (by simpa using ha)
      rw [hrank, take_succ_cons, drop_succ_cons, htake, hdrop,
        filter_cons_of_pos (by simpa using ha), filter_cons_of_neg (by simpa using ha)]
      exact ⟨rfl, rfl⟩
    · have hnone : ∀ b ∈ a :: l, ¬key b < k := by
        intro b hb
        rcases mem_cons.mp hb with rfl | hmem
        · exact ha
        · exact fun hlt => ha ((hfirst b hmem).trans hlt)
      have hrank : rank key (a :: l) k = 0 :=
        countP_eq_zero.mpr fun b hb => by simpa using hnone b hb
      have hbelow : (a :: l).filter (fun b => decide (key b < k)) = [] :=
        filter_eq_nil_iff.mpr fun b hb => by simpa using hnone b hb
      have hall : (a :: l).filter (fun b => !decide (key b < k)) = a :: l :=
        filter_eq_self.mpr fun b hb => by simpa using hnone b hb
      rw [hrank, take_zero, drop_zero, hbelow, hall]
      exact ⟨rfl, rfl⟩

theorem rank_eq {k : β} {r : ℕ} (hr : r ≤ l.length)
    (hbefore : ∀ i (hi : i < l.length), i < r → key l[i] < k)
    (hafter : ∀ i (hi : i < l.length), r ≤ i → ¬key l[i] < k) : rank key l k = r := by
  have hfront : (l.take r).countP (fun a => decide (key a < k)) = r := by
    rw [countP_eq_length.mpr, length_take, min_eq_left hr]
    intro a ha
    obtain ⟨i, hi, rfl⟩ := mem_take_iff_getElem.mp ha
    rw [lt_min_iff] at hi
    exact decide_eq_true (hbefore i hi.2 hi.1)
  have hback : (l.drop r).countP (fun a => decide (key a < k)) = 0 := by
    refine countP_eq_zero.mpr fun a ha => ?_
    obtain ⟨i, hi, rfl⟩ := mem_drop_iff_getElem.mp ha
    rw [decide_eq_true_iff]
    exact hafter (r + i) _ (Nat.le_add_right r i)
  rw [rank, ← take_append_drop r l, countP_append, hfront, hback, Nat.add_zero]

theorem Ascending.bisect_eq (h : Ascending key l) (k : β) (d : α) :
    bisect (fun i => decide (key (l.getD i d) < k)) l.length 0 l.length = rank key l k := by
  have hget : ∀ i (hi : i < l.length), l.getD i d = l[i] := fun i hi => by
    rw [getD_eq_getElem?_getD, getElem?_eq_getElem hi, Option.getD_some]
  have hanti : ∀ i j, i ≤ j → j < l.length → decide (key (l.getD j d) < k) = true →
      decide (key (l.getD i d) < k) = true := fun i j hij hj hbelow => by
    rcases Nat.eq_or_lt_of_le hij with rfl | hlt
    · exact hbelow
    · have hkeys := pairwise_iff_getElem.mp h i j (by omega) hj hlt
      rw [decide_eq_true_iff, hget j hj] at hbelow
      rw [decide_eq_true_iff, hget i (by omega)]
      exact hkeys.trans hbelow
  have hturn : Turns _ 0 l.length (bisect _ l.length 0 l.length) :=
    bisect_turns (Nat.zero_le l.length) (Nat.sub_le _ _) hanti
  refine (rank_eq hturn.le (fun i hi hlt => ?_) fun i hi hge => ?_).symm
  · have hbelow := hturn.before i (Nat.zero_le i) hlt
    rwa [decide_eq_true_iff, hget i hi] at hbelow
  · have hnot := hturn.after i hge hi
    rwa [decide_eq_false_iff_not, hget i hi] at hnot

theorem Ascending.getElem?_rank (h : Ascending key l) (a : α) :
    l[rank key l (key a)]? = some a ↔ a ∈ l := by
  obtain ⟨-, hdrop⟩ := h.split (key a)
  constructor
  · exact mem_of_getElem?
  · intro hmem
    have hlater : a ∈ l.drop (rank key l (key a)) := by
      rw [hdrop]
      exact mem_filter.mpr ⟨hmem, by simp⟩
    have hhead := head?_drop (l := l) (i := rank key l (key a))
    rw [← hhead]
    cases hlist : l.drop (rank key l (key a)) with
    | nil =>
      rw [hlist] at hlater
      exact absurd hlater not_mem_nil
    | cons b rest =>
      have hb : b ∈ l.drop (rank key l (key a)) := hlist ▸ mem_cons_self
      rw [hdrop, mem_filter] at hb
      have hnot : ¬key b < key a := by simpa using hb.2
      rw [hlist] at hlater
      rcases mem_cons.mp hlater with rfl | hrest
      · rfl
      · have hdropped : (b :: rest).Pairwise fun a b => key a < key b :=
          hlist ▸ List.Pairwise.sublist (drop_sublist _ _) h
        exact absurd ((pairwise_cons.mp hdropped).1 a hrest) hnot

theorem Ascending.insert (h : Ascending key l) {a : α} (hnew : ∀ b ∈ l, key b ≠ key a) :
    Ascending key (l.take (rank key l (key a)) ++ a :: l.drop (rank key l (key a))) := by
  obtain ⟨htake, hdrop⟩ := h.split (key a)
  have hbefore : ∀ b ∈ l.take (rank key l (key a)), key b < key a := by
    intro b hb
    rw [htake] at hb
    simpa using (mem_filter.mp hb).2
  have hafter : ∀ b ∈ l.drop (rank key l (key a)), key a < key b := by
    intro b hb
    rw [hdrop] at hb
    have hge : key a ≤ key b := by simpa using (mem_filter.mp hb).2
    exact lt_of_le_of_ne hge fun heq => hnew b (mem_filter.mp hb).1 heq.symm
  refine pairwise_append.mpr ⟨List.Pairwise.sublist (take_sublist _ _) h, ?_, ?_⟩
  · exact pairwise_cons.mpr ⟨hafter, List.Pairwise.sublist (drop_sublist _ _) h⟩
  · intro b hb c hc
    rcases mem_cons.mp hc with rfl | hlater
    · exact hbefore b hb
    · exact (hbefore b hb).trans (hafter c hlater)

theorem rank_sub (l : List α) {a b : β} (hab : a ≤ b) :
    rank key l b - rank key l a =
      (l.filter fun x => decide (a ≤ key x) && decide (key x < b)).length := by
  rw [← countP_eq_length_filter]
  have hsplit : rank key l b = rank key l a +
      l.countP fun x => decide (a ≤ key x) && decide (key x < b) := by
    induction l with
    | nil => rfl
    | cons x l ih =>
      simp only [rank, countP_cons] at ih ⊢
      rw [ih]
      rcases lt_trichotomy (key x) a with hx | hx | hx
      · simp [hx, hx.trans_le hab, not_le.mpr hx]
        omega
      · by_cases hb : key x < b <;> simp [← hx, hb]
        omega
      · by_cases hb : key x < b <;> simp [hx.le, not_lt.mpr hx.le, hb]
        omega
  omega

/-!
# The last of the least

Among the elements of a list that have a property, the last of those with the least key. A scan
from the front keeps its best so far: an element at the end takes over where its key is no greater.
-/

variable {α κ : Type*} [LinearOrder κ] {p : α → Prop} {key : α → κ} {l : List α} {i : ℕ} {a b : α}

/-- The element at an index has the property, the least key of those that have it, and no other of
that key comes after it. -/
structure LastLeast (p : α → Prop) (key : α → κ) (l : List α) (i : ℕ) (a : α) : Prop where
  get : l[i]? = some a
  has : p a
  least : ∀ (j : ℕ) b, l[j]? = some b → p b → key a ≤ key b
  last : ∀ (j : ℕ) b, l[j]? = some b → p b → key b = key a → j ≤ i

theorem LastLeast.lt_length (h : LastLeast p key l i a) : i < l.length :=
  (List.getElem?_eq_some_iff.mp h.get).1

/-- An element of a list with one more at its end. -/
theorem getElem?_snoc {j : ℕ} {c : α} (h : (l ++ [b])[j]? = some c) :
    l[j]? = some c ∨ (j = l.length ∧ c = b) := by
  rcases Nat.lt_or_ge j l.length with hlt | hge
  · rw [getElem?_append_left hlt] at h
    exact Or.inl h
  · rw [getElem?_append_right hge, getElem?_singleton] at h
    split at h
    · exact Or.inr ⟨by omega, (Option.some.inj h).symm⟩
    · cases h

/-- The best so far stays where the next is not in question. -/
theorem LastLeast.keep (h : LastLeast p key l i a) (hb : p b → key a < key b) :
    LastLeast p key (l ++ [b]) i a := by
  refine ⟨?_, h.has, fun j c hc hp => ?_, fun j c hc hp hkey => ?_⟩
  · rw [getElem?_append_left h.lt_length]
    exact h.get
  · rcases getElem?_snoc hc with hc | ⟨-, rfl⟩
    · exact h.least j c hc hp
    · exact (hb hp).le
  · rcases getElem?_snoc hc with hc | ⟨-, rfl⟩
    · exact h.last j c hc hp hkey
    · exact absurd hkey (hb hp).ne'

/-- The next takes over where its key is no greater than those there were. -/
theorem LastLeast.take (hb : p b) (hle : ∀ c ∈ l, p c → key b ≤ key c) :
    LastLeast p key (l ++ [b]) l.length b := by
  refine ⟨?_, hb, fun j c hc hp => ?_, fun j c hc _ _ => ?_⟩
  · rw [getElem?_append_right (Nat.le_refl _), Nat.sub_self]
    rfl
  · rcases getElem?_snoc hc with hc | ⟨-, rfl⟩
    · exact hle c (mem_of_getElem? hc) hp
    · exact le_rfl
  · have := (List.getElem?_eq_some_iff.mp hc).1
    rw [length_append, length_singleton] at this
    omega

theorem LastLeast.le_of_mem (h : LastLeast p key l i a) {c : α} (hc : c ∈ l) (hp : p c) :
    key a ≤ key c := by
  obtain ⟨j, hj⟩ := getElem?_of_mem hc
  exact h.least j c hj hp

end DsdNeo.Search
