import Mathlib.Algebra.Notation.Defs
import Mathlib.Data.Finset.Card
import Mathlib.Data.List.TakeWhile

/-!
# A memo of a function that changes

A memo keeps values of a function and serves them instead of working them out
again; `0` stands for a value it does not keep. It is sound while every value it
would still serve is what the function gives now.
-/

namespace DsdNeo.Memo

variable {K V : Type} [Zero V] {served served' : K → Prop} {value value' memo memo' : K → V}

/-- Every value kept for a key that is served is the function's. -/
def Sound (served : K → Prop) (value memo : K → V) : Prop :=
  ∀ k, served k → memo k ≠ 0 → memo k = value k

theorem sound_of_empty (h : ∀ k, served k → memo k = 0) : Sound served value memo := by
  intro k hk hne
  exact absurd (h k hk) hne

/-- What was kept before and is served still keeps its value. -/
theorem Sound.change (h : Sound served value memo)
    (hc : ∀ k, served' k → memo' k ≠ 0 → memo' k = memo k ∧ served k ∧ value' k = value k) :
    Sound served' value' memo' := by
  intro k hk hne
  obtain ⟨hm, hs, hv⟩ := hc k hk hne
  rw [hm] at hne ⊢
  rw [hv]
  exact h k hs hne

/-- The value just worked out may be kept. -/
theorem Sound.fill [DecidableEq K] (h : Sound served value memo) (k : K) :
    Sound served value (Function.update memo k (value k)) := by
  intro j hj hne
  by_cases hjk : j = k
  · subst hjk
    rw [Function.update_self]
  · rw [Function.update_of_ne hjk] at hne ⊢
    exact h j hj hne

end DsdNeo.Memo

/-!
# Recency of use

A log of uses, newest first. The ticket of a key is the number of uses up to its last one, so
the key with the least ticket is the one used longest ago: when it is dropped from a full
store, every other key held has been used since.
-/

namespace DsdNeo.Recency

variable {κ : Type} [DecidableEq κ]

/-- The uses since the last one of a key, newest first. -/
def usedSince (x : κ) (log : List κ) : List κ := log.takeWhile (· ≠ x)

/-- The number of uses up to the last one of a key. -/
def ticket (x : κ) (log : List κ) : ℕ := log.length - log.idxOf x

theorem ticket_le (x : κ) (log : List κ) : ticket x log ≤ log.length := Nat.sub_le _ _

@[simp]
theorem ticket_cons_self (x : κ) (log : List κ) : ticket x (x :: log) = log.length + 1 := by
  simp [ticket]

variable {x y : κ}

theorem ticket_cons_ne (h : y ≠ x) (log : List κ) : ticket x (y :: log) = ticket x log := by
  simp [ticket, List.idxOf_cons_ne log h]

@[simp]
theorem usedSince_cons_self (x : κ) (log : List κ) : usedSince x (x :: log) = [] := by
  simp [usedSince]

theorem usedSince_cons_ne (h : y ≠ x) (log : List κ) :
    usedSince x (y :: log) = y :: usedSince x log := by
  simp [usedSince, h]

variable {log : List κ}

/-- A key used after another has the greater ticket. -/
theorem mem_usedSince_iff (hx : x ∈ log) (hy : y ∈ log) :
    y ∈ usedSince x log ↔ ticket x log < ticket y log := by
  induction log with
  | nil => simp at hx
  | cons z log ih =>
    by_cases hzx : z = x
    · subst hzx
      have := ticket_le y (z :: log)
      simp at this ⊢
      omega
    · have hx' : x ∈ log := (List.mem_cons.mp hx).resolve_left (Ne.symm hzx)
      rw [usedSince_cons_ne hzx, ticket_cons_ne hzx]
      by_cases hzy : z = y
      · subst hzy
        have := ticket_le x log
        simp
        omega
      · have hy' : y ∈ log := (List.mem_cons.mp hy).resolve_left (Ne.symm hzy)
        rw [ticket_cons_ne hzy, ← ih hx' hy']
        simp [Ne.symm hzy]

theorem ticket_injective (hx : x ∈ log) (hy : y ∈ log) (h : ticket x log = ticket y log) :
    x = y := by
  have hlt := List.idxOf_lt_length_of_mem hx
  have hlt' := List.idxOf_lt_length_of_mem hy
  rw [ticket, ticket] at h
  exact (List.idxOf_inj hx).mp (by omega)

theorem card_le_usedSince {held : Finset κ} (hx : x ∈ held) (hy : y ∉ held)
    (hused : ∀ z ∈ held, z ∈ log) (hleast : ∀ z ∈ held, ticket x log ≤ ticket z log) :
    held.card ≤ (usedSince x (y :: log)).toFinset.card := by
  have hne : y ≠ x := fun h => hy (h ▸ hx)
  have hsub : insert y (held.erase x) ⊆ (usedSince x (y :: log)).toFinset := by
    rw [usedSince_cons_ne hne, List.toFinset_cons]
    apply Finset.insert_subset_insert
    intro z hz
    obtain ⟨hzx, hheld⟩ := Finset.mem_erase.mp hz
    rw [List.mem_toFinset, mem_usedSince_iff (hused x hx) (hused z hheld)]
    have hle := hleast z hheld
    have hdiff : ticket x log ≠ ticket z log := fun h =>
      hzx (ticket_injective (hused x hx) (hused z hheld) h).symm
    omega
  have hout : y ∉ held.erase x := fun h => hy (Finset.mem_of_mem_erase h)
  have hcard := Finset.card_le_card hsub
  have hpos : 0 < held.card := Finset.card_pos.mpr ⟨x, hx⟩
  rw [Finset.card_insert_of_notMem hout, Finset.card_erase_of_mem hx] at hcard
  omega

end DsdNeo.Recency
