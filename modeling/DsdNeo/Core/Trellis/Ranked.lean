import Mathlib.Data.List.Induction
import Mathlib.Data.List.Nodup
import Mathlib.Data.List.TakeWhile
import Mathlib.Data.List.Perm.Subperm
import Mathlib.Data.Set.Insert

/-!
# The best elements of a set, in a list of bounded length

A list decoder keeps for each state the `K` best ways into it. A list is the best of
a set when its elements are of the set, different and in the order of their costs,
and nothing left out is better than anything kept unless the list has room. This is
kept by insertion in place with the last dropped, and it is enough to offer each
state the extensions of what its predecessors kept: what they left out is beaten
by `K` extensions already.
-/

namespace DsdNeo.Trellis

open List

variable {α β ι : Type*} {K : ℕ}

/-- The list has the `K` best of the set, or all of it. -/
structure Best (K : ℕ) (cost : α → ℕ) (S : Set α) (L : List α) : Prop where
  nodup : L.Nodup
  length_le : L.length ≤ K
  sorted : L.Pairwise fun x y => cost x ≤ cost y
  mem : ∀ x, x ∈ L → x ∈ S
  outside : ∀ y, y ∈ S → y ∉ L → L.length = K ∧ ∀ x, x ∈ L → cost x ≤ cost y

theorem Best.nil (K : ℕ) (cost : α → ℕ) : Best K cost ∅ [] where
  nodup := nodup_nil
  length_le := Nat.zero_le K
  sorted := List.Pairwise.nil
  mem _ hx := absurd hx not_mem_nil
  outside y hy := absurd hy (Set.notMem_empty y)

/-- Insertion in front of the first element that is not better. -/
def insertBefore (cost : α → ℕ) (new : α) (L : List α) : List α :=
  L.takeWhile (cost · < cost new) ++ new :: L.dropWhile (cost · < cost new)

/-- Insertion with what is pushed beyond the end dropped. -/
def insertRanked (K : ℕ) (cost : α → ℕ) (L : List α) (new : α) : List α :=
  (insertBefore cost new L).take K

section Insert

variable {cost : α → ℕ} {new : α} {L : List α}

theorem insertBefore_perm (cost : α → ℕ) (new : α) (L : List α) :
    (insertBefore cost new L).Perm (new :: L) := by
  refine perm_middle.trans ?_
  rw [takeWhile_append_dropWhile]

@[simp] theorem length_insertBefore (cost : α → ℕ) (new : α) (L : List α) :
    (insertBefore cost new L).length = L.length + 1 :=
  (insertBefore_perm cost new L).length_eq

theorem lt_of_mem_takeWhile {x : α} (hx : x ∈ L.takeWhile (cost · < cost new)) :
    cost x < cost new := by
  simpa using mem_takeWhile_imp hx

/-- In a sorted list everything from the first element that is not better on is not better. -/
theorem le_of_mem_dropWhile (hsorted : L.Pairwise fun x y => cost x ≤ cost y) {x : α}
    (hx : x ∈ L.dropWhile (cost · < cost new)) : cost new ≤ cost x := by
  induction L with
  | nil => cases hx
  | cons a L ih =>
    obtain ⟨ha, hsorted⟩ := pairwise_cons.mp hsorted
    by_cases hlt : cost a < cost new
    · rw [dropWhile_cons_of_pos (by simpa using hlt)] at hx
      exact ih hsorted hx
    · rw [dropWhile_cons_of_neg (by simpa using hlt)] at hx
      rcases mem_cons.mp hx with rfl | hmem
      · exact not_lt.mp hlt
      · exact (not_lt.mp hlt).trans (ha x hmem)

theorem sorted_insertBefore (hsorted : L.Pairwise fun x y => cost x ≤ cost y) :
    (insertBefore cost new L).Pairwise fun x y => cost x ≤ cost y := by
  refine pairwise_append.mpr ⟨?_, ?_, ?_⟩
  · exact hsorted.sublist (takeWhile_sublist _)
  · refine pairwise_cons.mpr ⟨fun x hx => le_of_mem_dropWhile hsorted hx, ?_⟩
    exact hsorted.sublist (dropWhile_sublist _)
  · intro x hx y hy
    have hlt := lt_of_mem_takeWhile hx
    rcases mem_cons.mp hy with rfl | hmem
    · exact hlt.le
    · exact hlt.le.trans (le_of_mem_dropWhile hsorted hmem)

/-- Whatever a sorted list drops beyond the room is no better than what it keeps. -/
theorem le_of_dropped {X : List α} (hsorted : X.Pairwise fun x y => cost x ≤ cost y) {y : α}
    (hy : y ∈ X) (hdropped : y ∉ X.take K) :
    (X.take K).length = K ∧ ∀ x, x ∈ X.take K → cost x ≤ cost y := by
  have hdrop : y ∈ X.drop K := by
    rw [← take_append_drop K X] at hy
    exact (mem_append.mp hy).resolve_left hdropped
  have hlen : K < X.length := by
    have := length_pos_of_mem hdrop
    rw [length_drop] at this
    omega
  refine ⟨by rw [length_take]; omega, fun x hx => ?_⟩
  rw [← take_append_drop K X] at hsorted
  exact (pairwise_append.mp hsorted).2.2 x hx y hdrop

theorem Best.insert {S : Set α} (h : Best K cost S L) (hnew : new ∉ S) :
    Best K cost (insert new S) (insertRanked K cost L new) where
  nodup := by
    refine List.Nodup.sublist (take_sublist _ _) ?_
    rw [(insertBefore_perm cost new L).nodup_iff, nodup_cons]
    exact ⟨fun hmem => hnew (h.mem new hmem), h.nodup⟩
  length_le := by
    rw [insertRanked, length_take]
    omega
  sorted := (sorted_insertBefore h.sorted).sublist (take_sublist _ _)
  mem x hx := by
    have hin := (insertBefore_perm cost new L).mem_iff.mp (mem_of_mem_take hx)
    rcases mem_cons.mp hin with rfl | hmem
    · exact Set.mem_insert x S
    · exact Set.mem_insert_of_mem _ (h.mem x hmem)
  outside y hy hnot := by
    by_cases hin : y ∈ insertBefore cost new L
    · exact le_of_dropped (sorted_insertBefore h.sorted) hin hnot
    · -- what was left out before stays left out, and the new element pushes nothing worse in
      have hout : y ≠ new ∧ y ∉ L := by
        rw [(insertBefore_perm cost new L).mem_iff] at hin
        simpa using hin
      obtain ⟨hlen, hle⟩ := h.outside y ((Set.mem_insert_iff.mp hy).resolve_left hout.1) hout.2
      refine ⟨by rw [insertRanked, length_take, length_insertBefore]; omega, ?_⟩
      intro x hx
      have hmem := (insertBefore_perm cost new L).mem_iff.mp (mem_of_mem_take hx)
      rcases mem_cons.mp hmem with rfl | hold
      · cases hrest : L.dropWhile (cost · < cost x) with
        | nil =>
          have hfull : (L.takeWhile (cost · < cost x)).length = K := by
            have hsplit := congrArg List.length
              (takeWhile_append_dropWhile (p := (cost · < cost x)) (l := L))
            rw [hrest, append_nil] at hsplit
            omega
          rw [insertRanked, insertBefore, take_append_of_le_length (by omega),
            take_of_length_le (by omega)] at hx
          exact absurd (lt_of_mem_takeWhile hx) (lt_irrefl _)
        | cons d rest =>
          have hd : d ∈ L.dropWhile (cost · < cost x) := by
            rw [hrest]
            exact mem_cons_self
          exact (le_of_mem_dropWhile h.sorted hd).trans
            (hle d ((dropWhile_sublist _).subset hd))
      · exact hle x hold

theorem best_foldl (K : ℕ) (cost : α → ℕ) {news : List α} (hn : news.Nodup) :
    Best K cost {x | x ∈ news} (news.foldl (insertRanked K cost) []) := by
  induction news using List.reverseRecOn with
  | nil => simpa using Best.nil K cost
  | append_singleton news new ih =>
    obtain ⟨hn, hnot⟩ : news.Nodup ∧ new ∉ news := by
      rw [← concat_eq_append, nodup_concat] at hn
      exact hn.symm
    have hset : {x | x ∈ news ++ [new]} = Insert.insert new {x | x ∈ news} := by
      ext x
      simp [or_comm]
    rw [foldl_append, foldl_cons, foldl_nil, hset]
    exact (ih hn).insert hnot

end Insert

variable {cost : α → ℕ}

/-- Elements renamed without their costs. -/
theorem Best.map {cost' : β → ℕ} {S : Set α} {L : List α} (h : Best K cost S L) {f : α → β}
    (hf : Set.InjOn f S) (hcost : ∀ x, x ∈ S → cost' (f x) = cost x) :
    Best K cost' (f '' S) (L.map f) where
  nodup := h.nodup.map_on fun x hx y hy => hf (h.mem x hx) (h.mem y hy)
  length_le := by simpa using h.length_le
  sorted := by
    rw [pairwise_map]
    refine h.sorted.imp_of_mem fun hx hy hle => ?_
    rwa [hcost _ (h.mem _ hx), hcost _ (h.mem _ hy)]
  mem y hy := by
    obtain ⟨x, hx, rfl⟩ := mem_map.mp hy
    exact ⟨x, h.mem x hx, rfl⟩
  outside y hy hnot := by
    obtain ⟨x, hx, rfl⟩ := hy
    obtain ⟨hlen, hle⟩ := h.outside x hx fun hmem => hnot (mem_map_of_mem hmem)
    refine ⟨by simpa using hlen, fun y hy => ?_⟩
    obtain ⟨z, hz, rfl⟩ := mem_map.mp hy
    rw [hcost z (h.mem z hz), hcost x hx]
    exact hle z hz

theorem Best.of_dominated {C S : Set α} {L : List α} (h : Best K cost C L) (hsub : C ⊆ S)
    (hdom : ∀ y, y ∈ S → y ∉ C → ∃ W : List α, W.Nodup ∧ W.length = K ∧
      ∀ w, w ∈ W → w ∈ C ∧ cost w ≤ cost y) : Best K cost S L where
  nodup := h.nodup
  length_le := h.length_le
  sorted := h.sorted
  mem x hx := hsub (h.mem x hx)
  outside y hy hnot := by
    by_cases hin : y ∈ C
    · exact h.outside y hin hnot
    · obtain ⟨W, hnodup, hlen, hW⟩ := hdom y hy hin
      by_cases hall : ∀ w, w ∈ W → w ∈ L
      · -- the list is made of the elements that beat `y`
        have hsubperm := subperm_of_subset hnodup hall
        have hfull : L.length = K := by
          have := hsubperm.length_le
          have := h.length_le
          omega
        have hperm := hsubperm.perm_of_length_le (by omega)
        exact ⟨hfull, fun x hx => (hW x (hperm.mem_iff.mpr hx)).2⟩
      · -- one of them was left out, and all that was kept is no worse than that one
        obtain ⟨w, hw, hout⟩ : ∃ w, w ∈ W ∧ w ∉ L := by simpa using hall
        obtain ⟨hfull, hle⟩ := h.outside w (hW w hw).1 hout
        exact ⟨hfull, fun x hx => (hle x hx).trans (hW w hw).2⟩

theorem Best.extend {cost' : β → ℕ} {S : ι → Set α} {L : ι → List α}
    (h : ∀ r, Best K cost (S r) (L r)) {ext : α → β} (hext : Function.Injective ext) {step : ι → ℕ}
    (hcost : ∀ r p, p ∈ S r → cost' (ext p) = cost p + step r) {L' : List β}
    (hbest : Best K cost' {q | ∃ r p, p ∈ L r ∧ q = ext p} L') :
    Best K cost' {q | ∃ r p, p ∈ S r ∧ q = ext p} L' := by
  refine hbest.of_dominated ?_ ?_
  · rintro q ⟨r, p, hp, rfl⟩
    exact ⟨r, p, (h r).mem p hp, rfl⟩
  · rintro q ⟨r, p, hp, rfl⟩ hnot
    have hout : p ∉ L r := fun hmem => hnot ⟨r, p, hmem, rfl⟩
    obtain ⟨hlen, hle⟩ := (h r).outside p hp hout
    refine ⟨(L r).map ext, (h r).nodup.map hext, by simpa using hlen, ?_⟩
    intro w hw
    obtain ⟨x, hx, rfl⟩ := mem_map.mp hw
    refine ⟨⟨r, x, hx, rfl⟩, ?_⟩
    rw [hcost r x ((h r).mem x hx), hcost r p hp]
    exact Nat.add_le_add_right (hle x hx) _

/-- A set with more than `K` elements fills the list. -/
theorem Best.length_eq {S : Set α} {L : List α} (h : Best K cost S L) {W : List α}
    (hnodup : W.Nodup) (hW : ∀ w, w ∈ W → w ∈ S) (hlen : K ≤ W.length) : L.length = K := by
  by_cases hall : ∀ w, w ∈ W → w ∈ L
  · have := (subperm_of_subset hnodup hall).length_le
    have := h.length_le
    omega
  · obtain ⟨w, hw, hout⟩ : ∃ w, w ∈ W ∧ w ∉ L := by simpa using hall
    exact (h.outside w (hW w hw) hout).1

end DsdNeo.Trellis
