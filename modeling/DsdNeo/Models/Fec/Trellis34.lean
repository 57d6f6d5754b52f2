import DsdNeo.Core.Bits.Reorder
import Mathlib.Data.Fintype.EquivFin

/-!
# Tables of the trellis-coded blocks

The interleaver of a block of 98 dibits and the tables of the rate 3/4 code, of
`trellis34.c`. The interleaver is a permutation of the dibits, the rows of the
state machine name each constellation point at most once, and the two
constellation tables are inverse to each other.
-/

namespace DsdNeo.Trellis34

/-- `dsd_trellis_interleave_98`. -/
def interleave98 : List ℕ :=
  [0, 1, 8, 9, 16, 17, 24, 25, 32, 33, 40, 41, 48, 49, 56, 57, 64, 65, 72, 73, 80, 81, 88, 89, 96,
   97, 2, 3, 10, 11, 18, 19, 26, 27, 34, 35, 42, 43, 50, 51, 58, 59, 66, 67, 74, 75, 82, 83, 90, 91,
   4, 5, 12, 13, 20, 21, 28, 29, 36, 37, 44, 45, 52, 53, 60, 61, 68, 69, 76, 77, 84, 85, 92, 93, 6,
   7, 14, 15, 22, 23, 30, 31, 38, 39, 46, 47, 54, 55, 62, 63, 70, 71, 78, 79, 86, 87, 94, 95]

/-- `dsd_trellis34_constellation`. -/
def constellation : List ℕ := [11, 12, 0, 7, 14, 9, 5, 2, 10, 13, 1, 6, 15, 8, 4, 3]

/-- `dsd_trellis34_inverse_constellation`. -/
def inverseConstellation : List ℕ := [2, 10, 7, 15, 14, 6, 11, 3, 13, 5, 8, 0, 1, 9, 4, 12]

/-- `dsd_trellis34_fsm`. -/
def fsm : List ℕ :=
  [0, 8, 4, 12, 2, 10, 6, 14, 4, 12, 2, 10, 6, 14, 0, 8, 1, 9, 5, 13, 3, 11,
   7, 15, 5, 13, 3, 11, 7, 15, 1, 9, 3, 11, 7, 15, 1, 9, 5, 13, 7, 15, 1, 9,
   5, 13, 3, 11, 2, 10, 6, 14, 0, 8, 4, 12, 6, 14, 0, 8, 4, 12, 2, 10]

/-- Place of dibit `i` in the order of the trellis. -/
def place (i : Fin 98) : Fin 98 := ⟨interleave98.getD i.val 0, by revert i; decide⟩

theorem place_injective : Function.Injective place := by
  have hfound : ∀ i : Fin 98, interleave98.idxOf (interleave98.getD i.val 0) = i.val := by
    decide
  intro i j h
  refine Fin.ext ?_
  rw [← hfound i, ← hfound j]
  exact congrArg (fun k : Fin 98 => interleave98.idxOf k.val) h

theorem place_bijective : Function.Bijective place :=
  Finite.injective_iff_bijective.mp place_injective

/-- The loops that store each received element at its place in the order of the trellis. -/
def deinterleave {α : Type*} (zero : α) (received : Fin 98 → α) : List α :=
  Reorder.scatter ((List.finRange 98).map fun i => (interleave98.getD i.val 0, received i))
    (List.replicate 98 zero)

/-- Every received element is found at its place. -/
theorem getD_deinterleave {α : Type*} (zero : α) (received : Fin 98 → α) (i : Fin 98) :
    (deinterleave zero received).getD (place i).val zero = received i := by
  have hnodup : (((List.finRange 98).map fun i : Fin 98 =>
      (interleave98.getD i.val 0, received i)).map Prod.fst).Nodup := by
    rw [List.map_map]
    refine (List.nodup_finRange 98).map ?_
    intro i j h
    exact place_injective (Fin.ext h)
  have hmem : ((place i).val, received i) ∈ (List.finRange 98).map fun i : Fin 98 =>
      (interleave98.getD i.val 0, received i) :=
    List.mem_map.mpr ⟨i, List.mem_finRange i, rfl⟩
  rw [List.getD_eq_getElem?_getD, deinterleave, Reorder.getElem?_scatter hnodup hmem (by simp)]
  rfl

theorem exists_getD_deinterleave {α : Type*} (zero : α) (received : Fin 98 → α) {p : ℕ}
    (hp : p < 98) :
    ∃ i, (place i).val = p ∧ (deinterleave zero received).getD p zero = received i := by
  obtain ⟨i, hi⟩ := place_bijective.surjective ⟨p, hp⟩
  have hval : (place i).val = p := congrArg Fin.val hi
  refine ⟨i, hval, ?_⟩
  rw [← hval, getD_deinterleave]

/-- Constellation point of the edge from state `r` to state `s`. -/
def edgePoint (r s : Fin 8) : ℕ := fsm.getD (r.val * 8 + s.val) 0

/-- Nibble of the edge from state `r` to state `s`. -/
def edgeNibble (r s : Fin 8) : ℕ := inverseConstellation.getD (edgePoint r s) 0

theorem edgeNibble_lt (r s : Fin 8) : edgeNibble r s < 16 := by
  revert r s
  decide

theorem edgePoint_lt (r s : Fin 8) : edgePoint r s < 16 := by
  revert r s
  decide

/-- The two constellation tables are inverse to each other. -/
theorem getD_constellation_edgeNibble (r s : Fin 8) :
    constellation.getD (edgeNibble r s) 0 = edgePoint r s := by
  revert r s
  decide

theorem edgePoint_inj {r s s' : Fin 8} (h : edgePoint r s = edgePoint r s') : s = s' := by
  have hall : ∀ r s s' : Fin 8, edgePoint r s = edgePoint r s' → s = s' := by decide
  exact hall r s s' h

theorem edgeNibble_inj {r s s' : Fin 8} (h : edgeNibble r s = edgeNibble r s') : s = s' := by
  refine edgePoint_inj (r := r) ?_
  rw [← getD_constellation_edgeNibble, ← getD_constellation_edgeNibble, h]

end DsdNeo.Trellis34
