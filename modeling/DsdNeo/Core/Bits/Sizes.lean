import Mathlib.Algebra.Order.Ring.Nat
import Mathlib.Data.BitVec

/-!
# Sizes of small tables

What the literals of a table's places, and the characters of a text, ask of their types.
-/

namespace DsdNeo

instance neZeroFour : NeZero 4 := ⟨by decide⟩

instance neZeroEight : NeZero 8 := ⟨by decide⟩

instance neZeroSixteen : NeZero 16 := ⟨by decide⟩

/-- A mapped table at a place. -/
theorem get_map {α β : Type*} {n : ℕ} (f : α → β) (v : Vector α n) (i : Fin n) :
    (v.map f).get i = f (v.get i) := Vector.getElem_map f i.isLt

/-- A tabulated one. -/
theorem get_ofFn {α : Type*} {n : ℕ} (f : Fin n → α) (i : Fin n) : (Vector.ofFn f).get i = f i :=
  Vector.getElem_ofFn i.isLt

/-- A combined place is a place. -/
theorem xor_lt (r s : Fin 16) : (r.val ^^^ s.val) % 16 < 16 := Nat.mod_lt _ (by decide)

instance lawfulChar : LawfulBEq (BitVec 8) := inferInstance

end DsdNeo
