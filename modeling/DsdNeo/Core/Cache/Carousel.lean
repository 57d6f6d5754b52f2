import Mathlib.Algebra.Order.Ring.Nat
import Mathlib.Data.Finset.Card
import Mathlib.Data.Fin.Basic

/-!
# A table whose places are replaced in turn

Values are kept by key in a fixed number of places. A key already held has its value replaced where
it is; a new one takes the place whose turn it is, whatever is there, and the turn passes to the
place after.
-/

namespace DsdNeo

open Function

/-- Values by key in `n` places, no key in two of them, and the place replaced next. -/
structure Carousel (n : ℕ) (κ ν : Type) where
  places : Fin n → Option (κ × ν)
  next : Fin n
  distinct : ∀ {i j k v w}, places i = some (k, v) → places j = some (k, w) → i = j

namespace Carousel

variable {n : ℕ} {κ ν : Type} {t : Carousel n κ ν} {i : Fin n} {k g : κ} {v w : ν}

/-- Nothing in any place, the first one replaced next. -/
def empty [NeZero n] : Carousel n κ ν := ⟨fun _ => none, 0, nofun⟩

variable [DecidableEq κ]

/-- The place of a key. -/
def find (t : Carousel n κ ν) (k : κ) : Option (Fin n) :=
  (List.finRange n).find? fun i => (t.places i).any fun kv => kv.1 = k

/-- The value kept for a key. -/
def lookup (t : Carousel n κ ν) (k : κ) : Option ν :=
  (t.find k).bind fun i => (t.places i).map Prod.snd

theorem find_eq_some : t.find k = some i ↔ ∃ v, t.places i = some (k, v) := by
  constructor
  · intro h
    have hheld := List.find?_some h
    rw [Option.any_eq_true] at hheld
    obtain ⟨⟨key, v⟩, hplace, hkey⟩ := hheld
    obtain rfl : key = k := by simpa using hkey
    exact ⟨v, hplace⟩
  · rintro ⟨v, hplace⟩
    cases hfind : t.find k with
    | none =>
      have hnone := List.find?_eq_none.mp hfind i (List.mem_finRange i)
      simp [hplace] at hnone
    | some j =>
      have hheld := List.find?_some hfind
      rw [Option.any_eq_true] at hheld
      obtain ⟨⟨key, w⟩, hplace', hkey⟩ := hheld
      obtain rfl : key = k := by simpa using hkey
      rw [t.distinct hplace hplace']

theorem find_eq_none : t.find k = none ↔ ∀ i v, t.places i ≠ some (k, v) := by
  rw [Option.eq_none_iff_forall_ne_some]
  exact ⟨fun h i v hplace => h i (find_eq_some.mpr ⟨v, hplace⟩),
    fun h i hfind => (find_eq_some.mp hfind).elim (h i)⟩

theorem lookup_eq_some : t.lookup k = some v ↔ ∃ i, t.places i = some (k, v) := by
  rw [lookup, Option.bind_eq_some_iff]
  constructor
  · rintro ⟨i, hfind, hv⟩
    obtain ⟨w, hplace⟩ := find_eq_some.mp hfind
    rw [hplace, Option.map_some, Option.some_inj] at hv
    exact ⟨i, hv ▸ hplace⟩
  · rintro ⟨i, hplace⟩
    exact ⟨i, find_eq_some.mpr ⟨v, hplace⟩, by rw [hplace, Option.map_some]⟩

/-- A value put in a place that holds its key, or in any place where none does. -/
def put (t : Carousel n κ ν) (i next : Fin n) (k : κ) (v : ν)
    (h : ∀ j w, t.places j = some (k, w) → j = i) : Carousel n κ ν where
  places := update t.places i (some (k, v))
  next := next
  distinct := by
    intro a b key x y ha hb
    by_cases hai : a = i <;> by_cases hbi : b = i
    · rw [hai, hbi]
    · rw [hai, update_self] at ha
      rw [update_of_ne hbi] at hb
      cases ha
      exact (hai.trans (h b y hb).symm)
    · rw [hbi, update_self] at hb
      rw [update_of_ne hai] at ha
      cases hb
      exact ((h a x ha).trans hbi.symm)
    · rw [update_of_ne hai] at ha
      rw [update_of_ne hbi] at hb
      exact t.distinct ha hb

/-- A value noted for a key. -/
def note [NeZero n] (t : Carousel n κ ν) (k : κ) (v : ν) : Carousel n κ ν :=
  match h : t.find k with
  | some i => t.put i t.next k v fun _ _ hj =>
    (find_eq_some.mp h).elim fun _ hi => t.distinct hj hi
  | none => t.put t.next (t.next + 1) k v fun j w hj => absurd hj (find_eq_none.mp h j w)

variable [NeZero n]

theorem note_of_held (hplace : t.places i = some (k, v)) (w : ν) :
    (t.note k w).places = update t.places i (some (k, w)) ∧ (t.note k w).next = t.next := by
  have hfind : t.find k = some i := find_eq_some.mpr ⟨v, hplace⟩
  unfold note
  split
  · rename_i j hj
    obtain rfl : j = i := Option.some_inj.mp (hj.symm.trans hfind)
    exact ⟨rfl, rfl⟩
  · rename_i hnone
    exact absurd (hnone.symm.trans hfind) nofun

theorem note_of_new (hnew : ∀ i v, t.places i ≠ some (k, v)) (w : ν) :
    (t.note k w).places = update t.places t.next (some (k, w)) ∧
      (t.note k w).next = t.next + 1 := by
  have hfind : t.find k = none := find_eq_none.mpr hnew
  unfold note
  split
  · rename_i j hj
    exact absurd (hj.symm.trans hfind) nofun
  · exact ⟨rfl, rfl⟩

theorem lookup_note_self (t : Carousel n κ ν) (k : κ) (v : ν) : (t.note k v).lookup k = some v := by
  rw [lookup_eq_some]
  by_cases hheld : ∃ i w, t.places i = some (k, w)
  · obtain ⟨i, w, hplace⟩ := hheld
    exact ⟨i, by rw [(note_of_held hplace v).1, update_self]⟩
  · refine ⟨t.next, ?_⟩
    rw [(note_of_new (fun i w hplace => hheld ⟨i, w, hplace⟩) v).1, update_self]

/-- Another key noted leaves the value of a key whose place it does not take. -/
theorem lookup_note_of_ne (hne : g ≠ k) (w : ν) (hheld : t.lookup k = some v)
    (hspare : t.find g = none → t.find k ≠ some t.next) : (t.note g w).lookup k = some v := by
  obtain ⟨i, hplace⟩ := lookup_eq_some.mp hheld
  refine lookup_eq_some.mpr ⟨i, ?_⟩
  cases hfind : t.find g with
  | some j =>
    obtain ⟨x, hj⟩ := find_eq_some.mp hfind
    have hij : i ≠ j := by
      rintro rfl
      exact hne (congrArg Prod.fst (Option.some_inj.mp (hplace.symm.trans hj))).symm
    rw [(note_of_held hj w).1, update_of_ne hij, hplace]
  | none =>
    have hi : i ≠ t.next := fun heq =>
      hspare hfind (heq ▸ find_eq_some.mpr ⟨v, hplace⟩)
    rw [(note_of_new (find_eq_none.mp hfind) w).1, update_of_ne hi, hplace]

/-- No new key among these notes takes the place of the key. -/
def Spares (k : κ) : List (κ × ν) → Carousel n κ ν → Prop
  | [], _ => True
  | kv :: notes, t =>
    (t.find kv.1 = none → t.find k ≠ some t.next) ∧ Spares k notes (t.note kv.1 kv.2)

/-- A key whose place is spared keeps its value while no other is noted for it. -/
theorem lookup_foldl_note {notes : List (κ × ν)} (hheld : t.lookup k = some v)
    (hspares : Spares k notes t) (hsame : ∀ kv ∈ notes, kv.1 = k → kv.2 = v) :
    (notes.foldl (fun t kv => t.note kv.1 kv.2) t).lookup k = some v := by
  induction notes generalizing t with
  | nil => exact hheld
  | cons kv notes ih =>
    rw [List.foldl_cons]
    refine ih ?_ hspares.2 fun kv h => hsame kv (List.mem_cons_of_mem _ h)
    by_cases hk : kv.1 = k
    · rw [hsame kv List.mem_cons_self hk, hk]
      exact lookup_note_self t k v
    · exact lookup_note_of_ne hk kv.2 hheld hspares.1

end Carousel

end DsdNeo
