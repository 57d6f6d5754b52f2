import Mathlib.Order.Interval.Finset.Nat

/-!
# Programs that stop at a bad access

A program that can fail returns an option: reading or writing an array at an index it does
not have is a failure of the whole. To return with a postcondition is to succeed with a
result that meets it; the rules follow the program. A counted loop returns when its body
does at every index, with an invariant that the loop counter indexes.
-/

namespace DsdNeo.Program

variable {α β σ : Type} {n w : ℕ}

/-- The program succeeds, and its result meets the postcondition. -/
def Returns (m : Option α) (post : α → Prop) : Prop := ∃ a, m = some a ∧ post a

/-- The array with one entry written, when it has that entry. -/
def store (v : Vector α n) (i : ℕ) (x : α) : Option (Vector α n) :=
  if h : i < n then some (v.set i x h) else none

/-- The entry of an array at an index that may be negative. -/
def readAt (v : Vector α n) (i : ℤ) : Option α := if 0 ≤ i then v[i.toNat]? else none

/-- One cell of an array of arrays. -/
def cell (m : Vector (Vector α w) n) (i j : ℕ) : Option α := m[i]?.bind fun row => row[j]?

/-- The array of arrays with one cell written, when it has that cell. -/
def storeCell (m : Vector (Vector α w) n) (i j : ℕ) (x : α) : Option (Vector (Vector α w) n) := do
  let row ← m[i]?
  store m i (← store row j x)

/-- The body at each of some indices in turn, from the first. -/
def loop (body : ℕ → σ → Option σ) : ℕ → ℕ → σ → Option σ
  | _, 0, s => some s
  | i, k + 1, s => body i s >>= loop body (i + 1) k

/-- The body at each index from one bound to before the other. -/
def forRange (lo hi : ℕ) (s : σ) (body : ℕ → σ → Option σ) : Option σ := loop body lo (hi - lo) s

section Rules

variable {m : Option α} {f : α → Option β} {mid post : α → Prop} {final : β → Prop}

theorem returns_some {a : α} (h : post a) : Returns (some a) post := ⟨a, rfl, h⟩

theorem Returns.mono (h : Returns m mid) (himp : ∀ a, mid a → post a) : Returns m post := by
  obtain ⟨a, rfl, ha⟩ := h
  exact ⟨a, rfl, himp a ha⟩

theorem Returns.bind (h : Returns m mid) (hf : ∀ a, mid a → Returns (f a) final) :
    Returns (m >>= f) final := by
  obtain ⟨a, rfl, ha⟩ := h
  exact hf a ha

/-- What follows a part that returns fails when it fails on every result of the part. -/
theorem Returns.bind_none (h : Returns m mid) (hf : ∀ a, mid a → f a = none) : m >>= f = none := by
  obtain ⟨a, rfl, ha⟩ := h
  exact hf a ha

theorem returns_bind_some {a : α} (h : m = some a) (hf : Returns (f a) final) :
    Returns (m >>= f) final := by
  rw [h]
  exact hf

theorem returns_ite {c : Prop} [Decidable c] {m' : Option α} (hthen : c → Returns m post)
    (helse : ¬ c → Returns m' post) : Returns (if c then m else m') post := by
  split
  · exact hthen ‹_›
  · exact helse ‹_›

end Rules

section Arrays

variable {v v' : Vector α n} {m : Vector (Vector α w) n} {i j k : ℕ} {x a : α}

@[simp] theorem readAt_ofNat (v : Vector α n) (i : ℕ) : readAt v (i : ℤ) = v[i]? :=
  if_pos (Int.natCast_nonneg i)

/-- An array after a write differs from before in that entry alone. -/
structure Stored (v v' : Vector α n) (i : ℕ) (x : α) : Prop where
  here : v'[i]? = some x
  rest : ∀ k, k ≠ i → v'[k]? = v[k]?

/-- An array of arrays after a write differs from before in that cell alone. -/
structure StoredCell (m m' : Vector (Vector α w) n) (i j : ℕ) (x : α) : Prop where
  here : cell m' i j = some x
  rest : ∀ k p, k ≠ i ∨ p ≠ j → cell m' k p = cell m k p

theorem StoredCell.eq {m' : Vector (Vector α w) n} (h : StoredCell m m' i j x) (k p : ℕ) :
    cell m' k p = if k = i ∧ p = j then some x else cell m k p := by
  split
  case isTrue heq =>
    obtain ⟨rfl, rfl⟩ := heq
    exact h.here
  case isFalse hne => exact h.rest k p (by omega)

theorem StoredCell.column {m₀ m' : Vector (Vector α w) n} {y : ℕ → α}
    (h : StoredCell m m' i j (y j)) (hcol : ∀ p, cell m p j = cell m₀ p j) (p k : ℕ) :
    cell m' p k = if k = j then if p = i then some (y k) else cell m₀ p k else cell m p k := by
  rw [h.eq]
  by_cases hk : k = j
  · subst hk
    rw [if_pos rfl, hcol]
    exact if_congr (by omega) rfl rfl
  · rw [if_neg (by omega), if_neg hk]

/-- A write after the entries that are what they should be. -/
theorem Stored.upTo {y : Option α} (h : Stored v v' i x) (hx : j = i → y = some x)
    (hdone : j < i → v[j]? = y) (hj : j < i + 1) : v'[j]? = y := by
  obtain rfl | hlt := (Nat.lt_succ_iff.mp hj).eq_or_lt
  · exact h.here.trans (hx rfl).symm
  · exact (h.rest j hlt.ne).trans (hdone hlt)

/-- A write after the entries of a list. -/
theorem Stored.append {xs : List α} (h : Stored v v' i x) (hlen : xs.length = i)
    (hdone : ∀ j < i, v[j]? = xs[j]?) (hj : j < i + 1) : v'[j]? = (xs ++ [x])[j]? := by
  subst hlen
  refine h.upTo (fun hend => ?_) (fun hlt => ?_) hj
  · rw [hend, List.getElem?_concat_length]
  · rw [hdone j hlt, List.getElem?_append_left hlt]

theorem returns_store (h : i < n) : Returns (store v i x) fun v' => Stored v v' i x := by
  refine ⟨v.set i x h, dif_pos h, ?_, ?_⟩
  · exact Vector.getElem?_set_self h
  · intro k hk
    exact Vector.getElem?_set_ne h hk.symm

theorem store_none (h : n ≤ i) : store v i x = none := dif_neg (Nat.not_lt.mpr h)

theorem getElem?_eq_some_getElem (h : i < n) : v[i]? = some v[i] :=
  Vector.getElem?_eq_some_iff.mpr ⟨h, rfl⟩

theorem returns_storeCell (hi : i < n) (hj : j < w) :
    Returns (storeCell m i j x) fun m' => StoredCell m m' i j x := by
  have hrow : m[i]? = some m[i] := getElem?_eq_some_getElem hi
  refine returns_bind_some hrow ((returns_store hj).bind fun row hstored => ?_)
  refine (returns_store hi).mono fun m' hm => ⟨?_, ?_⟩
  · rw [cell, hm.here]
    exact hstored.here
  · intro k p hkp
    by_cases hk : k = i
    · subst hk
      rw [cell, cell, hm.here, hrow]
      exact hstored.rest p (hkp.resolve_left fun h => h rfl)
    · rw [cell, cell, hm.rest k hk]

theorem storeCell_none (h : w ≤ j) : storeCell m i j x = none := by
  unfold storeCell
  cases m[i]? with
  | none => rfl
  | some row =>
    show (store row j x >>= fun r => store m i r) = none
    rw [store_none h]
    rfl

end Arrays

section Loops

variable {f : ℕ → σ → Option σ} {s : σ}

theorem returns_loop (P : ℕ → σ → Prop) {i k : ℕ} (h : P i s)
    (hstep : ∀ j s, i ≤ j → j < i + k → P j s → Returns (f j s) (P (j + 1))) :
    Returns (loop f i k s) (P (i + k)) := by
  induction k generalizing i s with
  | zero => exact returns_some h
  | succ k ih =>
    refine (hstep i s le_rfl (by omega) h).bind fun s' hs' => ?_
    rw [show i + (k + 1) = i + 1 + k by omega]
    exact ih hs' fun j s hij hjk => hstep j s (by omega) (by omega)

/-- A loop over a range keeps an invariant of its counter. -/
theorem returns_forRange (P : ℕ → σ → Prop) {a b : ℕ} (hle : a ≤ b) (h : P a s)
    (hstep : ∀ j s, a ≤ j → j < b → P j s → Returns (f j s) (P (j + 1))) :
    Returns (forRange a b s f) (P b) := by
  have hloop : Returns (loop f a (b - a) s) (P (a + (b - a))) :=
    returns_loop P h fun j s hj hjk => hstep j s hj (by omega)
  rwa [Nat.add_sub_of_le hle] at hloop

/-- What holds of every counter a loop from one on has passed. -/
theorem forall_pos_lt_succ {p : ℕ → Prop} {i : ℕ} (hi : 0 < i) :
    (∀ k, 0 < k → k < i + 1 → p k) ↔ (∀ k, 0 < k → k < i → p k) ∧ p i := by
  refine ⟨fun h => ⟨fun k hk hki => h k hk (by omega), h i hi (by omega)⟩, ?_⟩
  rintro ⟨hbefore, hnow⟩ k hk hki
  obtain rfl | hlt := (Nat.lt_succ_iff.mp hki).eq_or_lt
  · exact hnow
  · exact hbefore k hk hlt

theorem returns_columns {α : Type} {n w : ℕ} {m : Vector (Vector α w) n} {a b : ℕ}
    {f : ℕ → Vector (Vector α w) n → Option (Vector (Vector α w) n)}
    {g : ℕ → ℕ → Option α} (hle : a ≤ b)
    (hbody : ∀ j m', a ≤ j → j < b → (∀ p, cell m' p j = cell m p j) →
      Returns (f j m') fun m'' => ∀ p k, cell m'' p k = if k = j then g p k else cell m' p k) :
    Returns (forRange a b m f) fun m' =>
      ∀ p k, cell m' p k = if a ≤ k ∧ k < b then g p k else cell m p k := by
  refine returns_forRange (fun j m' => ∀ p k, cell m' p k =
    if a ≤ k ∧ k < j then g p k else cell m p k) hle ?_ fun j m' hlow hhigh hinv => ?_
  · intro p k
    rw [if_neg (by omega)]
  · have hcolumn : ∀ p, cell m' p j = cell m p j := fun p => by
      rw [hinv p j, if_neg (by omega)]
    refine (hbody j m' hlow hhigh hcolumn).mono fun m'' hm p k => ?_
    rw [hm p k]
    by_cases hk : k = j
    · rw [if_pos hk, if_pos (by omega)]
    · rw [if_neg hk, hinv p k]
      exact if_congr (by omega) rfl rfl

end Loops

end DsdNeo.Program
