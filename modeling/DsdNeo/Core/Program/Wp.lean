import Mathlib.Order.Defs.Unbundled

/-!
# What a program establishes

A program of a state monad, run in a state, establishes a postcondition on its
result and the state after it. The rules follow the program: sequencing runs the
rest in the state the first part leaves, a branch is taken under its condition,
and a specification of a callee is weakened to what the caller needs.
-/

namespace DsdNeo.Program

variable {σ α β : Type}

/-- Running the program in this state establishes the postcondition. -/
def Wp (m : StateM σ α) (s : σ) (post : α → σ → Prop) : Prop := post (m s).1 (m s).2

variable {post : α → σ → Prop} {s : σ}

theorem wp_pure {a : α} (h : post a s) :
    Wp (pure a : StateM σ α) s post := h

/-- Reading the state. -/
theorem wp_get {post : σ → σ → Prop} (h : post s s) : Wp (get : StateM σ σ) s post := h

/-- Changing the state. -/
theorem wp_modify {f : σ → σ} {post : Unit → σ → Prop} (h : post () (f s)) :
    Wp (modify f : StateM σ Unit) s post := h

variable {m : StateM σ α}

/-- One program after another. -/
theorem wp_bind {f : α → StateM σ β} {post : β → σ → Prop}
    (h : Wp m s fun a s' => Wp (f a) s' post) :
    Wp (m >>= f) s post := h

/-- A choice, each side under its condition. -/
theorem wp_ite {c : Prop} [Decidable c] {n : StateM σ α} (hm : c → Wp m s post)
    (hn : ¬ c → Wp n s post) : Wp (if c then m else n) s post := by
  split
  · exact hm ‹_›
  · exact hn ‹_›

/-- A program run under a condition. -/
def onlyIf (p : Prop) [Decidable p] (m : StateM σ Unit) : StateM σ Unit := if p then m else pure ()

/-- A program run under a condition only. -/
theorem wp_onlyIf {p : Prop} [Decidable p] {m : StateM σ Unit} {post : Unit → σ → Prop}
    (h : p → Wp m s post) (hn : ¬ p → post () s) : Wp (onlyIf p m) s post := wp_ite h hn

/-- A weaker postcondition. -/
theorem Wp.mono {post' : α → σ → Prop} (h : Wp m s post) (himp : ∀ a s', post a s' → post' a s') :
    Wp m s post' := himp _ _ h

/-- Two postconditions at once. -/
theorem Wp.and {post' : α → σ → Prop} (h : Wp m s post) (h' : Wp m s post') :
    Wp m s fun a s' => post a s' ∧ post' a s' := ⟨h, h'⟩

/-!
# What a program leaves alone

A program keeps a relation between states when the state it is run in always stands in
it to the state it leaves. For a preorder the rules follow the program; a projection of
the state that does not change is such a relation.
-/

variable {γ : Type}

/-- The state before any run of the program is related to the state after it. -/
def Keeps (R : σ → σ → Prop) (m : StateM σ α) : Prop := ∀ s, R s (m s).2

/-- A projection with one value in two states. -/
def Same (f : σ → γ) (s s' : σ) : Prop := f s' = f s

instance (f : σ → γ) : IsPreorder σ (Same f) where
  refl _ := rfl
  trans _ _ _ h h' := Eq.trans h' h

theorem keeps_ite {R : σ → σ → Prop} {c : Prop} [Decidable c] {n : StateM σ α} (hm : Keeps R m)
    (hn : Keeps R n) : Keeps R (if c then m else n) := by
  split
  · exact hm
  · exact hn

section Rules

variable {R : σ → σ → Prop} [IsPreorder σ R]

theorem keeps_pure (a : α) : Keeps R (pure a : StateM σ α) := fun s => refl_of R s

theorem keeps_get : Keeps R (get : StateM σ σ) := fun s => refl_of R s

/-- What both of two programs keep, the one after the other keeps. -/
theorem keeps_bind {m : StateM σ α} {f : α → StateM σ β} (hm : Keeps R m)
    (hf : ∀ a, Keeps R (f a)) : Keeps R (m >>= f) :=
  fun s => trans_of R (hm s) (hf _ _)

theorem keeps_onlyIf {p : Prop} [Decidable p] {m : StateM σ Unit} (h : Keeps R m) :
    Keeps R (onlyIf p m) := keeps_ite h (keeps_pure _)

end Rules

variable {R R' : σ → σ → Prop}

/-- A program that keeps a relation keeps a weaker one. -/
theorem Keeps.mono (h : Keeps R m) (hle : ∀ s s', R s s' → R' s s') :
    Keeps R' m := fun s => hle _ _ (h s)

theorem Keeps.and (h : Keeps R m) (h' : Keeps R' m) :
    Keeps (fun s s' => R s s' ∧ R' s s') m := fun s => ⟨h s, h' s⟩

/-- What is established wherever a program is run is kept. -/
theorem keeps_of_wp (h : ∀ s, Wp m s fun _ s' => R s s') : Keeps R m := h

/-- A kept relation as a postcondition. -/
theorem Keeps.wp (h : Keeps R m) (s : σ) : Wp m s fun _ s' => R s s' := h s

end DsdNeo.Program
