import Mathlib.Init

/-!
# A value, and rows that take its place

An owner keeps a value. A row may take its place for a while, and may be set aside so
that the owner's value can be edited beside it. What the desk shows is the owner's
value, the row, or the draft being edited; taking the row away gives the owner's value
back.
-/

namespace DsdNeo.Overlay

variable {α ρ : Type}

/-- The owner's value, alone, under a row, or with a row set aside for a draft of it. -/
inductive Desk (α ρ : Type) where
  | bare (own : α)
  | covered (own : α) (row : ρ)
  | aside (own : α) (row : ρ) (draft : α)

namespace Desk

/-- The owner's value as last kept. -/
def own : Desk α ρ → α
  | bare own => own
  | covered own _ => own
  | aside own _ _ => own

/-- The row, in place or set aside. -/
def row : Desk α ρ → Option ρ
  | bare _ => none
  | covered _ row => some row
  | aside _ row _ => some row

/-- What is in effect, where a row has an effect of its own. -/
def visible (effect : ρ → α) : Desk α ρ → α
  | bare own => own
  | covered _ row => effect row
  | aside _ _ draft => draft

/-- A row takes the place of the owner's value, or of another row. -/
def enter (d : Desk α ρ) (row : ρ) : Desk α ρ :=
  match d with
  | aside own _ draft => aside own row draft
  | _ => covered d.own row

/-- The row is taken away; a draft is kept. -/
def leave : Desk α ρ → Desk α ρ
  | aside _ _ draft => bare draft
  | d => bare d.own

/-- The row is set aside. -/
def suspend : Desk α ρ → Desk α ρ
  | covered own row => aside own row own
  | d => d

/-- An edit of the owner's value, or of the draft of it. -/
def edit (d : Desk α ρ) (f : α → α) : Desk α ρ :=
  match d with
  | bare own => bare (f own)
  | covered own row => covered own row
  | aside own row draft => aside own row (f draft)

/-- The row comes back, and the draft is kept or lost. -/
def resume (d : Desk α ρ) (kept : Bool) : Desk α ρ :=
  match d with
  | aside own row draft => covered (if kept then draft else own) row
  | d => d

/-- No draft is being edited. -/
def Settled : Desk α ρ → Prop
  | aside _ _ _ => False
  | _ => True

/-- The owner's value, or a draft of it, can be edited. -/
def Editable : Desk α ρ → Prop
  | covered _ _ => False
  | _ => True

/-- After a leave the own value shows. -/
theorem visible_leave (effect : ρ → α) {d : Desk α ρ} (h : d.Settled) :
    d.leave.visible effect = d.own := by
  cases d with
  | aside own row draft => cases h
  | _ => rfl

/-- A row in force shows as what it makes of the own value. -/
theorem visible_of_row (effect : ρ → α) {d : Desk α ρ} (h : d.Settled) {row : ρ}
    (hrow : d.row = some row) : d.visible effect = effect row := by
  cases d with
  | bare own => cases hrow
  | covered own row' =>
    cases hrow
    rfl
  | aside own row draft => cases h

section Left

variable (d : Desk α ρ)

/-- A second leave gives nothing else back. -/
theorem own_leave_leave : d.leave.leave.own = d.leave.own := by cases d <;> rfl

/-- A suspend changes nothing of what a leave gives back. -/
theorem own_leave_suspend : d.suspend.leave.own = d.leave.own := by cases d <;> rfl

/-- A resume changes nothing of what a leave gives back. -/
theorem own_leave_resume : (d.resume true).leave.own = d.leave.own := by cases d <;> rfl

/-- A row entered changes nothing of what a leave gives back. -/
theorem own_leave_enter (row : ρ) : (d.enter row).leave.own = d.leave.own := by cases d <;> rfl

/-- What is edited is what a leave gives back. -/
theorem own_leave_edit {d : Desk α ρ} (h : d.Editable) (a : α) :
    (d.edit fun _ => a).leave.own = a := by
  cases d with
  | covered own row => cases h
  | _ => rfl

end Left

/-- After a leave no row is in force. -/
theorem settled_leave (d : Desk α ρ) : d.leave.Settled ∧ d.leave.row = none := by
  cases d with
  | bare own => exact ⟨trivial, rfl⟩
  | covered own row => exact ⟨trivial, rfl⟩
  | aside own row draft => exact ⟨trivial, rfl⟩

section Settled

variable {d : Desk α ρ} (h : d.Settled)
include h

/-- A row entered is in force. -/
theorem settled_enter (row : ρ) : (d.enter row).Settled ∧ (d.enter row).row = some row := by
  cases d with
  | bare own => exact ⟨trivial, rfl⟩
  | covered own row' => exact ⟨trivial, rfl⟩
  | aside own row' draft => cases h

/-- A resume brings the row back over what was edited. -/
theorem settled_suspend_resume (f : α → α) :
    ((d.suspend.edit f).resume true).Settled ∧ ((d.suspend.edit f).resume true).row = d.row := by
  cases d with
  | bare own => exact ⟨trivial, rfl⟩
  | covered own row => exact ⟨trivial, rfl⟩
  | aside own row draft => cases h

/-- A suspended desk may be edited. -/
theorem editable_suspend : d.suspend.Editable := by
  cases d with
  | bare own => trivial
  | covered own row => trivial
  | aside own row draft => cases h

end Settled

end Desk

end DsdNeo.Overlay
