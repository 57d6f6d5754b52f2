import DsdNeo.Core.Queue.Rotation
import Mathlib.Data.BitVec
import Mathlib.Data.List.Rotate

/-!
# Control-channel candidates

`trunk_cc_candidates.c`: the frequencies a system may be found on again, tried in turn from
a cursor. A full list gives up its oldest entry for a new one. Times are of any type with a
zero and a decidable order, without any law of it: the program's are `double`.
-/

namespace DsdNeo.CcCandidates

open Queue List Function

/-- `DSD_TRUNK_CC_CANDIDATES_MAX`. -/
def candidatesMax : ℕ := 16

/-- `dsd_trunk_cc_candidates`. -/
structure Candidates (τ : Type) where
  candidates : ℕ → ℤ
  flags : ℕ → BitVec 8
  count : ℕ
  idx : ℕ
  coolUntil : ℕ → τ
  added : BitVec 32
  used : BitVec 32

/-- What one `dsd_trunk_cc_candidates_next` is asked, and the control channels of the state it
reads. -/
structure Request (τ : Type) where
  now : τ
  required : BitVec 8
  trunkCcFreq : ℤ
  p25CcFreq : ℤ

/-- The control channel that is skipped. -/
def Request.skipCcFreq {τ : Type} (r : Request τ) : ℤ :=
  if r.trunkCcFreq ≠ 0 then r.trunkCcFreq else r.p25CcFreq

variable {τ : Type}

/-- The listed frequencies, oldest first. -/
def Candidates.listed (cc : Candidates τ) : List ℤ := (List.range cc.count).map cc.candidates

/-- The places in the order they come up at the cursor. -/
def Candidates.places (cc : Candidates τ) : List ℕ := (List.range cc.count).rotate cc.idx

/-- The listed frequencies, the next to be examined first. -/
def Candidates.order (cc : Candidates τ) : List ℤ := cc.places.map cc.candidates

/-- What holds of a list over every call. -/
structure Candidates.Sound (cc : Candidates τ) : Prop where
  count_le : cc.count ≤ candidatesMax
  idx_le : cc.idx ≤ cc.count
  nodup : cc.listed.Nodup
  nonzero : (0 : ℤ) ∉ cc.listed

@[simp]
theorem Candidates.length_listed (cc : Candidates τ) : cc.listed.length = cc.count := by
  simp [Candidates.listed]

theorem Candidates.order_eq (cc : Candidates τ) : cc.order = cc.listed.rotate cc.idx := by
  rw [Candidates.order, Candidates.places, Candidates.listed, map_rotate]

variable {cc : Candidates τ}

theorem Candidates.mem_order {freq : ℤ} : freq ∈ cc.order ↔ freq ∈ cc.listed := by
  rw [cc.order_eq, mem_rotate]

theorem Candidates.Sound.order_split (h : cc.Sound) :
    cc.order = cc.listed.drop cc.idx ++ cc.listed.take cc.idx := by
  rw [cc.order_eq, rotate_eq_drop_append_take (by simpa using h.idx_le)]

/-- No frequency has two turns. -/
theorem Candidates.Sound.nodup_order (h : cc.Sound) : cc.order.Nodup := by
  rw [cc.order_eq, nodup_rotate]
  exact h.nodup

/-- The first place that holds a frequency. -/
def Candidates.placeOf (cc : Candidates τ) (freq : ℤ) : Option ℕ :=
  (List.range cc.count).find? fun k => cc.candidates k = freq

theorem Candidates.placeOf_eq_none {freq : ℤ} : cc.placeOf freq = none ↔ freq ∉ cc.listed := by
  simp [Candidates.placeOf, Candidates.listed]

/-- One array moved down by a place. -/
def shift {β : Type} (a : ℕ → β) : ℕ → β :=
  (List.range' 1 (candidatesMax - 1)).foldl (fun a k => update a (k - 1) (a k)) a

theorem shift_apply {β : Type} (a : ℕ → β) (k : ℕ) :
    shift a k = if k < candidatesMax - 1 then a (k + 1) else a k := by
  have hloop : ∀ n, (List.range' 1 n).foldl (fun a k => update a (k - 1) (a k)) a k =
      if k < n then a (k + 1) else a k := by
    intro n
    induction n generalizing k with
    | zero => simp
    | succ n ih =>
      rw [range'_concat, foldl_append, foldl_cons, foldl_nil, update_apply, ih, ih]
      grind
  exact hloop (candidatesMax - 1)

/-- `dsd_trunk_cc_candidates_drop_oldest`. -/
def Candidates.dropOldest (cc : Candidates τ) : Candidates τ :=
  { cc with
    candidates := shift cc.candidates
    flags := shift cc.flags
    coolUntil := shift cc.coolUntil
    idx := if 0 < cc.idx then cc.idx - 1 else cc.idx }

/-- `dsd_trunk_cc_candidates_set_cooldown` on the list. -/
def Candidates.setCooldown (cc : Candidates τ) (freq : ℤ) (untilTime : τ) : Candidates τ :=
  match (List.range (min cc.count candidatesMax)).find? fun i => cc.candidates i = freq with
  | some i => { cc with coolUntil := update cc.coolUntil i untilTime }
  | none => cc

section Zeroed

variable [Zero τ]

/-- A fresh allocation, all zero. -/
def Candidates.fresh : Candidates τ :=
  ⟨fun _ => 0, fun _ => 0, 0, 0, fun _ => 0, 0, 0⟩

/-- `dsd_trunk_cc_candidates_clear`. -/
def Candidates.clear (cc : Candidates τ) : Candidates τ :=
  { cc with
    candidates := fun k => if k < candidatesMax then 0 else cc.candidates k
    flags := fun k => if k < candidatesMax then 0 else cc.flags k
    count := 0
    idx := 0
    coolUntil := fun k => if k < candidatesMax then 0 else cc.coolUntil k }

/-- An entry written at a place. -/
def Candidates.write (cc : Candidates τ) (k : ℕ) (freq : ℤ) (flags : BitVec 8) : Candidates τ :=
  { cc with
    candidates := update cc.candidates k freq
    flags := update cc.flags k flags
    coolUntil := update cc.coolUntil k 0 }

/-- The entry for a frequency that is not listed. -/
def Candidates.enter (cc : Candidates τ) (freq : ℤ) (flags : BitVec 8) : Candidates τ :=
  if cc.count < candidatesMax then { cc.write cc.count freq flags with count := cc.count + 1 }
  else cc.dropOldest.write (candidatesMax - 1) freq flags

/-- `dsd_trunk_cc_candidates_add` on the list, with what it returns. -/
def Candidates.add (cc : Candidates τ) (freq : ℤ) (bumpAdded : Bool) (flags : BitVec 8) :
    ℤ × Candidates τ :=
  if cc.count ≤ candidatesMax then
    match cc.placeOf freq with
    | some k => (0, { cc with flags := update cc.flags k (cc.flags k ||| flags) })
    | none =>
      let cc := cc.enter freq flags
      (1, if bumpAdded then { cc with added := cc.added + 1 } else cc)
  else (0, cc.clear)

section Next

variable [LT τ] [DecidableLT τ]

/-- `dsd_trunk_cc_candidate_is_allowed`. -/
def Candidates.isAllowed (cc : Candidates τ) (r : Request τ) (idx : ℕ) : Bool :=
  if r.required ≠ 0 ∧ cc.flags idx &&& r.required ≠ r.required then false
  else if cc.candidates idx = 0 ∨ cc.candidates idx = r.skipCcFreq then false
  else if 0 < cc.coolUntil idx ∧ r.now < cc.coolUntil idx then false
  else true

/-- The place the cursor stands at, wrapped. -/
def Candidates.cursor (cc : Candidates τ) : ℕ := if cc.count ≤ cc.idx then 0 else cc.idx

/-- One turn of the loop of `dsd_trunk_cc_candidates_next`. -/
def Candidates.nextTry (cc : Candidates τ) (r : Request τ) : Option ℤ × Candidates τ :=
  let idx := cc.cursor
  let cc := { cc with idx := idx + 1 }
  if cc.isAllowed r idx then (some (cc.candidates idx), { cc with used := cc.used + 1 })
  else (none, cc)

/-- The loop of `dsd_trunk_cc_candidates_next`, with so many turns left. -/
def Candidates.nextLoop (r : Request τ) : ℕ → Candidates τ → Option ℤ × Candidates τ
  | 0, cc => (none, cc)
  | tries + 1, cc =>
    match cc.nextTry r with
    | (some freq, cc) => (some freq, cc)
    | (none, cc) => nextLoop r tries cc

/-- `dsd_trunk_cc_candidates_next` on the list: the frequency, where it returns one. -/
def Candidates.next (cc : Candidates τ) (r : Request τ) : Option ℤ × Candidates τ :=
  if cc.count ≤ candidatesMax then cc.nextLoop r cc.count else (none, cc.clear)

end Next

/-- The list hung on a state, once one is allocated. -/
abbrev Store (τ : Type) := Option (Candidates τ)

/-- A call on the list of a state. `allocates` says whether a list can be had where none is. -/
inductive Op (τ : Type) where
  | add (freq : ℤ) (bumpAdded : Bool) (flags : BitVec 8) (allocates : Bool)
  | setCooldown (freq : ℤ) (untilTime : τ)
  | next (r : Request τ)
  | reset

/-- `dsd_trunk_cc_candidates_add`. -/
def add (s : Store τ) (freq : ℤ) (bumpAdded : Bool) (flags : BitVec 8) (allocates : Bool) :
    ℤ × Store τ :=
  if freq = 0 then (0, s)
  else
    match s, allocates with
    | none, false => (0, none)
    | none, true => let r := Candidates.fresh.add freq bumpAdded flags; (r.1, some r.2)
    | some cc, _ => let r := cc.add freq bumpAdded flags; (r.1, some r.2)

/-- `dsd_trunk_cc_candidates_set_cooldown`. -/
def setCooldown (s : Store τ) (freq : ℤ) (untilTime : τ) : Store τ :=
  if freq = 0 then s else s.map (·.setCooldown freq untilTime)

/-- `dsd_trunk_cc_candidates_reset`. -/
def reset (s : Store τ) : Store τ := s.map fun cc => { cc.clear with added := 0, used := 0 }

section Runs

variable [LT τ] [DecidableLT τ]

/-- `dsd_trunk_cc_candidates_next`. -/
def next (s : Store τ) (r : Request τ) : Option ℤ × Store τ :=
  match s with
  | none => (none, none)
  | some cc => let out := cc.next r; (out.1, some out.2)

/-- One call. -/
def perform (s : Store τ) : Op τ → Store τ
  | .add freq bumpAdded flags allocates => (add s freq bumpAdded flags allocates).2
  | .setCooldown freq untilTime => setCooldown s freq untilTime
  | .next r => (next s r).2
  | .reset => reset s

/-- The list after some calls, from a state that has none. -/
def run (ops : List (Op τ)) : Store τ := ops.foldl perform none

/-- The order of a state's list, if it has one. -/
def order (s : Store τ) : List ℤ := s.elim [] Candidates.order

/-- The moments of the loop of `dsd_trunk_cc_candidates_next`: each examines one frequency. -/
def Candidates.loopMoments (r : Request τ) : ℕ → Candidates τ → List (Moment ℤ)
  | 0, _ => []
  | tries + 1, cc =>
    ⟨some (cc.candidates cc.cursor), (cc.nextTry r).2.order⟩ ::
      if (cc.nextTry r).1.isSome then [] else loopMoments r tries (cc.nextTry r).2

/-- The moments of one call. -/
def moments (s : Store τ) : Op τ → List (Moment ℤ)
  | .next r => s.elim [] fun cc => cc.loopMoments r cc.count
  | op => [⟨none, order (perform s op)⟩]

/-- The moments of some calls, from a state on. -/
def logFrom (s : Store τ) : List (Op τ) → List (Moment ℤ)
  | [] => []
  | op :: ops => moments s op ++ logFrom (perform s op) ops

end Runs

theorem Candidates.fresh_sound : (Candidates.fresh : Candidates τ).Sound := by
  constructor <;> simp [Candidates.listed, Candidates.fresh]

theorem Candidates.clear_sound (cc : Candidates τ) : cc.clear.Sound := by
  constructor <;> simp [Candidates.listed, Candidates.clear]

/-- A list of values with one more written behind them. -/
theorem map_range_update {β : Type} (a : ℕ → β) (n : ℕ) (x : β) :
    (List.range (n + 1)).map (update a n x) = (List.range n).map a ++ [x] := by
  rw [range_succ, map_append, map_singleton, update_self]
  congr 1
  apply map_congr_left
  intro k hk
  rw [update_of_ne (mem_range.mp hk).ne]

theorem map_range_shift {β : Type} (a : ℕ → β) :
    (List.range (candidatesMax - 1)).map (shift a) = ((List.range candidatesMax).map a).tail := by
  have hmax : candidatesMax = candidatesMax - 1 + 1 := rfl
  rw [hmax, range_succ_eq_map, map_cons, tail_cons, map_map, ← hmax]
  apply map_congr_left
  intro k hk
  rw [shift_apply, if_pos (mem_range.mp hk), comp_apply]

variable {cc : Candidates τ}

theorem Candidates.listed_enter (h : cc.count ≤ candidatesMax) (freq : ℤ) (flags : BitVec 8) :
    (cc.enter freq flags).listed =
      (if cc.count < candidatesMax then cc.listed else cc.listed.tail) ++ [freq] := by
  by_cases hroom : cc.count < candidatesMax
  · rw [Candidates.enter, if_pos hroom, if_pos hroom]
    exact map_range_update cc.candidates cc.count freq
  · have hfull : cc.count = candidatesMax := le_antisymm h (not_lt.mp hroom)
    rw [Candidates.enter, if_neg hroom, if_neg hroom, Candidates.listed, Candidates.listed, hfull,
      ← map_range_shift]
    simp only [Candidates.write, Candidates.dropOldest, hfull]
    exact map_range_update (shift cc.candidates) (candidatesMax - 1) freq

/-- A new frequency entered keeps the table sound. -/
theorem Candidates.Sound.enter (h : cc.Sound) {freq : ℤ} (hfreq : freq ≠ 0)
    (hnew : freq ∉ cc.listed) (flags : BitVec 8) : (cc.enter freq flags).Sound := by
  have hlisted := Candidates.listed_enter h.count_le freq flags
  have hsub : (if cc.count < candidatesMax then cc.listed else cc.listed.tail).Sublist
    cc.listed := by
    split
    · exact List.Sublist.refl _
    · exact tail_sublist _
  constructor
  · have := h.count_le
    simp only [Candidates.enter]
    split <;> simp [Candidates.write, Candidates.dropOldest] <;> omega
  · have := h.idx_le
    simp only [Candidates.enter]
    split
    · simp [Candidates.write]; omega
    · simp [Candidates.write, Candidates.dropOldest]; split <;> omega
  · rw [hlisted, nodup_append]
    refine ⟨h.nodup.sublist hsub, by simp, fun a ha b hb => ?_⟩
    have hb' : b = freq := by simpa using hb
    rw [hb']
    intro hab
    exact hnew (hab ▸ hsub.subset ha)
  · rw [hlisted]
    simp only [mem_append, mem_singleton, not_or]
    exact ⟨fun h0 => h.nonzero (hsub.subset h0), hfreq.symm⟩

/-- Entering a frequency keeps the others in turn. -/
theorem Candidates.Sound.turns_enter (h : cc.Sound) {freq : ℤ} (hfreq : freq ≠ 0)
    (hnew : freq ∉ cc.listed) (flags : BitVec 8) :
    Turns cc.order ⟨none, (cc.enter freq flags).order⟩ := by
  have henter := h.enter hfreq hnew flags
  have hlisted := Candidates.listed_enter h.count_le freq flags
  have hidx := h.idx_le
  have hsplit := h.order_split
  have hsplit' := henter.order_split
  rw [hlisted] at hsplit'
  by_cases hroom : cc.count < candidatesMax
  · have hcursor : (cc.enter freq flags).idx = cc.idx := by
      rw [Candidates.enter, if_pos hroom]
      rfl
    have hlen : cc.idx ≤ cc.listed.length := by simpa using hidx
    rw [if_pos hroom, hcursor, drop_append_of_le_length hlen,
      take_append_of_le_length hlen] at hsplit'
    apply Turns.of_kept h.nodup_order henter.nodup_order (List.Sublist.refl _)
    · rw [hsplit, hsplit']
      exact (sublist_append_left _ _).append (List.Sublist.refl _)
    · intro z hz _
      exact hz
  · have hcursor : (cc.enter freq flags).idx = cc.idx - 1 := by
      rw [Candidates.enter, if_neg hroom]
      simp only [Candidates.write, Candidates.dropOldest]
      split <;> omega
    have hfull : cc.count = 16 := le_antisymm h.count_le (not_lt.mp hroom)
    obtain ⟨oldest, rest, hrest⟩ : ∃ oldest rest, cc.listed = oldest :: rest := by
      apply exists_cons_of_length_pos
      rw [cc.length_listed, hfull]
      omega
    have hboth : ∀ z ∈ cc.order, z ∈ (cc.enter freq flags).order → z ∈ rest := by
      intro z hz hz'
      rw [Candidates.mem_order] at hz hz'
      rw [hlisted, if_neg hroom, hrest] at hz'
      have hne : z ≠ freq := fun he => hnew (he ▸ hz)
      simpa [hne] using hz'
    have hlen : cc.idx - 1 ≤ rest.length := by
      have := cc.length_listed
      rw [hrest, length_cons] at this
      omega
    rw [if_neg hroom, hcursor, hrest, tail_cons, drop_append_of_le_length hlen,
      take_append_of_le_length hlen] at hsplit'
    rw [hrest] at hsplit
    have hbefore : (rest.drop (cc.idx - 1) ++ rest.take (cc.idx - 1)).Sublist cc.order := by
      rw [hsplit]
      cases cc.idx with
      | zero => simp
      | succ i => simp
    have hafter : (rest.drop (cc.idx - 1) ++ rest.take (cc.idx - 1)).Sublist
        (cc.enter freq flags).order := by
      rw [hsplit']
      exact (sublist_append_left _ _).append (List.Sublist.refl _)
    apply Turns.of_kept h.nodup_order henter.nodup_order hbefore hafter
    intro z hz hz'
    rw [mem_append, or_comm, ← mem_append, take_append_drop]
    exact hboth z hz hz'

end Zeroed

end DsdNeo.CcCandidates
