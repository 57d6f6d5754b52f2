import DsdNeo.Models.Trunk.CcCandidates

/-!
# Fair turns

Every call keeps the list sound, and what it does to the order of the candidates is a turn of
the rotation or a change that keeps the order of those that stay. `next` looks at the
candidates in the order from the cursor and takes the first that may be taken.
-/

namespace DsdNeo.CcCandidates

open Queue Candidates List

variable {τ : Type}

/-- A list with the same frequencies and the same cursor. -/
def Candidates.Same (cc cc' : Candidates τ) : Prop :=
  cc'.candidates = cc.candidates ∧ cc'.count = cc.count ∧ cc'.idx = cc.idx

theorem Candidates.Same.order {cc cc' : Candidates τ} (h : cc.Same cc') : cc'.order = cc.order := by
  obtain ⟨hcandidates, hcount, hidx⟩ := h
  simp only [Candidates.order, Candidates.places, hcandidates, hcount, hidx]

theorem Candidates.Same.sound {cc cc' : Candidates τ} (h : cc.Same cc') (hs : cc.Sound) :
    cc'.Sound := by
  obtain ⟨hcandidates, hcount, hidx⟩ := h
  have hlisted : cc'.listed = cc.listed := by
    simp only [Candidates.listed, hcandidates, hcount]
  exact ⟨hcount ▸ hs.count_le, by rw [hidx, hcount]; exact hs.idx_le, hlisted ▸ hs.nodup,
    hlisted ▸ hs.nonzero⟩

theorem Candidates.same_setCooldown (cc : Candidates τ) (freq : ℤ) (untilTime : τ) :
    cc.Same (cc.setCooldown freq untilTime) := by
  rw [Candidates.setCooldown]
  split <;> exact ⟨rfl, rfl, rfl⟩

theorem Candidates.places_cursor {cc : Candidates τ} (hidx : cc.idx ≤ cc.count)
    (hcount : 0 < cc.count) :
    cc.cursor < cc.count ∧ ∃ rest, cc.places = cc.cursor :: rest ∧
      ({ cc with idx := cc.cursor + 1 } : Candidates τ).places = rest ++ [cc.cursor] := by
  have hlt : cc.cursor < cc.count := by
    rw [Candidates.cursor]
    split <;> omega
  have hstart : cc.places = (List.range cc.count).rotate cc.cursor := by
    rw [Candidates.cursor, Candidates.places]
    split
    · have hend : cc.idx = (List.range cc.count).length := by
        rw [length_range]
        omega
      rw [hend, rotate_length, rotate_zero]
    · rfl
  refine ⟨hlt, (List.range cc.count).drop (cc.cursor + 1) ++ (List.range cc.count).take cc.cursor,
    ?_, ?_⟩
  · rw [hstart, rotate_eq_drop_append_take (by simpa using hlt.le),
      drop_eq_getElem_cons (by simpa using hlt), getElem_range, cons_append]
  · have hsucc : cc.cursor + 1 ≤ (List.range cc.count).length := by
      rw [length_range]
      exact hlt
    rw [Candidates.places, rotate_eq_drop_append_take hsucc, take_succ_eq_append_getElem hsucc,
      getElem_range, append_assoc]

/-- A state whose list, if it has one, is sound. -/
def Sound (s : Store τ) : Prop := ∀ cc ∈ s, cc.Sound

/-- A call that changes the list of a state once. -/
def Changed (s s' : Store τ) : Prop := Sound s' ∧ Turns (order s) ⟨none, order s'⟩

theorem nodup_order {s : Store τ} (h : Sound s) : (order s).Nodup := by
  cases s with
  | none => simp [order]
  | some cc => exact (h cc rfl).nodup_order

theorem setCooldown_changed {s : Store τ} (h : Sound s) (freq : ℤ) (untilTime : τ) :
    Changed s (setCooldown s freq untilTime) := by
  rw [setCooldown]
  split
  · exact ⟨h, Turns.still _⟩
  · cases s with
    | none => exact ⟨h, Turns.still _⟩
    | some cc =>
      have hsame := cc.same_setCooldown freq untilTime
      refine ⟨by simpa [Sound] using hsame.sound (h cc rfl), ?_⟩
      simp only [Option.map_some, order, Option.elim_some, hsame.order]
      exact Turns.still _

section Zeroed

variable [Zero τ]

theorem Candidates.Sound.add {cc : Candidates τ} (h : cc.Sound) {freq : ℤ} (hfreq : freq ≠ 0)
    (bumpAdded : Bool) (flags : BitVec 8) :
    (cc.add freq bumpAdded flags).2.Sound ∧
      Turns cc.order ⟨none, (cc.add freq bumpAdded flags).2.order⟩ := by
  rw [Candidates.add, if_pos h.count_le]
  cases hplace : cc.placeOf freq with
  | some k =>
    have hsame : cc.Same { cc with flags := Function.update cc.flags k (cc.flags k ||| flags) } :=
      ⟨rfl, rfl, rfl⟩
    refine ⟨hsame.sound h, ?_⟩
    rw [hsame.order]
    exact Turns.still _
  | none =>
    have hnew := placeOf_eq_none.mp hplace
    have hsame : (cc.enter freq flags).Same (if bumpAdded then
        { cc.enter freq flags with added := (cc.enter freq flags).added + 1 }
        else cc.enter freq flags) := by
      split <;> exact ⟨rfl, rfl, rfl⟩
    refine ⟨hsame.sound (h.enter hfreq hnew flags), ?_⟩
    rw [hsame.order]
    exact h.turns_enter hfreq hnew flags

theorem Candidates.order_clear (cc : Candidates τ) : cc.clear.order = [] := by
  simp [Candidates.order, Candidates.places, Candidates.clear]

section Next

variable [LT τ] [DecidableLT τ]

/-- The candidates `next` may return: those with the flags it asks for that are not the control
channel it skips and are not cooling down. -/
def Candidates.Eligible (cc : Candidates τ) (r : Request τ) (k : ℕ) : Prop :=
  cc.flags k &&& r.required = r.required ∧ cc.candidates k ≠ r.skipCcFreq ∧
    ¬(0 < cc.coolUntil k ∧ r.now < cc.coolUntil k)

instance (cc : Candidates τ) (r : Request τ) (k : ℕ) : Decidable (cc.Eligible r k) :=
  inferInstanceAs (Decidable (_ ∧ _ ∧ _))

variable {cc : Candidates τ}

theorem Candidates.isAllowed_iff {r : Request τ} {k : ℕ} (hnonzero : cc.candidates k ≠ 0) :
    cc.isAllowed r k = true ↔ cc.Eligible r k := by
  have hrequired : r.required ≠ 0 ∧ cc.flags k &&& r.required ≠ r.required ↔
      cc.flags k &&& r.required ≠ r.required := by
    refine ⟨And.right, fun hne => ⟨fun hzero => hne ?_, hne⟩⟩
    rw [hzero]
    exact BitVec.and_zero
  simp only [Candidates.isAllowed, Candidates.Eligible, hrequired, hnonzero, false_or]
  split
  · simp_all
  · split
    · simp_all
    · split <;> simp_all

/-- What one turn of the loop does: the frequency at the cursor is examined and goes to the end
of the order. -/
structure Candidates.Tried (cc : Candidates τ) (r : Request τ) (out : Option ℤ × Candidates τ) :
    Prop where
  candidates : out.2.candidates = cc.candidates
  flags : out.2.flags = cc.flags
  coolUntil : out.2.coolUntil = cc.coolUntil
  count : out.2.count = cc.count
  idx_le : out.2.idx ≤ cc.count
  result : out.1 = if cc.isAllowed r cc.cursor then some (cc.candidates cc.cursor) else none
  places : ∃ rest, cc.places = cc.cursor :: rest ∧ out.2.places = rest ++ [cc.cursor]

theorem Candidates.nextTry_tried (hidx : cc.idx ≤ cc.count) (hcount : 0 < cc.count)
    (r : Request τ) : cc.Tried r (cc.nextTry r) := by
  obtain ⟨hlt, hplaces⟩ := places_cursor hidx hcount
  have hallowed : ({ cc with idx := cc.cursor + 1 } : Candidates τ).isAllowed r cc.cursor =
      cc.isAllowed r cc.cursor := rfl
  rw [Candidates.nextTry, hallowed]
  split <;> rename_i hif
  · exact ⟨rfl, rfl, rfl, rfl, hlt, by rw [if_pos hif], hplaces⟩
  · exact ⟨rfl, rfl, rfl, rfl, hlt, by rw [if_neg hif], hplaces⟩

namespace Candidates.Tried

variable {cc : Candidates τ} {r : Request τ} {out : Option ℤ × Candidates τ}

theorem isAllowed (h : cc.Tried r out) : out.2.isAllowed r = cc.isAllowed r := by
  funext k
  simp only [Candidates.isAllowed, h.candidates, h.flags, h.coolUntil]

theorem sound (h : cc.Tried r out) (hs : cc.Sound) : out.2.Sound := by
  have hlisted : out.2.listed = cc.listed := by
    simp only [Candidates.listed, h.candidates, h.count]
  exact ⟨h.count ▸ hs.count_le, h.count ▸ h.idx_le, hlisted ▸ hs.nodup, hlisted ▸ hs.nonzero⟩

theorem turns (h : cc.Tried r out) :
    Turns cc.order ⟨some (cc.candidates cc.cursor), out.2.order⟩ := by
  obtain ⟨rest, hplaces, hplaces'⟩ := h.places
  have horder : cc.order = cc.candidates cc.cursor :: rest.map cc.candidates := by
    rw [Candidates.order, hplaces, map_cons]
  have horder' : out.2.order = rest.map cc.candidates ++ [cc.candidates cc.cursor] := by
    rw [Candidates.order, hplaces', h.candidates, map_append, map_singleton]
  rw [horder, horder']
  exact Turns.examine _ _

end Candidates.Tried

theorem Candidates.Sound.nextLoop (h : cc.Sound) (r : Request τ) {tries : ℕ}
    (htries : tries ≤ cc.count) :
    (cc.nextLoop r tries).2.Sound ∧
    (cc.nextLoop r tries).1 = ((cc.places.take tries).find? (cc.isAllowed r)).map cc.candidates ∧
    Rotates cc.order (cc.loopMoments r tries) ∧
    ends cc.order (cc.loopMoments r tries) = (cc.nextLoop r tries).2.order := by
  induction tries generalizing cc with
  | zero => exact ⟨h, by simp [Candidates.nextLoop], trivial, rfl⟩
  | succ tries ih =>
    have htried := nextTry_tried h.idx_le (by omega) r
    have hsound := htried.sound h
    obtain ⟨rest, hplaces, hplaces'⟩ := htried.places
    rw [Candidates.nextLoop, Candidates.loopMoments, hplaces, take_succ_cons, find?_cons]
    by_cases hallowed : cc.isAllowed r cc.cursor = true
    · have hresult := htried.result
      rw [if_pos hallowed] at hresult
      have hpair : cc.nextTry r = (some (cc.candidates cc.cursor), (cc.nextTry r).2) :=
        Prod.ext hresult rfl
      rw [hpair, hallowed]
      exact ⟨hsound, rfl, ⟨htried.turns, hsound.nodup_order, trivial⟩, rfl⟩
    · have hresult := htried.result
      rw [if_neg hallowed] at hresult
      have hpair : cc.nextTry r = (none, (cc.nextTry r).2) := Prod.ext hresult rfl
      have hlen : tries ≤ rest.length := by
        have hlength : cc.places.length = cc.count := by simp [Candidates.places]
        rw [hplaces, length_cons] at hlength
        omega
      obtain ⟨ihsound, ihfind, ihrot, ihends⟩ := ih hsound (by rw [htried.count]; omega)
      rw [hplaces', take_append_of_le_length hlen, htried.isAllowed, htried.candidates] at ihfind
      rw [hpair, Bool.not_eq_true _ |>.mp hallowed]
      exact ⟨ihsound, ihfind, ⟨htried.turns, hsound.nodup_order, ihrot⟩, ihends⟩

end Next

theorem add_changed {s : Store τ} (h : Sound s) (freq : ℤ) (bumpAdded : Bool) (flags : BitVec 8)
    (allocates : Bool) : Changed s (add s freq bumpAdded flags allocates).2 := by
  have hstill : Changed s s := ⟨h, Turns.still _⟩
  by_cases hfreq : freq = 0
  · simpa only [add, if_pos hfreq] using hstill
  · simp only [add, if_neg hfreq]
    cases s with
    | none =>
      cases allocates with
      | false => exact hstill
      | true =>
        have hempty : (Candidates.fresh : Candidates τ).order = [] := by
          simp [Candidates.order, Candidates.places, Candidates.fresh]
        obtain ⟨hsound, hturns⟩ := fresh_sound.add hfreq bumpAdded flags (τ := τ)
        rw [hempty] at hturns
        exact ⟨by simpa [Sound] using hsound, hturns⟩
    | some cc =>
      obtain ⟨hsound, hturns⟩ := (h cc rfl).add hfreq bumpAdded flags
      exact ⟨by simpa [Sound] using hsound, hturns⟩

theorem reset_changed (s : Store τ) : Changed s (reset s) := by
  cases s with
  | none => exact ⟨by simp [reset, Sound], Turns.still _⟩
  | some cc =>
    have hsame : cc.clear.Same { cc.clear with added := 0, used := 0 } := ⟨rfl, rfl, rfl⟩
    refine ⟨by simpa [Sound, reset] using hsame.sound cc.clear_sound, ?_⟩
    simp only [reset, Option.map_some, order, Option.elim_some, hsame.order, cc.order_clear]
    exact Turns.cleared _

section Runs

variable [LT τ] [DecidableLT τ]

/-- What one call does to the list and to the order of turns. -/
theorem perform_rotates {s : Store τ} (h : Sound s) (op : Op τ) :
    Sound (perform s op) ∧ Rotates (order s) (moments s op) ∧
      ends (order s) (moments s op) = order (perform s op) := by
  have honce : ∀ s', Changed s s' → Sound s' ∧ Rotates (order s) [⟨none, order s'⟩] ∧
      ends (order s) [⟨none, order s'⟩] = order s' :=
    fun s' hs' => ⟨hs'.1, ⟨hs'.2, nodup_order hs'.1, trivial⟩, rfl⟩
  cases op with
  | add freq bumpAdded flags allocates =>
    exact honce _ (add_changed h freq bumpAdded flags allocates)
  | setCooldown freq untilTime => exact honce _ (setCooldown_changed h freq untilTime)
  | reset => exact honce _ (reset_changed s)
  | next r =>
    cases s with
    | none => exact ⟨h, trivial, rfl⟩
    | some cc =>
      have hcc := h cc rfl
      obtain ⟨hsound, -, hrot, hends⟩ := hcc.nextLoop r le_rfl
      have hnext : cc.next r = cc.nextLoop r cc.count := if_pos hcc.count_le
      simp only [perform, next, moments, order, Option.elim_some, hnext]
      exact ⟨by simpa [Sound] using hsound, hrot, hends⟩

theorem run_rotates {s : Store τ} (h : Sound s) (ops : List (Op τ)) :
    Sound (ops.foldl perform s) ∧ Rotates (order s) (logFrom s ops) := by
  induction ops generalizing s with
  | nil => exact ⟨h, trivial⟩
  | cons op ops ih =>
    obtain ⟨hsound, hrot, hends⟩ := perform_rotates h op
    obtain ⟨ihsound, ihrot⟩ := ih hsound
    exact ⟨ihsound, rotates_append.mpr ⟨hrot, hends ▸ ihrot⟩⟩

theorem Candidates.Sound.next_eq {cc : Candidates τ} (h : cc.Sound) (r : Request τ) :
    (cc.next r).1 = (cc.places.find? (cc.Eligible r)).map cc.candidates := by
  have hnext : cc.next r = cc.nextLoop r cc.count := if_pos h.count_le
  have hlen : cc.places.length = cc.count := by simp [Candidates.places]
  rw [hnext, (h.nextLoop r le_rfl).2.1, take_of_length_le hlen.le]
  rw [← head?_filter, ← head?_filter]
  congr 2
  apply filter_congr
  intro k hk
  have hlisted : cc.candidates k ∈ cc.order := mem_map_of_mem hk
  have hnonzero : cc.candidates k ≠ 0 := fun h0 => h.nonzero (h0 ▸ mem_order.mp hlisted)
  rw [Bool.eq_iff_iff, isAllowed_iff hnonzero, decide_eq_true_iff]

theorem Candidates.Sound.next_eq_none {cc : Candidates τ} (h : cc.Sound) (r : Request τ) :
    (cc.next r).1 = none ↔ ∀ k < cc.count, ¬cc.Eligible r k := by
  rw [h.next_eq, Option.map_eq_none_iff, find?_eq_none]
  simp [Candidates.places]

/-- Over any calls, the listed frequencies are distinct, not zero and no more than the list holds;
`next` returns the first eligible one in cyclic order from the cursor and fails only where there
is none; and every candidate listed throughout has one turn between two of another. -/
theorem candidates_rotate_fairly (ops : List (Op τ)) :
    (∀ cc ∈ run ops,
      cc.listed.Nodup ∧ 0 ∉ cc.listed ∧ cc.listed.length ≤ candidatesMax ∧
      ∀ r : Request τ,
        (next (run ops) r).1 = (cc.places.find? (cc.Eligible r)).map cc.candidates ∧
        ((next (run ops) r).1 = none ↔ ∀ k < cc.count, ¬cc.Eligible r k)) ∧
    (run ops = none → ∀ r : Request τ, (next (run ops) r).1 = none) ∧ Fair (logFrom none ops) := by
  have hnone : Sound (none : Store τ) := by simp [Sound]
  obtain ⟨hsound, hrot⟩ := run_rotates hnone ops
  refine ⟨fun cc hcc => ?_, fun hrun r => ?_, hrot.fair⟩
  · have h : cc.Sound := hsound cc hcc
    have hrun : run ops = some cc := hcc
    rw [hrun]
    exact ⟨h.nodup, h.nonzero, by rw [cc.length_listed]; exact h.count_le,
      fun r => ⟨h.next_eq r, h.next_eq_none r⟩⟩
  · rw [hrun]
    rfl

end Runs

end Zeroed

/-- Three candidates, the second cooling down, and four calls of `next`. -/
def threeInTurn : List (Op ℤ) :=
  let r : Request ℤ := ⟨10, 0, 0, 0⟩
  [.add 851 true 0 true, .add 852 true 0 true, .add 853 true 0 true, .setCooldown 852 20,
    .next r, .next r, .next r]

/-- Three candidates, one of them cooling down. -/
theorem candidates_rotate_fairly_three :
    turns 852 (((logFrom none threeInTurn).drop 5).take 2) = 1 ∧
      (next (run threeInTurn) ⟨30, 0, 0, 0⟩).1 = some 852 := by
  have hall := candidates_rotate_fairly threeInTurn
  refine ⟨hall.2.2 851 852 ((logFrom none threeInTurn).take 4) _ [] ⟨some 851, [852, 853, 851]⟩
    ⟨some 851, [852, 853, 851]⟩ (by rfl) (by decide) rfl rfl (by decide) (by decide), ?_⟩
  obtain ⟨-, -, -, hnext⟩ := hall.1 _ rfl
  rw [(hnext _).1]
  decide

end DsdNeo.CcCandidates
