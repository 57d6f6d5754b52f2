import DsdNeo.Models.Dmr.VoiceCrypto
import Mathlib.Algebra.Order.Group.Unbundled.Int

/-!
# Superframes of an encrypted call

A call's voice syncs are due every 1728 symbols and each superframe has the indicator
after the one before it. What a receiver reads of such a call, in any order it can come,
and why a slot that is trusted has the superframe's own indicator.
-/

namespace DsdNeo.Dmr

/-- What happens on the slot. A start names the superframe its voice sync belongs to. -/
inductive Event where
  | header (clock mi : BitVec 64)
  | start (k : ℕ) (clock : BitVec 64)
  | step
  | install (mi : BitVec 64)
  | finish
  | lose
  | forget
  | timeline (epoch carrier : BitVec 32)

/-- What the code does on it. -/
def Event.apply : Event → Vcrypt → Vcrypt
  | .header clock mi, s => ((s.read clock).install mi).noteFirst
  | .start _ clock, s => (s.read clock).superframeStart
  | .step, s => s.stepMi
  | .install mi, s => (s.install mi).noteNextSuperframeMi
  | .finish, s => s.superframeEnd
  | .lose, s => s.lose
  | .forget, s => s.forget
  | .timeline epoch carrier, s => s.onTimeline epoch carrier

/-- The slot after a run. -/
def run (s : Vcrypt) (events : List Event) : Vcrypt := events.foldl (fun s e => e.apply s) s

theorem run_concat (s : Vcrypt) (events : List Event) (e : Event) :
    run s (events ++ [e]) = e.apply (run s events) := by
  rw [run, List.foldl_append]
  rfl

/-- A call on the air: when its first voice sync is due, its cipher and the indicator of its
first superframe. -/
structure AirCall where
  due : ℤ
  algid : ℕ
  mi : BitVec 64

/-- The indicator of a superframe. -/
def AirCall.miAt (a : AirCall) (k : ℕ) : BitVec 64 := Dmr.miAt a.algid a.mi k

/-- How far from the grid a superframe's voice sync was read. -/
def AirCall.displacement (a : AirCall) (k : ℕ) (clock : BitVec 64) : ℤ :=
  clock.toNat - (a.due + 1728 * k)

/-- Where a receiver is in the call. -/
inductive Watch where
  /-- No superframe was seen; the clock of the last header. -/
  | waiting (header : Option (BitVec 64))
  /-- The superframe whose voice sync was read last, and its clock. -/
  | begun (k : ℕ) (sync : BitVec 64)
  | stepped (k : ℕ) (sync : BitVec 64)
  | ended (k : ℕ) (sync : BitVec 64)

/-- A voice sync that follows another on the grid. -/
def AirCall.Succeeds (a : AirCall) (j : ℕ) (sync : BitVec 64) (k : ℕ) (clock : BitVec 64) : Prop :=
  j < k ∧ |a.displacement k clock - a.displacement j sync| < 864 ∧
    clock.toNat < sync.toNat + (2 ^ 63 - 864)

/-- What can come next of the call. -/
def AirCall.Admits (a : AirCall) : Watch → Event → Prop
  | .waiting _, .header _ mi => mi = a.mi
  | _, .header _ _ => False
  | .waiting none, .start _ _ => True
  | .waiting (some header), .start k clock => k = 0 ∨ header.toNat + 1152 < clock.toNat
  | .begun j sync, .start k clock => a.Succeeds j sync k clock
  | .ended j sync, .start k clock => a.Succeeds j sync k clock
  | .stepped _ _, .start _ _ => False
  | .begun _ _, .step => True
  | _, .step => False
  | .begun k _, .install mi => mi = a.miAt k
  | .stepped k _, .install mi => mi = a.miAt (k + 1)
  | _, .install _ => False
  | .stepped _ _, .finish => True
  | _, .finish => False
  | _, _ => True

/-- Where the receiver is after it. -/
def Watch.after : Watch → Event → Watch
  | _, .header clock _ => .waiting (some clock)
  | _, .start k clock => .begun k clock
  | .begun k sync, .step => .stepped k sync
  | .stepped k sync, .finish => .ended k sync
  | w, _ => w

/-- A run of the call. -/
def AirCall.Follows (a : AirCall) : Watch → List Event → Prop
  | _, [] => True
  | w, e :: events => a.Admits w e ∧ a.Follows (w.after e) events

/-- What the slot knows of the call. -/
def AirCall.Sound (a : AirCall) : Watch → Vcrypt → Prop
  | .waiting header, s => s.payloadAlgid = a.algid ∧ s.refState ≠ .valid ∧
      (s.refState = .first → header = some s.refClock ∧ s.payloadMi = a.mi)
  | .begun k sync, s => s.payloadAlgid = a.algid ∧ s.refState ≠ .first ∧ s.refClock = sync ∧
      (s.refState = .valid → s.payloadMi = a.miAt k)
  | .stepped k sync, s => s.payloadAlgid = a.algid ∧ s.refState ≠ .first ∧ s.refClock = sync ∧
      (s.refState = .valid → s.payloadMi = a.miAt (k + 1))
  | .ended k sync, s => s.payloadAlgid = a.algid ∧ s.refState ≠ .first ∧
      (s.refState = .valid → s.refClock = sync + 1728 ∧ s.payloadMi = a.miAt (k + 1))

variable {a : AirCall} {w : Watch} {s : Vcrypt} {e : Event}

/-- A slot that knows nothing is sound wherever the receiver is, the last voice sync apart. -/
theorem AirCall.Sound.unknown (h : a.Sound w s) {t : Vcrypt} (hstate : t.refState = .none)
    (halg : t.payloadAlgid = s.payloadAlgid) (hclock : t.refClock = s.refClock) : a.Sound w t := by
  cases w with
  | waiting header => exact ⟨halg.trans h.1, by rw [hstate]; nofun, by rw [hstate]; nofun⟩
  | begun k sync =>
    exact ⟨halg.trans h.1, by rw [hstate]; nofun, hclock.trans h.2.2.1, by rw [hstate]; nofun⟩
  | stepped k sync =>
    exact ⟨halg.trans h.1, by rw [hstate]; nofun, hclock.trans h.2.2.1, by rw [hstate]; nofun⟩
  | ended k sync => exact ⟨halg.trans h.1, by rw [hstate]; nofun, by rw [hstate]; nofun⟩

/-- A late-entry indicator, which only a slot with a voice sync on this timeline takes. -/
theorem noteNextSuperframeMi_cases (s : Vcrypt) :
    s.noteNextSuperframeMi = s ∨
      (s.refState ≠ .first ∧ s.noteNextSuperframeMi = { s with refState := .valid }) := by
  unfold Vcrypt.noteNextSuperframeMi
  split
  · exact .inl rfl
  · rename_i h
    exact .inr ⟨fun hf => h (.inl hf), rfl⟩

theorem superframes_between {j k m : ℕ} {sync clock : BitVec 64} (hm : m ≤ 1)
    (h : a.Succeeds j sync k clock) (href : s.refClock = sync + BitVec.ofNat 64 (1728 * m)) :
    (s.read clock).superframes.toNat + (j + m) = k := by
  obtain ⟨hjk, hnear, hbound⟩ := h
  obtain ⟨n, rfl⟩ : ∃ n, k = j + m + n := ⟨k - (j + m), by omega⟩
  rw [abs_lt] at hnear
  simp only [AirCall.displacement] at hnear
  push_cast at hnear
  have hdelta : (s.read clock).delta =
      BitVec.ofInt 64 (1728 * n + (clock.toNat - sync.toNat - 1728 * (n + m))) := by
    refine BitVec.eq_of_toNat_eq ?_
    show (clock - s.refClock).toNat = _
    have hclock := clock.isLt
    have hsync := sync.isLt
    rw [href, BitVec.toNat_sub, BitVec.toNat_add, BitVec.toNat_ofNat, BitVec.toNat_ofInt]
    omega
  obtain ⟨-, hcount⟩ :=
    (s.read clock).superframes_of_near (by omega) (by omega) (by omega) hdelta
  omega

theorem AirCall.Sound.start (h : a.Sound w s) {k : ℕ} {clock : BitVec 64}
    (hadmits : a.Admits w (.start k clock)) :
    a.Sound (.begun k clock) ((s.read clock).superframeStart) := by
  -- The stamp puts the reference at this voice sync whatever is made of the old one.
  have hclock : ((s.read clock).superframeStart).refClock = clock :=
    (s.read clock).account_symbolClock
  have halg : s.payloadAlgid = a.algid := by cases w <;> exact h.1
  obtain ⟨hstate, -, hkept⟩ | ⟨hfirst, hle, hwindow, hstate, hkept, hmi⟩ |
      ⟨hvalid, hstate, hkept, hmi⟩ := (s.read clock).account_cases
  · have hnone : ((s.read clock).superframeStart).refState = .none := hstate
    exact ⟨hkept.trans halg, by rw [hnone]; nofun, hclock, by rw [hnone]; nofun⟩
  · have hstart : ((s.read clock).superframeStart).refState = .valid := hstate
    refine ⟨hkept.trans halg, by rw [hstart]; nofun, hclock, fun _ => hmi.trans ?_⟩
    cases w with
    | waiting header =>
      obtain ⟨hheader, hfresh⟩ := h.2.2 hfirst
      rw [hheader] at hadmits
      obtain rfl | hlate := hadmits
      · exact hfresh
      · -- A superframe past the window is not taken for the first.
        have hsub := BitVec.toNat_sub_of_le hle
        have hspan := BitVec.le_def.mp hwindow
        have hlast : firstWindowSymbols.toNat = 1152 := rfl
        change _ = clock.toNat - s.refClock.toNat at hsub
        omega
    | begun j sync => exact absurd hfirst h.2.1
    | stepped j sync => exact absurd hfirst h.2.1
    | ended j sync => exact absurd hfirst h.2.1
  · have hstart : ((s.read clock).superframeStart).refState = .valid := hstate
    have hfound : ((s.read clock).superframeStart).payloadMi =
        (nextMi s.payloadAlgid)^[(s.read clock).superframes.toNat] s.payloadMi := hmi
    refine ⟨hkept.trans halg, by rw [hstart]; nofun, hclock, fun _ => ?_⟩
    rw [hfound, halg]
    cases w with
    | waiting header => exact absurd hvalid h.2.1
    | begun j sync =>
      have hcount := superframes_between (m := 0) (by omega) hadmits (h.2.2.1.trans (by simp))
      rw [h.2.2.2 hvalid, AirCall.miAt, iterate_nextMi_miAt]
      exact congrArg (Dmr.miAt a.algid a.mi) hcount
    | stepped j sync => exact absurd hadmits id
    | ended j sync =>
      obtain ⟨href, hheld⟩ := h.2.2 hvalid
      have hcount := superframes_between (m := 1) (by omega) hadmits href
      rw [hheld, AirCall.miAt, iterate_nextMi_miAt]
      exact congrArg (Dmr.miAt a.algid a.mi) hcount

theorem AirCall.Sound.install (h : a.Sound w s) {mi : BitVec 64}
    (hadmits : a.Admits w (.install mi)) :
    a.Sound (w.after (.install mi)) ((s.install mi).noteNextSuperframeMi) := by
  obtain hsame | ⟨-, hvalid⟩ := noteNextSuperframeMi_cases (s.install mi)
  · rw [hsame]
    cases w with
    | waiting header => exact absurd hadmits id
    | begun k sync => exact ⟨h.1, h.2.1, h.2.2.1, fun _ => hadmits⟩
    | stepped k sync => exact ⟨h.1, h.2.1, h.2.2.1, fun _ => hadmits⟩
    | ended k sync => exact absurd hadmits id
  · rw [hvalid]
    cases w with
    | waiting header => exact absurd hadmits id
    | begun k sync => exact ⟨h.1, nofun, h.2.2.1, fun _ => hadmits⟩
    | stepped k sync => exact ⟨h.1, nofun, h.2.2.1, fun _ => hadmits⟩
    | ended k sync => exact absurd hadmits id

/-- The end of a superframe moves the reference on with its indicator. -/
theorem AirCall.Sound.finish (h : a.Sound w s) (hadmits : a.Admits w .finish) :
    a.Sound (w.after .finish) s.superframeEnd := by
  cases w with
  | waiting header => exact absurd hadmits id
  | begun k sync => exact absurd hadmits id
  | stepped k sync =>
    refine ⟨h.1, h.2.1, fun hvalid => ⟨?_, h.2.2.2 hvalid⟩⟩
    have hvalid' : s.refState = .valid := hvalid
    show (if s.refState = .valid then s.refClock + superframeSymbols else s.refClock) = _
    rw [if_pos hvalid', h.2.2.1]
    rfl
  | ended k sync => exact absurd hadmits id

theorem AirCall.Sound.event (h : a.Sound w s) (hadmits : a.Admits w e) :
    a.Sound (w.after e) (e.apply s) := by
  cases e with
  | header clock mi =>
    cases w with
    | waiting header => exact ⟨h.1, nofun, fun _ => ⟨rfl, hadmits⟩⟩
    | begun k sync => exact absurd hadmits id
    | stepped k sync => exact absurd hadmits id
    | ended k sync => exact absurd hadmits id
  | start k clock => exact h.start hadmits
  | step =>
    cases w with
    | waiting header => exact absurd hadmits id
    | begun k sync =>
      obtain ⟨halg, hfirst, hclock, hheld⟩ := h
      refine ⟨s.stepMi_payloadAlgid.trans halg, ?_, s.stepMi_refClock.trans hclock, ?_⟩
      · rw [Event.apply, Vcrypt.stepMi_refState]
        exact hfirst
      · rw [Event.apply, Vcrypt.stepMi_refState, Vcrypt.stepMi_payloadMi, halg]
        intro hvalid
        rw [hheld hvalid]
        exact nextMi_miAt a.algid a.mi k
    | stepped k sync => exact absurd hadmits id
    | ended k sync => exact absurd hadmits id
  | install mi => exact h.install hadmits
  | finish => exact h.finish hadmits
  | lose =>
    have hafter : w.after .lose = w := by cases w <;> rfl
    exact hafter ▸ h.unknown rfl rfl rfl
  | forget =>
    have hafter : w.after .forget = w := by cases w <;> rfl
    exact hafter ▸ h.unknown rfl rfl rfl
  | timeline epoch carrier =>
    cases w with
    | waiting header => exact h
    | begun k sync => exact h
    | stepped k sync => exact h
    | ended k sync => exact h

theorem AirCall.Sound.run {events : List Event} (h : a.Sound w s) (hrun : a.Follows w events) :
    a.Sound (events.foldl Watch.after w) (run s events) := by
  induction events generalizing w s with
  | nil => exact h
  | cons e events ih => exact ih (h.event hrun.1) hrun.2

theorem follows_append {events events' : List Event} :
    a.Follows w (events ++ events') ↔
      a.Follows w events ∧ a.Follows (events.foldl Watch.after w) events' := by
  induction events generalizing w with
  | nil => exact ⟨fun h => ⟨trivial, h⟩, And.right⟩
  | cons e events ih => exact (and_congr_right fun _ => ih).trans and_assoc.symm

/-- In any run of a call that a slot knows nothing of at first, whichever superframes are seen,
processed to their end or re-keyed and whatever is lost on the way, a voice sync that leaves
the slot trusted leaves it with the indicator of its own superframe. -/
theorem trusted_mi (a : AirCall) (s : Vcrypt) (hnew : s.refState = .none)
    (halg : s.payloadAlgid = a.algid) (events : List Event) (k : ℕ) (clock : BitVec 64)
    (hrun : a.Follows (.waiting none) (events ++ [.start k clock]))
    (htrust : (run s (events ++ [.start k clock])).untrusted = false) :
    (run s (events ++ [.start k clock])).payloadMi = (nextMi a.algid)^[k] a.mi := by
  have hfirst : a.Sound (.waiting none) s :=
    ⟨halg, by rw [hnew]; nofun, by rw [hnew]; nofun⟩
  obtain ⟨hpre, hadmits, -⟩ := follows_append.mp hrun
  have hsound := (hfirst.run hpre).start hadmits
  rw [run_concat] at htrust ⊢
  exact hsound.2.2.2 (Vcrypt.valid_of_trusted _ htrust)

/-- A slot of an RC4 call that knows nothing. -/
def quiet : Vcrypt where
  symbolClock := 0
  symbolClockEpoch := 0
  carrierSeq := 0
  payloadAlgid := 0x21
  payloadMi := 0
  payloadIv := 0
  aesIv := List.replicate 16 0
  keystreamUsed := 0
  keystreamDrop := 256
  refState := .none
  refClock := 0
  refEpoch := 0
  refCarrier := 0
  untrusted := false
  leCandidateValid := 0
  leFragMask := 0
  piVerified := false
  ksTagBurst := 0
  vc6Seed := 0
  vc6SeedValid := false

/-- An RC4 call due at the clock's first symbol. -/
def quietCall : AirCall := ⟨0, 0x21, 0x12345678⟩

/-- A header, a superframe, two that are missed, one begun only, one re-keyed after its
reference was lost, and one more that was missed. -/
def heardEvents : List Event :=
  [.header 1000 0x12345678, .start 0 1728, .step, .finish, .start 3 6915, .lose, .start 4 8640,
    .step, .install (Dmr.miAt 0x21 0x12345678 5), .finish]

/-- Trust regained after a loss. -/
theorem trusted_mi_rekeyed :
    (run quiet (heardEvents ++ [.start 6 12090])).untrusted = false ∧
      (run quiet (heardEvents ++ [.start 6 12090])).payloadMi = (nextMi 0x21)^[6] 0x12345678 := by
  have htrust : (run quiet (heardEvents ++ [.start 6 12090])).untrusted = false := by
    decide +kernel
  refine ⟨htrust, trusted_mi ⟨1728, 0x21, 0x12345678⟩ quiet rfl rfl heardEvents 6 12090 ?_ htrust⟩
  refine ⟨rfl, .inl rfl, trivial, trivial, ?_, trivial, ?_, trivial, rfl, trivial, ?_, trivial⟩
  · exact ⟨by decide, by decide, by decide⟩
  · exact ⟨by decide, by decide, by decide⟩
  · exact ⟨by decide, by decide, by decide⟩

/-- Three runs of a call that leave the slot trusted with another superframe's indicator: the
next superframe's is installed ahead of this one's step; the first superframe goes by unseen
and the second comes early enough to stand in the header's window; so many superframes go by
unseen that the clock's difference turns negative. -/
theorem trusted_mi_fails :
    ((run quiet [.start 0 0, .install (miAt 0x21 0x12345678 1), .step, .finish,
        .start 1 1728]).untrusted = false ∧
      (run quiet [.start 0 0, .install (miAt 0x21 0x12345678 1), .step, .finish,
        .start 1 1728]).payloadMi ≠ (nextMi 0x21)^[1] 0x12345678) ∧
    (quietCall.displacement 1 1128 = -600 ∧
      (run quiet [.header 0 0x12345678, .start 1 1128]).untrusted = false ∧
      (run quiet [.header 0 0x12345678, .start 1 1128]).payloadMi ≠
        (nextMi 0x21)^[1] 0x12345678) ∧
    ∃ k clock, |quietCall.displacement k clock| < 864 ∧
      (run quiet [.header 0 0x12345678, .start 0 0, .start k clock]).untrusted = false ∧
      (run quiet [.header 0 0x12345678, .start 0 0, .start k clock]).payloadMi ≠
        (nextMi 0x21)^[k] 0x12345678 := by
  refine ⟨by decide +kernel, by decide +kernel, ?_⟩
  -- The indicator is not stepped for one superframe count nor for the next, and stepping it
  -- once changes it.
  have hstep : nextMi 0x21 0x12345678 ≠ 0x12345678 := by decide +kernel
  by_cases hk : (nextMi 0x21)^[10675199116730064] 0x12345678 = 0x12345678
  · refine ⟨10675199116730065, 0xFFFFFFFFFFFFFFFF, by decide, by decide +kernel, ?_⟩
    have hkept : (run quiet [.header 0 0x12345678, .start 0 0,
        .start 10675199116730065 0xFFFFFFFFFFFFFFFF]).payloadMi = 0x12345678 := by
      decide +kernel
    rw [hkept, Function.iterate_succ_apply', hk]
    exact hstep.symm
  · refine ⟨10675199116730064, 0xFFFFFFFFFFFFFCA0, by decide, by decide +kernel, ?_⟩
    have hkept : (run quiet [.header 0 0x12345678, .start 0 0,
        .start 10675199116730064 0xFFFFFFFFFFFFFCA0]).payloadMi = 0x12345678 := by
      decide +kernel
    rw [hkept]
    exact Ne.symm hk

end DsdNeo.Dmr
