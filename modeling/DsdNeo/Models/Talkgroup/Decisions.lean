import DsdNeo.Models.Talkgroup.Decide

/-!
# Blocks only take back

Every block of a decision clears flags and adds its reason, so that the flags and the reasons tell
the same, and more blocks allow no more. The flags of a call come down to those of its row and to
what is blocked.
-/

namespace DsdNeo.TgPolicy

/-- The reasons that leave a call tuned. -/
def mediaReasons : BitVec 32 := blockAudio ||| blockRecord ||| blockStream

/-- The reasons that silence a call. -/
def silencingReasons : BitVec 32 := blockHold ||| blockMode ||| blockSessionAvoid ||| blockCallSkip

/-- The second decision allows no more than the first. -/
structure NoMore (d d' : CallDecision) : Prop where
  tune : d'.tuneAllowed = true → d.tuneAllowed = true
  audio : d'.audioAllowed = true → d.audioAllowed = true
  record : d'.recordAllowed = true → d.recordAllowed = true
  stream : d'.streamAllowed = true → d.streamAllowed = true

/-- A decision allows no more than itself. -/
theorem NoMore.refl (d : CallDecision) : NoMore d d := ⟨id, id, id, id⟩

/-- Flags and reasons agree. -/
structure Agrees (d : CallDecision) : Prop where
  tune : d.tuneAllowed = true ↔ d.blockReasons &&& ~~~mediaReasons = 0
  silenced : d.blockReasons &&& silencingReasons ≠ 0 →
    d.audioAllowed = false ∧ d.recordAllowed = false ∧ d.streamAllowed = false

theorem or_and_eq_zero {w : ℕ} (a b k : BitVec w) :
    (a ||| b) &&& k = 0 ↔ a &&& k = 0 ∧ b &&& k = 0 := by
  rw [BitVec.and_or_distrib_right]
  exact BitVec.or_eq_zero_iff

variable {d d' : CallDecision}

/-- A blocked tune keeps it. -/
theorem Agrees.blockTune (h : Agrees d) {reason : BitVec 32}
    (htune : reason &&& ~~~mediaReasons ≠ 0) (hquiet : reason &&& silencingReasons = 0) :
    Agrees (blockDecisionTune d reason) := by
  constructor
  · simp only [blockDecisionTune, or_and_eq_zero, htune, and_false, Bool.false_eq_true]
  · intro hsilenced
    refine h.silenced fun hnone => hsilenced ?_
    rw [blockDecisionTune, or_and_eq_zero]
    exact ⟨hnone, hquiet⟩

theorem Agrees.blockTuneAndMedia {reason : BitVec 32} (htune : reason &&& ~~~mediaReasons ≠ 0) :
    Agrees (blockDecisionTuneAndMedia d reason) := by
  constructor
  · simp only [blockDecisionTuneAndMedia, or_and_eq_zero, htune, and_false, Bool.false_eq_true]
  · exact fun _ => ⟨rfl, rfl, rfl⟩

/-- Less media keeps it. -/
theorem Agrees.media (h : Agrees d) (htune : d'.tuneAllowed = d.tuneAllowed) (hless : NoMore d d')
    {reasons : BitVec 32} (hreasons : d'.blockReasons = d.blockReasons ||| reasons)
    (hmedia : reasons &&& ~~~mediaReasons = 0) (hquiet : reasons &&& silencingReasons = 0) :
    Agrees d' := by
  constructor
  · rw [htune, h.tune, hreasons, or_and_eq_zero]
    exact ⟨fun hnone => ⟨hnone, hmedia⟩, fun hnone => hnone.1⟩
  · intro hsilenced
    have hbefore : d.blockReasons &&& silencingReasons ≠ 0 := by
      intro hnone
      rw [hreasons, Ne, or_and_eq_zero] at hsilenced
      exact hsilenced ⟨hnone, hquiet⟩
    obtain ⟨haudio, hrecord, hstream⟩ := h.silenced hbefore
    exact ⟨Bool.eq_false_iff.mpr fun hon => Bool.eq_false_iff.mp haudio (hless.audio hon),
      Bool.eq_false_iff.mpr fun hon => Bool.eq_false_iff.mp hrecord (hless.record hon),
      Bool.eq_false_iff.mpr fun hon => Bool.eq_false_iff.mp hstream (hless.stream hon)⟩

/-- What is true of the flags and the reasons alone. -/
theorem Agrees.congr (h : Agrees d) (htune : d'.tuneAllowed = d.tuneAllowed)
    (hreasons : d'.blockReasons = d.blockReasons) (haudio : d'.audioAllowed = d.audioAllowed)
    (hrecord : d'.recordAllowed = d.recordAllowed) (hstream : d'.streamAllowed = d.streamAllowed) :
    Agrees d' :=
  ⟨by rw [htune, hreasons]; exact h.tune,
    by rw [hreasons, haudio, hrecord, hstream]; exact h.silenced⟩

/-- A step taken under a condition. -/
theorem agrees_ite {c : Prop} [Decidable c] (h : c → Agrees d) (h' : Agrees d') :
    Agrees (if c then d else d') := by
  split
  · exact h ‹_›
  · exact h'

theorem noMore_blockMedia (d : CallDecision) (record stream : Bool) :
    NoMore d (blockMedia d record stream) := by
  cases record <;> cases stream <;> exact ⟨id, id, by simp [blockMedia], by simp [blockMedia]⟩

theorem Agrees.applyExplicitMediaBlocks (h : Agrees d) (audio record stream : Bool) :
    Agrees (applyExplicitMediaBlocks d audio record stream) := by
  rw [TgPolicy.applyExplicitMediaBlocks]
  refine agrees_ite (fun _ => ?_) ?_
  · exact h.media rfl ⟨id, by simp, by simp, by simp⟩ rfl (by decide) (by decide)
  · have hless := noMore_blockMedia d record stream
    cases record with
    | false =>
      cases stream with
      | false => exact h
      | true => exact h.media rfl hless rfl (by decide) (by decide)
    | true =>
      cases stream with
      | false => exact h.media rfl hless rfl (by decide) (by decide)
      | true =>
        have hreasons : (blockMedia d true true).blockReasons =
            d.blockReasons ||| (blockRecord ||| blockStream) := BitVec.or_assoc ..
        exact h.media rfl hless hreasons (by decide) (by decide)

section Guards

variable (c : Bool) (d : CallDecision) (reason : BitVec 32)

@[simp] theorem tune_blockTune :
    (if c then blockDecisionTune d reason else d).tuneAllowed = (d.tuneAllowed && !c) := by
  cases c <;> simp [blockDecisionTune]

@[simp] theorem audio_blockTune :
    (if c then blockDecisionTune d reason else d).audioAllowed = d.audioAllowed := by
  cases c <;> rfl

@[simp] theorem record_blockTune :
    (if c then blockDecisionTune d reason else d).recordAllowed = d.recordAllowed := by
  cases c <;> rfl

@[simp] theorem stream_blockTune :
    (if c then blockDecisionTune d reason else d).streamAllowed = d.streamAllowed := by
  cases c <;> rfl

@[simp] theorem matched_blockTune :
    (if c then blockDecisionTune d reason else d).matched = d.matched := by
  cases c <;> rfl

@[simp] theorem tune_blockTuneAndMedia :
    (if c then blockDecisionTuneAndMedia d reason else d).tuneAllowed = (d.tuneAllowed && !c) := by
  cases c <;> simp [blockDecisionTuneAndMedia]

@[simp] theorem audio_blockTuneAndMedia :
    (if c then blockDecisionTuneAndMedia d reason else d).audioAllowed =
      (d.audioAllowed && !c) := by
  cases c <;> simp [blockDecisionTuneAndMedia]

@[simp] theorem record_blockTuneAndMedia :
    (if c then blockDecisionTuneAndMedia d reason else d).recordAllowed =
      (d.recordAllowed && !c) := by
  cases c <;> simp [blockDecisionTuneAndMedia]

@[simp] theorem stream_blockTuneAndMedia :
    (if c then blockDecisionTuneAndMedia d reason else d).streamAllowed =
      (d.streamAllowed && !c) := by
  cases c <;> simp [blockDecisionTuneAndMedia]

variable (audio record stream : Bool)

@[simp] theorem tune_media :
    (if c then applyExplicitMediaBlocks d audio record stream else d).tuneAllowed =
      d.tuneAllowed := by
  cases c <;> cases audio <;> cases record <;> cases stream <;> rfl

@[simp] theorem audio_media :
    (if c then applyExplicitMediaBlocks d audio record stream else d).audioAllowed =
      (d.audioAllowed && !(c && audio)) := by
  cases c <;> cases audio <;> cases record <;> cases stream <;>
    simp [applyExplicitMediaBlocks, blockMedia]

@[simp] theorem record_media :
    (if c then applyExplicitMediaBlocks d audio record stream else d).recordAllowed =
      (d.recordAllowed && !(c && (audio || record))) := by
  cases c <;> cases audio <;> cases record <;> cases stream <;>
    simp [applyExplicitMediaBlocks, blockMedia]

@[simp] theorem stream_media :
    (if c then applyExplicitMediaBlocks d audio record stream else d).streamAllowed =
      (d.streamAllowed && !(c && (audio || stream))) := by
  cases c <;> cases audio <;> cases record <;> cases stream <;>
    simp [applyExplicitMediaBlocks, blockMedia]

end Guards

/-- What the row of a call and the blocks of its identifiers take back. -/
structure Closing where
  avoided : Bool
  skipped : Bool
  mode : Bool
  held : Bool
  audio : Bool
  record : Bool
  stream : Bool

open Closing

/-- Whether a call is blocked by its identifiers. -/
def Closing.blocked (c : Closing) : Bool := c.avoided || c.skipped || c.mode || c.held

/-- The last steps of every decision. -/
def Closing.apply (c : Closing) (out : CallDecision) : CallDecision :=
  let out := if c.avoided then blockDecisionTuneAndMedia out blockSessionAvoid else out
  let out := if c.skipped then blockDecisionTuneAndMedia out blockCallSkip else out
  let out := if c.mode then blockDecisionTuneAndMedia out blockMode else out
  let out := if c.held then blockDecisionTuneAndMedia out blockHold else out
  if !c.mode && !c.held then applyExplicitMediaBlocks out c.audio c.record c.stream else out

theorem agrees_blockTuneAndMedia (h : Agrees d) (c : Bool) (reason : BitVec 32)
    (htune : reason &&& ~~~mediaReasons ≠ 0) :
    Agrees (if c then blockDecisionTuneAndMedia d reason else d) :=
  agrees_ite (fun _ => Agrees.blockTuneAndMedia htune) h

/-- Closing keeps the decision consistent. -/
theorem Closing.agrees (c : Closing) (h : Agrees d) : Agrees (c.apply d) := by
  have havoided := agrees_blockTuneAndMedia h c.avoided blockSessionAvoid (by decide)
  have hskipped := agrees_blockTuneAndMedia havoided c.skipped blockCallSkip (by decide)
  have hmode := agrees_blockTuneAndMedia hskipped c.mode blockMode (by decide)
  have hheld := agrees_blockTuneAndMedia hmode c.held blockHold (by decide)
  exact agrees_ite (fun _ => hheld.applyExplicitMediaBlocks _ _ _) hheld

theorem Closing.tune (c : Closing) (d : CallDecision) :
    (c.apply d).tuneAllowed = (d.tuneAllowed && !c.blocked) := by
  simp only [Closing.apply, blocked, tune_media, tune_blockTuneAndMedia, Bool.not_or,
    Bool.and_assoc]

theorem Closing.audioAllowed (c : Closing) (d : CallDecision) :
    (c.apply d).audioAllowed = (d.audioAllowed && !c.blocked && !c.audio) := by
  simp only [Closing.apply, blocked, audio_media, audio_blockTuneAndMedia]
  cases c.mode <;> cases c.held <;> simp [Bool.and_assoc]

theorem Closing.recordAllowed (c : Closing) (d : CallDecision) :
    (c.apply d).recordAllowed = (d.recordAllowed && !c.blocked && !(c.audio || c.record)) := by
  simp only [Closing.apply, blocked, record_media, record_blockTuneAndMedia]
  cases c.mode <;> cases c.held <;> simp [Bool.and_assoc]

theorem Closing.streamAllowed (c : Closing) (d : CallDecision) :
    (c.apply d).streamAllowed = (d.streamAllowed && !c.blocked && !(c.audio || c.stream)) := by
  simp only [Closing.apply, blocked, stream_media, stream_blockTuneAndMedia]
  cases c.mode <;> cases c.held <;> simp [Bool.and_assoc]

/-- Closing is monotone. -/
theorem Closing.noMore {c c' : Closing} (h : NoMore d d')
    (hblocked : c.blocked = true → c'.blocked = true) (haudio : c'.audio = c.audio)
    (hrecord : c'.record = c.record) (hstream : c'.stream = c.stream) :
    NoMore (c.apply d) (c'.apply d') := by
  have hfree : c'.blocked = false → c.blocked = false := fun hfree =>
    Bool.eq_false_iff.mpr fun hon => Bool.eq_false_iff.mp hfree (hblocked hon)
  constructor
  · rw [Closing.tune, Closing.tune]
    simp only [Bool.and_eq_true, Bool.not_eq_true']
    exact fun ⟨hon, hoff⟩ => ⟨h.tune hon, hfree hoff⟩
  · rw [audioAllowed, audioAllowed, haudio]
    simp only [Bool.and_eq_true, Bool.not_eq_true']
    exact fun ⟨⟨hon, hoff⟩, hrow⟩ => ⟨⟨h.audio hon, hfree hoff⟩, hrow⟩
  · rw [recordAllowed, recordAllowed, haudio, hrecord]
    simp only [Bool.and_eq_true, Bool.not_eq_true']
    exact fun ⟨⟨hon, hoff⟩, hrow⟩ => ⟨⟨h.record hon, hfree hoff⟩, hrow⟩
  · rw [streamAllowed, streamAllowed, haudio, hstream]
    simp only [Bool.and_eq_true, Bool.not_eq_true']
    exact fun ⟨⟨hon, hoff⟩, hrow⟩ => ⟨⟨h.stream hon, hfree hoff⟩, hrow⟩

theorem Closing.silent (c : Closing)
    (hrow : c.mode = false → d.audioAllowed = false → c.audio = true)
    (h : (c.apply d).audioAllowed = false) :
    (c.apply d).recordAllowed = false ∧ (c.apply d).streamAllowed = false := by
  have hoff : c.blocked = true ∨ c.audio = true := by
    by_contra hnone
    simp only [not_or, Bool.not_eq_true] at hnone
    rw [audioAllowed, hnone.1, hnone.2] at h
    have hmode : c.mode = false := by
      have := hnone.1
      simp only [blocked, Bool.or_eq_false_iff] at this
      exact this.1.2
    have haudio := hrow hmode (by simpa using h)
    rw [hnone.2] at haudio
    exact absurd haudio (by decide)
  rw [recordAllowed, streamAllowed]
  rcases hoff with hblocked | haudio
  · simp [hblocked]
  · simp [haudio]

section Front

variable {T : Type}

/-- What a decision on a group call starts from. -/
def groupFront (opts : Option TuneOpts) (state : TuneState T) (tg src : BitVec 32)
    (encrypted dataCall : Bool) : CallDecision :=
  applyEncLockoutBlock opts state tg true dataCall (applyGroupTuneBlocks opts encrypted dataCall
    (groupSetHoldState state.tgHold tg
      (groupApplyLookup state.rows tg (initDecision tg src encrypted dataCall)).1).1)

/-- The row chosen for a private call. -/
def privateChosen (state : TuneState T) (src dst : BitVec 32) : Option Entry :=
  choosePrivateEntry (lookupExactOnly state.rows src) (lookupExactOnly state.rows dst)

/-- What a decision on a private call starts from. -/
def privateFront (opts : Option TuneOpts) (state : TuneState T) (src dst : BitVec 32)
    (encrypted dataCall allowUnlisted : Bool) : CallDecision :=
  applyEncLockoutBlock opts state dst false dataCall
    (applyPrivateTuneBlocks opts encrypted dataCall (lookupExactOnly state.rows src).isSome
      (lookupExactOnly state.rows dst).isSome allowUnlisted
      (privateSetHoldState state.tgHold src dst (privateApplyEntry (privateChosen state src dst)
        { initDecision dst src encrypted dataCall with privateCall := true })).1)

theorem agrees_of_unblocked {d : CallDecision} (htune : d.tuneAllowed = true)
    (hreasons : d.blockReasons = 0) : Agrees d := by
  constructor
  · rw [htune, hreasons]
    simp
  · rw [hreasons]
    exact fun h => absurd BitVec.zero_and h

theorem agrees_blockTune {d : CallDecision} (h : Agrees d) (c : Bool) (reason : BitVec 32)
    (htune : reason &&& ~~~mediaReasons ≠ 0) (hquiet : reason &&& silencingReasons = 0) :
    Agrees (if c then blockDecisionTune d reason else d) :=
  agrees_ite (fun _ => h.blockTune htune hquiet) h

/-- The front of a group decision is consistent. -/
theorem agrees_groupFront (opts : Option TuneOpts) (state : TuneState T) (tg src : BitVec 32)
    (encrypted dataCall : Bool) : Agrees (groupFront opts state tg src encrypted dataCall) := by
  have hlookup : Agrees
    (groupApplyLookup state.rows tg (initDecision tg src encrypted dataCall)).1 := by
    rw [groupApplyLookup]
    dsimp only
    split <;> exact agrees_of_unblocked rfl rfl
  have hheld : Agrees (groupSetHoldState state.tgHold tg
      (groupApplyLookup state.rows tg (initDecision tg src encrypted dataCall)).1).1 :=
    hlookup.congr rfl rfl rfl rfl rfl
  have hgroup := agrees_blockTune hheld (optIs opts (·.trunkTuneGroupCalls) 0) blockGroupDisabled
    (by decide) (by decide)
  have hdata := agrees_blockTune hgroup (dataCall && optIs opts (·.trunkTuneDataCalls) 0)
    blockDataDisabled (by decide) (by decide)
  have henc := agrees_blockTune hdata (encrypted && optIs opts (·.trunkTuneEncCalls) 0)
    blockEncryptedDisabled (by decide) (by decide)
  exact agrees_blockTune (agrees_blockTune henc _ blockAllowlist (by decide) (by decide)) _
    blockEncLockout (by decide) (by decide)

/-- So is that of a private one. -/
theorem agrees_privateFront (opts : Option TuneOpts) (state : TuneState T) (src dst : BitVec 32)
    (encrypted dataCall allowUnlisted : Bool) :
    Agrees (privateFront opts state src dst encrypted dataCall allowUnlisted) := by
  have hentry : Agrees (privateApplyEntry (privateChosen state src dst)
      { initDecision dst src encrypted dataCall with privateCall := true }) := by
    cases privateChosen state src dst <;> exact agrees_of_unblocked rfl rfl
  have hheld : Agrees (privateSetHoldState state.tgHold src dst
      (privateApplyEntry (privateChosen state src dst)
        { initDecision dst src encrypted dataCall with privateCall := true })).1 :=
    hentry.congr rfl rfl rfl rfl rfl
  have hprivate := agrees_blockTune hheld (optIs opts (·.trunkTunePrivateCalls) 0)
    blockPrivateDisabled (by decide) (by decide)
  have hdata := agrees_blockTune hprivate (dataCall && optIs opts (·.trunkTuneDataCalls) 0)
    blockDataDisabled (by decide) (by decide)
  have henc := agrees_blockTune hdata (encrypted && optIs opts (·.trunkTuneEncCalls) 0)
    blockEncryptedDisabled (by decide) (by decide)
  exact agrees_blockTune (agrees_blockTune henc _ blockAllowlist (by decide) (by decide)) _
    blockEncLockout (by decide) (by decide)

/-- Rows and lockouts are the same. -/
structure SameGrounds (state state' : TuneState T) : Prop where
  rows : state'.rows = state.rows
  entries : state'.encLockoutEntries = state.encLockoutEntries
  keyEpoch : state'.encLockoutKeyEpoch = state.encLockoutKeyEpoch

variable {state state' : TuneState T}

theorem SameGrounds.encLockout (h : SameGrounds state state') (opts : Option TuneOpts)
    (target : BitVec 32) (isGroup : Bool) :
    encLockoutIsBlocked opts state' target isGroup =
      encLockoutIsBlocked opts state target isGroup := by
  simp only [encLockoutIsBlocked, encLockoutEntryActive, encLockoutFind, h.entries, h.keyEpoch]

/-- On the same grounds the front allows no more. -/
theorem noMore_groupFront (h : SameGrounds state state') (opts : Option TuneOpts)
    (tg src : BitVec 32) (encrypted dataCall : Bool) :
    NoMore (groupFront opts state tg src encrypted dataCall)
      (groupFront opts state' tg src encrypted dataCall) := by
  rw [groupFront, groupFront, h.rows]
  constructor <;>
    simp only [applyEncLockoutBlock, applyGroupTuneBlocks, groupSetHoldState, h.encLockout,
      tune_blockTune, audio_blockTune, record_blockTune, stream_blockTune, matched_blockTune,
      imp_self]

/-- So for a private call. -/
theorem noMore_privateFront (h : SameGrounds state state') (opts : Option TuneOpts)
    (src dst : BitVec 32) (encrypted dataCall allowUnlisted : Bool) :
    NoMore (privateFront opts state src dst encrypted dataCall allowUnlisted)
      (privateFront opts state' src dst encrypted dataCall allowUnlisted) := by
  rw [privateFront, privateFront, privateChosen, privateChosen, h.rows]
  constructor <;>
    simp only [applyEncLockoutBlock, applyPrivateTuneBlocks, privateSetHoldState, h.encLockout,
      tune_blockTune, audio_blockTune, record_blockTune, stream_blockTune, imp_self]

end Front

/-- The ways a call is evaluated. -/
inductive CallKind where
  | group
  | privateCall
  | privateGrant

/-- The identifiers that block a call. -/
def CallKind.ids (kind : CallKind) (target source : BitVec 32) : List (BitVec 32) :=
  match kind with
  | .group => [target]
  | .privateCall => [source, target]
  | .privateGrant => [source, target]

section Evaluate

variable {T : Type} [OfNat T 0] [Sub T] [LE T] [DecidableLE T] [OfScientific T]

/-- The decision on a call. -/
def evaluate (kind : CallKind) (opts : Option TuneOpts) (state : TuneState T)
    (target source : BitVec 32) (encrypted dataCall : Bool) : CallDecision :=
  match kind with
  | .group => evaluateGroupCall opts state target source encrypted dataCall
  | .privateCall => evaluatePrivateCall opts state source target encrypted dataCall
  | .privateGrant => evaluatePrivateGrant opts state source target encrypted dataCall

/-- What ends a decision on a group call. -/
def groupClosing (state : TuneState T) (tg : BitVec 32) : Closing :=
  let blocks := (groupApplyLookup state.rows tg (initDecision tg 0 false false)).2
  ⟨sessionAvoidContains state tg, callSkipBlocking state tg (state.clock 0), blocks.modeBlocking,
    (groupSetHoldState state.tgHold tg (initDecision tg 0 false false)).2,
    blocks.explicitAudioBlock, blocks.explicitRecordBlock, blocks.explicitStreamBlock⟩

theorem groupApplyLookup_blocks (rows : List Entry) (tg : BitVec 32) (d d' : CallDecision) :
    (groupApplyLookup rows tg d).2 = (groupApplyLookup rows tg d').2 := by
  rw [groupApplyLookup, groupApplyLookup]
  dsimp only
  split <;> rfl

/-- A group decision is its front, closed. -/
theorem evaluateGroupCall_eq (opts : Option TuneOpts) (state : TuneState T) (tg src : BitVec 32)
    (encrypted dataCall : Bool) : evaluateGroupCall opts state tg src encrypted dataCall =
      (groupClosing state tg).apply (groupFront opts state tg src encrypted dataCall) := by
  rw [groupClosing, groupApplyLookup_blocks _ _ _ (initDecision tg src encrypted dataCall)]
  rfl

/-- What ends a decision on a private call. -/
def privateClosing (state : TuneState T) (src dst : BitVec 32) : Closing where
  avoided := sessionAvoidContains state src || sessionAvoidContains state dst
  skipped := callSkipBlocking state src (state.clock 0) || callSkipBlocking state dst
    (state.clock 1)
  mode := privateModeIsBlocking (lookupExactOnly state.rows src) (lookupExactOnly state.rows dst)
  held := (privateSetHoldState state.tgHold src dst (initDecision dst src false false)).2
  audio := (privateChosen state src dst).any fun e => e.audio = 0
  record := (privateChosen state src dst).any fun e => e.audio ≠ 0 && e.record = 0
  stream := (privateChosen state src dst).any fun e => e.audio ≠ 0 && e.stream = 0

/-- A private one too. -/
theorem evaluatePrivate_eq (opts : Option TuneOpts) (state : TuneState T) (src dst : BitVec 32)
    (encrypted dataCall allowUnlisted : Bool) :
    evaluatePrivate opts state src dst encrypted dataCall allowUnlisted =
      (privateClosing state src dst).apply
        (privateFront opts state src dst encrypted dataCall allowUnlisted) := by
  rw [evaluatePrivate, privateClosing, privateFront, privateChosen, Closing.apply]
  dsimp only
  cases choosePrivateEntry (lookupExactOnly state.rows src) (lookupExactOnly state.rows dst) with
  | some e => rfl
  | none => exact (ite_self _).symm

end Evaluate

end DsdNeo.TgPolicy
