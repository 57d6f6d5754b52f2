import DsdNeo.Models.ChannelScan.SquelchHeld

/-!
# Settings the options can hold

A few options are narrower than the settings captured from them. What was captured fits them, and
what presets, row options and setters make of settings that fit does again: a restore followed by
a capture then gives the restored settings back, field by field.
-/

namespace DsdNeo.ChannelScan

open SignalSearch Session

variable {power : ℤ → ℚ}

/-- Settings in the range of the options they are restored to. -/
structure Fits (s : ScanSettings) : Prop where
  aggressiveFramesync : (BitVec.ofInt 16 s.aggressiveFramesync).toInt = s.aggressiveFramesync
  dmrCrcRelaxedDefault :
    ((BitVec.ofInt 8 s.dmrCrcRelaxedDefault).toNat : ℤ) = s.dmrCrcRelaxedDefault
  dmrMuteEncL : (BitVec.ofInt 16 s.dmrMuteEncL).toInt = s.dmrMuteEncL
  dmrMuteEncR : (BitVec.ofInt 16 s.dmrMuteEncR).toInt = s.dmrMuteEncR
  trunkTuneDataCalls : ((BitVec.ofInt 8 s.trunkTuneDataCalls).toNat : ℤ) = s.trunkTuneDataCalls
  trunkTuneEncCalls : ((BitVec.ofInt 8 s.trunkTuneEncCalls).toNat : ℤ) = s.trunkTuneEncCalls
  p25PreferCandidates : ((BitVec.ofInt 8 s.p25PreferCandidates).toNat : ℤ) = s.p25PreferCandidates
  dmrStereo : (BitVec.ofInt 16 s.dmrStereo).toInt = s.dmrStereo
  dmrMono : (BitVec.ofInt 16 s.dmrMono).toInt = s.dmrMono
  stateDmrStereo : (BitVec.ofInt 16 s.stateDmrStereo).toInt = s.stateDmrStereo

open Fits

/-- The live settings fit the options they are read from. -/
theorem Session.fits_live (s : Session) : Fits s.live := by
  constructor <;> simp [live, capture]

/-- Settings that fit are read back as they were restored. -/
theorem Session.live_restore (s : Session) {saved : ScanSettings} (h : Fits saved) :
    (s.restore saved).live = saved := by
  simp only [live, restore, capture, restoreOpts, restoreWidths, restoreRowOpts,
    restoreState, h.aggressiveFramesync, h.dmrCrcRelaxedDefault, h.dmrMuteEncL, h.dmrMuteEncR,
    h.trunkTuneDataCalls, h.trunkTuneEncCalls, h.p25PreferCandidates, h.dmrStereo, h.dmrMono,
    h.stateDmrStereo]

/-- A restore of what was captured leaves the options as they were. -/
theorem Session.restore_live (s : Session) : s.restore s.live = s := by
  obtain ⟨scope, opts, state, demod, pushes⟩ := s
  simp [restore, live, capture, restoreOpts, restoreWidths, restoreRowOpts, restoreState]

/-- The last restore is the one that counts. -/
theorem Session.restore_restore (s : Session) (saved saved' : ScanSettings) :
    (s.restore saved).restore saved' = s.restore saved' := rfl

theorem short_zero : (BitVec.ofInt 16 0).toInt = 0 := rfl

theorem short_one : (BitVec.ofInt 16 1).toInt = 1 := by decide

theorem byte_toNat (b : BitVec 8) : ((BitVec.ofInt 8 (b.toNat : ℤ)).toNat : ℤ) = b.toNat := by simp

variable {s : ScanSettings}

theorem Fits.setFrames (h : Fits s) (frames : Frames) : Fits (setFrames frames s) :=
  { h with }

theorem Fits.setModulation (h : Fits s) (rfMod : ℤ) :
    Fits (setModulation rfMod s) := { h with }

theorem Fits.setUnlockedModulation (h : Fits s) (rfMod : ℤ) :
    Fits (setUnlockedModulation rfMod s) := by
  unfold ChannelScan.setUnlockedModulation
  split
  · exact h.setModulation rfMod
  · exact h

theorem Fits.singleChannel (h : Fits s) : Fits (singleChannel s) :=
  { h with
    dmrStereo := short_zero
    dmrMono := short_zero
    stateDmrStereo := short_zero }

theorem Fits.leaveAnalog (h : Fits s) : Fits (leaveAnalog s) := { h with }

theorem Fits.decodeModeApplyAnalog (h : Fits s) : Fits (decodeModeApplyAnalog s) :=
  { ((h.setFrames noFrames).setUnlockedModulation 0).singleChannel with }

theorem Fits.stagePreset (h : Fits s) (mode : Mode) : Fits (stagePreset mode s) := by
  have hs : Fits { s with frameTetra := 0 } := { h with }
  unfold ChannelScan.stagePreset
  generalize { s with frameTetra := 0 } = t at hs ⊢
  have stereo {t : ScanSettings} (h : Fits t) : Fits { t with dmrStereo := 1, dmrMono := 0 } :=
    { h with
      dmrStereo := short_one
      dmrMono := short_zero }
  have single {t : ScanSettings} (h : Fits t) (frames : Frames) (rfMod : ℤ) :
      Fits (ChannelScan.singleChannel
        (ChannelScan.setModulation rfMod (ChannelScan.setFrames frames t))) :=
    ((h.setFrames frames).setModulation rfMod).singleChannel
  cases mode with
  | inherit => exact hs
  | p25 =>
    have := stereo ((hs.setFrames { noFrames with p25p1 := 1, p25p2 := 1, dmr := 1 }).setModulation
      0)
    exact leaveAnalog { this with }
  | dmr =>
    have := stereo ((hs.setFrames { noFrames with dmr := 1 }).setUnlockedModulation 2)
    exact leaveAnalog { this with }
  | nxdn96 => exact leaveAnalog { single hs { noFrames with nxdn96 := 1 } 0 with }
  | nxdn48 => exact leaveAnalog { single hs { noFrames with nxdn48 := 1 } 0 with }
  | dpmr => exact leaveAnalog { single hs { noFrames with dpmr := 1 } 0 with }
  | dstar =>
    have := ((hs.setFrames { noFrames with dstar := 1 }).setUnlockedModulation 2).singleChannel
    exact leaveAnalog { this with }
  | ysf => exact leaveAnalog { single hs { noFrames with ysf := 1 } 0 with }
  | m17 => exact leaveAnalog { single hs { noFrames with m17 := 1 } 0 with }
  | nfm => exact hs.decodeModeApplyAnalog
  | am => exact { hs.decodeModeApplyAnalog with }

theorem Fits.applyTypedDecoder (h : Fits s) (mode : Mode) : Fits (applyTypedDecoder s mode) := by
  have hs : Fits { s with modP25p2C4fm := 0, modP25p2ProfileLock := 0 } := { h with }
  have hstaged := hs.stagePreset mode
  unfold ChannelScan.applyTypedDecoder
  generalize ChannelScan.stagePreset mode _ = t at hstaged ⊢
  split_ifs
  · exact { hstaged with }
  · exact { hstaged with }
  · exact { hstaged with }
  · exact { hstaged with }

theorem Fits.applyTargetDecoder (h : Fits s) (mode : Mode) (modulation : Modulation) :
    Fits (applyTargetDecoder s mode modulation) := by
  have htyped := h.applyTypedDecoder mode
  unfold ChannelScan.applyTargetDecoder
  generalize ChannelScan.applyTypedDecoder s mode = t at htyped ⊢
  cases modulation with
  | inherit => exact htyped
  | auto | c4fm | cqpsk | gfsk => exact { htyped with }

theorem Fits.applyTiming (h : Fits s) (sps index : ℤ) :
    Fits (applyTiming sps index s) := { h with }

theorem Fits.resumeTargetDecoder (h : Fits s) (effective : ScanSettings) (mode : Mode)
    (modulation : Modulation) (sps : ℤ) :
    Fits (resumeTargetDecoder s effective mode modulation sps) := by
  have htarget := h.applyTargetDecoder mode modulation
  unfold ChannelScan.resumeTargetDecoder
  split
  · exact h
  · dsimp only
    split_ifs
    · exact { htarget with }
    · exact { htarget with }
    · exact { htarget with }
    · exact { htarget with }

theorem Fits.applyDecoder (h : Fits s) (mode : Mode) (sps : ℤ) :
    Fits (applyDecoder s mode sps) := by
  unfold ChannelScan.applyDecoder
  split
  · exact h
  · exact (h.applyTypedDecoder mode).applyTiming sps _

theorem Fits.applyOptions (h : Fits s) (v : OptionValues) : Fits (applyOptions power v s) where
  aggressiveFramesync := by
    dsimp only [ChannelScan.applyOptions]
    split
    · simp
    · exact h.aggressiveFramesync
  dmrCrcRelaxedDefault := by
    dsimp only [ChannelScan.applyOptions]
    split_ifs
    · decide
    · decide
    · exact h.dmrCrcRelaxedDefault
  dmrMuteEncL := by
    dsimp only [ChannelScan.applyOptions]
    split
    · simp
    · exact h.dmrMuteEncL
  dmrMuteEncR := by
    dsimp only [ChannelScan.applyOptions]
    split
    · simp
    · exact h.dmrMuteEncR
  trunkTuneDataCalls := by
    dsimp only [ChannelScan.applyOptions]
    split
    · exact byte_toNat _
    · exact h.trunkTuneDataCalls
  trunkTuneEncCalls := by
    dsimp only [ChannelScan.applyOptions]
    split
    · exact byte_toNat _
    · exact h.trunkTuneEncCalls
  p25PreferCandidates := by
    dsimp only [ChannelScan.applyOptions]
    split
    · decide
    · exact h.p25PreferCandidates
  dmrStereo := h.dmrStereo
  dmrMono := h.dmrMono
  stateDmrStereo := h.stateDmrStereo

theorem Fits.scopeApply (h : Fits s) (mode : Mode) (options : OptionValues) (sps : ℤ) :
    Fits (scopeApply power s mode options sps) :=
  (h.applyDecoder mode sps).applyOptions options

theorem Fits.copyRowOpts {src : ScanSettings} (h : Fits s) (hsrc : Fits src) :
    Fits (copyRowOpts s src) :=
  { hsrc with
    dmrStereo := h.dmrStereo
    dmrMono := h.dmrMono
    stateDmrStereo := h.stateDmrStereo }

theorem Fits.copyWidths (h : Fits s) (src : ScanSettings) :
    Fits (copyWidths s src) := { h with }

theorem Fits.resumeEffective {row : ScanSettings} (h : Fits s) (hrow : Fits row) :
    Fits (resumeEffective s row) := by
  have hs : Fits { s with monitorInputAudio := row.monitorInputAudio } := { h with }
  exact { hs.copyRowOpts hrow with }

theorem Fits.configuredRetime (h : Fits s) (retime : Option ℤ) :
    Fits (configuredRetime retime s) := by
  cases retime with
  | none => exact h
  | some sps => exact { h with }

theorem Fits.squelchStore (h : Fits s) (setting : SquelchSetting) :
    Fits (squelchStore setting s) := by
  unfold ChannelScan.squelchStore
  split
  · exact { h with }
  · exact { h with }

theorem Fits.widthStore (h : Fits s) (am : Bool) (widthHz : ℤ) :
    Fits (widthStore am widthHz s) := by
  cases am with
  | true => exact { h with }
  | false => exact { h with }

end DsdNeo.ChannelScan
