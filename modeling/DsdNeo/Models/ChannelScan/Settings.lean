import DsdNeo.Models.Search.Settings
import DsdNeo.Models.Scan.Maps

/-!
# A scan row over the configured settings

The options and decoder fields a scan row reads and writes are held as `dsd_scan_settings`
holds them, so that a capture and a restore of them change nothing. A row's class and its
options are laid over the configured settings; an operator's session edit is laid over the
row's options.
-/

namespace DsdNeo.ChannelScan

open SignalSearch

/-- `dsd_scan_mode`. -/
inductive Mode where
  | inherit
  | p25
  | dmr
  | nxdn96
  | nxdn48
  | dpmr
  | dstar
  | ysf
  | m17
  | nfm
  | am
  deriving DecidableEq

/-- `DSD_ANALOG_DEMOD_FM`. -/
def demodFm : ℤ := 0

/-- `DSD_ANALOG_DEMOD_AM`. -/
def demodAm : ℤ := 1

/-- `dsd_scan_mode_analog_kind`, none for a class that is not analog. -/
def Mode.analogKind : Mode → Option ℤ
  | .nfm => some demodFm
  | .am => some demodAm
  | _ => none

/-- The bits of `DSD_SCAN_OPT_*` that land in the settings, and those of groups and key map. -/
def optForce : ℕ := 0
def optCrc : ℕ := 1
def optVoice : ℕ := 2
def optQualify : ℕ := 3
def optHold : ℕ := 4
def optGroup : ℕ := 11
def optMuteDmr : ℕ := 12
def optData : ℕ := 13
def optEnc : ℕ := 14
def optMuteP25 : ℕ := 15
def optP25Candidates : ℕ := 16
def optDmrMap : ℕ := 17
def optMaxVisit : ℕ := 20
def optSquelch : ℕ := 21
def optBandwidth : ℕ := 22
def optTone : ℕ := 23
def optSlot : ℕ := 24

/-- `dsd_scan_option_values`, without the paths and names its import has used. -/
structure OptionValues where
  present : BitVec 32
  force : ℤ
  strictCrc : ℤ
  voiceOnly : ℤ
  qualifyMs : ℤ
  holdMs : ℤ
  maxVisitMs : ℤ
  squelchDb : ℤ
  squelchMode : ℤ
  squelchMarginDb : ℤ
  channelBwHz : ℤ
  channelBwKind : ℤ
  toneFilter : ℤ
  toneSet : ToneSet
  receive : Receive
  muteDmr : ℤ
  tuneDataCalls : ℤ
  tuneEncCalls : ℤ
  groupFile : String
  deriving DecidableEq

/-- The words of a `dsd_receive_policy`: four filters of 129, and 273 of the names. -/
def receiveWords : ℕ := 789

/-- A cleared `dsd_receive_policy`. -/
def receiveZero : Receive := List.replicate receiveWords 0

/-- Cleared options. -/
def OptionValues.zero : OptionValues :=
  ⟨0, 0, 0, 0, 0, 0, 0, 0, 0, 0, 0, 0, 0, ToneSet.empty, receiveZero, 0, 0, 0, ""⟩

/-- Whether a row sets an option. -/
def OptionValues.has (v : OptionValues) (bit : ℕ) : Bool := v.present.getLsbD bit

/-- The words of one `dsd_receive_filter` in a policy. -/
def filterWords : ℕ := 129

/-- `DSD_RECEIVE_FILTER_COUNT`. -/
def filterCount : ℕ := 4

/-- A policy with one filter taken from another, or, past the filters, the names. -/
def takeReceive (policy source : Receive) (kind : ℕ) : Receive :=
  if kind < filterCount then
    policy.take (kind * filterWords) ++ (source.drop (kind * filterWords)).take filterWords ++
      policy.drop ((kind + 1) * filterWords)
  else policy.take (filterCount * filterWords) ++ source.drop (filterCount * filterWords)

/-- `scan_option_apply_receive`. -/
def receiveOf (v : OptionValues) (policy : Receive) : Receive :=
  (List.range (filterCount + 1)).foldl
    (fun policy kind => if v.has (optSlot + kind) then
      takeReceive policy v.receive kind else policy)
    policy

/-- Whether a row's squelch is one a receiver learns. -/
def OptionValues.dynamicSquelch (v : OptionValues) : Bool :=
    v.has optSquelch && isDynamic v.squelchMode

/-- Whether a row's squelch is a level. -/
def OptionValues.levelSquelch (v : OptionValues) : Bool :=
    v.has optSquelch && !isDynamic v.squelchMode

/-- Whether a row sets the channel width of an analog kind. -/
def OptionValues.widthOf (v : OptionValues) (am : Bool) : Bool :=
  v.has optBandwidth && (decide (v.channelBwKind = demodAm) == am)

/-- `scan_options_apply`, where `power` takes decibels to a mean power. -/
def applyOptions (power : ℤ → ℚ) (v : OptionValues) (s : ScanSettings) : ScanSettings :=
  { s with
    forceKey := if v.has optForce then v.force else s.forceKey
    aggressiveFramesync :=
      if v.has optCrc then (BitVec.ofInt 16 v.strictCrc).toInt else s.aggressiveFramesync
    dmrCrcRelaxedDefault :=
      if v.has optCrc then if v.strictCrc = 0 then 1 else 0 else s.dmrCrcRelaxedDefault
    scanVoiceOnly := if v.has optVoice then v.voiceOnly else s.scanVoiceOnly
    scanVoiceQualifyMs := if v.has optQualify then v.qualifyMs else s.scanVoiceQualifyMs
    scanVoiceHoldMs := if v.has optHold then v.holdMs else s.scanVoiceHoldMs
    scanMaxVisitMs := if v.has optMaxVisit then v.maxVisitMs else s.scanMaxVisitMs
    dmrMuteEncL := if v.has optMuteDmr then (BitVec.ofInt 16 v.muteDmr).toInt else s.dmrMuteEncL
    dmrMuteEncR := if v.has optMuteDmr then (BitVec.ofInt 16 v.muteDmr).toInt else s.dmrMuteEncR
    unmuteEncryptedP25 := if v.has optMuteP25 then 0 else s.unmuteEncryptedP25
    trunkTuneDataCalls :=
      if v.has optData then (BitVec.ofInt 8 v.tuneDataCalls).toNat else s.trunkTuneDataCalls
    p25PreferCandidates := if v.has optP25Candidates then 1 else s.p25PreferCandidates
    trunkTuneEncCalls :=
      if v.has optEnc then (BitVec.ofInt 8 v.tuneEncCalls).toNat else s.trunkTuneEncCalls
    groupInFile := if v.has optGroup then v.groupFile else s.groupInFile
    rtlSquelchMode :=
      if v.dynamicSquelch then v.squelchMode
      else if v.levelSquelch then squelchLevel else s.rtlSquelchMode
    rtlSquelchMarginDb :=
      if v.dynamicSquelch then clampMargin v.squelchMarginDb else s.rtlSquelchMarginDb
    rtlSquelchLevel :=
      if v.levelSquelch then levelFromSql power v.squelchDb else s.rtlSquelchLevel
    analogAmBandwidthHz := if v.widthOf true then v.channelBwHz else s.analogAmBandwidthHz
    analogNfmBandwidthHz := if v.widthOf false then v.channelBwHz else s.analogNfmBandwidthHz
    analogToneFilter := if v.has optTone then v.toneFilter else s.analogToneFilter
    analogToneSet := if v.has optTone then v.toneSet else s.analogToneSet
    receive := receiveOf v s.receive }

/-- The bits of `DSD_SCAN_ROW_FIELD_*`. -/
def fieldSquelch : ℕ := 0
def fieldWidth : ℕ := 1
def fieldTone : ℕ := 2
def fieldSlot : ℕ := 4

/-- `dsd_scan_row_edit_value`. -/
structure EditValue where
  squelchDb : ℤ
  squelchMode : ℤ
  squelchMarginDb : ℤ
  widthHz : ℤ
  toneFilter : ℤ
  toneSet : ToneSet
  gainDb : ℤ
  receive : Receive
  deriving DecidableEq

/-- `dsd_scan_row_edit`. -/
structure RowEdit where
  set : BitVec 32
  inherit : BitVec 32
  value : EditValue
  deriving DecidableEq

/-- No edits. -/
def RowEdit.zero : RowEdit := ⟨0, 0, ⟨0, 0, 0, 0, 0, ToneSet.empty, 0, receiveZero⟩⟩

/-- `dsd_scan_row_edit_action`. -/
inductive EditAction where
  | set
  | inherit
  | reset
  deriving DecidableEq

/-- `scan_row_edit_margin_valid`. -/
def editMarginValid (margin : ℤ) : Bool := 3 ≤ margin ∧ margin ≤ 30

/-- `scan_row_edit_copy_value`, for one field by its bit. -/
def editCopyValue (dst : EditValue) (bit : ℕ) (src : EditValue) : EditValue :=
  if fieldSlot ≤ bit ∧ bit ≤ fieldSlot + filterCount then
    { dst with receive := takeReceive dst.receive src.receive (bit - fieldSlot) }
  else if bit = fieldSquelch then
    { dst with
      squelchDb := src.squelchDb
      squelchMode := src.squelchMode
      squelchMarginDb :=
        if editMarginValid src.squelchMarginDb then src.squelchMarginDb else dst.squelchMarginDb }
  else if bit = fieldWidth then { dst with widthHz := src.widthHz }
  else if bit = fieldTone then { dst with toneFilter := src.toneFilter, toneSet := src.toneSet }
  else { dst with gainDb := src.gainDb }

/-- The mask of one field. -/
def bitMask (bit : ℕ) : BitVec 32 := 1#32 <<< bit

/-- `DSD_SCAN_ROW_FIELDS_ALL`. -/
def fieldsAll : BitVec 32 := 0x1FF

/-- `dsd_scan_row_edit_change`, for one field. -/
def editChange (edit : RowEdit) (bit : ℕ) (action : EditAction) (value : EditValue) : RowEdit :=
  match action with
  | .set =>
    { value := editCopyValue edit.value bit value
      set := edit.set ||| bitMask bit
      inherit := edit.inherit &&& ~~~bitMask bit }
  | .inherit =>
    { edit with set := edit.set &&& ~~~bitMask bit, inherit := edit.inherit ||| bitMask bit }
  | .reset =>
    { edit with set := edit.set &&& ~~~bitMask bit, inherit := edit.inherit &&& ~~~bitMask bit }

/-- `dsd_scan_row_edit_take_fields`. -/
def editTakeFields (edit source : RowEdit) (fields : BitVec 32) : RowEdit :=
  let fields := fields &&& fieldsAll
  { value := (List.range 9).foldl
      (fun value bit => if fields.getLsbD bit then editCopyValue value bit source.value else value)
      edit.value
    set := (edit.set &&& ~~~fields) ||| (source.set &&& fields)
    inherit := (edit.inherit &&& ~~~fields) ||| (source.inherit &&& fields) }

/-- `dsd_scan_row_edit_fields_edited`. -/
def RowEdit.fieldsEdited (edit : RowEdit) : BitVec 32 := edit.set ||| edit.inherit

/-- The bit of an option after an edit of its field: set, given up, or as the row has it. -/
def editPresent (edit : RowEdit) (field option : ℕ) (present : BitVec 32) : BitVec 32 :=
  if edit.set.getLsbD field then present ||| bitMask option
  else if edit.inherit.getLsbD field then present &&& ~~~bitMask option
  else present

/-- The squelch part of `dsd_scan_row_edit_apply`. -/
def editApplySquelch (edit : RowEdit) (out : OptionValues) : OptionValues :=
  let present := editPresent edit fieldSquelch optSquelch out.present
  if edit.set.getLsbD fieldSquelch then
    let mode := if isDynamic edit.value.squelchMode then edit.value.squelchMode else squelchLevel
    { out with
      present := present
      squelchMode := mode
      squelchMarginDb :=
        if editMarginValid edit.value.squelchMarginDb then edit.value.squelchMarginDb
        else out.squelchMarginDb
      squelchDb := if isDynamic mode then 0 else edit.value.squelchDb }
  else { out with present := present }

/-- `scan_row_edit_apply_receive`. -/
def editApplyReceive (edit : RowEdit) (out : OptionValues) : OptionValues :=
  (List.range (filterCount + 1)).foldl
    (fun out kind =>
      { out with
        present := editPresent edit (fieldSlot + kind) (optSlot + kind) out.present
        receive :=
          if edit.set.getLsbD (fieldSlot + kind) then
            takeReceive out.receive edit.value.receive kind
          else out.receive })
    out

/-- The width part of `dsd_scan_row_edit_apply`: a set width needs an analog class. -/
def editApplyWidth (edit : RowEdit) (mode : Mode) (out : OptionValues) : OptionValues :=
  match edit.set.getLsbD fieldWidth, mode.analogKind with
  | true, some kind =>
    { out with
      present := out.present ||| bitMask optBandwidth
      channelBwHz := edit.value.widthHz
      channelBwKind := kind }
  | _, _ =>
    if edit.inherit.getLsbD fieldWidth then
      { out with present := out.present &&& ~~~bitMask optBandwidth }
    else out

/-- The tone part of `dsd_scan_row_edit_apply`. -/
def editApplyTone (edit : RowEdit) (out : OptionValues) : OptionValues :=
  let present := editPresent edit fieldTone optTone out.present
  if edit.set.getLsbD fieldTone then
    { out with
      present := present
      toneFilter := edit.value.toneFilter
      toneSet := edit.value.toneSet }
  else { out with present := present }

/-- `dsd_scan_row_edit_apply`. -/
def editApply (row : Option OptionValues) (edit : RowEdit) (mode : Mode) : OptionValues :=
  editApplyTone edit (editApplyWidth edit mode (editApplyReceive edit (editApplySquelch edit
    (row.getD OptionValues.zero))))

end DsdNeo.ChannelScan
