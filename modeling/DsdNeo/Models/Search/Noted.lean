import DsdNeo.Models.Calls.Record
import DsdNeo.Models.Import.CsvText

/-!
# What the decoders note on a visit

The site identity a visit builds from site notes, and the call tuple it copies whole from
one checked call record.
-/

namespace DsdNeo.SignalSearch

open Text Csv

/-- A text in a buffer of so many bytes. -/
def copied (capacity : ℕ) (t : Bytes) : Bytes := t.take (capacity - 1)

/-- Whether what is noted under `name` belongs to `protocol` ("NXDN" to NXDN48 and NXDN96). -/
def belongs (name protocol : Bytes) : Bool := decide (name ≠ []) && name.isPrefixOf protocol

/-- U+00B7 MIDDLE DOT between two parts. -/
def middleDot : Bytes := [0x20, 0xC2, 0xB7, 0x20]

/-- `dsd_signal_search_site_note`, with what each kind reads. -/
inductive SiteNote where
  | p25Network (wacn : BitVec 32) (sysid : BitVec 16)
  | p25Site (sysid : BitVec 16) (rfss site : BitVec 8)
  | dmrTiii (text : Bytes)
  | nxdn (site : BitVec 16) (sys : BitVec 32)
  | unknown

/-- `dsd_signal_search_site`, with a flag for each bit of `valid`. -/
structure Site where
  protocol : Bytes
  hasWacn : Bool
  hasSysid : Bool
  hasRfssSite : Bool
  hasText : Bool
  hasNxdn : Bool
  wacn : BitVec 32
  sysid : BitVec 16
  rfss : BitVec 8
  site : BitVec 8
  text : Bytes
  nxdnSys : BitVec 32
  nxdnSite : BitVec 16
  deriving DecidableEq

/-- `dsd_signal_search_site_clear`. -/
def Site.clear : Site := ⟨[], false, false, false, false, false, 0, 0, 0, 0, [], 0, 0⟩

/-- `site_note_protocol`. -/
def siteNoteProtocol : SiteNote → Option Bytes
  | .p25Network _ _ | .p25Site _ _ _ => some (ascii "P25")
  | .dmrTiii _ => some (ascii "DMR")
  | .nxdn _ _ => some (ascii "NXDN")
  | .unknown => none

/-- `site_from_note`. -/
def siteFromNote (note : SiteNote) (protocol : Bytes) : Site :=
  let record := { Site.clear with protocol := copied 8 protocol }
  match note with
  | .p25Network wacn sysid =>
    { record with hasWacn := true, hasSysid := true, wacn := wacn, sysid := sysid }
  | .p25Site sysid rfss site =>
    { record with
      hasSysid := true, hasRfssSite := true, sysid := sysid, rfss := rfss, site := site }
  | .dmrTiii text => { record with hasText := true, text := copied 64 text }
  | .nxdn site sys => { record with hasNxdn := true, nxdnSys := sys, nxdnSite := site }
  | .unknown => record

/-- `site_merge_note`: `none` where the note is not this record's. -/
def siteMergeNote (record : Site) (note : SiteNote) (protocol : Bytes) : Option Site :=
  let hasSysid := decide (record.protocol = protocol) && record.hasSysid
  match note with
  | .p25Site sysid rfss site =>
    if hasSysid then
      if record.sysid ≠ sysid then none
      else some { record with hasRfssSite := true, rfss := rfss, site := site }
    else some (siteFromNote note protocol)
  | .p25Network wacn sysid =>
    if hasSysid ∧ record.sysid = sysid ∧ (record.hasWacn = false ∨ record.wacn = wacn) then
      some { record with hasWacn := true, wacn := wacn }
    else some (siteFromNote note protocol)
  | note => some (siteFromNote note protocol)

/-- `dsd_signal_search_site_apply`: the record where it changes. -/
def siteApply (record : Site) (note : SiteNote) : Option Site :=
  match siteNoteProtocol note with
  | none => none
  | some protocol =>
    if note matches .dmrTiii [] then none
    else (siteMergeNote record note protocol).filter fun next => decide (next ≠ record)

/-- `dsd_signal_search_site_format`, into a buffer of so many bytes. -/
def siteFormat (record : Site) (capacity : ℕ) : Bytes :=
  if record.protocol = [] then []
  else
    copied capacity <|
      if record.hasText then record.text
      else if record.hasNxdn then
        ascii "Site " ++ numeral 10 record.nxdnSite.toNat ++ middleDot ++ ascii "Sys " ++
          numeral 10 record.nxdnSys.toNat
      else
        (if record.hasWacn then
          ascii "WACN " ++ zeroPadded 5 (numeral 16 record.wacn.toNat) ++ middleDot else []) ++
        ascii "SYS " ++ zeroPadded 3 (numeral 16 record.sysid.toNat) ++
        (if record.hasRfssSite then
          middleDot ++ ascii "RFSS " ++ numeral 10 record.rfss.toNat ++ middleDot ++
            ascii "Site " ++ numeral 10 record.site.toNat else [])

/-- `search_call`. -/
structure SearchCall where
  protocol : Bytes
  recordSlot : ℕ
  epoch : BitVec 64
  startedM : ℚ
  target : BitVec 32
  source : BitVec 32
  slot : ℕ
  targetText : Bytes
  sourceText : Bytes
  crypt : Bytes
  deriving DecidableEq

/-- No tuple. -/
def SearchCall.none : SearchCall := ⟨[], 0, 0, 0, 0, 0, 0, [], [], []⟩

/-- `DSD_SYNC_IS_DMR`. -/
def syncIsDmr (protocol : ℤ) : Bool := decide (protocol ∈ [10, 11, 12, 13, 32, 33, 34])

/-- `search_call_protocol`. -/
def searchCallProtocol (protocol : ℤ) : Option Bytes :=
  if syncIsDmr protocol then some (ascii "DMR")
  else if protocol ∈ [0, 1, 35, 36] then some (ascii "P25")
  else if protocol ∈ [28, 29] then some (ascii "NXDN")
  else if 20 ≤ protocol ∧ protocol ≤ 27 then some (ascii "dPMR")
  else if protocol ∈ [8, 9, 16, 17, 76, 77, 86, 87, 98, 99, 100, 101] then some (ascii "M17")
  else if protocol ∈ [30, 31] then some (ascii "YSF")
  else if protocol ∈ [6, 7, 18, 19] then some (ascii "D-STAR")
  else none

/-- `search_call_crypt`. -/
def searchCallCrypt (call : CallState.Record) : Bytes :=
  let alg := call.cryptoReceived &&& 1 ≠ 0
  let kid := call.cryptoReceived &&& 2 ≠ 0
  let algText := ascii "ALG " ++ zeroPadded 2 (numeral 16 call.receivedAlgid.toNat)
  let kidText := ascii "KID " ++ zeroPadded 4 (numeral 16 call.receivedKid.toNat)
  if call.crypto ≠ .encryptedPending ∧ call.crypto ≠ .encrypted ∧ call.crypto ≠ .decryptable then []
  else if alg ∧ kid then algText ++ middleDot ++ kidText
  else if alg then algText
  else if kid then kidText
  else if call.encReceived then ascii "Encrypted"
  else []

/-- `search_call_id`. -/
def searchCallId (id : BitVec 64) : BitVec 32 := if id ≤ 0xFFFFFFFF then id.setWidth 32 else 0

/-- `search_call_equal`. -/
def searchCallEqual (a b : SearchCall) : Bool :=
  decide ({ a with startedM := 0 } = { b with startedM := 0 })

/-- `search_call_from_record`. -/
def searchCallFromRecord (record : CallState.Record) (protocol : Bytes) (slot : ℕ) :
    SearchCall where
  protocol := copied 8 protocol
  recordSlot := slot
  epoch := record.epoch
  startedM := record.startedM
  target :=
    searchCallId (if record.otaTargetId ≠ 0 then record.otaTargetId else record.policyTargetId)
  source := searchCallId record.otaSourceId
  slot := if syncIsDmr record.protocol ∨ record.protocol ∈ [35, 36] then slot + 1 else 0
  targetText := copied 64 record.targetText
  sourceText := copied 64 record.sourceText
  crypt := copied 48 (searchCallCrypt record)

end DsdNeo.SignalSearch
