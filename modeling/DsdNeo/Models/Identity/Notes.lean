import DsdNeo.Models.Identity.Record

/-!
# Notes to the received identity

What each checked message adds to the record, and the resets, tunes, forgets and settings
changes between them.
-/

namespace DsdNeo.Identity

/-- The decoder state the record's functions read and write. -/
structure State where
  rxId : Received := {}
  rxIdTrunkTunePending : Bool := false
  frameDispatchActive : Bool := false
  frameDispatchCarrierSeq : ℕ := 0
  carrierSeq : ℕ := 0
  inputInterrupted : Bool := false
  eaMode : ℤ := 0

/-- `dsd_state_frame_read_lost`. -/
def State.frameReadLost (s : State) (carrierSeq : ℕ) : Bool :=
  s.carrierSeq ≠ carrierSeq || s.inputInterrupted

/-- Whether `rxid_record` gives the record. -/
def State.givesRecord (s : State) : Bool :=
  !(s.frameDispatchActive && s.frameReadLost s.frameDispatchCarrierSeq)

/-- Change the record. -/
def State.edit (f : Received → Received) (s : State) : State := { s with rxId := f s.rxId }

/-- A note through `rxid_for`. -/
def State.noteFor (family : Family) (f : Received → Received) (s : State) : State :=
  if family = .noFamily ∨ family = .other ∨ s.givesRecord = false then s
  else s.edit fun id => f (id.ofFamily family)

/-- `dsd_rxid_family_for_sync`. -/
def familyForSync (synctype : ℤ) : Family :=
  if synctype < 0 then .noFamily
  else if synctype ∈ [10, 11, 12, 13, 32, 33, 34] then .dmr
  else if synctype ∈ [0, 1, 35, 36] then .p25
  else if synctype ∈ [28, 29] then .nxdn
  else if 20 ≤ synctype ∧ synctype ≤ 27 then .dpmr
  else if synctype ∈ [8, 9, 16, 17, 76, 77, 86, 87, 98, 99, 100, 101] then .m17
  else if synctype ∈ [41, 42, 43, 44] then .tetra
  else if synctype ∈ [14, 15, 37, 38] then .edacs
  else .other

/-- `dsd_rxid_reset`. -/
def rxidReset (s : State) : State := { s with rxId := s.rxId.clear, rxIdTrunkTunePending := false }

/-- Drop a record of another family. -/
def Received.synced (family : Family) (id : Received) : Received :=
  if id.family ≠ .noFamily ∧ id.family ≠ family then id.clear else id

/-- `dsd_rxid_note_sync`. -/
def noteSync (synctype : ℤ) (s : State) : State :=
  if familyForSync synctype = .noFamily then s else s.edit (·.synced (familyForSync synctype))

/-- `dsd_rxid_mark_stale`. -/
def markStale (s : State) : State := s.edit fun id => { id with fresh := ∅ }

/-- `dsd_rxid_trunk_tune`. -/
def trunkTune (s : State) : State := s.edit (·.drop {.access})

/-- `dsd_rxid_apply_trunk_tune`. -/
def applyTrunkTune (s : State) : State :=
  if s.rxIdTrunkTunePending then trunkTune { s with rxIdTrunkTunePending := false } else s

/-- `dsd_rxid_request_trunk_tune`. -/
def requestTrunkTune (s : State) : State :=
  if s.frameDispatchActive then applyTrunkTune { s with rxIdTrunkTunePending := true }
  else { s with rxIdTrunkTunePending := true }

/-- The record `rxid_nxdn` gives a Type-C or a Type-D note. -/
def Received.ofNxdn (typeD : Bool) (id : Received) : Received :=
  if typeD then id.invalidateIf (id.Has nxdnTypeC) {.nxdnLocation, .access, .ccFreq}
  else id.invalidateIf (id.Has nxdnTypeD) {.nxdnIdasArea, .nxdnIdasSite, .nxdnTypedSystem, .ccFreq}

/-- Another access code is another system on the carrier. -/
def Received.heardAccess (kind value : ℕ) (id : Received) : Received :=
  if .access ∈ id.valid ∧ (id.values.accessKind ≠ kind ∨ id.values.access ≠ value) then
    (id.drop (systemParts id.family)).move
  else id

/-- `dsd_rxid_note_access`. -/
def noteAccess (family : Family) (kind value : ℕ) (s : State) : State :=
  if kind = 0 then s
  else s.noteFor family fun id =>
    ((if family = .nxdn then id.ofNxdn false else id).heardAccess kind value).put {.access}
      fun v => { v with accessKind := kind, access := value }

/-- Whether a network status names the record's system. -/
def Received.SameP25System (wacn sysid : ℕ) (id : Received) : Prop :=
  .p25Sysid ∈ id.valid ∧ id.values.p25Sysid = sysid ∧
    (.p25Wacn ∉ id.valid ∨ id.values.p25Wacn = wacn)

instance (wacn sysid : ℕ) (id : Received) : Decidable (id.SameP25System wacn sysid) :=
  inferInstanceAs (Decidable (_ ∧ _))

/-- `dsd_rxid_note_p25_network`. -/
def noteP25Network (wacn sysid : ℕ) (s : State) : State :=
  if sysid % 2 ^ 12 = 0 then s
  else s.noteFor .p25 fun id =>
    (id.invalidateIf (¬ id.SameP25System (wacn % 2 ^ 20) (sysid % 2 ^ 12)) p25SystemParts).put
      {.p25Wacn, .p25Sysid}
      fun v => { v with p25Wacn := wacn % 2 ^ 20, p25Sysid := sysid % 2 ^ 12 }

/-- `rxid_p25_bound`, and what a note does with the record it gives. -/
def Received.p25Bound (sysid : ℕ) (f : Received → Received) (id : Received) : Received :=
  if .p25Sysid ∈ id.valid then
    if id.values.p25Sysid ≠ sysid then id else f (id.set {.p25Sysid})
  else f (id.put {.p25Sysid} fun v => { v with p25Sysid := sysid })

/-- `dsd_rxid_note_p25_site`. -/
def noteP25Site (sysid rfss site : ℕ) (s : State) : State :=
  if sysid % 2 ^ 12 = 0 then s
  else s.noteFor .p25 (Received.p25Bound (sysid % 2 ^ 12) fun id =>
    (id.invalidateIf
      (.p25Site ∈ id.valid ∧ (id.values.p25Rfss ≠ rfss ∨ id.values.p25Site ≠ site))
      {.p25Site, .p25Lra, .ccFreq}).put {.p25Site}
      fun v => { v with p25Rfss := rfss, p25Site := site })

/-- `dsd_rxid_note_p25_lra`. -/
def noteP25Lra (sysid lra : ℕ) (s : State) : State :=
  if sysid % 2 ^ 12 = 0 then s
  else s.noteFor .p25 (Received.p25Bound (sysid % 2 ^ 12) fun id =>
    id.put {.p25Lra} fun v => { v with p25Lra := lra })

/-- The record `rxid_dmr` gives a note of a trunking system. -/
def Received.ofTrunk (trunk : ℕ) (id : Received) : Received :=
  if trunk = 0 then id
  else (id.invalidateIf (id.Has dmrTrunkParts ∧ id.values.dmrTrunk ≠ trunk)
    {.dmrRestLsn, .dmrSiteText, .dmrBrand, .dmrT3Syscode, .dmrXptFreeLcn, .ccFreq}).write
    fun v => { v with dmrTrunk := trunk }

/-- `rxid_dmr_trunk_named`, of a brand. -/
def trunkOfBrand (text : List Char) : ℕ :=
  if text = "Capacity Plus".toList then 2
  else if text = "Connect Plus".toList then 3
  else if text = "Hytera XPT".toList then 4
  else 0

/-- `rxid_dmr_trunk_named`, of a site text. -/
def trunkOfSiteText (text : List Char) : ℕ :=
  if text.take 4 = "Cap+".toList then 2
  else if text.take 4 = "Con+".toList then 3
  else if text.take 4 = "TIII".toList then 1
  else 0

/-- `dsd_rxid_note_dmr_rest_lsn`. -/
def noteDmrRestLsn (lsn : ℕ) (s : State) : State :=
  s.noteFor .dmr fun id =>
    (id.ofTrunk 2).put {.dmrRestLsn} fun v => { v with dmrRestLsn := lsn }

/-- A site text as the record holds it. -/
def Received.heardSiteText (next : List Char) (id : Received) : Received :=
  (id.invalidateIf (.dmrSiteText ∈ id.valid ∧ id.values.dmrSiteText ≠ next)
    {.dmrSiteText, .dmrRestLsn, .dmrXptFreeLcn, .ccFreq}).put {.dmrSiteText}
    fun v => { v with dmrSiteText := next }

/-- `dsd_rxid_note_dmr_site_text`. -/
def noteDmrSiteText (text : List Char) (s : State) : State :=
  if text = [] then s
  else s.noteFor .dmr fun id => (id.ofTrunk (trunkOfSiteText text)).heardSiteText (text.take 63)

/-- `dsd_rxid_note_dmr_brand`. -/
def noteDmrBrand (brand : List Char) (s : State) : State :=
  if brand = [] then s
  else s.noteFor .dmr fun id =>
    (id.ofTrunk (trunkOfBrand brand)).put {.dmrBrand} fun v => { v with dmrBrand := brand.take 31 }

/-- `dsd_rxid_note_dmr_vendor`. -/
def noteDmrVendor (mfid : ℕ) (s : State) : State :=
  if mfid = 0 then s
  else s.noteFor .dmr fun id => id.put {.dmrVendor} fun v => { v with dmrVendor := mfid }

/-- A Tier III system code as the record holds it. -/
def Received.heardSyscode (syscode : ℕ) (id : Received) : Received :=
  (id.invalidateIf (.dmrT3Syscode ∈ id.valid ∧ id.values.dmrT3Syscode ≠ syscode)
    {.dmrT3Syscode, .dmrSiteText, .ccFreq}).put {.dmrT3Syscode}
    fun v => { v with dmrT3Syscode := syscode }

/-- `dsd_rxid_note_dmr_t3_syscode`. -/
def noteDmrT3Syscode (syscode : ℕ) (s : State) : State :=
  s.noteFor .dmr fun id => (id.ofTrunk 1).heardSyscode syscode

/-- `dsd_rxid_note_dmr_xpt_free_lcn`. -/
def noteDmrXptFreeLcn (lcn : ℕ) (s : State) : State :=
  s.noteFor .dmr fun id =>
    (id.ofTrunk 4).put {.dmrXptFreeLcn} fun v => { v with dmrXptFreeLcn := lcn % 16 }

/-- A location as the record holds it. -/
def Received.heardLocation (category sys site : ℕ) (id : Received) : Received :=
  (id.invalidateIf
    (.nxdnLocation ∈ id.valid ∧ (id.values.nxdnCategory ≠ category ∨
      id.values.nxdnSys ≠ sys ∨ id.values.nxdnSite ≠ site))
    {.nxdnLocation, .ccFreq}).put {.nxdnLocation}
    fun v => { v with nxdnCategory := category, nxdnSys := sys, nxdnSite := site }

/-- `dsd_rxid_note_nxdn_location`. -/
def noteNxdnLocation (category sys site : ℕ) (s : State) : State :=
  if 2 < category then s
  else s.noteFor .nxdn fun id => (id.ofNxdn false).heardLocation category sys site

/-- An area bit as the record holds it. -/
def Received.heardArea (area : ℕ) (id : Received) : Received :=
  (id.invalidateIf (.nxdnIdasArea ∈ id.valid ∧ id.values.nxdnIdasArea ≠ area)
    {.nxdnIdasArea, .nxdnIdasSite, .nxdnTypedSystem, .ccFreq}).put {.nxdnIdasArea}
    fun v => { v with nxdnIdasArea := area }

/-- `dsd_rxid_note_nxdn_idas_area`. -/
def noteNxdnIdasArea (area : ℕ) (s : State) : State :=
  s.noteFor .nxdn fun id => (id.ofNxdn true).heardArea (area % 2)

/-- What a site ID leaves of a record. -/
def Received.forIdasSite (siteType siteCode : ℕ) (id : Received) : Received :=
  let apart := id.invalidateIf
    (.nxdnIdasSite ∈ id.valid ∧
      (id.values.nxdnIdasSiteType ≠ siteType ∨ id.values.nxdnIdasSiteCode ≠ siteCode))
    {.nxdnIdasSite, .ccFreq}
  apart.invalidateIf
    (.nxdnTypedSystem ∈ apart.valid ∧ apart.values.nxdnTypedSite ≠ siteCode)
    {.nxdnTypedSystem, .ccFreq}

/-- `dsd_rxid_note_nxdn_idas_site`. -/
def noteNxdnIdasSite (siteType siteCode : ℕ) (s : State) : State :=
  if siteType < 1 ∨ 3 < siteType ∨ siteCode < 1 ∨ 250 < siteCode then s
  else s.noteFor .nxdn fun id =>
    ((id.ofNxdn true).forIdasSite siteType siteCode).put {.nxdnIdasSite}
      fun v => { v with nxdnIdasSiteType := siteType, nxdnIdasSiteCode := siteCode }

/-- What a Type-D system ID leaves of a record. -/
def Received.forTypedSystem (sys site : ℕ) (id : Received) : Received :=
  let apart :=
    if .nxdnTypedSystem ∈ id.valid ∧ id.values.nxdnTypedSys ≠ sys then
      id.invalidate {.nxdnTypedSystem, .nxdnIdasArea, .nxdnIdasSite, .ccFreq}
    else id.invalidateIf (.nxdnTypedSystem ∈ id.valid ∧ id.values.nxdnTypedSite ≠ site)
      {.nxdnTypedSystem, .nxdnIdasArea, .ccFreq}
  apart.invalidateIf (.nxdnIdasSite ∈ apart.valid ∧ apart.values.nxdnIdasSiteCode ≠ site)
    {.nxdnIdasSite, .nxdnIdasArea, .ccFreq}

/-- `dsd_rxid_note_nxdn_typed_system`. -/
def noteNxdnTypedSystem (sys site : ℕ) (s : State) : State :=
  s.noteFor .nxdn fun id =>
    ((id.ofNxdn true).forTypedSystem (sys % 2 ^ 19) site).put {.nxdnTypedSystem}
      fun v => { v with nxdnTypedSys := sys % 2 ^ 19, nxdnTypedSite := site }

/-- The record `rxid_edacs` gives a note, read under an addressing mode cut to a byte. -/
def Received.ofEaMode (eaMode : ℤ) (id : Received) : Received :=
  (id.invalidateIf (id.Has edacsParts ∧ id.values.edacsEaMode ≠ eaMode.bmod 256)
    {.edacsSite, .edacsArea, .edacsSystem, .edacsCcLcn, .ccFreq}).write
    fun v => { v with edacsEaMode := eaMode.bmod 256 }

/-- An EDACS note. -/
def State.noteEdacs (f : Received → Received) (s : State) : State :=
  s.noteFor .edacs fun id => f (id.ofEaMode s.eaMode)

/-- `dsd_rxid_note_edacs_site`. -/
def noteEdacsSite (site : ℕ) (s : State) : State :=
  s.noteEdacs fun id =>
    (id.invalidateIf (.edacsSite ∈ id.valid ∧ id.values.edacsSite ≠ site)
      {.edacsSite, .edacsCcLcn, .ccFreq}).put {.edacsSite} fun v => { v with edacsSite := site }

/-- `dsd_rxid_note_edacs_area`. -/
def noteEdacsArea (area : ℕ) (s : State) : State :=
  s.noteEdacs fun id => id.put {.edacsArea} fun v => { v with edacsArea := area }

/-- `dsd_rxid_note_edacs_system`. -/
def noteEdacsSystem (system : ℕ) (s : State) : State :=
  s.noteEdacs fun id =>
    (id.invalidateIf (.edacsSystem ∈ id.valid ∧ id.values.edacsSystem ≠ system)
      {.edacsSystem, .edacsSite, .edacsArea, .edacsCcLcn, .ccFreq}).put {.edacsSystem}
      fun v => { v with edacsSystem := system }

/-- `dsd_rxid_note_edacs_cc_lcn`. -/
def noteEdacsCcLcn (lcn : ℕ) (s : State) : State :=
  s.noteEdacs fun id => id.put {.edacsCcLcn} fun v => { v with edacsCcLcn := lcn }

/-- Whether a cell is the record's. -/
def Received.SameCell (mcc mnc colour : ℕ) (id : Received) : Prop :=
  .tetraNet ∈ id.valid ∧ id.values.tetraMcc = mcc ∧ id.values.tetraMnc = mnc ∧
    id.values.tetraColour = colour

instance (mcc mnc colour : ℕ) (id : Received) : Decidable (id.SameCell mcc mnc colour) :=
  inferInstanceAs (Decidable (_ ∧ _))

/-- A cell as the record holds it; its colour code is the access code. -/
def Received.heardCell (mcc mnc colour : ℕ) (id : Received) : Received :=
  (id.invalidateIf (¬ id.SameCell mcc mnc colour) {.tetraNet, .tetraLa, .ccFreq}).put
    {.tetraNet, .access}
    fun v => { v with
      tetraMcc := mcc, tetraMnc := mnc, tetraColour := colour, accessKind := 1, access := colour }

/-- `dsd_rxid_note_tetra_cell`. -/
def noteTetraCell (mcc mnc colour : ℕ) (s : State) : State :=
  s.noteFor .tetra (·.heardCell (mcc % 2 ^ 10) (mnc % 2 ^ 14) (colour % 2 ^ 6))

/-- A note through `rxid_tetra`. -/
def State.noteTetra (f : Received → Received) (s : State) : State :=
  if s.givesRecord ∧ s.rxId.family = .tetra then s.edit f else s

/-- `dsd_rxid_note_tetra_la`. -/
def noteTetraLa (la : ℕ) (s : State) : State :=
  s.noteTetra fun id =>
    if .tetraNet ∈ id.valid then id.put {.tetraLa} fun v => { v with tetraLa := la % 2 ^ 14 }
    else id

/-- `dsd_rxid_note_tetra_other_cell`. -/
def noteTetraOtherCell (s : State) : State := s.noteTetra (·.invalidate {.tetraLa, .ccFreq})

/-- `dsd_rxid_note_tetra_direct_mode`. -/
def noteTetraDirectMode (s : State) : State := s.noteTetra Received.clear

/-- `dsd_rxid_note_cc_freq`. -/
def noteCcFreq (family : Family) (freqHz : ℕ) (s : State) : State :=
  if freqHz = 0 then s
  else s.noteFor family fun id => id.put {.ccFreq} fun v => { v with ccFreqHz := freqHz }

/-- `dsd_rxid_forget_system`. -/
def forgetSystem (family : Family) (withAccess : Bool) (s : State) : State :=
  if family ≠ .noFamily ∧ s.rxId.family = family then
    s.edit (·.invalidate
      (if withAccess then systemParts s.rxId.family ∪ {.access} else systemParts s.rxId.family))
  else s

/-- The decoders `dsd_opts` runs. -/
structure Opts where
  frameDmr : ℤ
  frameP25p1 : ℤ
  frameP25p2 : ℤ
  frameNxdn48 : ℤ
  frameNxdn96 : ℤ
  frameDpmr : ℤ
  frameM17 : ℤ
  frameTetra : ℤ
  frameProvoice : ℤ

/-- `rxid_family_decoded`. -/
def Opts.familyDecoded (opts : Opts) : Family → Bool
  | .dmr => opts.frameDmr = 1
  | .p25 => opts.frameP25p1 = 1 || opts.frameP25p2 = 1
  | .nxdn => opts.frameNxdn48 = 1 || opts.frameNxdn96 = 1
  | .dpmr => opts.frameDpmr = 1
  | .m17 => opts.frameM17 = 1
  | .tetra => opts.frameTetra = 1
  | .edacs => opts.frameProvoice = 1
  | .noFamily | .other => true

/-- `dsd_rxid_note_decoder_settings`. -/
def noteDecoderSettings (opts : Opts) (s : State) : State :=
  if s.rxId.family = .noFamily then s
  else if opts.familyDecoded s.rxId.family = false ∨
      (s.rxId.family = .edacs ∧ s.rxId.values.edacsEaMode ≠ s.eaMode.bmod 256) then
    s.edit Received.clear
  else s

/-- What can happen to the record. -/
inductive Note where
  | reset
  | sync (synctype : ℤ)
  | stale
  | tune
  | requestTune
  | applyTune
  | access (family : Family) (kind value : ℕ)
  | p25Network (wacn sysid : ℕ)
  | p25Site (sysid rfss site : ℕ)
  | p25Lra (sysid lra : ℕ)
  | dmrRestLsn (lsn : ℕ)
  | dmrSiteText (text : List Char)
  | dmrBrand (brand : List Char)
  | dmrVendor (mfid : ℕ)
  | dmrT3Syscode (syscode : ℕ)
  | dmrXptFreeLcn (lcn : ℕ)
  | nxdnLocation (category sys site : ℕ)
  | nxdnIdasArea (area : ℕ)
  | nxdnIdasSite (siteType siteCode : ℕ)
  | nxdnTypedSystem (sys site : ℕ)
  | edacsSite (site : ℕ)
  | edacsArea (area : ℕ)
  | edacsSystem (system : ℕ)
  | edacsCcLcn (lcn : ℕ)
  | tetraCell (mcc mnc colour : ℕ)
  | tetraLa (la : ℕ)
  | tetraOtherCell
  | tetraDirectMode
  | ccFreq (family : Family) (freqHz : ℕ)
  | forget (family : Family) (withAccess : Bool)
  | settings (opts : Opts)
  /-- The rest of the decoder: dispatch, carrier, interruption, addressing mode. -/
  | meanwhile (active : Bool) (dispatchSeq seq : ℕ) (interrupted : Bool) (eaMode : ℤ)

/-- One of them. -/
def Note.apply : Note → State → State
  | .reset => rxidReset
  | .sync synctype => noteSync synctype
  | .stale => markStale
  | .tune => trunkTune
  | .requestTune => requestTrunkTune
  | .applyTune => applyTrunkTune
  | .access family kind value => noteAccess family kind value
  | .p25Network wacn sysid => noteP25Network wacn sysid
  | .p25Site sysid rfss site => noteP25Site sysid rfss site
  | .p25Lra sysid lra => noteP25Lra sysid lra
  | .dmrRestLsn lsn => noteDmrRestLsn lsn
  | .dmrSiteText text => noteDmrSiteText text
  | .dmrBrand brand => noteDmrBrand brand
  | .dmrVendor mfid => noteDmrVendor mfid
  | .dmrT3Syscode syscode => noteDmrT3Syscode syscode
  | .dmrXptFreeLcn lcn => noteDmrXptFreeLcn lcn
  | .nxdnLocation category sys site => noteNxdnLocation category sys site
  | .nxdnIdasArea area => noteNxdnIdasArea area
  | .nxdnIdasSite siteType siteCode => noteNxdnIdasSite siteType siteCode
  | .nxdnTypedSystem sys site => noteNxdnTypedSystem sys site
  | .edacsSite site => noteEdacsSite site
  | .edacsArea area => noteEdacsArea area
  | .edacsSystem system => noteEdacsSystem system
  | .edacsCcLcn lcn => noteEdacsCcLcn lcn
  | .tetraCell mcc mnc colour => noteTetraCell mcc mnc colour
  | .tetraLa la => noteTetraLa la
  | .tetraOtherCell => noteTetraOtherCell
  | .tetraDirectMode => noteTetraDirectMode
  | .ccFreq family freqHz => noteCcFreq family freqHz
  | .forget family withAccess => forgetSystem family withAccess
  | .settings opts => noteDecoderSettings opts
  | .meanwhile active dispatchSeq seq interrupted eaMode => fun s =>
    { s with
      frameDispatchActive := active, frameDispatchCarrierSeq := dispatchSeq, carrierSeq := seq,
      inputInterrupted := interrupted, eaMode := eaMode }

/-- A run. -/
def run (notes : List Note) (s : State) : State := notes.foldl (fun s n => n.apply s) s

end DsdNeo.Identity
