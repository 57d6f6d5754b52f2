import DsdNeo.Core.Cache.Recency
import DsdNeo.Core.Bits.Sizes

/-!
# P25 channel frequencies

`p25_frequency.c` and `dsd_state_p25_bandplan.c`: the two tables of identifier
parameters, the user band plan that seeds them, and the channel map that keeps the
frequencies worked out from them. A lookup is served from the map unless both tables
hold the identifier of the channel.
-/

namespace DsdNeo.P25.Frequency

/-- `p25_iden_entry_t`. -/
structure IdenEntry where
  baseFreq : ℤ
  chanType : BitVec 32
  chanSpac : ℤ
  transOff : ℤ
  bwVu : BitVec 8
  trust : BitVec 8
  populated : Bool
  wacn : BitVec 64
  sysid : BitVec 64
  rfss : BitVec 64
  site : BitVec 64
  deriving DecidableEq

/-- An entry as `memset` leaves it. -/
def IdenEntry.empty : IdenEntry := ⟨0, 0, 0, 0, 0, 0, false, 0, 0, 0, 0⟩

/-- `p25_bandplan_row_t`. -/
structure BandplanRow where
  iden : BitVec 8
  isTdma : Bool
  entry : IdenEntry
  deriving DecidableEq

/-- The two tables of identifiers. -/
inductive Table where
  | fdma
  | tdma
  deriving DecidableEq

/-- The bit of a table in `p25_chan_tdma_explicit`. -/
def Table.bit : Table → BitVec 8
  | .fdma => 0x01
  | .tdma => 0x02

def Table.other : Table → Table
  | .fdma => .tdma
  | .tdma => .fdma

/-- What the channel calculator and the band plan read and write. -/
structure State where
  synctype : ℤ
  ccIsTdma : ℤ
  sysIsTdma : ℤ
  wacn : BitVec 64
  sysid : BitVec 64
  chanTdmaExplicit : Fin 16 → BitVec 8
  iden : Table → Fin 16 → IdenEntry
  bandplanRows : List BandplanRow
  trunkChanMap : BitVec 16 → ℤ

/-- `dsd_state_trunk_chan_valid`: the map has `0xFFFF` places. -/
def trunkChanValid (channel : BitVec 16) : Bool := channel.toNat < 0xFFFF

/-- `dsd_state_set_trunk_chan_freq`. -/
def setTrunkChanFreq (s : State) (channel : BitVec 16) (freq : ℤ) : State :=
  if trunkChanValid channel then
    { s with trunkChanMap := Function.update s.trunkChanMap channel freq }
  else s

/-- `p25_invalidate_chan_map_for_iden`. -/
def invalidateChanMapForIden (s : State) (iden : Fin 16) : State :=
  let start := iden.val <<< 12
  let stop := min ((iden.val + 1) <<< 12) 0xFFFF
  (List.range' start (stop - start)).foldl (fun s ch => setTrunkChanFreq s (.ofNat 16 ch) 0) s

/-- `p25_invalidate_chan_map`. -/
def invalidateChanMap (s : State) : State :=
  (List.finRange 16).foldl invalidateChanMapForIden s

/-- `P25_FREQ_MODE_*`. -/
inductive FreqMode where
  | auto
  | fdma
  | tdma
  deriving DecidableEq

/-- `DSD_SYNC_IS_P25P2`. -/
def syncIsP25p2 (synctype : ℤ) : Bool := synctype = 35 || synctype = 36

/-- `p25_auto_prefers_tdma`. -/
def autoPrefersTdma (s : State) (iden : Fin 16) : Bool :=
  let explicitHint := s.chanTdmaExplicit iden
  if explicitHint = 0x02 then true
  else if explicitHint = 0x01 then false
  else if explicitHint = 0x03 then syncIsP25p2 s.synctype || s.ccIsTdma = 1
  else false

/-- `p25_select_iden_entry`: the entry, and whether it is of the TDMA table. -/
def selectIdenEntry (s : State) (iden : Fin 16) (mode : FreqMode) : IdenEntry × Bool :=
  let preferTdma := if mode = .auto then autoPrefersTdma s iden else mode = .tdma
  let primary := if preferTdma then s.iden .tdma iden else s.iden .fdma iden
  let fallback := if preferTdma then s.iden .fdma iden else s.iden .tdma iden
  if primary.populated then (primary, preferTdma)
  else if fallback.populated then (fallback, !preferTdma)
  else (primary, preferTdma)

/-- `p25_iden_slot_is_ambiguous`. -/
def idenSlotIsAmbiguous (s : State) (iden : Fin 16) : Bool :=
  (s.iden .fdma iden).populated && (s.iden .tdma iden).populated

/-- `p25_channel_type_slots_per_carrier`, of a type already masked. -/
def channelTypeSlotsPerCarrier (type : ℕ) : ℕ :=
  if type ≤ 2 then 1 else if type = 4 then 4 else 2

/-- `p25_channel_tdma_denom`. -/
def channelTdmaDenom (s : State) (iden : Fin 16) (mode : FreqMode) (useTdmaDenom : Bool)
    (type : ℕ) : Option ℕ :=
  if useTdmaDenom then
    if 15 < type then none
    else if channelTypeSlotsPerCarrier type = 0 then none
    else some (channelTypeSlotsPerCarrier type)
  else if mode = .auto ∧ s.chanTdmaExplicit iden = 0 ∧ s.sysIsTdma = 1 then some 2
  else some 1

/-- `p25_iden_entry_ready`. -/
def IdenEntry.ready (e : IdenEntry) : Bool := e.populated && e.baseFreq ≠ 0 && e.chanSpac ≠ 0

/-- `DSD_TRUNK_FREQ_MAX_HZ`. -/
def trunkFreqMaxHz : ℤ := 2147483647

/-- The identifier of a channel: its top four bits. -/
def chanIden (chan16 : BitVec 16) : Fin 16 := .ofNat 16 (chan16.toNat >>> 12)

/-- `p25_channel_to_freq_impl`: the frequency and the state with its map filled. -/
def channelToFreqImpl (s : State) (channel : BitVec 32) (mode : FreqMode) : ℤ × State :=
  let chan16 := channel.setWidth 16
  if chan16 = 0xFFFF then (0, s)
  else
    let iden := chanIden chan16
    let (entry, useTdmaDenom) := selectIdenEntry s iden mode
    match channelTdmaDenom s iden mode useTdmaDenom (entry.chanType &&& 0xF).toNat with
    | none => (0, s)
    | some denom =>
      let step := (chan16 &&& 0xFFF).toNat / denom
      let ambiguous := idenSlotIsAmbiguous s iden
      -- `p25_channel_cached_freq`
      if !ambiguous && s.trunkChanMap chan16 ≠ 0 then (s.trunkChanMap chan16, s)
      else if !entry.ready then (0, s)
      else
        let freqHz := entry.baseFreq * 5 + step * entry.chanSpac * 125
        if entry.baseFreq ≤ 0 ∨ freqHz ≤ 0 ∨ trunkFreqMaxHz < freqHz then (0, s)
        else if ambiguous then (freqHz, s)
        else (freqHz, setTrunkChanFreq s chan16 freqHz)

/-- `process_channel_to_freq`. -/
def processChannelToFreq (s : State) (channel : BitVec 32) : ℤ × State :=
  channelToFreqImpl s channel .auto

/-- `bandplan_row_is_global`. -/
def BandplanRow.isGlobal (row : BandplanRow) : Bool := row.entry.wacn = 0 && row.entry.sysid = 0

/-- The table a row seeds. -/
def BandplanRow.table (row : BandplanRow) : Table := if row.isTdma then .tdma else .fdma

/-- The place a row seeds in its table. -/
def BandplanRow.place (row : BandplanRow) : Fin 16 := .ofNat 16 (row.iden &&& 0xF).toNat

/-- `bandplan_row_slot`. -/
def BandplanRow.slot (s : State) (row : BandplanRow) : IdenEntry := s.iden row.table row.place

/-- `bandplan_entry_numbers_equal`. -/
def entryNumbersEqual (a b : IdenEntry) : Bool :=
  a.baseFreq = b.baseFreq && a.chanSpac = b.chanSpac && a.chanType = b.chanType
    && a.transOff = b.transOff && a.bwVu = b.bwVu

/-- `bandplan_slot_is_seeded_global`. -/
def slotIsSeededGlobal (s : State) (row : BandplanRow) (slot : IdenEntry) : Bool :=
  slot.trust = 1 && slot.wacn = 0 && slot.sysid = 0 && slot.rfss = 0 && slot.site = 0
    && s.bandplanRows.any fun g =>
      g.iden = row.iden && g.isTdma = row.isTdma && g.isGlobal && entryNumbersEqual g.entry slot

/-- Put an entry in a table and note the table in the identifier's hint. -/
def State.store (s : State) (t : Table) (iden : Fin 16) (e : IdenEntry) (hint : BitVec 8) : State :=
  { s with
    iden := Function.update s.iden t (Function.update (s.iden t) iden e)
    chanTdmaExplicit := Function.update s.chanTdmaExplicit iden hint }

/-- `bandplan_write_slot`. -/
def writeSlot (s : State) (row : BandplanRow) : State :=
  s.store row.table row.place
    { row.entry with trust := 1, populated := true, rfss := 0, site := 0 }
    (s.chanTdmaExplicit row.place ||| row.table.bit)

/-- `DSD_P25_BANDPLAN_MAX_ROWS`. -/
def bandplanMaxRows : ℕ := 64

/-- A row that names the system the receiver knows. -/
def BandplanRow.namesSystem (s : State) (row : BandplanRow) : Bool :=
  !row.isGlobal && row.entry.wacn = s.wacn && row.entry.sysid = s.sysid

/-- The first loop's body: a row that names the system. -/
def seedSystemRow (acc : ℕ × State) (row : BandplanRow) : ℕ × State :=
  if !row.namesSystem acc.2 then acc
  else if (row.slot acc.2).populated && !slotIsSeededGlobal acc.2 row (row.slot acc.2) then acc
  else (acc.1 + 1, writeSlot acc.2 row)

/-- The second loop's body: a row that applies everywhere. -/
def seedGlobalRow (acc : ℕ × State) (row : BandplanRow) : ℕ × State :=
  if !row.isGlobal then acc
  else if (row.slot acc.2).populated then acc
  else (acc.1 + 1, writeSlot acc.2 row)

/-- `dsd_state_p25_bandplan_seed`: the number of slots written, and the state. -/
def bandplanSeed (s : State) : ℕ × State :=
  let rows := s.bandplanRows.take bandplanMaxRows
  let identityKnown := s.wacn ≠ 0 ∨ s.sysid ≠ 0
  let acc := if identityKnown then rows.foldl seedSystemRow (0, s) else (0, s)
  rows.foldl seedGlobalRow acc

/-- `p25_reset_iden_tables`. -/
def resetIdenTables (s : State) : State :=
  { s with chanTdmaExplicit := fun _ => 0, iden := fun _ _ => .empty }

/-- `p25_update_system_identity`. -/
def updateSystemIdentity (s : State) (wacn sysid : BitVec 64) : Bool × State :=
  if wacn = 0 ∧ sysid = 0 then (false, s)
  else
    let changed := s.wacn ≠ wacn ∨ s.sysid ≠ sysid
    let s₁ := if (s.wacn ≠ 0 ∨ s.sysid ≠ 0) ∧ changed then invalidateChanMap (resetIdenTables s)
      else s
    let s₂ := { s₁ with wacn := wacn, sysid := sysid }
    (true, if changed then (bandplanSeed s₂).2 else s₂)

end DsdNeo.P25.Frequency
