import DsdNeo.Models.Tetra.MacPdu

/-!
# Rebuilding fragmented TM-SDUs

Each timeslot of the downlink has a context in which a TM-SDU is put together from the
fragments its blocks carry. A block is read PDU by PDU. The layers above may answer a
PDU by forgetting all fragments, stopping the clock or leaving the carrier. What was
heard and what was delivered is logged in order.
-/

namespace DsdNeo.Tetra.Mac

open Bits

/-- `MAC_N203_HALF_SLOTS`. -/
def macN203HalfSlots : ℕ := 8

/-- `MAC_NULL_PDU_BITS`. -/
def macNullPduBits : ℕ := 16

/-- `TETRA_TDMA_SLOT_SYMBOLS`. -/
def tdmaSlotSymbols : ℕ := 255

/-- `TETRA_MAC_TM_SDU_MAX_BITS`. -/
def macTmSduMaxBits : ℕ := 2632

/-- `tetra_mac_fragment`, the bits rebuilt so far as a list. -/
structure Fragment where
  active : Bool
  encMode : ℕ
  idleHalfSlots : ℕ
  slotStart : BitVec 32
  cc : BitVec 6
  addr : Address
  bits : List Bool

/-- The TDMA clock, with the symbol of the air its slot starts at, counted without an end. -/
structure Clock where
  valid : Bool
  tn : ℕ
  slotSymbol : ℕ

/-- `tdma_slot_start`: what 32 bits hold of the count. -/
def Clock.slotStart (clock : Clock) : BitVec 32 := BitVec.ofNat 32 clock.slotSymbol

/-- How the layers above answer a PDU. -/
structure Reaction where
  forgets : Bool
  stopsClock : Bool
  retunes : Bool

/-- What a PDU is to the rebuilding of TM-SDUs. -/
inductive Pdu where
  /-- A MAC-RESOURCE with length indication 63. -/
  | start (encrypted : Bool) (content : List Bool)
  /-- A MAC-FRAG, or a MAC-END, and its content where it has one. -/
  | piece (last : Bool) (content : Option (List Bool))
  /-- A clear PDU that carries a TM-SDU of its own. -/
  | whole (content : List Bool)
  | other

/-- What happened, in order. -/
inductive Entry where
  | pdu (lane : ℕ) (cc : BitVec 6) (pdu : Pdu)
  /-- A rebuilt TM-SDU is delivered. -/
  | rebuilt (lane : ℕ) (bits : List Bool)
  /-- A TM-SDU of one PDU is delivered. -/
  | delivered (bits : List Bool)
  /-- A block of the timeslot: the symbol its slot starts at, and that of the block before. -/
  | block (lane : ℕ) (last : Option ℕ) (now : ℕ)
  /-- A block of so many bits without a fragment. -/
  | quiet (lane : ℕ) (blockBits : ℕ)
  | failed (lane : ℕ)
  | forget

/-- The symbol this timeslot's block starts at, where the entry is one. -/
def Entry.blockSymbol (lane : ℕ) : Entry → Option ℕ
  | .block l _ now => if l = lane then some now else none
  | _ => none

/-- The symbol this timeslot's last block starts at. -/
def lastBlock (lane : ℕ) (log : List Entry) : Option ℕ :=
  log.foldl (fun last e => (e.blockSymbol lane).or last) none

/-- What a block is decoded in: the fragments, the clock, whether its burst is still the
carrier's, and whether it carried a fragment. -/
structure World where
  frags : ℕ → Fragment
  clock : Clock
  current : Bool
  fragmentSeen : Bool
  reactions : List Reaction
  log : List Entry

/-- `mac_block`. -/
structure Block where
  cc : BitVec 6
  blockBits : ℕ
  lane : ℕ

/-- `fragment_timeslot`. -/
def fragmentTimeslot (clock : Clock) : ℕ :=
  if clock.valid ∧ 1 ≤ clock.tn ∧ clock.tn ≤ 4 then clock.tn else 0

/-- `discard_fragment`. -/
def discardFragment (f : Fragment) : Fragment :=
  { f with active := false, encMode := encModeNone, idleHalfSlots := 0, bits := [] }

/-- `fragment_append`. -/
def fragmentAppend (f : Fragment) (bits : List Bool) : Option Fragment :=
  if bits.length > macTmSduMaxBits - f.bits.length then none
  else some { f with bits := f.bits ++ bits }

/-- The world with another fragment context. -/
def World.setFrag (w : World) (lane : ℕ) (f : Fragment) : World :=
  { w with frags := Function.update w.frags lane f }

@[simp] theorem World.setFrag_self (w : World) (lane : ℕ) (f : Fragment) :
    (w.setFrag lane f).frags lane = f := Function.update_self ..

/-- The fragment of another lane stays. -/
theorem World.setFrag_of_ne (w : World) {lane l : ℕ} (f : Fragment) (h : l ≠ lane) :
    (w.setFrag lane f).frags l = w.frags l := Function.update_of_ne h ..

@[simp] theorem World.setFrag_log (w : World) (lane : ℕ) (f : Fragment) :
    (w.setFrag lane f).log = w.log := rfl

/-- The world with an entry logged. -/
def World.note (w : World) (e : Entry) : World := { w with log := w.log ++ [e] }

/-- The layers above take their turn. Where they forget the fragments they stop the clock too,
as `tetra_forget_carrier` and `bsch_forget_cell` do. -/
def World.react (w : World) : World :=
  match w.reactions with
  | [] => w
  | r :: reactions =>
    { w with
      frags := if r.forgets then fun lane => discardFragment (w.frags lane) else w.frags
      clock := if r.forgets ∨ r.stopsClock then { w.clock with valid := false } else w.clock
      current := w.current && !r.retunes
      reactions := reactions
      log := if r.forgets then w.log ++ [.forget] else w.log }

/-- `start_fragment`. -/
def startFragment (b : Block) (addr : Address) (encMode : ℕ) (sdu : List Bool) (w : World) :
    World :=
  let f := w.frags b.lane
  let w := { w with fragmentSeen := true }
  if fragmentTimeslot w.clock = 0 then w.setFrag b.lane (discardFragment f)
  else
    let f :=
      { discardFragment f with active := true, encMode := encMode % 4, cc := b.cc, addr := addr }
    match fragmentAppend f sdu with
    | some f => w.setFrag b.lane f
    | none => w.setFrag b.lane (discardFragment f)

/-- `fragment_continues`. -/
def fragmentContinues (b : Block) (w : World) : Bool × World :=
  let f := w.frags b.lane
  if ¬ f.active then (false, w)
  else if f.cc ≠ b.cc then (false, w.setFrag b.lane (discardFragment f))
  else (true, { w with fragmentSeen := true }.setFrag b.lane { f with idleHalfSlots := 0 })

/-- `deliver_tm_sdu`, for a TM-SDU of one PDU. -/
def deliverTmSdu (sdu : List Bool) (w : World) : World :=
  World.react (if sdu ≠ [] then w.note (.delivered sdu) else w)

/-- `resource_encrypted`. -/
def resourceEncrypted (b : Block) (h : Resource) (w : World) : World :=
  let w := w.react
  if h.lengthInd = macLiFragmentStart then startFragment b h.addr h.encMode [] w else w.react

/-- `parse_mac_resource`. -/
def parseMacResource (b : Block) (bits : List Bool) (w : World) : ℕ × World :=
  match resourceDecode bits with
  | none => (0, w)
  | some h =>
    if h.encMode ≠ encModeNone then (h.pduBits, resourceEncrypted b h w)
    else
      match h.contents bits with
      | none => (h.pduBits, w)
      | some (_, sdu) =>
        if h.lengthInd = macLiFragmentStart then
          (h.pduBits, startFragment b h.addr encModeNone sdu w.react)
        else (h.pduBits, deliverTmSdu sdu w.react)

/-- `parse_mac_frag`. -/
def parseMacFrag (b : Block) (bits : List Bool) (w : World) : ℕ × World :=
  match fragDecode bits with
  | none => (0, w)
  | some sdu =>
    let (continues, w) := fragmentContinues b w
    let f := w.frags b.lane
    if ¬ continues then (0, w)
    else if f.encMode ≠ encModeNone then (bits.length, w)
    else
      match sdu.bind (fragmentAppend f) with
      | none => (bits.length, w.setFrag b.lane (discardFragment f))
      | some f => (bits.length, w.setFrag b.lane f)

/-- `complete_fragment`. -/
def completeFragment (b : Block) (w : World) : World :=
  let w := w.react
  let bits := (w.frags b.lane).bits
  let w := World.react (if bits ≠ [] then w.note (.rebuilt b.lane bits) else w)
  w.setFrag b.lane (discardFragment (w.frags b.lane))

/-- `finish_fragment`. -/
def finishFragment (b : Block) (bits : List Bool) (e : MacEnd) (w : World) : World :=
  let f := w.frags b.lane
  if f.encMode ≠ encModeNone then
    let w := (if e.allocPresent then w.react else w).react
    w.setFrag b.lane (discardFragment (w.frags b.lane))
  else
    match (e.contents bits).bind fun c => fragmentAppend f c.2 with
    | none => w.setFrag b.lane (discardFragment f)
    | some f => completeFragment b (w.setFrag b.lane f)

/-- `parse_mac_end`. -/
def parseMacEnd (b : Block) (bits : List Bool) (w : World) : ℕ × World :=
  match endDecode bits with
  | none => (0, w)
  | some e =>
    let (continues, w) := fragmentContinues b w
    (e.pduBits, if continues then finishFragment b bits e w else w)

/-- `parse_broadcast`. -/
def parseBroadcast (first : Bool) (bits : List Bool) (w : World) : ℕ × World :=
  if bits.length < 4 then (0, w)
  else
    let type := number (slice bits 2 4)
    if type = macBcAccessDef then
      match accessDefineBits bits with
      | none => (0, w)
      | some used => (used, w)
    else if type = macBcSysinfo ∧ first then
      (bits.length, if sysinfoComplete bits then w.react else w)
    else (0, w)

/-- `parse_supplementary`. -/
def parseSupplementary (b : Block) (bits : List Bool) (w : World) : ℕ × World :=
  if b.blockBits ≤ macHalfSlotBits then (bits.length, w)
  else
    match dBlckDecode bits with
    | none => (0, w)
    | some (encMode, _, sdu) =>
      (bits.length,
        if encMode = encModeNone ∧ sdu ≠ [] then (w.note (.delivered sdu)).react else w)

/-- The type and the subtype of a PDU. -/
def pduType (bits : List Bool) : ℕ × ℕ :=
  ((do
    let type ← read 2
    let subtype ← read 1
    pure (type, subtype) : StateM Reader (ℕ × ℕ)) (Reader.over bits bits.length 0)).1

/-- What a MAC-RESOURCE is to the rebuilding of TM-SDUs. -/
def classifyResource (bits : List Bool) : Pdu :=
  match resourceDecode bits with
  | none => .other
  | some h =>
    if h.encMode ≠ encModeNone then
      if h.lengthInd = macLiFragmentStart then .start true [] else .other
    else
      match h.contents bits with
      | none => .other
      | some (_, sdu) => if h.lengthInd = macLiFragmentStart then .start false sdu else .whole sdu

/-- What a supplementary PDU is to the rebuilding of TM-SDUs. -/
def classifySupplementary (blockBits : ℕ) (bits : List Bool) : Pdu :=
  if blockBits ≤ macHalfSlotBits then .other
  else
    match dBlckDecode bits with
    | none => .other
    | some (encMode, _, sdu) => if encMode = encModeNone then .whole sdu else .other

/-- What a PDU is to the rebuilding of TM-SDUs. -/
def classify (blockBits : ℕ) (bits : List Bool) : Pdu :=
  let (type, subtype) := pduType bits
  if type = macTypeResource then classifyResource bits
  else if type = macTypeFragEnd then
    if subtype = macFrageEnd then
      match endDecode bits with
      | none => .other
      | some e => .piece true ((e.contents bits).map Prod.snd)
    else
      match fragDecode bits with
      | none => .other
      | some sdu => .piece false sdu
  else if type = macTypeBroadcast then .other
  else classifySupplementary blockBits bits

/-- `parse_pdu`. -/
def parsePdu (b : Block) (first : Bool) (bits : List Bool) (w : World) : ℕ × World :=
  let (type, subtype) := pduType bits
  if type = macTypeResource then parseMacResource b bits w
  else if type = macTypeFragEnd then
    if subtype = macFrageEnd then parseMacEnd b bits w else parseMacFrag b bits w
  else if type = macTypeBroadcast then parseBroadcast first bits w
  else parseSupplementary b bits w

/-- The loop over the PDUs of a block. -/
def parseLoop (b : Block) : ℕ → Bool → List Bool → World → World
  | 0, _, _, w => w
  | fuel + 1, first, bits, w =>
    if bits.length < (if first then 2 else macNullPduBits) then w
    else
      let (used, w) :=
        parsePdu b first bits (w.note (.pdu b.lane b.cc (classify b.blockBits bits)))
      if used = 0 ∨ ¬ w.current then w else parseLoop b fuel false (bits.drop used) w

/-- `expire_if_idle`. -/
def expireIfIdle (f : Fragment) : Fragment :=
  if f.idleHalfSlots ≥ macN203HalfSlots then discardFragment f else f

/-- Slots of a timeslot that went by between its blocks, as the clock counted them. -/
def slotsBetween (last now : BitVec 32) : ℕ :=
  let symbols := (now - last).toNat
  if symbols > (2 ^ 32 - 1) / 2 then 0
  else (symbols + tdmaSlotSymbols / 2) / (4 * tdmaSlotSymbols) - 1

/-- `catch_up_fragment`. -/
def catchUpFragment (clock : Clock) (f : Fragment) : Fragment :=
  if fragmentTimeslot clock = 0 then f
  else
    let slots := slotsBetween f.slotStart clock.slotStart
    let f := { f with slotStart := clock.slotStart }
    if ¬ f.active ∨ slots = 0 then f
    else expireIfIdle { f with idleHalfSlots := min (f.idleHalfSlots + 2 * slots) macN203HalfSlots }

/-- Half slots of a block. -/
def Block.halfSlots (b : Block) : ℕ := if b.blockBits > macHalfSlotBits then 2 else 1

/-- `age_fragment`. -/
def ageFragment (b : Block) (w : World) : World :=
  let f := w.frags b.lane
  if ¬ f.active ∨ w.fragmentSeen then w
  else w.setFrag b.lane (expireIfIdle { f with idleHalfSlots := f.idleHalfSlots + b.halfSlots })

/-- The PDU starts or continues a TM-SDU. -/
def Pdu.isFragment : Pdu → Bool
  | .start _ _ => true
  | .piece _ _ => true
  | _ => false

/-- The entry is a fragment of this timeslot. -/
def Entry.isFragment (lane : ℕ) : Entry → Bool
  | .pdu l _ p => decide (l = lane) && p.isFragment
  | _ => false

/-- The fragments of all timeslots, and the log. -/
structure State where
  frags : ℕ → Fragment
  log : List Entry

/-- What reaches the MAC. -/
inductive Step where
  | block (bits : List Bool) (cc : BitVec 6) (uplink : Bool) (clock : Clock) (current : Bool)
      (reactions : List Reaction)
  | blockFailed (uplink : Bool) (clock : Clock)
  | forgetFragments

/-- `tetra_mac_parse_schd`. -/
def macParseSchd (s : State) (bits : List Bool) (cc : BitVec 6) (uplink : Bool) (clock : Clock)
    (current : Bool) (reactions : List Reaction) : State :=
  if bits.length < 2 ∨ uplink then s
  else
    let b : Block := ⟨cc, bits.length, fragmentTimeslot clock⟩
    let f := s.frags b.lane
    let w : World :=
      { frags := Function.update s.frags b.lane (catchUpFragment clock f)
        clock := clock
        current := current
        fragmentSeen := false
        reactions := reactions
        log :=
          if b.lane = 0 then [] else [.block b.lane (lastBlock b.lane s.log) clock.slotSymbol] }
    let w := ageFragment b (parseLoop b bits.length true bits w)
    { frags := w.frags
      log := s.log ++
        if w.log.any (Entry.isFragment b.lane) then w.log
        else w.log ++ [.quiet b.lane b.blockBits] }

/-- `tetra_mac_block_failed`. -/
def macBlockFailed (s : State) (uplink : Bool) (clock : Clock) : State :=
  let lane := fragmentTimeslot clock
  if uplink ∨ lane = 0 then s
  else
    { frags := Function.update s.frags lane (discardFragment (s.frags lane))
      log := s.log ++ [.failed lane] }

/-- `tetra_mac_forget_fragments`. -/
def macForgetFragments (s : State) : State where
  frags := fun lane => discardFragment (s.frags lane)
  log := s.log ++ [.forget]

/-- The state after a step. -/
def Step.take (s : State) : Step → State
  | .block bits cc uplink clock current reactions =>
    macParseSchd s bits cc uplink clock current reactions
  | .blockFailed uplink clock => macBlockFailed s uplink clock
  | .forgetFragments => macForgetFragments s

/-- A context as allocated. -/
def Fragment.start : Fragment := ⟨false, 0, 0, 0, 0, ⟨0, false, 0, 0, 0⟩, []⟩

/-- Nothing received. -/
def State.start : State := ⟨fun _ => Fragment.start, []⟩

/-- The state after steps. -/
def run (steps : List Step) : State := steps.foldl Step.take State.start

end DsdNeo.Tetra.Mac
