import DsdNeo.Core.Bits.Sizes
import DsdNeo.Core.Text.Render

/-!
# Keys given as text

`key_set.c`: a key typed in by the operator is parsed into a block of scalars of its
own, one rule for each type of key, before anything is changed. TETRA keys name
their network or their channel and take one slot of a table.
-/

namespace DsdNeo.Keys

open DsdNeo.Text

/-- What `dsd_tetra_air_key` holds. -/
structure TetraAirKey where
  loaded : BitVec 8
  kind : BitVec 8
  alg : BitVec 8
  cc : BitVec 8
  mcc : BitVec 16
  mnc : BitVec 16
  la : BitVec 16
  carrier : BitVec 16
  key : Vector (BitVec 8) 10
  deriving DecidableEq

/-- A cleared slot. -/
def TetraAirKey.zero : TetraAirKey := ⟨0, 0, 0, 0, 0, 0, 0, 0, Vector.replicate 10 0⟩

/-- `DSD_TETRA_AIR_KEY_TEA1_REDUCED`. -/
def tea1Reduced : BitVec 8 := 1

/-- `dsd_key_scalars`. -/
structure Scalars where
  K : BitVec 64
  K1 : BitVec 64
  K2 : BitVec 64
  K3 : BitVec 64
  K4 : BitVec 64
  R : BitVec 64
  RR : BitVec 64
  scalarKeyPresent : Vector (BitVec 8) 2
  basicKeyPresent : BitVec 8
  H : BitVec 64
  hyteraKeySegments : BitVec 8
  A1 : Vector (BitVec 64) 2
  A2 : Vector (BitVec 64) 2
  A3 : Vector (BitVec 64) 2
  A4 : Vector (BitVec 64) 2
  aesKeyLoaded : Vector ℤ 2
  aesKeySegments : Vector (BitVec 8) 2
  aesKey : Vector (BitVec 8) 32
  tetraAirKeys : Vector TetraAirKey 16
  deriving DecidableEq

open Scalars

/-- Cleared scalars. -/
def Scalars.zero : Scalars where
  K := 0
  K1 := 0
  K2 := 0
  K3 := 0
  K4 := 0
  R := 0
  RR := 0
  scalarKeyPresent := Vector.replicate 2 0
  basicKeyPresent := 0
  H := 0
  hyteraKeySegments := 0
  A1 := Vector.replicate 2 0
  A2 := Vector.replicate 2 0
  A3 := Vector.replicate 2 0
  A4 := Vector.replicate 2 0
  aesKeyLoaded := Vector.replicate 2 0
  aesKeySegments := Vector.replicate 2 0
  aesKey := Vector.replicate 32 0
  tetraAirKeys := Vector.replicate 16 TetraAirKey.zero

/-- `dsd_key_type`. -/
inductive KeyType where
  | basic
  | hex
  | rc4
  | scrambler
  | m17Scrambler
  | m17Aes
  | tetraAir
  deriving DecidableEq

/-- The failures of `dsd_key_direct_result`. -/
inductive DirectError where
  | invalidArgument
  | invalidDec
  | invalidHex
  deriving DecidableEq

/-- The digit loop of `key_parse_bounded_decimal`. -/
def boundedDigits (limit : ℕ) : Bytes → ℕ → Option (ℕ × Bytes)
  | [], value => some (value, [])
  | c :: t, value =>
    if !isDigit c then some (value, c :: t)
    else if value > (limit - digitValue c) / 10 then none
    else boundedDigits limit t (value * 10 + digitValue c)

/-- `key_parse_bounded_decimal`. -/
def parseBoundedDecimal (text : Bytes) (limit : ℕ) : Option (BitVec 64) :=
  let p := skipSpace text
  if !(p.head?.any isDigit) then none
  else
    match boundedDigits limit p 0 with
    | some (value, rest) => if skipSpace rest = [] then some (BitVec.ofNat 64 value) else none
    | none => none

/-- The digit loop of `key_set_collect_direct_hex`, with the digits so far. -/
def collectHexDigits : Bytes → Bytes → Option Bytes
  | [], out => some out
  | c :: t, out =>
    if isSpace c then collectHexDigits t out
    else if (hexNibbleValue c).isNone ∨ out.length ≥ 64 then none
    else collectHexDigits t (out ++ [c])

/-- `key_set_collect_direct_hex`. -/
def collectDirectHex (text : Bytes) : Option Bytes :=
  match skipSpace text with
  | 0x30 :: 0x78 :: t => collectHexDigits t []
  | 0x30 :: 0x58 :: t => collectHexDigits t []
  | t => collectHexDigits t []

/-- The eight bytes of a word, most significant first. -/
def wordBytes (value : BitVec 64) (i : ℕ) : BitVec 8 := (value >>> (56 - i * 8)).setWidth 8

/-- `key_set_direct_store_segment`. -/
def storeSegment (s : Scalars) (segment : ℕ) (value : BitVec 64) : Scalars :=
  let slot := Vector.replicate 2 value
  let s := match segment with
    | 0 => { s with A1 := slot }
    | 1 => { s with A2 := slot }
    | 2 => { s with A3 := slot }
    | _ => { s with A4 := slot }
  { s with aesKey := Vector.ofFn fun i =>
      if i.val / 8 = segment then wordBytes value (i.val % 8) else s.aesKey[i] }

/-- `key_set_direct_hex_width_valid`. -/
def directHexWidthValid (nhex : ℕ) : Bool := nhex = 10 || nhex = 32 || nhex = 64

/-- `dsd_key_scalars_store_direct_hex`. -/
def storeDirectHex (s : Scalars) (segments : Vector (BitVec 64) 4) (nhex : ℕ) : Scalars :=
  if !directHexWidthValid nhex ∧ nhex ≠ 48 then s
  else
    let count := if nhex = 10 then 1 else nhex / 16
    let s := { s with
      H := segments.get 0, K1 := segments.get 0, K2 := segments.get 1
      K3 := segments.get 2, K4 := segments.get 3
      hyteraKeySegments := BitVec.ofNat 8 count }
    if count > 1 then
      let s := (List.range count).foldl (fun s i => storeSegment s i (segments.toList.getD i 0)) s
      { s with
        aesKeyLoaded := Vector.replicate 2 1
        aesKeySegments := Vector.replicate 2 (BitVec.ofNat 8 count) }
    else s

/-- Words of sixteen digits, the words without digits zero. -/
def parseSegments (hex : Bytes) (count width : ℕ) : Option (Vector (BitVec 64) 4) :=
  (List.range count).foldlM
    (fun words i =>
      (parseHexU64 ((hex.drop (i * 16)).take (if i = 0 then width else 16))).map
        fun v => words.setIfInBounds i v)
    (Vector.replicate 4 0)

/-- `key_set_parse_direct_hex`. -/
def parseDirectHex (text : Bytes) (s : Scalars) : Option Scalars := do
  let hex ← collectDirectHex text
  if !directHexWidthValid hex.length then none
  else
    let short := hex.length = 10
    let segments ← parseSegments hex (if short then 1 else hex.length / 16)
      (if short then 10 else 16)
    some (storeDirectHex s segments hex.length)

/-- `key_set_parse_m17`, for a scrambler seed. -/
def parseM17Scrambler (text : Bytes) (s : Scalars) : Option Scalars := do
  let hex ← collectDirectHex text
  if hex.length ≠ 2 ∧ hex.length ≠ 4 ∧ hex.length ≠ 6 then none
  else
    let word ← parseHexU64 hex
    if word = 0 then none
    else some { s with R := word, scalarKeyPresent := s.scalarKeyPresent.set 0 1 }

/-- `key_set_parse_m17`, for an AES key. -/
def parseM17Aes (text : Bytes) (s : Scalars) : Option Scalars := do
  let hex ← collectDirectHex text
  if hex.length ≠ 32 ∧ hex.length ≠ 48 ∧ hex.length ≠ 64 then none
  else
    let words ← parseSegments hex (hex.length / 16) 16
    if words.get 0 ||| words.get 1 ||| words.get 2 ||| words.get 3 = 0 then none
    else some (storeDirectHex s words hex.length)

/-- `key_set_parse_rc4`. -/
def parseRc4 (text : Bytes) (s : Scalars) : Option Scalars := do
  let hex ← collectDirectHex text
  if hex.length < 1 ∨ hex.length > 16 then none
  else
    let value ← parseHexU64 hex
    some { s with R := value, RR := value, scalarKeyPresent := Vector.replicate 2 1 }

/-- `key_parse_tetra_alg`. -/
def parseTetraAlg (text : Bytes) : BitVec 8 :=
  match text with
  | [a, b, c, d] =>
    if a ||| 0x20 ≠ 0x74 ∨ b ||| 0x20 ≠ 0x65 ∨ c ||| 0x20 ≠ 0x61 then 0
    else if 0x31 ≤ d ∧ d ≤ 0x33 then d - 0x30
    else 0
  | _ => 0

/-- `key_parse_tetra_qualifier`. -/
def parseTetraQualifier (text name : Bytes) (maxValue : ℕ) : Option (BitVec 16) :=
  if text.take name.length ≠ name ∨ text[name.length]? ≠ some 0x3D then none
  else parseUint16Strict (text.drop (name.length + 1)) maxValue

/-- `key_parse_tetra_channel`. -/
def parseTetraChannel (fields : List Bytes) (key : TetraAirKey) : Option TetraAirKey := do
  let la ← parseTetraQualifier (fields.getD 0 []) [0x6C, 0x61] 0x3FFF
  let cc ← parseTetraQualifier (fields.getD 1 []) [0x63, 0x63] 0x3F
  let carrier ← parseTetraQualifier (fields.getD 2 [])
    [0x63, 0x61, 0x72, 0x72, 0x69, 0x65, 0x72] 0xFFF
  some { key with la := la, cc := cc.setWidth 8, carrier := carrier }

/-- A text in pieces at its commas. -/
def splitCommas : Bytes → List Bytes
  | [] => [[]]
  | c :: t =>
    if c = 0x2C then [] :: splitCommas t
    else
      match splitCommas t with
      | piece :: rest => (c :: piece) :: rest
      | [] => [[c]]

/-- `key_split_tetra_fields`: at most six fields. -/
def splitTetraFields (text : Bytes) : Option (List Bytes) :=
  let fields := splitCommas text
  if fields.length > 6 then none else some fields

/-- Key bytes from the start of the ten. -/
def keyBytes (bytes : List (BitVec 8)) : Vector (BitVec 8) 10 :=
  Vector.ofFn fun i => bytes.getD i.val 0

/-- `key_parse_tetra_key`, of the fields behind the network. -/
def parseTetraKey (fields : List Bytes) (key : TetraAirKey) : Except DirectError TetraAirKey :=
  let hex := fields.getD 0 []
  let extra := fields.length - 1
  if hex.length = 8 ∧ extra = 3 then
    match parseTetraChannel fields.tail { key with kind := tea1Reduced, alg := 1 } with
    | none => .error .invalidArgument
    | some key =>
      match parseHexBytesExact hex 4 with
      | some bytes => .ok { key with key := keyBytes bytes }
      | none => .error .invalidHex
  else if hex.length ≠ 20 ∨ extra > 1 then
    .error (if hex.length = 20 ∨ hex.length = 8 then .invalidArgument else .invalidHex)
  else
    let alg := if extra = 1 then parseTetraAlg (fields.getD 1 []) else key.alg
    if extra = 1 ∧ alg = 0 then .error .invalidArgument
    else
      match parseHexBytesExact hex 10 with
      | some bytes => .ok { key with kind := 0, alg := alg, key := keyBytes bytes }
      | none => .error .invalidHex

theorem slotZero_lt : 0 < 16 := by decide

/-- `key_set_parse_tetra_air`: the key goes in slot zero. -/
def parseTetraAir (text : Bytes) (s : Scalars) : Except DirectError Scalars :=
  if text.length ≥ 64 then .error .invalidArgument
  else
    match splitTetraFields text with
    | some (mcc :: mnc :: rest) =>
      if rest = [] then .error .invalidArgument
      else
        match parseUint16Strict mcc 0x3FF, parseUint16Strict mnc 0x3FFF with
        | some mcc, some mnc =>
          match parseTetraKey rest { TetraAirKey.zero with mcc := mcc, mnc := mnc } with
          | .ok key =>
            .ok { s with tetraAirKeys := s.tetraAirKeys.set 0 { key with loaded := 1 } slotZero_lt }
          | .error e => .error e
        | _, _ => .error .invalidArgument
    | _ => .error .invalidArgument

/-- A parsed block, or the failure of the parser. -/
def orInvalidHex (parsed : Option Scalars) : Except DirectError Scalars :=
  match parsed with
  | some s => .ok s
  | none => .error .invalidHex

/-- `key_set_parse_typed_direct`, from cleared scalars. A null text is an invalid argument. -/
def parseTypedDirect (type : KeyType) (text : Option Bytes) : Except DirectError Scalars :=
  match text with
  | none => .error .invalidArgument
  | some text =>
    match type with
    | .basic =>
      match parseBoundedDecimal text 255 with
      | some v => .ok { Scalars.zero with K := v, basicKeyPresent := 1 }
      | none => .error .invalidDec
    | .scrambler =>
      match parseBoundedDecimal text 32767 with
      | some v =>
        .ok { Scalars.zero with R := v, scalarKeyPresent := Scalars.zero.scalarKeyPresent.set 0 1 }
      | none => .error .invalidDec
    | .m17Scrambler => orInvalidHex (parseM17Scrambler text Scalars.zero)
    | .m17Aes => orInvalidHex (parseM17Aes text Scalars.zero)
    | .hex => orInvalidHex (parseDirectHex text Scalars.zero)
    | .rc4 => orInvalidHex (parseRc4 text Scalars.zero)
    | .tetraAir => parseTetraAir text Scalars.zero

/-- A direct air key loads one slot and nothing else. -/
theorem parseTypedDirect_tetraAir {text : Option Bytes} {parsed : Scalars}
    (h : parseTypedDirect .tetraAir text = .ok parsed) :
    ∃ key : TetraAirKey, key.loaded = 1 ∧
      parsed = { Scalars.zero with tetraAirKeys := Scalars.zero.tetraAirKeys.set 0 key } := by
  cases text with
  | none => cases h
  | some text =>
    simp only [parseTypedDirect, parseTetraAir] at h
    split at h
    · cases h
    · split at h
      · split at h
        · cases h
        · split at h
          · split at h
            · cases h
              exact ⟨_, rfl, rfl⟩
            · cases h
          · cases h
      · cases h

end DsdNeo.Keys
