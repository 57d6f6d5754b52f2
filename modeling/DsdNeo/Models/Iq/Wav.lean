import Mathlib.Algebra.Order.Ring.Nat
import Mathlib.Data.List.Basic

/-!
# WAV recordings of I/Q samples

A RIFF, RF64 or BW64 file is a list of chunks. Its reader steps from header to header, takes the
first `fmt ` chunk and the `data` chunk wherever they are, and mends what recorders leave behind:
sizes never filled in, and pad bytes left out. Sums of 64 bits are written with the rounding `u`
that the machine makes, so that the reader without it can be compared.
-/

namespace DsdNeo.Iq.Wav

/-- One byte of a file. -/
abbrev Byte := BitVec 8

def byteAt (p : List Byte) (i : ℕ) : ℕ := (p.getD i 0).toNat

/-- `le16`. -/
def le16 (p : List Byte) : ℕ := byteAt p 0 + 2 ^ 8 * byteAt p 1

/-- `le32`. -/
def le32 (p : List Byte) : ℕ :=
  byteAt p 0 + 2 ^ 8 * byteAt p 1 + 2 ^ 16 * byteAt p 2 + 2 ^ 24 * byteAt p 3

/-- `le64`. -/
def le64 (p : List Byte) : ℕ := le32 p + 2 ^ 32 * le32 (p.drop 4)

def idRiff : List Byte := [0x52, 0x49, 0x46, 0x46]
def idRf64 : List Byte := [0x52, 0x46, 0x36, 0x34]
def idBw64 : List Byte := [0x42, 0x57, 0x36, 0x34]
def idRifx : List Byte := [0x52, 0x49, 0x46, 0x58]
def idWave : List Byte := [0x57, 0x41, 0x56, 0x45]
def idDs64 : List Byte := [0x64, 0x73, 0x36, 0x34]
def idFmt : List Byte := [0x66, 0x6D, 0x74, 0x20]
def idData : List Byte := [0x64, 0x61, 0x74, 0x61]

/-- `UINT64_MAX`. -/
def uint64Max : ℕ := 2 ^ 64 - 1

/-- A sum of 64 bits, as the machine rounds it. -/
def u64 (n : ℕ) : ℕ := n % 2 ^ 64

/-- `read_at`: all the bytes asked for, or nothing. -/
def readAt (file : List Byte) (offset n : ℕ) : Option (List Byte) :=
  let bytes := (file.drop offset).take n
  if offset ≤ 2 ^ 63 - 1 ∧ bytes.length = n then some bytes else none

/-- `id_is_ascii`. -/
def idIsAscii (id : List Byte) : Bool := (id.take 4).all fun b => 0x20 ≤ b ∧ b ≤ 0x7E

/-- `dsd_iq_wav_container`. -/
inductive Container where
  | riff
  | rf64
  | bw64
  deriving DecidableEq

/-- What a reader refuses a file for. -/
inductive WavError where
  | tooShort
  | rifx
  | notWave
  | noDs64
  | ds64Short
  | fmtShort
  | noFmt
  | noData
  | extensibleShort
  | subformat
  | validBits
  | pcmBits
  | floatBits
  | formatTag
  | oneChannel
  | channels
  | blockAlign
  | sampleRate
  | emptyData
  | noFrame
  | tooManyFrames
  deriving DecidableEq

/-- The part of `wav_walk` that the container's header sets. -/
structure Header where
  container : Container
  riffOpen : Bool
  walkEnd : ℕ
  containerEnd : ℕ
  ds64DataSize : ℕ
  deriving DecidableEq

/-- A fmt chunk, its first 40 bytes or what there is of them and zeros. -/
structure Fmt where
  size : ℕ
  bytes : List Byte
  deriving DecidableEq

/-- A data chunk. -/
structure Data where
  offset : ℕ
  size : ℕ
  declared : ℕ
  unfinalized : Bool
  deriving DecidableEq

/-- The part of `wav_walk` that the walk sets. -/
structure Found where
  fmt : Option Fmt
  data : Option Data
  deriving DecidableEq

/-- How a turn of the walk ends. -/
inductive Turn where
  | stop (found : Found)
  | fail (e : WavError)
  | go (pos : ℕ) (found : Found)

/-- `header_valid_at`. -/
def headerValidAt (file : List Byte) (walkEnd pos : ℕ) : Bool :=
  if pos > walkEnd ∨ walkEnd - pos < 8 then false
  else
    match readAt file pos 8 with
    | none => false
    | some hdr =>
      if !idIsAscii hdr then false
      else if hdr.take 4 = idData then true
      else le32 (hdr.drop 4) ≤ walkEnd - pos - 8

/-- `wav_take_data`, and whether the walk stops. -/
def takeData (file : List Byte) (h : Header) (body size : ℕ) : Data × Bool :=
  if h.container ≠ .riff ∧ size = 0xFFFFFFFF then
    (⟨body, h.ds64DataSize, h.ds64DataSize, false⟩, false)
  else if h.container = .riff ∧ h.riffOpen ∧ (size = 0 ∨ size = 0xFFFFFFFF) then
    if size = 0 ∧ headerValidAt file h.walkEnd body then (⟨body, 0, 0, false⟩, false)
    else (⟨body, if file.length > body then file.length - body else 0, size, true⟩, true)
  else (⟨body, size, size, false⟩, false)

/-- `wav_take_fmt`. -/
def takeFmt (file : List Byte) (found : Found) (body size : ℕ) : Except WavError Found :=
  if found.fmt.isSome then .ok found
  else if min size 40 < 16 then .error .fmtShort
  else
    match readAt file body (min size 40) with
    | none => .error .fmtShort
    | some f =>
      .ok { found with fmt := some ⟨size, f ++ List.replicate (40 - f.length) 0⟩ }

/-- What the walk does with a chunk: the bytes it steps over, none where it stops. -/
def takeChunk (file : List Byte) (h : Header) (found : Found) (id : List Byte) (body size : ℕ) :
    Except WavError (Found × Option ℕ) :=
  if id = idFmt then (takeFmt file found body size).map fun found => (found, some size)
  else if id = idData then
    if found.data.isSome then .ok (found, none)
    else
      let (data, stop) := takeData file h body size
      .ok ({ found with data := some data }, if stop then none else some data.size)
  else .ok (found, some size)

section Sums

variable (u : ℕ → ℕ)

/-- `wav_read_ds64`. -/
def readDs64 (file : List Byte) (container : Container) : Except WavError Header :=
  match readAt file 12 8 with
  | none => .error .noDs64
  | some hdr =>
    if hdr.take 4 ≠ idDs64 then .error .noDs64
    else if le32 (hdr.drop 4) < 24 then .error .ds64Short
    else
      match readAt file 20 24 with
      | none => .error .ds64Short
      | some body =>
        let riffSize := le64 body
        let containerEnd := if riffSize ≤ uint64Max - 8 then u (8 + riffSize) else uint64Max
        .ok
          { container := container
            riffOpen := false
            walkEnd := if containerEnd < file.length then containerEnd else file.length
            containerEnd := containerEnd
            ds64DataSize := le64 (body.drop 8) }

/-- `wav_read_header`. -/
def readHeader (file : List Byte) : Except WavError Header :=
  match readAt file 0 12 with
  | none => .error .tooShort
  | some head =>
    if (head.drop 8).take 4 ≠ idWave then .error .notWave
    else if head.take 4 = idRiff then
      let riffSize := le32 (head.drop 4)
      if riffSize = 0 ∨ riffSize = 0xFFFFFFFF ∨ u (8 + riffSize) > file.length then
        .ok ⟨.riff, true, file.length, uint64Max, 0⟩
      else .ok ⟨.riff, false, u (8 + riffSize), u (8 + riffSize), 0⟩
    else if head.take 4 = idRf64 then readDs64 u file .rf64
    else if head.take 4 = idBw64 then readDs64 u file .bw64
    else if head.take 4 = idRifx then .error .rifx
    else .error .notWave

/-- `wav_next_chunk`. -/
def nextChunk (file : List Byte) (walkEnd next size : ℕ) : ℕ :=
  if size % 2 = 0 ∨ next = uint64Max then next
  else
    let padded := u (next + 1)
    if headerValidAt file walkEnd padded then padded
    else if headerValidAt file walkEnd next then next
    else padded

/-- A turn of the loop of `wav_walk_chunks`. -/
def walkTurn (file : List Byte) (h : Header) (pos : ℕ) (found : Found) : Turn :=
  if pos > h.walkEnd ∨ h.walkEnd - pos < 8 then .stop found
  else
    match readAt file pos 8 with
    | none => .stop found
    | some hdr =>
      if !idIsAscii hdr then .stop found
      else
        let body := u (pos + 8)
        match takeChunk file h found (hdr.take 4) body (le32 (hdr.drop 4)) with
        | .error e => .fail e
        | .ok (found, none) => .stop found
        | .ok (found, some step) =>
          if step > uint64Max - body then .stop found
          else
            let next := u (body + step)
            if next ≥ h.walkEnd then .stop found
            else .go (nextChunk u file h.walkEnd next step) found

/-- The loop of `wav_walk_chunks`, with the turns it has left. -/
def walkLoop (file : List Byte) (h : Header) : ℕ → ℕ → Found → Except WavError Found
  | 0, _, found => .ok found
  | turns + 1, pos, found =>
    match walkTurn u file h pos found with
    | .stop found => .ok found
    | .fail e => .error e
    | .go pos found => walkLoop file h turns pos found

/-- `DSD_IQ_WAV_MAX_CHUNKS`. -/
def maxChunks : ℕ := 4096

/-- `wav_walk_chunks`, up to its verdict. -/
def walkChunks (file : List Byte) (h : Header) : Except WavError Found :=
  walkLoop u file h maxChunks 12 ⟨none, none⟩

end Sums

/-- `dsd_iq_wav_encoding`. -/
inductive Encoding where
  | u8
  | s16
  | s24
  | s32
  | f32
  | f64
  deriving DecidableEq

/-- The tail of the subformats read. -/
def subformatGuidTail : List Byte :=
  [0x00, 0x00, 0x00, 0x00, 0x10, 0x00, 0x80, 0x00, 0x00, 0xAA, 0x00, 0x38, 0x9B, 0x71]

/-- `wav_fmt_extensible`: the tag and the valid bits. -/
def fmtExtensible (f : Fmt) (bits : ℕ) : Except WavError (ℕ × ℕ) :=
  if f.size < 40 ∨ le16 (f.bytes.drop 16) < 22 then .error .extensibleShort
  else
    let validBits := le16 (f.bytes.drop 18)
    let sub := le16 (f.bytes.drop 24)
    if (sub ≠ 1 ∧ sub ≠ 3) ∨ (f.bytes.drop 26).take 14 ≠ subformatGuidTail then .error .subformat
    else if validBits = 0 ∨ validBits > bits then .error .validBits
    else .ok (sub, validBits)

/-- `wav_fmt_encoding`. -/
def fmtEncoding (tag bits : ℕ) : Except WavError Encoding :=
  if tag = 1 then
    if bits = 8 then .ok .u8
    else if bits = 16 then .ok .s16
    else if bits = 24 then .ok .s24
    else if bits = 32 then .ok .s32
    else .error .pcmBits
  else if tag = 3 then
    if bits = 32 then .ok .f32
    else if bits = 64 then .ok .f64
    else .error .floatBits
  else .error .formatTag

/-- `wav_fmt_layout`. -/
def fmtLayout (channels bits blockAlign rate : ℕ) : Except WavError Unit :=
  if channels = 1 then .error .oneChannel
  else if channels ≠ 2 then .error .channels
  else if blockAlign ≠ 2 * bits / 8 then .error .blockAlign
  else if rate = 0 then .error .sampleRate
  else .ok ()

/-- The fields of `dsd_iq_wav_info` that the fmt chunk sets. -/
structure Format where
  formatTag : ℕ
  encoding : Encoding
  bitsPerSample : ℕ
  validBits : ℕ
  blockAlign : ℕ
  sampleRateHz : ℕ
  deriving DecidableEq

/-- `wav_parse_fmt`. -/
def parseFmt (f : Fmt) : Except WavError Format := do
  let tag := le16 f.bytes
  let bits := le16 (f.bytes.drop 14)
  let (sub, validBits) ← if tag = 0xFFFE then fmtExtensible f bits else .ok (tag, bits)
  let encoding ← fmtEncoding sub bits
  fmtLayout (le16 (f.bytes.drop 2)) bits (le16 (f.bytes.drop 12)) (le32 (f.bytes.drop 4))
  .ok
    { formatTag := tag
      encoding := encoding
      bitsPerSample := bits
      validBits := validBits
      blockAlign := le16 (f.bytes.drop 12)
      sampleRateHz := le32 (f.bytes.drop 4) }

/-- `dsd_iq_wav_info`, without the centre frequency and the start. -/
structure Info where
  container : Container
  format : Format
  fileSize : ℕ
  dataOffset : ℕ
  declaredDataBytes : ℕ
  effectiveDataBytes : ℕ
  frames : ℕ
  truncated : Bool
  unfinalized : Bool
  containerEnd : ℕ
  containerClamped : Bool
  deriving DecidableEq

/-- `wav_header_data_bytes`. -/
def headerDataBytes (h : Header) (d : Data) : ℕ :=
  let limit := if d.unfinalized then uint64Max else d.declared
  let inContainer := if h.containerEnd > d.offset then h.containerEnd - d.offset else 0
  if inContainer < limit then inContainer else limit

/-- `dsd_iq_wav_data_bytes_in_file`. -/
def dataBytesInFile (h : Header) (d : Data) (fileSize : ℕ) : ℕ × Bool :=
  let avail := if fileSize > d.offset then fileSize - d.offset else 0
  let limit := headerDataBytes h d
  (if limit < avail then limit else avail, !d.unfinalized && limit > avail)

/-- What `dsd_iq_wav_read_info` makes of a container's header and of what its walk found. -/
def finish (u : ℕ → ℕ) (h : Header) (found : Found) (fileSize : ℕ) : Except WavError Info :=
  match found.fmt, found.data with
  | none, _ => .error .noFmt
  | some _, none => .error .noData
  | some f, some d => do
    let format ← parseFmt f
    if d.unfinalized = false ∧ d.declared = 0 then .error .emptyData
    else
      let (raw, truncated) := dataBytesInFile h d fileSize
      let frames := raw / format.blockAlign
      if frames = 0 then .error .noFrame
      else if frames > uint64Max / 8 then .error .tooManyFrames
      else
        .ok
          { container := h.container
            format := format
            fileSize := fileSize
            dataOffset := d.offset
            declaredDataBytes := d.declared
            effectiveDataBytes := u (frames * format.blockAlign)
            frames := frames
            truncated := truncated
            unfinalized := d.unfinalized
            containerEnd := h.containerEnd
            containerClamped := !d.unfinalized &&
              (h.containerEnd ≤ d.offset || h.containerEnd - d.offset < d.declared) }

/-- `dsd_iq_wav_read_info`, under a rounding of sums. -/
def readInfoWith (u : ℕ → ℕ) (file : List Byte) : Except WavError Info := do
  let h ← readHeader u file
  let found ← walkChunks u file h
  finish u h found file.length

/-- `dsd_iq_wav_read_info`. -/
def readInfo (file : List Byte) : Except WavError Info := readInfoWith u64 file

end DsdNeo.Iq.Wav
