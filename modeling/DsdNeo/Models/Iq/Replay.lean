import DsdNeo.Core.Memory.Buffer
import Mathlib.Tactic.Ring

/-!
# Replay of a recording

A recording is read through a scratch buffer a pass at a time and converted frame by frame. A frame
that a short read cut waits for the next read, and so does the rest of a converted frame that a
caller had no room for. Every copy is checked: a call has no result when a copy would pass the end
of a buffer, or when a loop would take more turns than there are frames left.
-/

namespace DsdNeo.Iq

open Memory List

/-- `REPLAY_WAV_SCRATCH_BYTES`. -/
def scratchBytes : ℕ := 65536

/-- `REPLAY_WAV_CF32_FRAMES`. -/
def cf32Frames : ℕ := 8192

/-- A converted frame. -/
abbrev Cf32 := List.Vector UInt8 8

/-- `struct dsd_iq_replay_source`, with the place in its file. -/
structure ReplaySource where
  filePos : ℕ
  totalBytes : ℕ
  remainingBytes : ℕ
  align : ℕ
  wav : Bool
  wavBlockAlign : ℕ
  wavDataOffset : ℕ
  wavTotalFrames : ℕ
  wavFramesLeft : ℕ
  wavRaw : List.Vector UInt8 scratchBytes
  wavCf32 : List.Vector UInt8 (8 * cf32Frames)
  wavRawPending : List.Vector UInt8 16
  wavRawPendingLen : ℕ
  wavOutPending : Cf32
  wavOutPendingOff : ℕ
  wavOutPendingLen : ℕ

/-- What a call returns. -/
inductive Status
  | ok
  | invalidArg
  | io
  deriving DecidableEq

section Read

-- the conversion of a frame by the encoding, the file, and what its reads give when asked
variable (toCf32 : List UInt8 → Cf32) (file : ℕ → UInt8)

/-- `fread`: the bytes it gives of those asked for. -/
def fread (pos asked given : ℕ) : List UInt8 := slice file pos (min given asked)

/-- `dsd_iq_wav_frames_to_cf32`. -/
def framesToCf32 (blockAlign : ℕ) (src : List.Vector UInt8 scratchBytes) :
    ℕ → List.Vector UInt8 (8 * cf32Frames) → Option (List.Vector UInt8 (8 * cf32Frames))
  | 0, dst => some dst
  | frames + 1, dst => do
    let dst ← framesToCf32 blockAlign src frames dst
    let frame ← load src (frames * blockAlign) blockAlign
    store dst (8 * frames) (toCf32 frame).toList

/-- The frames a pass is to read. -/
def passFrames (src : ReplaySource) (room : ℕ) : ℕ :=
  let want := if room / 8 = 0 then 1 else room / 8
  let framesPerPass := min (scratchBytes / src.wavBlockAlign) cf32Frames
  let want := if framesPerPass < want then framesPerPass else want
  if src.wavFramesLeft < want then src.wavFramesLeft else want

/-- A pass reads on from the start of a frame that was cut: the source and the bytes it has. -/
def fillRaw (src : ReplaySource) (need given : ℕ) : Option (ReplaySource × ℕ) := do
  let have_ := src.wavRawPendingLen
  let head ← load src.wavRawPending 0 have_
  let raw ← store src.wavRaw 0 head
  -- the read asks for what is wanting, which is no less than nothing and fits the buffer
  let _ ← if have_ ≤ need ∧ need ≤ scratchBytes then some () else none
  let bytes := fread file src.filePos (need - have_) given
  let raw ← store raw have_ bytes
  some ({ src with wavRaw := raw, wavRawPendingLen := 0, filePos := src.filePos + bytes.length },
    have_ + bytes.length)

/-- A pass keeps the start of a frame that was cut. -/
def keepRest (src : ReplaySource) (complete rest : ℕ) : Option ReplaySource :=
  if 0 < rest then do
    let tail ← load src.wavRaw (complete * src.wavBlockAlign) rest
    let pending ← store src.wavRawPending 0 tail
    some { src with wavRawPending := pending, wavRawPendingLen := rest }
  else some src

/-- A pass hands out the frames it has: the source, the caller's buffer and the bytes in it. -/
def deliver {maxBytes : ℕ} (src : ReplaySource) (out : List.Vector UInt8 maxBytes)
    (produced room complete : ℕ) : Option (ReplaySource × List.Vector UInt8 maxBytes × ℕ) :=
  if 0 < complete then do
    let cf32 ← framesToCf32 toCf32 src.wavBlockAlign src.wavRaw complete src.wavCf32
    let src := { src with wavCf32 := cf32, wavFramesLeft := src.wavFramesLeft - complete }
    if room / 8 = 0 then do
      let frame ← load cf32 0 8
      let pending ← store src.wavOutPending 0 frame
      let bytes ← load pending 0 room
      let out ← store out produced bytes
      some ({ src with
        wavOutPending := pending, wavOutPendingOff := room, wavOutPendingLen := 8 - room },
        out, produced + room)
    else do
      let bytes ← load cf32 0 (complete * 8)
      let out ← store out produced bytes
      some (src, out, produced + complete * 8)
  else some (src, out, produced)

/-- The loop of `replay_read_wav`: `none` at the end when frames are missing and none were
produced. -/
def replayPasses {maxBytes : ℕ} (limit : ℕ) : ℕ → (ℕ → ℕ) → ReplaySource →
    List.Vector UInt8 maxBytes → ℕ →
    Option (Status × ReplaySource × List.Vector UInt8 maxBytes × ℕ)
  | turns, given, src, out, produced =>
    if produced < limit ∧ 0 < src.wavFramesLeft then
      match turns with
      | 0 => none
      | turns + 1 => do
        let room := limit - produced
        let want := passFrames src room
        let (src, got) ← fillRaw file src (want * src.wavBlockAlign) (given 0)
        let complete := got / src.wavBlockAlign
        let src ← keepRest src complete (got % src.wavBlockAlign)
        let (src, out, produced) ← deliver toCf32 src out produced room complete
        if complete < want then
          some (if produced = 0 then .io else .ok, src, out, produced)
        else replayPasses limit turns (fun i => given (i + 1)) src out produced
    else some (.ok, src, out, produced)

/-- The rest of a converted frame that a caller had no room for. -/
def takePending {maxBytes : ℕ} (src : ReplaySource) (out : List.Vector UInt8 maxBytes)
    (limit : ℕ) : Option (ReplaySource × List.Vector UInt8 maxBytes × ℕ) :=
  if 0 < src.wavOutPendingLen then do
    let n := if limit < src.wavOutPendingLen then limit else src.wavOutPendingLen
    let bytes ← load src.wavOutPending src.wavOutPendingOff n
    let out ← store out 0 bytes
    some ({ src with
      wavOutPendingOff := src.wavOutPendingOff + n, wavOutPendingLen := src.wavOutPendingLen - n },
      out, n)
  else some (src, out, 0)

/-- `replay_read_wav`: the status, the source, the caller's buffer and the bytes counted out. -/
def replayReadWav {maxBytes : ℕ} (src : ReplaySource) (out : List.Vector UInt8 maxBytes)
    (limit : ℕ) (given : ℕ → ℕ) :
    Option (Status × ReplaySource × List.Vector UInt8 maxBytes × ℕ) := do
  let (src, out, produced) ← takePending src out limit
  let (status, src, out, produced) ←
    replayPasses toCf32 file limit src.wavFramesLeft given src out produced
  if status = .ok then
    some (.ok, { src with remainingBytes := src.remainingBytes - produced }, out, produced)
  else some (status, src, out, 0)

/-- `dsd_iq_replay_read`. -/
def replayRead {maxBytes : ℕ} (src : ReplaySource) (out : List.Vector UInt8 maxBytes)
    (given : ℕ → ℕ) : Option (Status × ReplaySource × List.Vector UInt8 maxBytes × ℕ) :=
  if maxBytes = 0 ∨ src.remainingBytes = 0 then some (.ok, src, out, 0)
  else
    let limit := if src.remainingBytes < maxBytes then src.remainingBytes else maxBytes
    if src.wav then replayReadWav toCf32 file src out limit given
    else do
      let bytes := fread file src.filePos limit (given 0)
      let out ← store out 0 bytes
      let src := { src with filePos := src.filePos + bytes.length }
      if bytes.length = 0 then some (.io, src, out, 0)
      else some (.ok, { src with remainingBytes := src.remainingBytes - bytes.length }, out,
        bytes.length)

end Read

/-- `dsd_iq_replay_seek`, by whether the stream can be placed. -/
def replaySeek (src : ReplaySource) (captureByteOffset : ℕ) (placed : Bool) :
    Status × ReplaySource :=
  if src.align = 0 then (.invalidArg, src)
  else
    let aligned := captureByteOffset - captureByteOffset % src.align
    if src.totalBytes < aligned then (.invalidArg, src)
    else if src.wav ∧ (2 ^ 64 - 1 - src.wavDataOffset) / src.wavBlockAlign < aligned / 8 then
      (.invalidArg, src)
    else
      let fileOffset :=
        if src.wav then src.wavDataOffset + aligned / 8 * src.wavBlockAlign else aligned
      if 2 ^ 63 - 1 < fileOffset ∨ placed = false then (.io, src)
      else
        let src := { src with filePos := fileOffset, remainingBytes := src.totalBytes - aligned }
        (.ok, if src.wav then
          { src with
            wavFramesLeft := src.wavTotalFrames - aligned / 8, wavRawPendingLen := 0,
            wavOutPendingOff := 0, wavOutPendingLen := 0 }
        else src)

/-- `replay_source_open_wav` on the source `dsd_iq_replay_open` has cleared and given the frames
measured, with whatever its scratch buffers hold. -/
def replaySourceOpenWav (dataOffset blockAlign frames : ℕ) (placed : Bool)
    (raw : List.Vector UInt8 scratchBytes) (cf32 : List.Vector UInt8 (8 * cf32Frames)) :
    Option ReplaySource :=
  if blockAlign = 0 ∨ 16 < blockAlign then none
  else if 2 ^ 63 - 1 < dataOffset ∨ placed = false then none
  else some
    { filePos := dataOffset, totalBytes := frames * 8, remainingBytes := frames * 8, align := 8
      wav := true, wavBlockAlign := blockAlign, wavDataOffset := dataOffset
      wavTotalFrames := frames * 8 / 8, wavFramesLeft := frames * 8 / 8
      wavRaw := raw, wavCf32 := cf32
      wavRawPending := List.Vector.replicate _ 0, wavRawPendingLen := 0
      wavOutPending := List.Vector.replicate _ 0, wavOutPendingOff := 0, wavOutPendingLen := 0 }

section Handed

variable {toCf32 : List UInt8 → Cf32} {file : ℕ → UInt8}
  {dataOffset blockAlign totalFrames base n maxBytes limit : ℕ} {src : ReplaySource}

/-- The bytes of converted frames from one on. -/
def converted (toCf32 : List UInt8 → Cf32) (file : ℕ → UInt8) (dataOffset blockAlign base : ℕ)
    (n : ℕ) : List UInt8 :=
  (List.range n).flatMap fun i =>
    (toCf32 (slice file (dataOffset + (base + i) * blockAlign) blockAlign)).toList

theorem converted_succ (base n : ℕ) : converted toCf32 file dataOffset blockAlign base (n + 1) =
    converted toCf32 file dataOffset blockAlign base n ++
      (toCf32 (slice file (dataOffset + (base + n) * blockAlign) blockAlign)).toList := by
  rw [converted, range_succ, flatMap_append, flatMap_singleton]
  rfl

@[simp] theorem length_converted (base n : ℕ) :
    (converted toCf32 file dataOffset blockAlign base n).length = 8 * n := by
  induction n with
  | zero => rfl
  | succ n ih =>
    rw [converted_succ, length_append, ih, List.Vector.toList_length]
    omega

theorem converted_add (base a b : ℕ) : converted toCf32 file dataOffset blockAlign base (a + b) =
    converted toCf32 file dataOffset blockAlign base a ++
      converted toCf32 file dataOffset blockAlign (base + a) b := by
  induction b with
  | zero => simp [converted]
  | succ b ih => rw [← Nat.add_assoc, converted_succ, converted_succ, ih, append_assoc,
      Nat.add_assoc base]

theorem framesToCf32_spec {raw : List.Vector UInt8 scratchBytes} {frames : ℕ}
    (hraw : frames * blockAlign ≤ scratchBytes) (hcf32 : frames ≤ cf32Frames)
    (hslice : raw.toList.take (frames * blockAlign) =
      slice file (dataOffset + base * blockAlign) (frames * blockAlign))
    (dst : List.Vector UInt8 (8 * cf32Frames)) :
    ∃ dst', framesToCf32 toCf32 blockAlign raw frames dst = some dst' ∧
      dst'.toList.take (8 * frames) = converted toCf32 file dataOffset blockAlign base frames := by
  suffices hall : ∀ m, m ≤ frames → ∃ dst', framesToCf32 toCf32 blockAlign raw m dst = some dst' ∧
      dst'.toList.take (8 * m) = converted toCf32 file dataOffset blockAlign base m from
    hall frames le_rfl
  intro m hm
  induction m with
  | zero => exact ⟨dst, rfl, rfl⟩
  | succ m ih =>
    obtain ⟨dst', hdst', htake⟩ := ih (by omega)
    have hnext : m * blockAlign + blockAlign ≤ frames * blockAlign := by
      calc m * blockAlign + blockAlign = (m + 1) * blockAlign := by ring
        _ ≤ frames * blockAlign := Nat.mul_le_mul_right _ hm
    have hframe : (raw.toList.drop (m * blockAlign)).take blockAlign =
        slice file (dataOffset + (base + m) * blockAlign) blockAlign := by
      have hinner := take_drop_slice file (dataOffset + base * blockAlign) hnext
      rw [← hslice, drop_take, take_take, min_eq_left (by omega)] at hinner
      rw [hinner]
      congr 1
      ring
    obtain ⟨dst'', hdst'', htake''⟩ := store_spec dst' (8 * m)
      ((toCf32 (slice file (dataOffset + (base + m) * blockAlign) blockAlign)).toList)
      (by rw [List.Vector.toList_length]; omega)
    rw [List.Vector.toList_length, htake, ← converted_succ] at htake''
    refine ⟨dst'', ?_, htake''⟩
    simp [framesToCf32, hdst', load_eq raw _ _ (hnext.trans hraw), hframe, hdst'']

/-- What a source holds when so many frames from one on were read, and their bytes handed out but
for those that wait. -/
structure Replaying (toCf32 : List UInt8 → Cf32) (file : ℕ → UInt8)
    (dataOffset blockAlign totalFrames base n : ℕ) (src : ReplaySource) (handed : List UInt8) :
    Prop where
  wav : src.wav = true
  align : src.align = 8
  blockAlign_eq : src.wavBlockAlign = blockAlign
  dataOffset_eq : src.wavDataOffset = dataOffset
  totalFrames_eq : src.wavTotalFrames = totalFrames
  totalBytes_eq : src.totalBytes = 8 * totalFrames
  blockAlign_pos : 0 < blockAlign
  blockAlign_le : blockAlign ≤ 16
  frames : base + n + src.wavFramesLeft = totalFrames
  filePos : src.filePos = dataOffset + (base + n) * blockAlign + src.wavRawPendingLen
  pendingLen : src.wavRawPendingLen < blockAlign
  rawPending : src.wavRawPending.toList.take src.wavRawPendingLen =
    slice file (dataOffset + (base + n) * blockAlign) src.wavRawPendingLen
  outLen : src.wavOutPendingOff + src.wavOutPendingLen ≤ 8
  outPending : handed ++
    (src.wavOutPending.toList.drop src.wavOutPendingOff).take src.wavOutPendingLen =
      converted toCf32 file dataOffset blockAlign base n

/-- A pass has the bytes of the file from the first frame not read on. -/
theorem fillRaw_spec {handed : List UInt8} {need : ℕ}
    (h : Replaying toCf32 file dataOffset blockAlign totalFrames base n src handed)
    (hneed : blockAlign ≤ need) (hfits : need ≤ scratchBytes) (given : ℕ) :
    ∃ raw got, fillRaw file src need given =
        some ({ src with
          wavRaw := raw, wavRawPendingLen := 0,
          filePos := dataOffset + (base + n) * blockAlign + got }, got) ∧
      got ≤ need ∧ raw.toList.take got = slice file (dataOffset + (base + n) * blockAlign) got := by
  have hlen := h.pendingLen
  have hle := h.blockAlign_le
  have hhead : src.wavRawPendingLen = (slice file (dataOffset + (base + n) * blockAlign)
    src.wavRawPendingLen).length := (length_slice _ _ _).symm
  obtain ⟨raw, hraw, htake⟩ := store_spec src.wavRaw 0
    (slice file (dataOffset + (base + n) * blockAlign) src.wavRawPendingLen)
    (by rw [length_slice]; omega)
  rw [length_slice, Nat.zero_add, take_zero, nil_append] at htake
  obtain ⟨raw', hraw', htake'⟩ := store_spec raw src.wavRawPendingLen
    (fread file src.filePos (need - src.wavRawPendingLen) given)
    (by rw [fread, length_slice]; omega)
  rw [htake, fread, h.filePos, slice_append, length_slice] at htake'
  refine ⟨raw', _, ?_, ?_, htake'⟩
  · have hguard : src.wavRawPendingLen ≤ need ∧ need ≤ scratchBytes := ⟨by omega, hfits⟩
    simp only [fillRaw, load_eq src.wavRawPending 0 src.wavRawPendingLen
      (by omega), drop_zero, h.rawPending, hraw, hraw', if_pos hguard, Option.bind_eq_bind,
      Option.bind_some]
    simp only [fread, length_slice, h.filePos, Nat.add_assoc]
  · omega

/-- What is kept of a frame that was cut is what the file has of it. -/
theorem keepRest_spec {got start : ℕ} (hpos : 0 < src.wavBlockAlign) (hle : src.wavBlockAlign ≤ 16)
    (hgot : got ≤ scratchBytes) (hlen : src.wavRawPendingLen = 0)
    (hraw : src.wavRaw.toList.take got = slice file start got) :
    ∃ pending, keepRest src (got / src.wavBlockAlign) (got % src.wavBlockAlign) =
        some { src with
          wavRawPending := pending, wavRawPendingLen := got % src.wavBlockAlign } ∧
      pending.toList.take (got % src.wavBlockAlign) =
        slice file (start + got / src.wavBlockAlign * src.wavBlockAlign)
          (got % src.wavBlockAlign) := by
  have hdiv := Nat.div_add_mod' got src.wavBlockAlign
  have hmod := Nat.mod_lt got hpos
  by_cases hrest : 0 < got % src.wavBlockAlign
  · have htail : (src.wavRaw.toList.drop (got / src.wavBlockAlign * src.wavBlockAlign)).take
        (got % src.wavBlockAlign) = slice file
          (start + got / src.wavBlockAlign * src.wavBlockAlign) (got % src.wavBlockAlign) := by
      have hinner := take_drop_slice file start hdiv.le
      rw [← hraw, drop_take, take_take, min_eq_left (by omega)] at hinner
      exact hinner
    obtain ⟨pending, hpending, htake⟩ := store_spec src.wavRawPending 0
      (slice file (start + got / src.wavBlockAlign * src.wavBlockAlign)
        (got % src.wavBlockAlign)) (by rw [length_slice]; omega)
    rw [length_slice, Nat.zero_add, take_zero, nil_append] at htake
    refine ⟨pending, ?_, htake⟩
    simp only [keepRest, if_pos hrest, load_eq src.wavRaw _ _ (hdiv.le.trans hgot), htail, hpending,
      Option.bind_eq_bind, Option.bind_some]
  · have hzero : got % src.wavBlockAlign = 0 := by omega
    refine ⟨src.wavRawPending, ?_, ?_⟩
    · rw [keepRest, if_neg hrest, hzero, ← hlen]
    · rw [hzero]
      rfl

variable (toCf32 src) in
theorem deliver_spec (out : List.Vector UInt8 maxBytes) {produced room complete : ℕ}
    (hraw : complete * src.wavBlockAlign ≤ scratchBytes) (hcf32 : complete ≤ cf32Frames)
    (hslice : src.wavRaw.toList.take (complete * src.wavBlockAlign) =
      slice file (dataOffset + (base + n) * src.wavBlockAlign) (complete * src.wavBlockAlign))
    (hroom : produced + room ≤ maxBytes) (hpos : 0 < room) (hlen : src.wavOutPendingLen = 0)
    (hoff : src.wavOutPendingOff ≤ 8) (hsplit : room / 8 = 0 → complete ≤ 1)
    (hwhole : room / 8 ≠ 0 → complete ≤ room / 8) :
    ∃ cf32 pending off len out' bytes,
      deliver toCf32 src out produced room complete =
        some ({ src with
          wavCf32 := cf32, wavFramesLeft := src.wavFramesLeft - complete, wavOutPending := pending,
          wavOutPendingOff := off, wavOutPendingLen := len }, out', produced + bytes.length) ∧
      bytes.length ≤ room ∧ bytes.length + len = 8 * complete ∧ off + len ≤ 8 ∧
      (len = 0 ∨ bytes.length = room) ∧
      out'.toList.take (produced + bytes.length) = out.toList.take produced ++ bytes ∧
      bytes ++ (pending.toList.drop off).take len =
        converted toCf32 file dataOffset src.wavBlockAlign (base + n) complete := by
  have hspec : ∃ cf32, framesToCf32 toCf32 src.wavBlockAlign src.wavRaw complete src.wavCf32 =
      some cf32 ∧ cf32.toList.take (8 * complete) =
        converted toCf32 file dataOffset src.wavBlockAlign (base + n) complete :=
    framesToCf32_spec hraw hcf32 hslice src.wavCf32
  obtain ⟨cf32, hconverted, htake⟩ := hspec
  have hsize : cf32.toList.length = 65536 := cf32.toList_length
  unfold cf32Frames at hcf32
  rcases Nat.eq_zero_or_pos complete with rfl | hsome
  · refine ⟨src.wavCf32, src.wavOutPending, src.wavOutPendingOff, src.wavOutPendingLen, out, [],
      rfl, room.zero_le, by rw [hlen]; rfl, by omega, .inl hlen, ?_, ?_⟩
    · rw [length_nil, Nat.add_zero, append_nil]
    · rw [hlen]
      rfl
  by_cases hzero : room / 8 = 0
  · -- the caller has room for a part of one frame
    have hone : complete = 1 := by
      have := hsplit hzero
      omega
    subst hone
    have hframe : (cf32.toList.take 8).length = 8 := by
      rw [length_take, hsize]
      rfl
    obtain ⟨pending, hpending, hheld⟩ := store_spec src.wavOutPending 0
      (cf32.toList.take 8) (by rw [hframe])
    have hall : pending.toList.take 8 = pending.toList := take_of_length_le (by simp)
    rw [hframe, Nat.zero_add, take_zero, nil_append, hall] at hheld
    have hbytes : (pending.toList.take room).length = room := by
      rw [length_take, List.Vector.toList_length]
      omega
    obtain ⟨out', hout', hnow⟩ := store_spec out produced
      (pending.toList.take room) (by rw [hbytes]; exact hroom)
    refine ⟨cf32, pending, room, 8 - room, out', pending.toList.take room, ?_, hbytes.le, ?_, ?_,
      .inr hbytes, hnow, ?_⟩
    · have hfirst := load_eq cf32 0 8 (by unfold cf32Frames; omega)
      have hpart := load_eq pending 0 room (by omega)
      rw [drop_zero] at hfirst hpart
      simp only [deliver, if_pos hsome, if_pos hzero, hconverted, hfirst, hpending, hpart, hout',
        hbytes, Option.bind_eq_bind, Option.bind_some]
    · rw [hbytes]
      omega
    · omega
    · have hrest : (pending.toList.drop room).take (8 - room) = pending.toList.drop room :=
        take_of_length_le (by simp)
      rw [hrest, take_append_drop, hheld]
      exact htake
  · -- the caller has room for them all
    have hfit := hwhole hzero
    have hbytes : (cf32.toList.take (complete * 8)).length = complete * 8 := by
      rw [length_take, hsize]
      omega
    obtain ⟨out', hout', hnow⟩ := store_spec out produced
      (cf32.toList.take (complete * 8)) (by rw [hbytes]; omega)
    refine ⟨cf32, src.wavOutPending, src.wavOutPendingOff, src.wavOutPendingLen, out',
      cf32.toList.take (complete * 8), ?_, ?_, ?_, by omega, .inl hlen, hnow, ?_⟩
    · have hfirst := load_eq cf32 0 (complete * 8) (by unfold cf32Frames; omega)
      rw [drop_zero] at hfirst
      simp only [deliver, if_pos hsome, if_neg hzero, hconverted, hfirst, hout', hbytes,
        Option.bind_eq_bind, Option.bind_some]
    · rw [hbytes]
      omega
    · rw [hbytes, hlen]
      omega
    · rw [hlen, take_zero, append_nil, Nat.mul_comm]
      exact htake

/-- A pass asks for some of the frames left that fit its buffers and the caller's. -/
theorem passFrames_spec (hpos : 0 < src.wavBlockAlign) (hle : src.wavBlockAlign ≤ 16)
    (hleft : 0 < src.wavFramesLeft) (room : ℕ) :
    0 < passFrames src room ∧ passFrames src room ≤ src.wavFramesLeft ∧
      passFrames src room * src.wavBlockAlign ≤ scratchBytes ∧
      passFrames src room ≤ cf32Frames ∧ (room / 8 = 0 → passFrames src room ≤ 1) ∧
      (room / 8 ≠ 0 → passFrames src room ≤ room / 8) := by
  have hfits : scratchBytes / src.wavBlockAlign * src.wavBlockAlign ≤ scratchBytes :=
    Nat.div_mul_le_self _ _
  have hsome : 1 ≤ scratchBytes / src.wavBlockAlign :=
    (Nat.one_le_div_iff hpos).mpr (by unfold scratchBytes; omega)
  have hframes : passFrames src room ≤ min (scratchBytes / src.wavBlockAlign) cf32Frames ∧
      0 < passFrames src room ∧ passFrames src room ≤ src.wavFramesLeft ∧
      (room / 8 = 0 → passFrames src room ≤ 1) ∧
      (room / 8 ≠ 0 → passFrames src room ≤ room / 8) := by
    have hmin : 1 ≤ min (scratchBytes / src.wavBlockAlign) cf32Frames :=
      le_min hsome (by unfold cf32Frames; omega)
    unfold passFrames
    dsimp only
    generalize min (scratchBytes / src.wavBlockAlign) cf32Frames = perPass at hmin
    split_ifs <;> omega
  refine ⟨hframes.2.1, hframes.2.2.1, ?_, hframes.1.trans (min_le_right _ _), hframes.2.2.2⟩
  exact (Nat.mul_le_mul_right _ (hframes.1.trans (min_le_left _ _))).trans hfits

/-- What holds between the passes of a call, of the bytes handed out before it and in it. -/
structure Passing (toCf32 : List UInt8 → Cf32) (file : ℕ → UInt8)
    (dataOffset blockAlign totalFrames base n limit : ℕ) (src : ReplaySource)
    (out : List.Vector UInt8 maxBytes) (produced : ℕ) (handed : List UInt8) : Prop where
  replaying : Replaying toCf32 file dataOffset blockAlign totalFrames base n src
    (handed ++ out.toList.take produced)
  drained : src.wavOutPendingLen = 0 ∨ produced = limit
  produced_le : produced ≤ limit
  remaining : src.remainingBytes = 8 * src.wavFramesLeft + src.wavOutPendingLen + produced

variable {out : List.Vector UInt8 maxBytes} {produced : ℕ} {handed : List UInt8}

theorem pass_spec
    (h : Passing toCf32 file dataOffset blockAlign totalFrames base n limit src out produced handed)
    (hlimit : limit ≤ maxBytes) (hmore : produced < limit) (hleft : 0 < src.wavFramesLeft)
    (given : ℕ) :
    ∃ filled got kept src' out' produced',
      fillRaw file src (passFrames src (limit - produced) * src.wavBlockAlign) given =
        some (filled, got) ∧
      filled.wavBlockAlign = src.wavBlockAlign ∧
      keepRest filled (got / src.wavBlockAlign) (got % src.wavBlockAlign) = some kept ∧
      deliver toCf32 kept out produced (limit - produced) (got / src.wavBlockAlign) =
        some (src', out', produced') ∧
      Passing toCf32 file dataOffset blockAlign totalFrames base (n + got / src.wavBlockAlign)
        limit src' out' produced' handed ∧
      src'.wavFramesLeft = src.wavFramesLeft - got / src.wavBlockAlign ∧
      0 < passFrames src (limit - produced) := by
  have hr := h.replaying
  obtain rfl := hr.blockAlign_eq
  obtain ⟨hwant, hwantLeft, hwantRaw, hwantCf32, hsplit, hwhole⟩ :=
    passFrames_spec hr.blockAlign_pos hr.blockAlign_le hleft (limit - produced)
  generalize passFrames src (limit - produced) = want at *
  have hdrained : src.wavOutPendingLen = 0 := h.drained.resolve_right hmore.ne
  have hneed : src.wavBlockAlign ≤ want * src.wavBlockAlign := Nat.le_mul_of_pos_left _ hwant
  obtain ⟨raw, got, hfill, hgot, hraw⟩ := fillRaw_spec hr hneed hwantRaw given
  have hcomplete : got / src.wavBlockAlign ≤ want :=
    Nat.div_le_of_le_mul (by rw [Nat.mul_comm]; exact hgot)
  have hdiv := Nat.div_add_mod' got src.wavBlockAlign
  -- the bytes of a frame that was cut are kept
  let filled : ReplaySource := { src with
    wavRaw := raw, wavRawPendingLen := 0
    filePos := dataOffset + (base + n) * src.wavBlockAlign + got }
  have hfilled : filled.wavRaw.toList.take got =
    slice file (dataOffset + (base + n) * src.wavBlockAlign) got := hraw
  have hposition : 0 < filled.wavBlockAlign := hr.blockAlign_pos
  obtain ⟨pending, hkeep, hpending⟩ :=
    keepRest_spec hposition hr.blockAlign_le (hgot.trans hwantRaw) rfl hfilled
  -- the whole frames are handed out
  let kept : ReplaySource := { filled with
    wavRawPending := pending, wavRawPendingLen := got % src.wavBlockAlign }
  have hkept : kept.wavRaw.toList.take (got / src.wavBlockAlign * kept.wavBlockAlign) =
      slice file (dataOffset + (base + n) * kept.wavBlockAlign)
        (got / src.wavBlockAlign * kept.wavBlockAlign) := by
    have hwhole := take_drop_slice file (dataOffset + (base + n) * src.wavBlockAlign)
      ((Nat.zero_add _).trans_le (Nat.div_mul_le_self got src.wavBlockAlign))
    rw [← hraw, drop_zero, take_take, min_eq_left (Nat.div_mul_le_self _ _)] at hwhole
    exact hwhole
  have hfits : got / src.wavBlockAlign * kept.wavBlockAlign ≤ scratchBytes :=
    (Nat.div_mul_le_self _ _).trans (hgot.trans hwantRaw)
  have hoff : kept.wavOutPendingOff ≤ 8 := (Nat.le_add_right _ _).trans hr.outLen
  have hspace : produced + (limit - produced) ≤ maxBytes := by omega
  obtain ⟨cf32, pending', off, len, out', bytes, hsome, hroom, hcount, hlen, hdone, hout',
      hbytes⟩ :=
    deliver_spec toCf32 kept out hfits (hcomplete.trans hwantCf32) hkept hspace (by omega) hdrained
      hoff (fun hz => hcomplete.trans (hsplit hz)) fun hz => hcomplete.trans (hwhole hz)
  refine ⟨filled, got, kept, _, out', _, hfill, rfl, hkeep, hsome, ⟨⟨hr.wav, hr.align, rfl,
    hr.dataOffset_eq, hr.totalFrames_eq, hr.totalBytes_eq, hr.blockAlign_pos, hr.blockAlign_le, ?_,
    ?_, Nat.mod_lt _ hr.blockAlign_pos, ?_, hlen, ?_⟩, ?_, by omega, ?_⟩, rfl, hwant⟩
  · have hframes := hr.frames
    have hsub : src.wavFramesLeft - got / src.wavBlockAlign + got / src.wavBlockAlign =
      src.wavFramesLeft := Nat.sub_add_cancel (hcomplete.trans hwantLeft)
    dsimp only [filled, kept]
    omega
  · have hmul := Nat.add_mul (base + n) (got / src.wavBlockAlign) src.wavBlockAlign
    dsimp only [filled, kept]
    rw [← Nat.add_assoc base, hmul]
    omega
  · have hmul := Nat.add_mul (base + n) (got / src.wavBlockAlign) src.wavBlockAlign
    dsimp only [filled, kept]
    rw [← Nat.add_assoc base, hmul, ← Nat.add_assoc]
    exact hpending
  · have hbefore := hr.outPending
    rw [hdrained, take_zero, append_nil] at hbefore
    rw [hout', ← append_assoc, hbefore, append_assoc, converted_add]
    exact congrArg _ hbytes
  · rcases hdone with hdone | hdone
    · exact .inl hdone
    · right
      omega
  · have hremaining := h.remaining
    have hsub : src.wavFramesLeft - got / src.wavBlockAlign + got / src.wavBlockAlign =
      src.wavFramesLeft := Nat.sub_add_cancel (hcomplete.trans hwantLeft)
    dsimp only [filled, kept]
    omega

theorem replayPasses_spec {turns : ℕ} (hlimit : limit ≤ maxBytes) (given : ℕ → ℕ)
    (hturns : src.wavFramesLeft ≤ turns)
    (h : Passing toCf32 file dataOffset blockAlign totalFrames base n limit src out produced
      handed) :
    ∃ status n' src' out' produced',
      replayPasses toCf32 file limit turns given src out produced =
        some (status, src', out', produced') ∧
      Passing toCf32 file dataOffset blockAlign totalFrames base n' limit src' out' produced'
        handed ∧ (status = .ok ∨ produced' = 0) := by
  induction turns generalizing given n src out produced with
  | zero =>
    have hnone : ¬ (produced < limit ∧ 0 < src.wavFramesLeft) := by omega
    exact ⟨.ok, n, src, out, produced, by rw [replayPasses, if_neg hnone], h, .inl rfl⟩
  | succ turns ih =>
    by_cases hmore : produced < limit ∧ 0 < src.wavFramesLeft
    · obtain ⟨filled, got, kept, src', out', produced', hfill, halign, hkeep, hdeliver, hnext,
        hleft, hwant⟩ := pass_spec h hlimit hmore.1 hmore.2 (given 0)
      by_cases hshort : got / src.wavBlockAlign < passFrames src (limit - produced)
      · refine ⟨if produced' = 0 then .io else .ok, _, src', out', produced', ?_, hnext, ?_⟩
        · simp only [replayPasses, if_pos hmore, hfill, halign, hkeep, hdeliver, if_pos hshort,
            Option.bind_eq_bind, Option.bind_some]
        · by_cases hnothing : produced' = 0
          · exact .inr hnothing
          · exact .inl (if_neg hnothing)
      · obtain ⟨status, n', src'', out'', produced'', hrest, hlast, hstatus⟩ :=
          ih (fun i => given (i + 1)) (by omega) hnext
        refine ⟨status, n', src'', out'', produced'', ?_, hlast, hstatus⟩
        simp only [replayPasses, if_pos hmore, hfill, halign, hkeep, hdeliver, if_neg hshort,
          Option.bind_eq_bind, Option.bind_some]
        exact hrest
    · exact ⟨.ok, n, src, out, produced, by rw [replayPasses, if_neg hmore], h, .inl rfl⟩

/-- The rest of a frame that waits is the first to be handed out. -/
theorem takePending_spec (hlimit : limit ≤ maxBytes) (out : List.Vector UInt8 maxBytes)
    (h : Replaying toCf32 file dataOffset blockAlign totalFrames base n src handed)
    (hremaining : src.remainingBytes = 8 * src.wavFramesLeft + src.wavOutPendingLen) :
    ∃ src' out' produced, takePending src out limit = some (src', out', produced) ∧
      Passing toCf32 file dataOffset blockAlign totalFrames base n limit src' out' produced
        handed ∧ src'.wavFramesLeft = src.wavFramesLeft := by
  by_cases hwaits : 0 < src.wavOutPendingLen
  · have hn : ∃ m, (if limit < src.wavOutPendingLen then limit else src.wavOutPendingLen) = m ∧
        m ≤ limit ∧ m ≤ src.wavOutPendingLen ∧ (m = limit ∨ m = src.wavOutPendingLen) := by
      split_ifs
      · exact ⟨limit, rfl, le_rfl, by omega, .inl rfl⟩
      · exact ⟨src.wavOutPendingLen, rfl, by omega, le_rfl, .inr rfl⟩
    obtain ⟨m, hm, hmLimit, hmLen, hmAll⟩ := hn
    have hfit := h.outLen
    have hlen := length_load src.wavOutPending
      (show src.wavOutPendingOff + m ≤ 8 by omega)
    obtain ⟨out', hout', htake⟩ := store_spec out 0
      ((src.wavOutPending.toList.drop src.wavOutPendingOff).take m) (by omega)
    rw [hlen, Nat.zero_add, take_zero, nil_append] at htake
    refine ⟨{ src with
      wavOutPendingOff := src.wavOutPendingOff + m, wavOutPendingLen := src.wavOutPendingLen - m },
      out', m, ?_, ⟨⟨h.wav, h.align, h.blockAlign_eq, h.dataOffset_eq, h.totalFrames_eq,
      h.totalBytes_eq, h.blockAlign_pos, h.blockAlign_le, h.frames, h.filePos, h.pendingLen,
      h.rawPending, ?_, ?_⟩, ?_, hmLimit, ?_⟩, rfl⟩
    · have hload := load_eq src.wavOutPending src.wavOutPendingOff m (by omega)
      simp only [takePending, if_pos hwaits, hm, hload, hout', Option.bind_eq_bind,
        Option.bind_some]
    · dsimp only
      omega
    · have hbefore := h.outPending
      have hsplit : src.wavOutPendingLen = m + (src.wavOutPendingLen - m) := by omega
      rw [hsplit, take_add, drop_drop] at hbefore
      rw [htake, append_assoc]
      exact hbefore
    · dsimp only
      omega
    · dsimp only
      omega
  · refine ⟨src, out, 0, if_neg hwaits, ⟨?_, .inl (by omega), limit.zero_le, ?_⟩, rfl⟩
    · rwa [take_zero, append_nil]
    · omega

/-- What holds between the calls. -/
def Handed (toCf32 : List UInt8 → Cf32) (file : ℕ → UInt8)
    (dataOffset blockAlign totalFrames base : ℕ) (src : ReplaySource) (handed : List UInt8) :
    Prop :=
  ∃ n, Replaying toCf32 file dataOffset blockAlign totalFrames base n src handed ∧
    src.remainingBytes = 8 * src.wavFramesLeft + src.wavOutPendingLen

theorem replayRead_spec
    (h : Handed toCf32 file dataOffset blockAlign totalFrames base src handed)
    (out : List.Vector UInt8 maxBytes) (given : ℕ → ℕ) :
    ∃ status src' out' outBytes,
      replayRead toCf32 file src out given = some (status, src', out', outBytes) ∧
      outBytes ≤ maxBytes ∧
      Handed toCf32 file dataOffset blockAlign totalFrames base src'
        (handed ++ out'.toList.take outBytes) := by
  obtain ⟨n, hr, hremaining⟩ := h
  by_cases hnone : maxBytes = 0 ∨ src.remainingBytes = 0
  · refine ⟨.ok, src, out, 0, if_pos hnone, maxBytes.zero_le, n, ?_, hremaining⟩
    rwa [take_zero, append_nil]
  · have hlimit : ∃ limit, (if src.remainingBytes < maxBytes then src.remainingBytes
        else maxBytes) = limit ∧ limit ≤ maxBytes := by
      split_ifs with hless
      · exact ⟨_, rfl, hless.le⟩
      · exact ⟨_, rfl, le_rfl⟩
    obtain ⟨limit, hlimit, hle⟩ := hlimit
    obtain ⟨src₁, out₁, produced₁, htake, hpassing, hleft⟩ := takePending_spec hle out hr hremaining
    obtain ⟨status, n', src₂, out₂, produced₂, hpasses, hlast, hstatus⟩ :=
      replayPasses_spec hle given hleft.le hpassing
    by_cases hok : status = .ok
    · refine ⟨.ok, { src₂ with remainingBytes := src₂.remainingBytes - produced₂ }, out₂, produced₂,
        ?_, hlast.produced_le.trans hle, n', ?_, ?_⟩
      · simp only [replayRead, if_neg hnone, hlimit, hr.wav, if_true, replayReadWav, htake, hleft,
          hpasses, if_pos hok, Option.bind_eq_bind, Option.bind_some]
      · have hl := hlast.replaying
        exact ⟨hl.wav, hl.align, hl.blockAlign_eq, hl.dataOffset_eq, hl.totalFrames_eq,
          hl.totalBytes_eq, hl.blockAlign_pos, hl.blockAlign_le, hl.frames, hl.filePos,
          hl.pendingLen, hl.rawPending, hl.outLen, hl.outPending⟩
      · have := hlast.remaining
        dsimp only
        omega
    · have hzero := hstatus.resolve_left hok
      refine ⟨status, src₂, out₂, 0, ?_, maxBytes.zero_le, n', ?_, ?_⟩
      · simp only [replayRead, if_neg hnone, hlimit, hr.wav, if_true, replayReadWav, htake, hleft,
          hpasses, if_neg hok, Option.bind_eq_bind, Option.bind_some]
      · rw [← hzero]
        exact hlast.replaying
      · rw [hlast.remaining, hzero, Nat.add_zero]

theorem replaySeek_spec
    (h : Handed toCf32 file dataOffset blockAlign totalFrames base src handed)
    (captureByteOffset : ℕ) (placed : Bool) :
    (∃ src', replaySeek src captureByteOffset placed = (.ok, src') ∧
      Handed toCf32 file dataOffset blockAlign totalFrames
        ((captureByteOffset - captureByteOffset % 8) / 8) src' []) ∨
    ∃ status, status ≠ .ok ∧ replaySeek src captureByteOffset placed = (status, src) := by
  obtain ⟨n, hr, hremaining⟩ := h
  have halign : src.align ≠ 0 := by
    rw [hr.align]
    exact Nat.succ_ne_zero 7
  have htotal := hr.totalBytes_eq
  rw [replaySeek, if_neg halign]
  simp only [hr.align, hr.wav, true_and, if_true]
  split_ifs with hbeyond hwraps hfails
  · exact .inr ⟨_, Status.noConfusion, rfl⟩
  · exact .inr ⟨_, Status.noConfusion, rfl⟩
  · exact .inr ⟨_, Status.noConfusion, rfl⟩
  · refine .inl ⟨_, rfl, 0, ⟨rfl, rfl, hr.blockAlign_eq, hr.dataOffset_eq,
      hr.totalFrames_eq, htotal, hr.blockAlign_pos, hr.blockAlign_le, ?_, ?_, hr.blockAlign_pos,
      rfl, Nat.zero_le 8, rfl⟩, ?_⟩
    · have := hr.totalFrames_eq
      dsimp only
      omega
    · dsimp only
      rw [hr.blockAlign_eq, hr.dataOffset_eq]
      rfl
    · have := hr.totalFrames_eq
      dsimp only
      omega

theorem replaySourceOpenWav_spec {frames : ℕ} {placed : Bool}
    {raw : List.Vector UInt8 scratchBytes} {cf32 : List.Vector UInt8 (8 * cf32Frames)}
    (hopen : replaySourceOpenWav dataOffset blockAlign frames placed raw cf32 = some src) :
    Handed toCf32 file dataOffset blockAlign frames 0 src [] := by
  unfold replaySourceOpenWav at hopen
  split_ifs at hopen with halign hplaced
  obtain ⟨hpos, hle⟩ := not_or.mp halign
  cases hopen
  refine ⟨0, ⟨rfl, rfl, rfl, rfl, by dsimp only; omega, by dsimp only; omega, by omega, by omega,
    by dsimp only; omega, by dsimp only; omega, by dsimp only; omega, rfl, Nat.zero_le 8, rfl⟩, ?_⟩
  dsimp only
  omega

end Handed

/-- A call of a reader, with what the reads of the file give or whether the file can be placed. -/
inductive Call
  | read (maxBytes : ℕ) (out : List.Vector UInt8 maxBytes) (given : ℕ → ℕ)
  | seek (captureByteOffset : ℕ) (placed : Bool)

/-- A source, the frame it was last placed at and the bytes handed out since. -/
structure Session where
  src : ReplaySource
  base : ℕ
  handed : List UInt8

open Session

/-- What a call makes of a session. -/
def Session.call (toCf32 : List UInt8 → Cf32) (file : ℕ → UInt8) (s : Session) :
    Call → Option Session
  | .read _ out given => do
    let (_, src, out, outBytes) ← replayRead toCf32 file s.src out given
    some { s with src := src, handed := s.handed ++ out.toList.take outBytes }
  | .seek captureByteOffset placed =>
    let (status, src) := replaySeek s.src captureByteOffset placed
    some (if status = .ok then ⟨src, (captureByteOffset - captureByteOffset % 8) / 8, []⟩
      else { s with src := src })

section Calls

variable {toCf32 : List UInt8 → Cf32} {file : ℕ → UInt8} {dataOffset blockAlign totalFrames : ℕ}

theorem Session.call_spec {s : Session} (call : Call)
    (h : Handed toCf32 file dataOffset blockAlign totalFrames s.base s.src s.handed) :
    ∃ s', s.call toCf32 file call = some s' ∧
      Handed toCf32 file dataOffset blockAlign totalFrames s'.base s'.src s'.handed := by
  cases call with
  | read maxBytes out given =>
    obtain ⟨status, src', out', outBytes, hread, -, hnext⟩ := replayRead_spec h out given
    refine ⟨{ s with src := src', handed := s.handed ++ out'.toList.take outBytes }, ?_, hnext⟩
    simp only [call, hread, Option.bind_eq_bind, Option.bind_some]
  | seek captureByteOffset placed =>
    rcases replaySeek_spec h captureByteOffset placed with
      ⟨src', hseek, hnext⟩ | ⟨status, hfail, hseek⟩
    · refine ⟨⟨src', (captureByteOffset - captureByteOffset % 8) / 8, []⟩, ?_, hnext⟩
      simp only [call, hseek, if_true]
    · refine ⟨s, ?_, h⟩
      simp only [call, hseek, if_neg hfail]

theorem Session.calls_spec {s : Session} (calls : List Call)
    (h : Handed toCf32 file dataOffset blockAlign totalFrames s.base s.src s.handed) :
    ∃ s', calls.foldlM (call toCf32 file) s = some s' ∧
      Handed toCf32 file dataOffset blockAlign totalFrames s'.base s'.src s'.handed := by
  induction calls generalizing s with
  | nil => exact ⟨s, rfl, h⟩
  | cons call calls ih =>
    obtain ⟨s₁, hcall, hnext⟩ := call_spec call h
    obtain ⟨s₂, hcalls, hlast⟩ := ih hnext
    refine ⟨s₂, ?_, hlast⟩
    rw [foldlM_cons, hcall]
    exact hcalls

/-- What was handed out since a source was placed begins the frames from there on, and what
remains is the rest of them. -/
theorem Handed.prefix {base : ℕ} {src : ReplaySource} {handed : List UInt8}
    (h : Handed toCf32 file dataOffset blockAlign totalFrames base src handed) :
    base ≤ totalFrames ∧
      handed <+: converted toCf32 file dataOffset blockAlign base (totalFrames - base) ∧
      src.remainingBytes + handed.length = 8 * (totalFrames - base) := by
  obtain ⟨n, hr, hremaining⟩ := h
  have hframes := hr.frames
  have hsplit : totalFrames - base = n + src.wavFramesLeft := by omega
  have hcount := congrArg List.length hr.outPending
  rw [length_append, length_converted, length_load src.wavOutPending hr.outLen] at hcount
  refine ⟨by omega, ?_, by omega⟩
  rw [hsplit, converted_add, ← hr.outPending, append_assoc]
  exact prefix_append _ _

end Calls

/-- Whatever calls are made of a source that was opened, none passes the end of a buffer, the bytes
handed out since it was last placed are the first of the frames from there on, and those that
remain are the others. -/
theorem replay_handed_once (toCf32 : List UInt8 → Cf32) (file : ℕ → UInt8)
    {dataOffset blockAlign frames : ℕ} {placed : Bool} {raw : List.Vector UInt8 scratchBytes}
    {cf32 : List.Vector UInt8 (8 * cf32Frames)} {src : ReplaySource}
    (hopen : replaySourceOpenWav dataOffset blockAlign frames placed raw cf32 = some src)
    (calls : List Call) :
    ∃ s, calls.foldlM (call toCf32 file) ⟨src, 0, []⟩ = some s ∧
      s.base ≤ frames ∧
      s.handed <+: converted toCf32 file dataOffset blockAlign s.base (frames - s.base) ∧
      s.src.remainingBytes + s.handed.length = 8 * (frames - s.base) := by
  obtain ⟨s, hcalls, hlast⟩ := calls_spec (s := ⟨src, 0, []⟩) calls
    (replaySourceOpenWav_spec hopen)
  exact ⟨s, hcalls, hlast.prefix⟩

/-- Reads that split a frame, and a seek. -/
theorem replay_handed_once_splitFrame :
    ∃ src, replaySourceOpenWav 44 2 3 true (List.Vector.replicate _ 0)
        (List.Vector.replicate _ 0) = some src ∧
      ∃ s, [Call.read 3 (List.Vector.replicate _ 0) (fun _ => 1),
            Call.read 20 (List.Vector.replicate _ 0) (fun _ => 3), Call.seek 11 true].foldlM
          (call (fun _ => List.Vector.replicate _ 1) fun i => UInt8.ofNat i) ⟨src, 0, []⟩ =
            some s ∧
        s.base ≤ 3 ∧
        s.handed <+: converted (fun _ => List.Vector.replicate _ 1) (fun i => UInt8.ofNat i) 44 2
          s.base (3 - s.base) ∧ s.src.remainingBytes + s.handed.length = 8 * (3 - s.base) := by
  have hopen : replaySourceOpenWav 44 2 3 true (List.Vector.replicate _ 0)
    (List.Vector.replicate _ 0) = some _ := rfl
  exact ⟨_, hopen, replay_handed_once _ _ hopen _⟩

end DsdNeo.Iq
