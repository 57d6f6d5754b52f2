import DsdNeo.Models.Iq.Wav
import Mathlib.Data.List.Flatten

/-!
# What the walk of a WAV file finds

A file laid out by the format's rules is a header and a list of chunks, each padded to an even
length. The walk steps from chunk to chunk of it: after an odd body the place behind the pad byte is
a header or the end, so the repair of a missing pad byte never applies. On any bytes at all the walk
stays inside the file and no sum is rounded.
-/

namespace DsdNeo.Iq.Wav

open List

/-- A chunk as it stands in a file. -/
structure Chunk where
  id : List Byte
  size : List Byte
  body : List Byte
  pad : List Byte

def Chunk.bytes (c : Chunk) : List Byte := c.id ++ (c.size ++ (c.body ++ c.pad))

/-- A printable id, a size of four bytes, and a pad byte after an odd body. -/
structure Chunk.Formed (c : Chunk) : Prop where
  id_length : c.id.length = 4
  id_printable : ∀ b ∈ c.id, 0x20 ≤ b ∧ b ≤ 0x7E
  size_length : c.size.length = 4
  pad_length : c.pad.length = c.body.length % 2

/-- The chunk's own size is that of its body. -/
def Chunk.Sized (c : Chunk) : Prop := le32 c.size = c.body.length

/-- The fmt chunk as the walk keeps it. -/
def Chunk.fmt (c : Chunk) : Fmt :=
  ⟨c.body.length, c.body.take 40 ++ List.replicate (40 - (c.body.take 40).length) 0⟩

/-- The bytes of a list of chunks. -/
def bytesOf (cs : List Chunk) : List Byte := cs.flatMap Chunk.bytes

def Container.id : Container → List Byte
  | .riff => idRiff
  | .rf64 => idRf64
  | .bw64 => idBw64

/-- A file around its data chunk, and what follows the container. -/
structure Layout where
  container : Container
  size : List Byte
  before : List Chunk
  data : Chunk
  after : List Chunk
  rest : List Byte

namespace Layout

def chunks (L : Layout) : List Chunk := L.before ++ L.data :: L.after

def bytes (L : Layout) : List Byte :=
  L.container.id ++ (L.size ++ (idWave ++ (bytesOf L.chunks ++ L.rest)))

/-- A size of 32 bits counts the bytes after it, and the data chunk has its own size. -/
def Sizes32 (L : Layout) : Prop := le32 L.size = 4 + (bytesOf L.chunks).length ∧ L.data.Sized

/-- The first chunk is a ds64 chunk with the sizes of the container and of the data chunk, where
that has none of its own. -/
def Sizes64 (L : Layout) : Prop :=
  ∃ ds cs, L.before = ds :: cs ∧ ds.id = idDs64 ∧ 24 ≤ ds.body.length ∧
    le64 ds.body = 4 + (bytesOf L.chunks).length ∧
    if le32 L.data.size = 0xFFFFFFFF then le64 (ds.body.drop 8) = L.data.body.length
    else L.data.Sized

/-- A file that keeps the format's rules, with the chunk `fmt` as its one fmt chunk. -/
structure Conforms (L : Layout) (fmt : Chunk) : Prop where
  size_length : L.size.length = 4
  formed : ∀ c ∈ L.chunks, c.Formed
  sized : ∀ c ∈ L.before ++ L.after, c.Sized
  data_id : L.data.id = idData
  one_data : ∀ c ∈ L.before ++ L.after, c.id ≠ idData
  one_fmt : L.chunks.filter (·.id = idFmt) = [fmt]
  few : L.chunks.length ≤ maxChunks
  sizes : if L.container = .riff then L.Sizes32 else L.Sizes64
  fits : L.bytes.length < 2 ^ 63

end Layout

/-- What a file is read as: its one fmt chunk's format and its data chunk, or what is wrong with
them. -/
def Layout.reading (L : Layout) (fmt : Chunk) : Except WavError Info :=
  if fmt.body.length < 16 then .error .fmtShort
  else do
    let format ← parseFmt fmt.fmt
    let size := L.data.body.length
    let frames := size / format.blockAlign
    if size = 0 then .error .emptyData
    else if frames = 0 then .error .noFrame
    else if frames > uint64Max / 8 then .error .tooManyFrames
    else
      .ok
        { container := L.container
          format := format
          fileSize := L.bytes.length
          dataOffset := 12 + (bytesOf L.before).length + 8
          declaredDataBytes := size
          effectiveDataBytes := frames * format.blockAlign
          frames := frames
          truncated := false
          unfinalized := false
          containerEnd := 12 + (bytesOf L.chunks).length
          containerClamped := false }

theorem byteAt_lt (p : List Byte) (i : ℕ) : byteAt p i < 2 ^ 8 := (p.getD i 0).isLt

theorem le32_lt (p : List Byte) : le32 p < 2 ^ 32 := by
  have h0 := byteAt_lt p 0
  have h1 := byteAt_lt p 1
  have h2 := byteAt_lt p 2
  have h3 := byteAt_lt p 3
  unfold le32
  omega

variable {n pos : ℕ}

theorem u64_of_lt (h : n ≤ uint64Max) : u64 n = n := Nat.mod_eq_of_lt (by
  unfold uint64Max at h
  omega)

variable {file bs as : List Byte}

theorem readAt_some {offset : ℕ} (h : readAt file offset n = some bs) :
    offset ≤ 2 ^ 63 - 1 ∧ (n ≠ 0 → offset + n ≤ file.length) := by
  simp only [readAt] at h
  split at h
  · case isTrue hread =>
      have hlen := hread.2
      rw [length_take, length_drop] at hlen
      exact ⟨hread.1, by omega⟩
  · cases h

theorem readDs64_u64 (file : List Byte) (container : Container) :
    readDs64 u64 file container = readDs64 id file container := by
  have hround : ∀ n, n ≤ uint64Max - 8 → u64 (8 + n) = id (8 + n) := fun n hn =>
    u64_of_lt (by unfold uint64Max at *; omega)
  unfold readDs64
  cases readAt file 12 8 with
  | none => rfl
  | some hdr =>
    cases readAt file 20 24 with
    | none => rfl
    | some body =>
      simp only
      by_cases hle : le64 body ≤ uint64Max - 8
      · rw [hround _ hle]
      · simp only [hle, if_false]

theorem readHeader_u64 (file : List Byte) : readHeader u64 file = readHeader id file := by
  have hround : ∀ p : List Byte, u64 (8 + le32 p) = id (8 + le32 p) := fun p =>
    u64_of_lt (by have hlt := le32_lt p; unfold uint64Max; omega)
  simp only [readHeader, readDs64_u64, hround]

theorem nextChunk_u64 (file : List Byte) (walkEnd : ℕ) {next : ℕ} (hnext : next ≤ uint64Max)
    (size : ℕ) : nextChunk u64 file walkEnd next size = nextChunk id file walkEnd next size := by
  unfold nextChunk
  by_cases hstay : size % 2 = 0 ∨ next = uint64Max
  · rw [if_pos hstay, if_pos hstay]
  · have hround : u64 (next + 1) = id (next + 1) := u64_of_lt (by omega)
    rw [if_neg hstay, if_neg hstay, hround]

theorem walkTurn_u64 (file : List Byte) (h : Header) (pos : ℕ) (found : Found) :
    walkTurn u64 file h pos found = walkTurn id file h pos found := by
  unfold walkTurn
  split
  · rfl
  · cases hread : readAt file pos 8 with
    | none => rfl
    | some hdr =>
      have hpos := (readAt_some hread).1
      have hmax : uint64Max = 2 ^ 64 - 1 := rfl
      have hbody : u64 (pos + 8) = pos + 8 := u64_of_lt (by omega)
      simp only [hbody, id_eq]
      split
      · rfl
      · split
        · rfl
        · rfl
        · split
          · rfl
          · case _ found step _ hstep =>
              have hle : pos + 8 + step ≤ uint64Max := by omega
              rw [u64_of_lt hle, nextChunk_u64 file h.walkEnd hle]

theorem walkLoop_u64 (file : List Byte) (h : Header) (turns pos : ℕ) (found : Found) :
    walkLoop u64 file h turns pos found = walkLoop id file h turns pos found := by
  induction turns generalizing pos found with
  | zero => rfl
  | succ turns ih =>
    simp only [walkLoop, walkTurn_u64]
    cases walkTurn id file h pos found with
    | stop found => rfl
    | fail e => rfl
    | go pos found => exact ih pos found

variable {h : Header}

theorem readDs64_ends {container : Container} (hread : readDs64 id file container = .ok h) :
    h.walkEnd ≤ file.length ∧ h.containerEnd ≤ uint64Max := by
  unfold readDs64 at hread
  split at hread
  · cases hread
  · split at hread
    · cases hread
    · split at hread
      · cases hread
      · split at hread
        · cases hread
        · cases hread
          constructor <;> grind [uint64Max]

theorem readHeader_ends (hread : readHeader id file = .ok h) :
    h.walkEnd ≤ file.length ∧ h.containerEnd ≤ uint64Max ∧ 12 ≤ file.length := by
  have hmax : uint64Max = 2 ^ 64 - 1 := rfl
  unfold readHeader at hread
  split at hread
  · cases hread
  · case _ head hhead =>
      have hlen : 12 ≤ file.length := by
        have hends := (readAt_some hhead).2 (by decide)
        omega
      have hsize := le32_lt (head.drop 4)
      simp only [id_eq] at hread
      split at hread
      · cases hread
      · split at hread
        · split at hread
          · cases hread
            exact ⟨Nat.le_refl _, Nat.le_refl _, hlen⟩
          · cases hread
            simp only
            omega
        · split at hread
          · exact ⟨(readDs64_ends hread).1, (readDs64_ends hread).2, hlen⟩
          · split at hread
            · exact ⟨(readDs64_ends hread).1, (readDs64_ends hread).2, hlen⟩
            · split at hread <;> cases hread

theorem headerDataBytes_le (h : Header) (d : Data) (hend : h.containerEnd ≤ uint64Max) :
    headerDataBytes h d ≤ uint64Max := by
  unfold headerDataBytes
  grind

/-- The frames of the file lie within it and within 64 bits. -/
theorem dataBytesInFile_le (h : Header) (d : Data) (fileSize : ℕ)
    (hend : h.containerEnd ≤ uint64Max) :
    (dataBytesInFile h d fileSize).1 ≤ uint64Max ∧
      (dataBytesInFile h d fileSize).1 ≤ fileSize - d.offset := by
  have hle := headerDataBytes_le h d hend
  unfold dataBytesInFile
  grind

theorem finish_u64 (h : Header) (found : Found) (fileSize : ℕ)
    (hend : h.containerEnd ≤ uint64Max) :
    finish u64 h found fileSize = finish id h found fileSize := by
  unfold finish
  cases found.fmt with
  | none => rfl
  | some f =>
    cases found.data with
    | none => rfl
    | some d =>
      have hround : ∀ a, u64 ((dataBytesInFile h d fileSize).1 / a * a) =
          id ((dataBytesInFile h d fileSize).1 / a * a) := fun a =>
        u64_of_lt (Nat.le_trans (Nat.div_mul_le_self _ _)
          (dataBytesInFile_le h d fileSize hend).1)
      simp only [hround]

/-- No sum of the reader is rounded. -/
theorem readInfoWith_u64 (file : List Byte) : readInfoWith u64 file = readInfoWith id file := by
  unfold readInfoWith walkChunks
  rw [readHeader_u64]
  cases hread : readHeader id file with
  | error e => rfl
  | ok h =>
    have hend := (readHeader_ends hread).2.1
    simp only [walkLoop_u64, bind, Except.bind, finish_u64 h _ file.length hend]

/-- A turn that the walk goes on from. -/
def Goes (u : ℕ → ℕ) (file : List Byte) (h : Header) (a b : ℕ × Found) : Prop :=
  walkTurn u file h a.1 a.2 = .go b.1 b.2

/-- The data chunk that was found starts in the file. -/
def Found.Inside (found : Found) (file : List Byte) : Prop :=
  ∀ d ∈ found.data, d.offset ≤ file.length

theorem takeData_offset (file : List Byte) (h : Header) (body size : ℕ) :
    (takeData file h body size).1.offset = body := by
  unfold takeData
  grind

variable {found : Found}

theorem takeChunk_inside {found' : Found} {ident : List Byte} {body size : ℕ} {step : Option ℕ}
    (hin : found.Inside file) (hbody : body ≤ file.length)
    (htake : takeChunk file h found ident body size = .ok (found', step)) : found'.Inside file := by
  unfold takeChunk at htake
  split at htake
  · have hdata : found'.data = found.data := by
      unfold takeFmt at htake
      grind [Except.map]
    intro d hd
    exact hin d (hdata ▸ hd)
  · split at htake
    · split at htake
      · cases htake
        exact hin
      · have hoffset := takeData_offset file h body size
        generalize takeData file h body size = taken at htake hoffset
        cases htake
        intro d hd
        rw [← Option.some.inj hd, hoffset]
        exact hbody
    · cases htake
      exact hin

theorem nextChunk_le (file : List Byte) {walkEnd next : ℕ} (hnext : next < walkEnd) (size : ℕ) :
    nextChunk id file walkEnd next size ≤ walkEnd := by
  simp only [nextChunk, id_eq]
  grind

theorem walkTurn_inside (hend : h.walkEnd ≤ file.length) (pos : ℕ) (hin : found.Inside file) :
    match walkTurn id file h pos found with
    | .stop found => found.Inside file
    | .fail _ => True | .go pos found => pos ≤ file.length ∧ found.Inside file := by
  unfold walkTurn
  by_cases hroom : pos > h.walkEnd ∨ h.walkEnd - pos < 8
  · rw [if_pos hroom]
    exact hin
  · rw [if_neg hroom]
    cases readAt file pos 8 with
    | none => exact hin
    | some hdr =>
      by_cases hid : (!idIsAscii hdr) = true
      · simp only [hid, if_true]
        exact hin
      · simp only [hid]
        cases htake : takeChunk file h found (hdr.take 4) (id (pos + 8)) (le32 (hdr.drop 4)) with
        | error e => trivial
        | ok taken =>
          have hbody : id (pos + 8) ≤ file.length := by
            simp only [id_eq]
            omega
          have hin' := takeChunk_inside hin hbody htake
          obtain ⟨found', step⟩ := taken
          cases step with
          | none => exact hin'
          | some step =>
            by_cases hstep : step > uint64Max - id (pos + 8)
            · simp only [hstep, if_true]
              exact hin'
            · simp only [hstep, if_false]
              by_cases hnext : id (id (pos + 8) + step) ≥ h.walkEnd
              · rw [if_pos hnext]
                exact hin'
              · rw [if_neg hnext]
                have hle := nextChunk_le file (Nat.lt_of_not_le hnext) step
                exact ⟨Nat.le_trans hle hend, hin'⟩

theorem walkLoop_inside (hend : h.walkEnd ≤ file.length) {turns : ℕ} {found' : Found}
    (hin : found.Inside file) (hwalk : walkLoop id file h turns pos found = .ok found') :
    found'.Inside file := by
  induction turns generalizing pos found with
  | zero =>
    cases hwalk
    exact hin
  | succ turns ih =>
    have hturn := walkTurn_inside hend pos hin
    unfold walkLoop at hwalk
    cases hgo : walkTurn id file h pos found with
    | stop found =>
      rw [hgo] at hwalk hturn
      cases hwalk
      exact hturn
    | fail e =>
      rw [hgo] at hwalk
      cases hwalk
    | go pos found =>
      rw [hgo] at hwalk hturn
      exact ih hturn.2 hwalk

theorem goes_inside (hend : h.walkEnd ≤ file.length) {a b : ℕ × Found}
    (hgo : Relation.ReflTransGen (Goes id file h) a b) (hin : a.1 ≤ file.length ∧ a.2.Inside file) :
    b.1 ≤ file.length ∧ b.2.Inside file := by
  induction hgo with
  | refl => exact hin
  | @tail b _ _ hstep ih =>
    have hturn := walkTurn_inside hend b.1 ih.2
    rw [hstep] at hturn
    exact hturn

/-- The frames returned are bytes of the file. -/
theorem readInfo_inside {info : Info} (hread : readInfoWith id file = .ok info) :
    info.dataOffset + info.effectiveDataBytes ≤ file.length := by
  unfold readInfoWith at hread
  cases hh : readHeader id file with
  | error e => simp [hh, bind, Except.bind] at hread
  | ok h =>
    have hends := readHeader_ends hh
    cases hw : walkChunks id file h with
    | error e => simp [hh, hw, bind, Except.bind] at hread
    | ok found =>
      have hin : found.Inside file :=
        walkLoop_inside hends.1 (fun d hd => by cases hd) hw
      simp only [hh, hw, bind, Except.bind, finish] at hread
      split at hread
      · cases hread
      · cases hread
      · case _ f d _ hd =>
          have hoffset := hin d hd
          have hraw := dataBytesInFile_le h d file.length hends.2.1
          split at hread
          · cases hread
          · case _ format _ =>
              have hdiv := Nat.div_mul_le_self (dataBytesInFile h d file.length).1
                format.blockAlign
              simp only [id_eq] at hread
              grind

/-- Bytes that stand at a place of a file. -/
def At (file : List Byte) (pos : ℕ) (bs : List Byte) : Prop := bs <+: file.drop pos

theorem At.left (h : At file pos (as ++ bs)) : At file pos as :=
  (prefix_append as bs).trans h

theorem At.right (h : At file pos (as ++ bs)) : At file (pos + as.length) bs := by
  obtain ⟨rest, hrest⟩ := h
  exact ⟨rest, by
    rw [← drop_drop, ← hrest, append_assoc, drop_left]⟩

section Walk

variable {file : List Byte} (hfits : file.length < 2 ^ 63)

include hfits

variable {pos : ℕ}

theorem At.readAt {bs : List Byte} (h : At file pos bs) (hne : bs ≠ []) :
    readAt file pos bs.length = some bs := by
  obtain ⟨rest, hrest⟩ := h
  have hlen := congrArg List.length hrest
  have hpos := length_pos_of_ne_nil hne
  rw [length_append, length_drop] at hlen
  have hread : (file.drop pos).take bs.length = bs := by rw [← hrest, take_left]
  simp only [Wav.readAt, hread, and_true]
  exact if_pos (by omega)

variable {c : Chunk} (hc : c.Formed)

include hc

omit hfits in
theorem Chunk.Formed.length_bytes : c.bytes.length = 8 + c.body.length + c.body.length % 2 := by
  simp only [Chunk.bytes, length_append, hc.id_length, hc.size_length, hc.pad_length]
  omega

omit hfits in
theorem Chunk.Formed.ascii : idIsAscii (c.id ++ c.size) = true := by
  have htake : (c.id ++ c.size).take 4 = c.id := by rw [← hc.id_length, take_left]
  simp only [idIsAscii, htake, all_eq_true, decide_eq_true_eq]
  exact hc.id_printable

/-- The header of a chunk, read where the chunk stands. -/
theorem readAt_head (h : At file pos c.bytes) : readAt file pos 8 = some (c.id ++ c.size) := by
  have hlen : (c.id ++ c.size).length = 8 := by
    rw [length_append, hc.id_length, hc.size_length]
  have hat : At file pos (c.id ++ c.size) := by
    rw [Chunk.bytes, ← append_assoc] at h
    exact h.left
  rw [← hlen]
  exact hat.readAt hfits (by
    intro hnil
    rw [hnil] at hlen
    cases hlen)

theorem headerValidAt_chunk {walkEnd : ℕ} (h : At file pos c.bytes)
    (hsized : c.id = idData ∨ c.Sized) (hroom : pos + c.bytes.length ≤ walkEnd) :
    headerValidAt file walkEnd pos = true := by
  have hlen := hc.length_bytes
  have htake : (c.id ++ c.size).take 4 = c.id := by rw [← hc.id_length, take_left]
  have hdrop : (c.id ++ c.size).drop 4 = c.size := by rw [← hc.id_length, drop_left]
  have hin : ¬(pos > walkEnd ∨ walkEnd - pos < 8) := by omega
  simp only [headerValidAt, if_neg hin, readAt_head hfits hc h, hc.ascii, htake, hdrop]
  rcases hsized with hdata | hsized
  · simp [hdata]
  · rw [Chunk.Sized] at hsized
    by_cases hdata : c.id = idData
    · simp [hdata]
    · simp [hdata, hsized]
      omega

omit hfits in
theorem nextChunk_chunk {walkEnd : ℕ} (hroom : pos + c.bytes.length ≤ walkEnd)
    (hmax : walkEnd ≤ uint64Max) (hvalid : pos + c.bytes.length = walkEnd ∨
      headerValidAt file walkEnd (pos + c.bytes.length) = true) :
    nextChunk id file walkEnd (pos + 8 + c.body.length) c.body.length = pos + c.bytes.length := by
  have hlen := hc.length_bytes
  unfold nextChunk
  by_cases hodd : c.body.length % 2 = 0
  · rw [if_pos (Or.inl hodd)]
    omega
  · have hpadded : pos + 8 + c.body.length + 1 = pos + c.bytes.length := by omega
    have hstay : ¬(c.body.length % 2 = 0 ∨ pos + 8 + c.body.length = uint64Max) := by omega
    simp only [if_neg hstay, id_eq, hpadded]
    rcases hvalid with hend | hvalid
    · -- the pad byte is the last byte of the walk, too near its end for a header
      have hnot : headerValidAt file walkEnd (pos + 8 + c.body.length) = false := by
        unfold headerValidAt
        rw [if_pos (by omega)]
      simp only [hnot, Bool.false_eq_true, if_false, ite_self]
    · rw [if_pos hvalid]

omit hfits hc in
theorem walkLoop_end (h : Header) (turns : ℕ) (found : Found) :
    walkLoop id file h turns h.walkEnd found = .ok found := by
  cases turns with
  | zero => rfl
  | succ turns =>
    have hstop : walkTurn id file h h.walkEnd found = .stop found := by
      unfold walkTurn
      rw [if_pos (by omega)]
    simp only [walkLoop, hstop]

theorem walkLoop_chunk {h : Header} (turns : ℕ) (found : Found) (taken : Except WavError Found)
    (hat : At file pos c.bytes) (hroom : pos + c.bytes.length ≤ h.walkEnd)
    (hend : h.walkEnd ≤ file.length) (hvalid : pos + c.bytes.length = h.walkEnd ∨
      headerValidAt file h.walkEnd (pos + c.bytes.length) = true)
    (htake : takeChunk file h found c.id (pos + 8) (le32 c.size) =
      taken.map fun found => (found, some c.body.length)) :
    walkLoop id file h (turns + 1) pos found =
      taken >>= walkLoop id file h turns (pos + c.bytes.length) := by
  have hmax : uint64Max = 2 ^ 64 - 1 := rfl
  have hlen := hc.length_bytes
  have htake4 : (c.id ++ c.size).take 4 = c.id := by rw [← hc.id_length, take_left]
  have hdrop4 : (c.id ++ c.size).drop 4 = c.size := by rw [← hc.id_length, drop_left]
  have hin : ¬(pos > h.walkEnd ∨ h.walkEnd - pos < 8) := by omega
  have hturn : walkTurn id file h pos found =
      match taken with
      | .error e => .fail e
      | .ok found =>
        if pos + 8 + c.body.length ≥ h.walkEnd then .stop found
        else .go (pos + c.bytes.length) found := by
    simp only [walkTurn, if_neg hin, readAt_head hfits hc hat, hc.ascii, Bool.not_true,
      Bool.false_eq_true, if_false, htake4, hdrop4, id_eq, htake]
    cases taken with
    | error e => rfl
    | ok found =>
      have hstep : ¬c.body.length > uint64Max - (pos + 8) := by omega
      simp only [Except.map, if_neg hstep, nextChunk_chunk hc hroom (by omega) hvalid]
  rw [walkLoop, hturn]
  cases taken with
  | error e => rfl
  | ok found =>
    simp only [bind, Except.bind]
    by_cases hover : pos + 8 + c.body.length ≥ h.walkEnd
    · have hlast : pos + c.bytes.length = h.walkEnd := by omega
      rw [if_pos hover, hlast, walkLoop_end]
    · rw [if_neg hover]

end Walk

/-- What the walk makes of a chunk that is no data chunk. -/
def note (found : Found) (c : Chunk) : Except WavError Found :=
  if c.id = idFmt ∧ found.fmt = none then
    if c.body.length < 16 then .error .fmtShort else .ok { found with fmt := some c.fmt }
  else .ok found

theorem takeChunk_note (hfits : file.length < 2 ^ 63) {c : Chunk} (hc : c.Formed) (hsized : c.Sized)
    (hdata : c.id ≠ idData) (h : Header) (found : Found) (hat : At file pos c.bytes) :
    takeChunk file h found c.id (pos + 8) (le32 c.size) =
      (note found c).map fun found => (found, some c.body.length) := by
  rw [hsized]
  by_cases hfmt : c.id = idFmt
  · simp only [takeChunk, hfmt, if_true, note, true_and]
    cases hfound : found.fmt with
    | some f => simp [takeFmt, hfound, Except.map]
    | none =>
      by_cases hshort : c.body.length < 16
      · have hmin : min c.body.length 40 < 16 := by omega
        simp [takeFmt, hfound, hmin, hshort, Except.map]
      · have hmin : ¬min c.body.length 40 < 16 := by omega
        have hbody : At file (pos + 8) (c.body.take 40) := by
          have hright := hat.right.right
          rw [hc.id_length, hc.size_length, Nat.add_assoc] at hright
          have hleft := hright.left
          rw [← take_append_drop 40 c.body] at hleft
          exact hleft.left
        have hread := hbody.readAt hfits (by
          intro hnil
          have hlen := congrArg List.length hnil
          rw [length_take, length_nil] at hlen
          omega)
        rw [length_take, Nat.min_comm] at hread
        simp [takeFmt, hfound, hmin, hshort, hread, Except.map, Chunk.fmt]
  · simp [takeChunk, note, hfmt, hdata, Except.map]

theorem foldlM_note_some {f : Fmt} (hfound : found.fmt = some f) (cs : List Chunk) :
    cs.foldlM note found = .ok found := by
  induction cs with
  | nil => rfl
  | cons c cs ih =>
    have hnote : note found c = .ok found := by simp [note, hfound]
    rw [foldlM_cons, hnote]
    exact ih

theorem foldlM_note_other {cs : List Chunk} (hcs : cs.filter (·.id = idFmt) = []) (found : Found) :
    cs.foldlM note found = .ok found := by
  induction cs with
  | nil => rfl
  | cons c cs ih =>
    rw [filter_cons] at hcs
    split at hcs
    · cases hcs
    · case isFalse hid =>
        have hnote : note found c = .ok found := by
          have hid' : ¬c.id = idFmt := by simpa using hid
          simp [note, hid']
        rw [foldlM_cons, hnote]
        exact ih hcs

/-- Of one fmt chunk among others, the format is kept. -/
theorem foldlM_note_fmt {cs : List Chunk} {fmt : Chunk} (hcs : cs.filter (·.id = idFmt) = [fmt])
    (hfound : found.fmt = none) :
    cs.foldlM note found =
      if fmt.body.length < 16 then .error .fmtShort
      else .ok { found with fmt := some fmt.fmt } := by
  induction cs with
  | nil => cases hcs
  | cons c cs ih =>
    rw [filter_cons] at hcs
    rw [foldlM_cons]
    split at hcs
    · case isTrue hid =>
        obtain ⟨rfl, _⟩ := List.cons.inj hcs
        have hid' : c.id = idFmt := by simpa using hid
        simp only [note, hid', hfound, true_and, if_true]
        by_cases hshort : c.body.length < 16
        · rw [if_pos hshort]
          rfl
        · rw [if_neg hshort]
          exact foldlM_note_some rfl cs
    · case isFalse hid =>
        have hid' : ¬c.id = idFmt := by simpa using hid
        simp only [note, hid', false_and, if_false]
        exact ih hcs

section Run

variable {file : List Byte} (hfits : file.length < 2 ^ 63) {h : Header}
  (hend : h.walkEnd ≤ file.length)

include hfits

/-- Where chunks stand there is a header, or the end after none. -/
theorem valid_start {cs : List Chunk} (hcs : ∀ c ∈ cs, c.Formed ∧ (c.id = idData ∨ c.Sized))
    {pos : ℕ} (hat : At file pos (bytesOf cs)) (hroom : pos + (bytesOf cs).length ≤ h.walkEnd)
    (hvalid : pos + (bytesOf cs).length = h.walkEnd ∨
      headerValidAt file h.walkEnd (pos + (bytesOf cs).length) = true) :
    pos = h.walkEnd ∨ headerValidAt file h.walkEnd pos = true := by
  cases cs with
  | nil => exact hvalid
  | cons c cs =>
    obtain ⟨hc, hsized⟩ := hcs c mem_cons_self
    rw [bytesOf, flatMap_cons] at hat hroom
    rw [length_append] at hroom
    exact Or.inr (headerValidAt_chunk hfits hc hat.left hsized (by omega))

include hend

theorem walkLoop_notes {cs : List Chunk}
    (hcs : ∀ c ∈ cs, c.Formed ∧ c.Sized ∧ c.id ≠ idData) {pos : ℕ}
    (hat : At file pos (bytesOf cs)) (hroom : pos + (bytesOf cs).length ≤ h.walkEnd)
    (hvalid : pos + (bytesOf cs).length = h.walkEnd ∨
      headerValidAt file h.walkEnd (pos + (bytesOf cs).length) = true)
    (turns : ℕ) (found : Found) :
    walkLoop id file h (turns + cs.length) pos found =
      cs.foldlM note found >>= walkLoop id file h turns (pos + (bytesOf cs).length) := by
  induction cs generalizing pos found with
  | nil => rfl
  | cons c cs ih =>
    obtain ⟨hc, hsized, hdata⟩ := hcs c mem_cons_self
    have hrest : ∀ c ∈ cs, c.Formed ∧ c.Sized ∧ c.id ≠ idData := fun c hmem =>
      hcs c (mem_cons_of_mem _ hmem)
    have hbytes : bytesOf (c :: cs) = c.bytes ++ bytesOf cs := flatMap_cons
    rw [hbytes] at hat
    rw [hbytes, length_append, ← Nat.add_assoc] at hroom hvalid
    have hstart := valid_start hfits (fun c hmem => ⟨(hrest c hmem).1, Or.inr (hrest c hmem).2.1⟩)
      hat.right hroom hvalid
    have hturn := walkLoop_chunk hfits hc (turns + cs.length) found _ hat.left
      (by omega) hend hstart (takeChunk_note hfits hc hsized hdata h found hat.left)
    rw [length_cons, ← Nat.add_assoc, hturn, foldlM_cons, bind_assoc, hbytes,
      length_append, ← Nat.add_assoc]
    exact bind_congr fun found => ih hrest hat.right hroom hvalid found

end Run

namespace Layout

variable {L : Layout} {fmt : Chunk} (hL : L.Conforms fmt)

include hL

theorem at_chunks : At L.bytes 12 (bytesOf L.chunks) := by
  have hat : At L.bytes 0 L.bytes := prefix_rfl
  have hid : L.container.id.length = 4 := by cases L.container <;> rfl
  have hright := hat.right.right.right.left
  rw [hid, hL.size_length] at hright
  exact hright

theorem length_bytes_le : 12 + (bytesOf L.chunks).length ≤ L.bytes.length := by
  have hid : L.container.id.length = 4 := by cases L.container <;> rfl
  have hwave : idWave.length = 4 := rfl
  simp only [bytes, length_append, hid, hL.size_length, hwave]
  omega

theorem filter_split :
    L.before.filter (·.id = idFmt) = [fmt] ∧ L.after.filter (·.id = idFmt) = [] ∨
      L.before.filter (·.id = idFmt) = [] ∧ L.after.filter (·.id = idFmt) = [fmt] := by
  have hone := hL.one_fmt
  have hdata : ¬idData = idFmt := by decide
  rw [chunks, filter_append, filter_cons_of_neg (by simp [hL.data_id, hdata]),
    append_eq_singleton_iff] at hone
  rcases hone with ⟨hbefore, hafter⟩ | ⟨hbefore, hafter⟩
  · exact Or.inr ⟨hbefore, hafter⟩
  · exact Or.inl ⟨hbefore, hafter⟩

theorem walkChunks_layout {h : Header} (hend : h.walkEnd = 12 + (bytesOf L.chunks).length)
    (htake : ∀ body, takeData L.bytes h body (le32 L.data.size) =
      (⟨body, L.data.body.length, L.data.body.length, false⟩, false)) :
    walkChunks id L.bytes h =
      if fmt.body.length < 16 then .error .fmtShort
      else .ok ⟨some fmt.fmt, some ⟨12 + (bytesOf L.before).length + 8, L.data.body.length,
        L.data.body.length, false⟩⟩ := by
  have hlen := length_bytes_le hL
  have hat := at_chunks hL
  have hsplit : bytesOf L.chunks = bytesOf L.before ++ (L.data.bytes ++ bytesOf L.after) := by
    simp [bytesOf, chunks]
  have hformed : ∀ c ∈ L.chunks, c.Formed := hL.formed
  have hdata : L.data.Formed := hformed _ (by simp [chunks])
  have hnotes : ∀ cs : List Chunk, (∀ c ∈ cs, c ∈ L.before ++ L.after) →
      ∀ c ∈ cs, c.Formed ∧ c.Sized ∧ c.id ≠ idData := by
    intro cs hcs c hmem
    have hin := hcs c hmem
    exact ⟨hformed c (by rcases mem_append.mp hin with hin | hin <;> simp [chunks, hin]),
      hL.sized c hin, hL.one_data c hin⟩
  have hbefore := hnotes L.before fun c hmem => mem_append_left _ hmem
  have hafter := hnotes L.after fun c hmem => mem_append_right _ hmem
  rw [hsplit] at hat hend hlen
  simp only [length_append] at hend hlen
  have hatData := hat.right.left
  have hatAfter := hat.right.right
  obtain ⟨turns, hturns⟩ : ∃ turns, maxChunks = turns + L.after.length + 1 + L.before.length := by
    have hfew := hL.few
    simp only [chunks, length_append, length_cons] at hfew
    exact ⟨maxChunks - (L.before.length + (L.after.length + 1)), by omega⟩
  -- the walk up to the data chunk, at it, and after it
  have hfirst := walkLoop_notes hL.fits (h := h) (by omega) hbefore hat.left (by omega)
    (Or.inr (headerValidAt_chunk hL.fits hdata hatData (Or.inl hL.data_id) (by omega)))
    (turns + L.after.length + 1) ⟨none, none⟩
  have hsecond : ∀ found : Found, found.data = none → _ := fun found hfound =>
    walkLoop_chunk hL.fits hdata (h := h) (turns + L.after.length) found
      (.ok { found with data := some ⟨12 + (bytesOf L.before).length + 8,
        L.data.body.length, L.data.body.length, false⟩ })
      hatData (by omega) (by omega)
      (valid_start hL.fits (fun c hmem => ⟨(hafter c hmem).1, Or.inr (hafter c hmem).2.1⟩)
        hatAfter (by omega) (Or.inl (by omega)))
      (by
        have hne : ¬idData = idFmt := by decide
        simp only [takeChunk, hL.data_id, hne, if_false, if_true, hfound, htake]
        rfl)
  have hthird := fun found => walkLoop_notes hL.fits (h := h) (by omega) hafter hatAfter (by omega)
    (Or.inl (by omega)) turns found
  have hover : ∀ found, walkLoop id L.bytes h turns
      (12 + (bytesOf L.before).length + L.data.bytes.length + (bytesOf L.after).length) found =
        .ok found := by
    intro found
    rw [show 12 + (bytesOf L.before).length + L.data.bytes.length + (bytesOf L.after).length =
      h.walkEnd by omega]
    exact walkLoop_end h turns found
  rw [walkChunks, hturns, hfirst]
  rcases filter_split hL with ⟨hfmt, hnone⟩ | ⟨hnone, hfmt⟩
  · rw [foldlM_note_fmt hfmt rfl]
    by_cases hshort : fmt.body.length < 16
    · rw [if_pos hshort, if_pos hshort]
      rfl
    · rw [if_neg hshort, if_neg hshort]
      simp only [bind, Except.bind] at hsecond hthird ⊢
      rw [hsecond _ rfl]
      simp only [hthird, foldlM_note_other hnone, hover]
  · rw [foldlM_note_other hnone]
    simp only [bind, Except.bind] at hsecond hthird ⊢
    rw [hsecond _ rfl]
    simp only [hthird, foldlM_note_fmt hfmt]
    by_cases hshort : fmt.body.length < 16
    · simp only [if_pos hshort]
    · simp only [if_neg hshort, hover]

end Layout

theorem byteAt_append_left {i : ℕ} (h : i < as.length) : byteAt (as ++ bs) i = byteAt as i := by
  simp [byteAt, getElem?_append_left h]

theorem byteAt_take {p : List Byte} {i : ℕ} (h : i < n) : byteAt (p.take n) i = byteAt p i := by
  simp [byteAt, h]

theorem byteAt_drop (p : List Byte) (n i : ℕ) : byteAt (p.drop n) i = byteAt p (n + i) := by
  simp [byteAt]

theorem le32_append (h : as.length = 4) (bs : List Byte) : le32 (as ++ bs) = le32 as := by
  unfold le32
  rw [byteAt_append_left (by omega), byteAt_append_left (by omega), byteAt_append_left (by omega),
    byteAt_append_left (by omega)]

/-- A number of 64 bits is the same in the first bytes alone. -/
theorem le64_take {p : List Byte} {k : ℕ} (h : k + 8 ≤ n) :
    le64 ((p.take n).drop k) = le64 (p.drop k) := by
  have hbyte : ∀ i, i < k + 8 → byteAt (p.take n) i = byteAt p i := fun i hi =>
    byteAt_take (by omega)
  simp (disch := omega) only [le64, le32, drop_drop, byteAt_drop, hbyte]

namespace Layout

variable {L : Layout} {fmt : Chunk} (hL : L.Conforms fmt)

include hL

theorem readAt_start : readAt L.bytes 0 12 = some (L.container.id ++ (L.size ++ idWave)) := by
  have hid : L.container.id.length = 4 := by cases L.container <;> rfl
  have hwave : idWave.length = 4 := rfl
  have hat : At L.bytes 0 (L.container.id ++ (L.size ++ idWave)) :=
    ⟨bytesOf L.chunks ++ L.rest, by simp [bytes]⟩
  have hlen : (L.container.id ++ (L.size ++ idWave)).length = 12 := by
    simp [hid, hL.size_length, hwave]
  rw [← hlen]
  exact hat.readAt hL.fits (by
    intro hnil
    rw [hnil] at hlen
    cases hlen)

theorem even_chunks : (bytesOf L.chunks).length % 2 = 0 := by
  have heven : ∀ cs : List Chunk, (∀ c ∈ cs, c.Formed) → (bytesOf cs).length % 2 = 0 := by
    intro cs hcs
    induction cs with
    | nil => rfl
    | cons c cs ih =>
      have hlen := (hcs c mem_cons_self).length_bytes
      have hrest := ih fun c hmem => hcs c (mem_cons_of_mem _ hmem)
      have hbytes : bytesOf (c :: cs) = c.bytes ++ bytesOf cs := flatMap_cons
      rw [hbytes, length_append]
      omega
  exact heven _ hL.formed

theorem length_body_le :
    20 + (bytesOf L.before).length + L.data.body.length ≤ 12 + (bytesOf L.chunks).length := by
  have hlen := (hL.formed L.data (by simp [chunks])).length_bytes
  have hsplit : bytesOf L.chunks = bytesOf L.before ++ (L.data.bytes ++ bytesOf L.after) := by
    simp [bytesOf, chunks]
  rw [hsplit, length_append, length_append]
  omega

theorem readHeader_riff (hc : L.container = .riff) :
    readHeader id L.bytes = .ok ⟨.riff, false, 12 + (bytesOf L.chunks).length,
      12 + (bytesOf L.chunks).length, 0⟩ := by
  have hsizes : L.Sizes32 := by simpa [hc] using hL.sizes
  have hsize := hsizes.1
  have heven := even_chunks hL
  have hle := length_bytes_le hL
  have hlt := le32_lt L.size
  have hid : L.container.id = idRiff := by rw [hc]; rfl
  have hwave : ((idRiff ++ (L.size ++ idWave)).drop 8).take 4 = idWave := by
    have hlen : (idRiff ++ L.size).length = 8 := by
      rw [length_append, hL.size_length]
      rfl
    rw [← append_assoc, ← hlen, drop_left]
    rfl
  have htake : (idRiff ++ (L.size ++ idWave)).take 4 = idRiff := rfl
  have hdrop : (idRiff ++ (L.size ++ idWave)).drop 4 = L.size ++ idWave := rfl
  have hopen : ¬(le32 L.size = 0 ∨ le32 L.size = 0xFFFFFFFF ∨
      12 + (bytesOf L.chunks).length > L.bytes.length) := by omega
  have hend : 8 + le32 L.size = 12 + (bytesOf L.chunks).length := by omega
  simp only [readHeader, readAt_start hL, hid, hwave, htake, hdrop, ne_eq, not_true,
    if_false, if_true, le32_append hL.size_length, id_eq, hend, if_neg hopen]

theorem readDs64_layout (hc : L.container ≠ .riff) :
    ∃ size, readDs64 id L.bytes L.container = .ok ⟨L.container, false,
      12 + (bytesOf L.chunks).length, 12 + (bytesOf L.chunks).length, size⟩ ∧
      (le32 L.data.size = 0xFFFFFFFF → size = L.data.body.length) := by
  have hsizes : L.Sizes64 := by simpa [hc] using hL.sizes
  obtain ⟨ds, cs, hbefore, hid, hlong, htotal, hdata⟩ := hsizes
  have hmem : ds ∈ L.chunks := by simp [chunks, hbefore]
  have hds := hL.formed ds hmem
  have hsized : ds.Sized := hL.sized ds (by simp [hbefore])
  have hat : At L.bytes 12 ds.bytes := by
    have hchunks := at_chunks hL
    have hsplit : bytesOf L.chunks = ds.bytes ++ bytesOf (cs ++ L.data :: L.after) := by
      simp [bytesOf, chunks, hbefore]
    rw [hsplit] at hchunks
    exact hchunks.left
  have hbody : readAt L.bytes 20 24 = some (ds.body.take 24) := by
    have hright := hat.right.right.left
    rw [hds.id_length, hds.size_length, ← take_append_drop 24 ds.body] at hright
    have hlen : (ds.body.take 24).length = 24 := by
      rw [length_take]
      omega
    have hread := hright.left.readAt hL.fits (by
      intro hnil
      rw [hnil] at hlen
      cases hlen)
    rw [hlen] at hread
    exact hread
  have htake : (ds.id ++ ds.size).take 4 = idDs64 := by
    rw [← hds.id_length, take_left, hid]
  have hdrop : (ds.id ++ ds.size).drop 4 = ds.size := by rw [← hds.id_length, drop_left]
  have hsize : le32 ds.size = ds.body.length := hsized
  have hfirst : le64 (ds.body.take 24) = 4 + (bytesOf L.chunks).length := by
    have hfirst := le64_take (p := ds.body) (k := 0) (n := 24) (by decide)
    exact hfirst.trans htotal
  have hle := length_bytes_le hL
  have hfits := hL.fits
  have hmax : 4 + (bytesOf L.chunks).length ≤ uint64Max - 8 := by
    unfold uint64Max
    omega
  have hend : 8 + (4 + (bytesOf L.chunks).length) = 12 + (bytesOf L.chunks).length := by omega
  have hwalk : (if 12 + (bytesOf L.chunks).length < L.bytes.length
      then 12 + (bytesOf L.chunks).length else L.bytes.length) =
        12 + (bytesOf L.chunks).length := by
    split <;> omega
  refine ⟨le64 (ds.body.drop 8), ?_, fun hopen => ?_⟩
  · have hshort : ¬ds.body.length < 24 := by omega
    simp only [readDs64, readAt_head hL.fits hds hat, hbody, htake, hdrop, hsize, ne_eq, not_true,
      if_false, if_neg hshort, hfirst, if_pos hmax, id_eq, hend, hwalk,
      le64_take (p := ds.body) (show 8 + 8 ≤ 24 by decide)]
  · rw [if_pos hopen] at hdata
    exact hdata

theorem readHeader_ds64 (hc : L.container ≠ .riff) :
    readHeader id L.bytes = readDs64 id L.bytes L.container := by
  have hwave : ((L.container.id ++ (L.size ++ idWave)).drop 8).take 4 = idWave := by
    have hlen : (L.container.id ++ L.size).length = 8 := by
      rw [length_append, hL.size_length]
      cases L.container <;> rfl
    rw [← append_assoc, ← hlen, drop_left]
    rfl
  have htake : (L.container.id ++ (L.size ++ idWave)).take 4 = L.container.id := by
    cases L.container <;> rfl
  simp only [readHeader, readAt_start hL, hwave, htake, ne_eq, not_true, if_false]
  cases hform : L.container with
  | riff => exact absurd hform hc
  | rf64 => rfl
  | bw64 => rfl

theorem takeData_layout {h : Header} (hcontainer : h.container = L.container)
    (hopen : h.riffOpen = false)
    (hsize : L.container ≠ .riff → le32 L.data.size = 0xFFFFFFFF →
      h.ds64DataSize = L.data.body.length) (body : ℕ) :
    takeData L.bytes h body (le32 L.data.size) =
      (⟨body, L.data.body.length, L.data.body.length, false⟩, false) := by
  unfold takeData
  rw [hcontainer, hopen]
  by_cases hds : L.container ≠ .riff ∧ le32 L.data.size = 0xFFFFFFFF
  · rw [if_pos hds, hsize hds.1 hds.2]
  · have hsized : le32 L.data.size = L.data.body.length := by
      by_cases hc : L.container = .riff
      · have hsizes : L.Sizes32 := by simpa [hc] using hL.sizes
        exact hsizes.2
      · have hsizes : L.Sizes64 := by simpa [hc] using hL.sizes
        obtain ⟨ds, cs, -, -, -, -, hdata⟩ := hsizes
        rw [if_neg fun hplace => hds ⟨hc, hplace⟩] at hdata
        exact hdata
    rw [if_neg hds, if_neg (by simp), hsized]

theorem readInfoWith_layout : readInfoWith id L.bytes = L.reading fmt := by
  obtain ⟨size, hread, hsize⟩ : ∃ size, readHeader id L.bytes = .ok ⟨L.container, false,
      12 + (bytesOf L.chunks).length, 12 + (bytesOf L.chunks).length, size⟩ ∧
      (L.container ≠ .riff → le32 L.data.size = 0xFFFFFFFF → size = L.data.body.length) := by
    by_cases hc : L.container = .riff
    · exact ⟨0, by rw [readHeader_riff hL hc, hc], fun hne => absurd hc hne⟩
    · obtain ⟨size, hds, hsize⟩ := readDs64_layout hL hc
      exact ⟨size, by rw [readHeader_ds64 hL hc, hds], fun _ => hsize⟩
  have hwalk := walkChunks_layout hL
    (h := ⟨L.container, false, 12 + (bytesOf L.chunks).length,
      12 + (bytesOf L.chunks).length, size⟩) rfl
    (takeData_layout hL rfl rfl hsize)
  have hbody := length_body_le hL
  have hle := length_bytes_le hL
  simp only [readInfoWith, hread, bind, Except.bind, hwalk, reading]
  by_cases hshort : fmt.body.length < 16
  · simp only [if_pos hshort]
  · simp only [if_neg hshort, finish, bind, Except.bind]
    cases parseFmt fmt.fmt with
    | error e => rfl
    | ok format =>
      have hbytes : dataBytesInFile ⟨L.container, false, 12 + (bytesOf L.chunks).length,
          12 + (bytesOf L.chunks).length, size⟩
          ⟨12 + (bytesOf L.before).length + 8, L.data.body.length, L.data.body.length, false⟩
          L.bytes.length = (L.data.body.length, false) := by
        simp only [dataBytesInFile, headerDataBytes]
        grind
      by_cases hempty : L.data.body.length = 0
      · simp only [hempty, true_and, if_true]
      · have hclamp : (12 + (bytesOf L.chunks).length ≤ 12 + (bytesOf L.before).length + 8 ||
            12 + (bytesOf L.chunks).length - (12 + (bytesOf L.before).length + 8) <
              L.data.body.length) = false := by
          simp only [Bool.or_eq_false_iff, decide_eq_false_iff_not]
          omega
        simp only [hempty, true_and, if_false, hbytes, id_eq, hclamp, Bool.not_false, Bool.true_and]

end Layout

/-- A file laid out by the format's rules is read as its fmt chunk and its data chunk say. Whatever
the bytes are, no sum is rounded, the walk and the data chunk stay inside the file, and the frames
are bytes of it. -/
theorem readInfo_exact (file : List Byte) :
    (∀ L fmt, Layout.Conforms L fmt → L.bytes = file → readInfo file = L.reading fmt) ∧
      readInfo file = readInfoWith id file ∧
      (∀ h, readHeader u64 file = .ok h →
        (∀ pos found, Relation.ReflTransGen (Goes u64 file h) (12, ⟨none, none⟩) (pos, found) →
          pos ≤ file.length ∧ found.Inside file) ∧
        ∀ found, walkChunks u64 file h = .ok found → found.Inside file) ∧
      ∀ info, readInfo file = .ok info →
        info.dataOffset + info.effectiveDataBytes ≤ file.length := by
  have hround : readInfo file = readInfoWith id file := readInfoWith_u64 file
  have hgoes : ∀ h, Goes u64 file h = Goes id file h := fun h => by
    funext a b
    simp only [Goes, walkTurn_u64]
  have hstart : Found.Inside ⟨none, none⟩ file := fun d hd => by cases hd
  refine ⟨?_, hround, ?_, ?_⟩
  · rintro L fmt hL rfl
    rw [hround]
    exact Layout.readInfoWith_layout hL
  · intro h hread
    rw [readHeader_u64] at hread
    have hends := readHeader_ends hread
    refine ⟨fun pos found hrun => ?_, fun found hwalk => ?_⟩
    · rw [hgoes] at hrun
      exact goes_inside hends.1 hrun ⟨hends.2.2, hstart⟩
    · rw [walkChunks, walkLoop_u64] at hwalk
      exact walkLoop_inside hends.1 hstart hwalk
  · intro info hinfo
    rw [hround] at hinfo
    exact readInfo_inside hinfo

/-- A fmt chunk of 16-bit PCM at 48000 Hz. -/
def pcmChunk (channels blockAlign : Byte) : Chunk :=
  ⟨idFmt, [16, 0, 0, 0],
    [1, 0, channels, 0, 0x80, 0xBB, 0, 0, 0, 0, 0, 0, blockAlign, 0, 16, 0], []⟩

/-- A ds64 chunk for 90 bytes of chunks, 5 of them data. -/
def ds64Chunk : Chunk :=
  ⟨idDs64, [28, 0, 0, 0], [90, 0, 0, 0, 0, 0, 0, 0, 5] ++ List.replicate 19 0, []⟩

/-- A chunk of three bytes and a pad byte. -/
def noteChunk : Chunk := ⟨[0x6E, 0x6F, 0x74, 0x65], [3, 0, 0, 0], [1, 2, 3], [0]⟩

/-- Five bytes of samples, whose size the ds64 chunk tells. -/
def pcmData : Chunk := ⟨idData, [0xFF, 0xFF, 0xFF, 0xFF], [1, 0, 2, 0, 3], [0]⟩

/-- A file of more than 32 bits of size, with a chunk between its fmt chunk and its data. -/
def pcmLayout (channels blockAlign : Byte) : Layout where
  container := .rf64
  size := [0xFF, 0xFF, 0xFF, 0xFF]
  before := [ds64Chunk, pcmChunk channels blockAlign, noteChunk]
  data := pcmData
  after := []
  rest := []

theorem pcmLayout_conforms (channels blockAlign : Byte) :
    (pcmLayout channels blockAlign).Conforms (pcmChunk channels blockAlign) where
  size_length := rfl
  formed := by
    have hds64 : ∀ b ∈ idDs64, 0x20 ≤ b ∧ b ≤ 0x7E := by decide
    have hfmt : ∀ b ∈ idFmt, 0x20 ≤ b ∧ b ≤ 0x7E := by decide
    have hnote : ∀ b ∈ noteChunk.id, 0x20 ≤ b ∧ b ≤ 0x7E := by decide
    have hdata : ∀ b ∈ idData, 0x20 ≤ b ∧ b ≤ 0x7E := by decide
    intro c hc
    simp only [Layout.chunks, pcmLayout, cons_append, nil_append, mem_cons,
      not_mem_nil, or_false] at hc
    rcases hc with rfl | rfl | rfl | rfl
    · exact ⟨rfl, hds64, rfl, rfl⟩
    · exact ⟨rfl, hfmt, rfl, by simp [pcmChunk]⟩
    · exact ⟨rfl, hnote, rfl, rfl⟩
    · exact ⟨rfl, hdata, rfl, rfl⟩
  sized := by
    intro c hc
    simp only [pcmLayout, append_nil, mem_cons, not_mem_nil, or_false] at hc
    rcases hc with rfl | rfl | rfl <;> rfl
  data_id := rfl
  one_data := by
    intro c hc
    simp only [pcmLayout, append_nil, mem_cons, not_mem_nil, or_false] at hc
    rcases hc with rfl | rfl | rfl
    · change idDs64 ≠ idData
      decide
    · change idFmt ≠ idData
      decide
    · decide
  one_fmt := rfl
  few := by
    change 4 ≤ maxChunks
    decide
  sizes := by
    rw [if_neg (by exact nofun)]
    have hplace : le32 pcmData.size = 0xFFFFFFFF := by decide
    have hdata : le64 (ds64Chunk.body.drop 8) = pcmData.body.length := by decide
    refine ⟨ds64Chunk, _, rfl, rfl, by decide, rfl, ?_⟩
    rw [pcmLayout, if_pos hplace]
    exact hdata
  fits := by
    change 98 < 2 ^ 63
    decide

/-- One frame of I and Q is read, and the odd byte after it left. -/
theorem readInfo_exact_pcm :
    (readInfo (pcmLayout 2 4).bytes).toOption.map (fun info => (info.dataOffset, info.frames)) =
      some (92, 1) := by
  rw [(readInfo_exact (pcmLayout 2 4).bytes).1 (pcmLayout 2 4) (pcmChunk 2 4)
    (pcmLayout_conforms 2 4) rfl]
  decide

/-- A recording of one channel keeps the rules and is refused. -/
theorem readInfo_oneChannel :
    (pcmLayout 1 2).Conforms (pcmChunk 1 2) ∧ readInfo (pcmLayout 1 2).bytes = .error .oneChannel :=
  ⟨pcmLayout_conforms 1 2, by decide⟩

end DsdNeo.Iq.Wav
