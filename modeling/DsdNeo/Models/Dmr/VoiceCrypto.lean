import Mathlib.Algebra.Order.Ring.Nat
import Mathlib.Data.List.Range

/-!
# Message indicators

`crypto/dmr_mi.c` and the refresh functions of `dmr_pi.c`: how each cipher takes a
slot's message indicator from one voice superframe to the next.
-/

namespace DsdNeo.Dmr

/-- A register shifted up by the bit its taps give. -/
def shiftIn {w : ℕ} (feedback : BitVec w → BitVec w) (lfsr : BitVec w) : BitVec w :=
  lfsr <<< 1 ||| feedback lfsr &&& 1

/-- `dmr_mi_advance32`. -/
def dmrMiAdvance32 (mi : BitVec 32) : BitVec 32 :=
  ((shiftIn fun l => l >>> 31 ^^^ l >>> 3 ^^^ l >>> 1)^[32] (mi.setWidth 64)).setWidth 32

/-- Taps of the register that expands an initialisation vector. -/
def expandTaps {w : ℕ} (l : BitVec w) : BitVec w := l >>> 31 ^^^ l >>> 21 ^^^ l >>> 1 ^^^ l

/-- `dmr_des_expand_iv`. -/
def dmrDesExpandIv (mi : BitVec 32) : BitVec 64 := (shiftIn expandTaps)^[32] (mi.setWidth 64)

/-- The octets of `dmr_aes_expand_iv` past the indicator itself: the last eight bits
shifted in. -/
def aesOctets : ℕ → BitVec 32 → List (BitVec 8)
  | 0, _ => []
  | n + 1, lfsr =>
    let next := (shiftIn expandTaps)^[8] lfsr
    next.setWidth 8 :: aesOctets n next

/-- `dmr_aes_expand_iv`: the vector, and the indicator of the next superframe. -/
def dmrAesExpandIv (mi : BitVec 32) : List (BitVec 8) × BitVec 32 :=
  let iv := (List.range 4).map (fun i => (mi >>> (24 - 8 * i)).setWidth 8) ++ aesOctets 12 mi
  (iv, iv.getD 4 0 ++ iv.getD 5 0 ++ iv.getD 6 0 ++ iv.getD 7 0)

/-- One octet of `hytera_lfsr`, rotated through its taps. -/
def hyteraOctet (mi tap : BitVec 8) : BitVec 8 :=
  let shifted := if mi.msb then mi <<< 1 ^^^ tap else mi <<< 1
  shifted ||| (BitVec.ofBool mi.msb).setWidth 8

/-- `hytera_enhanced_alg_refresh`. -/
def hyteraEnhancedAlgRefresh (mi : BitVec 64) : BitVec 64 :=
  (hyteraOctet (mi.extractLsb' 32 8) 0x12 ++ hyteraOctet (mi.extractLsb' 24 8) 0x24 ++
    hyteraOctet (mi.extractLsb' 16 8) 0x48 ++ hyteraOctet (mi.extractLsb' 8 8) 0x22 ++
      hyteraOctet (mi.extractLsb' 0 8) 0x14).setWidth 64

/-- The octet the inner loop of `kirisun_lfsr` collects from bit `j` on, and its register. -/
def kirisunOctet : List ℕ → BitVec 32 → BitVec 8 → BitVec 32 × BitVec 8
  | [], lfsr, out => (lfsr, out)
  | j :: js, lfsr, out =>
    if lfsr.msb then kirisunOctet js (lfsr <<< 1 ^^^ 0xD459C4F1) (out ||| 1 <<< j)
    else kirisunOctet js (lfsr <<< 1) out

/-- The outer loop of `kirisun_lfsr`. -/
def kirisunLoop : ℕ → BitVec 32 → BitVec 32 → BitVec 32
  | 0, _, next => next
  | n + 1, lfsr, next =>
    let (lfsr, out) := kirisunOctet (List.range 8) lfsr 0
    kirisunLoop n lfsr (next <<< 8 ||| out.setWidth 32)

/-- `kirisun_lfsr`. -/
def kirisunLfsr (mi : BitVec 64) : BitVec 32 := kirisunLoop 4 (mi.setWidth 32) 0

/-- `dmr_vcrypt_algid_uses_mi`. -/
def usesMi (algid : ℕ) : Bool :=
  algid ∈ [0x02, 0x21, 0x22, 0x24, 0x25, 0x35, 0x36, 0x37]

/-- The indicator that `vcrypt_step_mi` leaves. -/
def nextMi (algid : ℕ) (mi : BitVec 64) : BitVec 64 :=
  if algid = 0x24 ∨ algid = 0x25 then (dmrAesExpandIv (mi.setWidth 32)).2.setWidth 64
  else if algid = 0x22 then dmrDesExpandIv (mi.setWidth 32) &&& 0xFFFFFFFF
  else if algid = 0x21 then (dmrMiAdvance32 (mi.setWidth 32)).setWidth 64
  else if algid = 0x02 then hyteraEnhancedAlgRefresh mi
  else if algid = 0x35 ∨ algid = 0x36 ∨ algid = 0x37 then (kirisunLfsr mi).setWidth 64
  else mi

/-- A cipher that uses no indicator has nothing to step. -/
theorem nextMi_of_not_usesMi {algid : ℕ} (h : usesMi algid = false) (mi : BitVec 64) :
    nextMi algid mi = mi := by
  simp only [usesMi, List.mem_cons, List.not_mem_nil, or_false, decide_eq_false_iff_not,
    not_or] at h
  simp only [nextMi, h, or_self, if_false]

/-- The indicator of a superframe of the call that starts with `mi`. -/
def miAt (algid : ℕ) (mi : BitVec 64) (k : ℕ) : BitVec 64 := (nextMi algid)^[k] mi

theorem nextMi_miAt (algid : ℕ) (mi : BitVec 64) (k : ℕ) :
    nextMi algid (miAt algid mi k) = miAt algid mi (k + 1) :=
  (Function.iterate_succ_apply' _ _ _).symm

theorem iterate_nextMi_miAt (algid : ℕ) (mi : BitVec 64) (k n : ℕ) :
    (nextMi algid)^[n] (miAt algid mi k) = miAt algid mi (n + k) :=
  (Function.iterate_add_apply _ n k mi).symm

/-!
# Voice crypto continuity

`dmr_vcrypt.c`: which superframe a slot's message indicator is for. The reference is the
symbol clock at the voice sync of that superframe, on the timeline it was read on.
-/

/-- `DMR_VC_REF_NONE`, `DMR_VC_REF_FIRST` and `DMR_VC_REF_VALID`. -/
inductive RefState where
  | none
  | first
  | valid
  deriving DecidableEq

/-- `DMR_VC_SUPERFRAME_SYMBOLS`. -/
def superframeSymbols : BitVec 64 := 1728

/-- `DMR_VC_FIRST_WINDOW_SYMBOLS`. -/
def firstWindowSymbols : BitVec 64 := 4 * 288

/-- `DMR_VC_CATCHUP_MAX`. -/
def catchupMax : BitVec 64 := 10000

/-- What a slot's voice crypto reads and writes, with the receiver's clock. -/
structure Vcrypt where
  symbolClock : BitVec 64
  symbolClockEpoch : BitVec 32
  carrierSeq : BitVec 32
  payloadAlgid : ℕ
  payloadMi : BitVec 64
  /-- The initialisation vector of a DES superframe. -/
  payloadIv : BitVec 64
  aesIv : List (BitVec 8)
  keystreamUsed : ℕ
  keystreamDrop : ℕ
  refState : RefState
  refClock : BitVec 64
  refEpoch : BitVec 32
  refCarrier : BitVec 32
  untrusted : Bool
  /-- Superframes a held late-entry indicator has left. -/
  leCandidateValid : ℕ
  leFragMask : BitVec 8
  piVerified : Bool
  ksTagBurst : ℕ
  vc6Seed : BitVec 64
  vc6SeedValid : Bool
  deriving DecidableEq

namespace Vcrypt

variable (s : Vcrypt)

/-- `vcrypt_stamp`. -/
def stamp : Vcrypt :=
  { s with refClock := s.symbolClock, refEpoch := s.symbolClockEpoch, refCarrier := s.carrierSeq }

/-- `vcrypt_same_timeline`. -/
def sameTimeline : Bool := s.refEpoch = s.symbolClockEpoch ∧ s.refCarrier = s.carrierSeq

/-- `dmr_vcrypt_lose`. -/
def lose : Vcrypt :=
  { s with refState := .none, untrusted := true, leCandidateValid := 0, piVerified := false }

/-- `dmr_vcrypt_note_first`. -/
def noteFirst : Vcrypt :=
  { s with refState := .first, untrusted := false, leCandidateValid := 0 }.stamp

/-- `dmr_vcrypt_note_next_superframe_mi`. -/
def noteNextSuperframeMi : Vcrypt :=
  if s.refState = .first ∨ s.sameTimeline = false then s else { s with refState := .valid }

/-- `vcrypt_step_mi`. -/
def stepMi : Vcrypt :=
  let mi := nextMi s.payloadAlgid s.payloadMi
  if s.payloadAlgid = 0x24 ∨ s.payloadAlgid = 0x25 then
    { s with payloadMi := mi, aesIv := (dmrAesExpandIv (s.payloadMi.setWidth 32)).1 }
  else if s.payloadAlgid = 0x22 then
    { s with payloadMi := mi, payloadIv := dmrDesExpandIv (s.payloadMi.setWidth 32) }
  else { s with payloadMi := mi }

/-- `vcrypt_catch_up`. -/
def catchUp (superframes : ℕ) : Vcrypt :=
  if usesMi s.payloadAlgid then
    { stepMi^[superframes] s with leCandidateValid := 0, keystreamUsed := 0, keystreamDrop := 256 }
  else s

/-- Symbols from the reference to the clock. -/
def delta : BitVec 64 := s.symbolClock - s.refClock

/-- Superframes from the one the indicator is for to the one whose voice sync was read. -/
def superframes : BitVec 64 := (s.delta + 864) / superframeSymbols

/-- What the voice sync makes of the reference. -/
def account : Vcrypt :=
  match s.refState with
  | .first =>
    if s.sameTimeline ∧ s.refClock ≤ s.symbolClock ∧
        s.symbolClock - s.refClock ≤ firstWindowSymbols then
      { s with refState := .valid }
    else s.lose
  | .valid =>
    if s.sameTimeline = false then s.lose
    else if -864 ≤ s.delta.toInt then
      if catchupMax < s.superframes then s.lose
      else if 0 < s.superframes then
        { s.catchUp s.superframes.toNat with untrusted := false }
      else { s with untrusted := false }
    else s.lose
  | .none => { s with untrusted := true }

/-- `dmr_vcrypt_superframe_start`. -/
def superframeStart : Vcrypt :=
  { s.account.stamp with leFragMask := 0, ksTagBurst := 0 }

/-- `dmr_vcrypt_superframe_end`. -/
def superframeEnd : Vcrypt :=
  { s with
    vc6SeedValid := false
    leCandidateValid := s.leCandidateValid - 1
    refClock := if s.refState = .valid then s.refClock + superframeSymbols else s.refClock }

/-- `dmr_vcrypt_forget`. -/
def forget : Vcrypt :=
  { s with
    refState := .none
    untrusted := true
    leFragMask := 0
    leCandidateValid := 0
    piVerified := false
    vc6SeedValid := false }

/-- The indicator installed. -/
def install (mi : BitVec 64) : Vcrypt := { s with payloadMi := mi }

/-- The clock read. -/
def read (clock : BitVec 64) : Vcrypt := { s with symbolClock := clock }

/-- Another stream or another carrier. -/
def onTimeline (epoch carrier : BitVec 32) : Vcrypt :=
  { s with symbolClockEpoch := epoch, carrierSeq := carrier }

@[simp] theorem stepMi_payloadMi : s.stepMi.payloadMi = nextMi s.payloadAlgid s.payloadMi := by
  unfold stepMi
  split <;> [rfl; split <;> rfl]

@[simp] theorem stepMi_payloadAlgid : s.stepMi.payloadAlgid = s.payloadAlgid := by
  unfold stepMi
  split <;> [rfl; split <;> rfl]

@[simp] theorem stepMi_refState : s.stepMi.refState = s.refState := by
  unfold stepMi
  split <;> [rfl; split <;> rfl]

@[simp] theorem stepMi_refClock : s.stepMi.refClock = s.refClock := by
  unfold stepMi
  split <;> [rfl; split <;> rfl]

theorem iterate_stepMi (n : ℕ) :
    (stepMi^[n] s).payloadMi = (nextMi s.payloadAlgid)^[n] s.payloadMi ∧
      (stepMi^[n] s).payloadAlgid = s.payloadAlgid ∧ (stepMi^[n] s).refState = s.refState := by
  induction n generalizing s with
  | zero => exact ⟨rfl, rfl, rfl⟩
  | succ n ih =>
    obtain ⟨hmi, halg, href⟩ := ih s.stepMi
    rw [Function.iterate_succ_apply, Function.iterate_succ_apply]
    exact ⟨by rw [hmi, stepMi_payloadMi, stepMi_payloadAlgid], by rw [halg, stepMi_payloadAlgid],
      by rw [href, stepMi_refState]⟩

/-- Catching up takes the indicator that many superframes on, whichever the cipher. -/
theorem catchUp_payloadMi (n : ℕ) :
    (s.catchUp n).payloadMi = (nextMi s.payloadAlgid)^[n] s.payloadMi := by
  unfold catchUp
  cases h : usesMi s.payloadAlgid with
  | true => exact (iterate_stepMi s n).1
  | false =>
    have hfix : nextMi s.payloadAlgid s.payloadMi = s.payloadMi :=
      nextMi_of_not_usesMi h s.payloadMi
    exact (Function.iterate_fixed hfix n).symm

@[simp] theorem catchUp_payloadAlgid (n : ℕ) : (s.catchUp n).payloadAlgid = s.payloadAlgid := by
  unfold catchUp
  split <;> [exact (iterate_stepMi s n).2.1; rfl]

@[simp] theorem catchUp_refState (n : ℕ) : (s.catchUp n).refState = s.refState := by
  unfold catchUp
  split <;> [exact (iterate_stepMi s n).2.2; rfl]

theorem superframes_of_near {n : ℕ} {e : ℤ} (hlow : -864 ≤ e) (hhigh : e < 864)
    (hbound : 1728 * n + e < 2 ^ 63 - 864)
    (hdelta : s.delta = BitVec.ofInt 64 (1728 * n + e)) :
    -864 ≤ s.delta.toInt ∧ s.superframes.toNat = n := by
  have hint : s.delta.toInt = 1728 * n + e := by
    rw [hdelta, BitVec.toInt_ofInt]
    exact Int.bmod_eq_of_le (by omega) (by omega)
  have hsum : (s.delta + 864).toNat = (1728 * n + e + 864).toNat := by
    have hlt := s.delta.isLt
    have hhalf : (864 : BitVec 64).toNat = 864 := rfl
    rw [BitVec.toNat_add, hhalf]
    simp only [BitVec.toInt] at hint
    split at hint <;> omega
  have hwhole : (1728 : BitVec 64).toNat = 1728 := rfl
  refine ⟨by omega, ?_⟩
  rw [superframes, BitVec.toNat_udiv, hsum, superframeSymbols, hwhole]
  omega

theorem account_symbolClock : s.account.symbolClock = s.symbolClock := by
  have hiter (n : ℕ) (t : Vcrypt) : (stepMi^[n] t).symbolClock = t.symbolClock := by
    induction n generalizing t with
    | zero => rfl
    | succ n ih =>
      rw [Function.iterate_succ_apply, ih, stepMi]
      split <;> [rfl; split <;> rfl]
  unfold account catchUp
  cases s.refState with
  | none => rfl
  | first => dsimp only; split <;> rfl
  | valid =>
    dsimp only
    repeat' split
    all_goals first | rfl | exact hiter _ _

/-- The voice sync loses the chain, starts one from a header read within the window, or
takes the indicator over the superframes counted. -/
theorem account_cases :
    (s.account.refState = .none ∧ s.account.untrusted = true ∧
        s.account.payloadAlgid = s.payloadAlgid) ∨
      (s.refState = .first ∧ s.refClock ≤ s.symbolClock ∧
        s.symbolClock - s.refClock ≤ firstWindowSymbols ∧ s.account.refState = .valid ∧
        s.account.payloadAlgid = s.payloadAlgid ∧ s.account.payloadMi = s.payloadMi) ∨
      (s.refState = .valid ∧ s.account.refState = .valid ∧
        s.account.payloadAlgid = s.payloadAlgid ∧
        s.account.payloadMi = (nextMi s.payloadAlgid)^[s.superframes.toNat] s.payloadMi) := by
  unfold account
  cases href : s.refState with
  | none => exact .inl ⟨rfl, rfl, rfl⟩
  | first =>
    dsimp only
    split
    · rename_i h
      exact .inr (.inl ⟨rfl, h.2.1, h.2.2, rfl, rfl, rfl⟩)
    · exact .inl ⟨rfl, rfl, rfl⟩
  | valid =>
    dsimp only
    split
    · exact .inl ⟨rfl, rfl, rfl⟩
    · split
      · split
        · exact .inl ⟨rfl, rfl, rfl⟩
        · split
          · refine .inr (.inr ⟨rfl, ?_, ?_, ?_⟩)
            · exact (s.catchUp_refState _).trans href
            · exact s.catchUp_payloadAlgid _
            · exact s.catchUp_payloadMi _
          · rename_i hzero
            have hcount : s.superframes.toNat = 0 := by
              rw [BitVec.lt_def] at hzero
              exact Nat.eq_zero_of_not_pos hzero
            exact .inr (.inr ⟨rfl, rfl, rfl, by rw [hcount]; rfl⟩)
      · exact .inl ⟨rfl, rfl, rfl⟩

/-- A slot that a voice sync leaves trusted has a reference. -/
theorem valid_of_trusted (h : s.superframeStart.untrusted = false) :
    s.superframeStart.refState = .valid := by
  obtain ⟨-, hlost, -⟩ | ⟨-, -, -, hvalid, -⟩ | ⟨-, hvalid, -⟩ := s.account_cases
  · have htrust : s.account.untrusted = false := h
    rw [hlost] at htrust
    cases htrust
  · exact hvalid
  · exact hvalid

end Vcrypt

end DsdNeo.Dmr
