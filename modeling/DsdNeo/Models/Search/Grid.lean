import DsdNeo.Core.Bits.Sizes
import Mathlib.Tactic.Linarith

/-!
# The channels of a search range

A range is a frequency grid with a rational step. A valid range has at most 100000
channels, rounded once from its origin to whole hertz, and a span plans consecutive
channels into one capture.
-/

namespace DsdNeo.SignalSearch

def maxRanges : ℕ := 16

def maxChannels : ℕ := 100000

def maxCandidates : ℕ := 512

def maxAvoids : ℕ := 1024

def maxFft : ℕ := 65536

/-- `dsd_airspy_config`. -/
structure AirspyConfig where
  serial : Vector (BitVec 8) 17
  sampleRate : BitVec 32
  gainMode : ℤ
  sensitivityGain : ℤ
  linearityGain : ℤ
  lnaGain : ℤ
  mixerGain : ℤ
  vgaGain : ℤ
  lnaAgc : ℤ
  mixerAgc : ℤ
  biasTee : ℤ
  deriving DecidableEq

/-- `DSD_SQUELCH_MODE_LEVEL`. -/
def squelchLevel : ℤ := 0

/-- `DSD_SQUELCH_MODE_AUTO`. -/
def squelchAuto : ℤ := 1

/-- `DSD_SQUELCH_MODE_NOISE`. -/
def squelchNoise : ℤ := 2

/-- `dsd_signal_search_range`. -/
structure Range where
  name : Vector (BitVec 8) 64
  startHz : BitVec 32
  endHz : BitVec 32
  stepNum : BitVec 32
  stepDen : BitVec 32
  bandwidthHz : BitVec 32
  enabled : Bool
  am : Bool
  digital : ℤ
  gainSet : Bool
  gainTenthDb : ℤ
  gainAuto : ℤ
  airspyGainSet : Bool
  airspy : AirspyConfig
  sensitivityDb : ℤ
  minimumDbfs : ℤ
  squelchMode : ℤ
  squelchMarginDb : ℤ
  squelchDbfs : ℤ
  probeMs : ℤ
  maxVisitMs : ℤ
  deriving DecidableEq

/-- `dsd_signal_search_channel_count`. -/
def channelCount (r : Range) : ℕ :=
  if r.stepNum = 0 ∨ r.stepDen = 0 ∨ r.endHz < r.startHz then 0
  else
    let n := (r.endHz - r.startHz).toNat * r.stepDen.toNat / r.stepNum.toNat + 1
    if n ≤ maxChannels then n else 0

/-- `dsd_signal_search_frequency`. -/
def frequency (r : Range) (index : ℕ) : BitVec 32 :=
  if channelCount r ≤ index then 0
  else
    r.startHz +
      BitVec.ofNat 32 ((index * r.stepNum.toNat + r.stepDen.toNat / 2) / r.stepDen.toNat)

/-- `isxdigit`. -/
def isHexDigit (c : BitVec 8) : Bool :=
  (0x30 ≤ c && c ≤ 0x39) || (0x41 ≤ c && c ≤ 0x46) || (0x61 ≤ c && c ≤ 0x66)

/-- `serial_valid`. -/
def serialValid (serial : Vector (BitVec 8) 17) : Bool :=
  let text := serial.toList.takeWhile (· != 0)
  (serial.toList)[16]? == some 0 && (text.length == 0 || text.length == 16) && text.all isHexDigit

/-- `dsd_airspy_config_valid`. -/
def airspyValid (c : AirspyConfig) : Bool :=
  serialValid c.serial && decide (0 ≤ c.gainMode ∧ c.gainMode ≤ 2) &&
    (c.sampleRate == 0 || decide (225000 ≤ c.sampleRate ∧ c.sampleRate ≤ 10000000)) &&
    [(c.sensitivityGain, 21), (c.linearityGain, 21), (c.lnaGain, 15), (c.mixerGain, 15),
      (c.vgaGain, 15), (c.lnaAgc, 1), (c.mixerAgc, 1), (c.biasTee, 1)].all
      fun (value, maximum) => decide (0 ≤ value ∧ value ≤ (maximum : ℤ))

/-- `dsd_analog_width_in_range`, for the AM or the FM monitor. -/
def analogWidthInRange (am : Bool) (widthHz : ℤ) : Bool :=
  if am then decide (5000 ≤ widthHz ∧ widthHz ≤ 20000)
  else decide (8000 ≤ widthHz ∧ widthHz ≤ 25000)

/-- `validate_grid`. -/
def validateGrid (r : Range) : Option String :=
  if 0 ∉ r.name.toList then some "Invalid range name"
  else if r.startHz = 0 ∨ r.endHz < r.startHz then
    some "End frequency must follow start frequency"
  else if r.stepDen = 0 ∨ 1000 < r.stepDen ∨ r.stepNum = 0 ∨ 100000000 < r.stepNum ∨
      r.stepNum < r.stepDen ∨ channelCount r = 0 then
    some "Range must contain 1 to 100000 channels with a positive rational step"
  else if analogWidthInRange r.am r.bandwidthHz.toInt = false then
    some "Channel width must be 8000 to 25000 Hz for NFM, or 5000 to 20000 Hz for AM"
  else none

/-- `validate_receiver`. -/
def validateReceiver (r : Range) : Option String :=
  if r.sensitivityDb < 3 ∨ 30 < r.sensitivityDb ∨ r.minimumDbfs < -160 ∨ 3 < r.minimumDbfs then
    some "RF sensitivity must be 3 to 30 dB and minimum level -160 to 3 dBFS"
  else if r.gainTenthDb < -100 ∨ 1000 < r.gainTenthDb then some "Invalid tuner gain"
  else if r.airspyGainSet && !airspyValid r.airspy then some "Invalid Airspy gain controls"
  else if r.digital < 0 ∨ 9 < r.digital ∨ (r.am ∧ r.digital ≠ 0) then
    some "AM requires analog-only monitoring"
  else none

/-- `dsd_squelch_mode_is_dynamic`. -/
def isDynamic (mode : ℤ) : Bool := mode == squelchAuto || mode == squelchNoise

/-- `validate_listening`. -/
def validateListening (r : Range) : Option String :=
  if r.probeMs < 2000 ∨ 10000 < r.probeMs ∨ r.maxVisitMs < 0 ∨ 600000 < r.maxVisitMs then
    some "Probe must be 2 to 10 seconds; maximum visit 0 to 600 seconds"
  else if r.squelchMode < squelchLevel ∨ squelchNoise < r.squelchMode ∨
      (r.am ∧ r.squelchMode = squelchNoise) ∨ r.squelchMarginDb < 0 ∨ 30 < r.squelchMarginDb ∨
      r.squelchDbfs < -160 ∨ 0 < r.squelchDbfs then
    some "Invalid listening squelch for this modulation"
  else if isDynamic r.squelchMode ∧ r.squelchMarginDb < 3 then
    some "Squelch margin must be 3 to 30 dB"
  else none

/-- `dsd_signal_search_validate`: what is wrong with a range, if anything. -/
def validate (r : Range) : Option String :=
  (validateGrid r).or ((validateReceiver r).or (validateListening r))

/-- `dsd_signal_search_config`. -/
structure Config where
  sessionId : BitVec 64
  ranges : List Range
  avoids : List (BitVec 32)
  deriving DecidableEq

/-- The channels of the enabled ranges. -/
def totalChannels (ranges : List Range) : ℕ :=
  ((ranges.filter (·.enabled)).map channelCount).sum

/-- `dsd_signal_search_validate_config`. -/
def validateConfig (c : Config) : Option String :=
  if c.ranges.length = 0 ∨ maxRanges < c.ranges.length ∨ maxAvoids < c.avoids.length then
    some "Invalid signal search configuration"
  else
    match c.ranges.findSome? validate with
    | some why => some why
    | none =>
      if c.ranges.all (! ·.enabled) then some "Enable at least one range"
      else if maxChannels < totalChannels c.ranges then
        some "A search supports up to 100,000 enabled channels"
      else none

/-- A range whose grid is checked. -/
structure Range.Grid (r : Range) : Prop where
  start_le_end : r.startHz.toNat ≤ r.endHz.toNat
  den_pos : 0 < r.stepDen.toNat
  den_le_num : r.stepDen.toNat ≤ r.stepNum.toNat
  count_ne_zero : channelCount r ≠ 0

variable {r : Range}

theorem Range.grid_of_validate (h : validate r = none) : r.Grid := by
  rw [validate, Option.or_eq_none_iff] at h
  have hgrid := h.1
  rw [validateGrid] at hgrid
  split_ifs at hgrid with hname hend hstep hwidth
  simp only [not_or] at hend hstep
  obtain ⟨hden, -, -, -, hle, hcount⟩ := hstep
  refine ⟨?_, ?_, ?_, hcount⟩
  · exact BitVec.le_def.mp (BitVec.not_lt.mp hend.2)
  · exact Nat.pos_of_ne_zero fun hz => hden (BitVec.eq_of_toNat_eq hz)
  · exact BitVec.le_def.mp (BitVec.not_lt.mp hle)

variable {i : ℕ}

theorem Range.Grid.step_le (h : r.Grid) (hi : i < channelCount r) :
    i * r.stepNum.toNat ≤ (r.endHz.toNat - r.startHz.toNat) * r.stepDen.toNat := by
  have hcount := hi
  unfold channelCount at hcount
  dsimp only at hcount
  split_ifs at hcount with hzero hmax
  · omega
  · rw [BitVec.toNat_sub_of_le (BitVec.le_def.mpr h.start_le_end)] at hcount
    exact (Nat.le_div_iff_mul_le (lt_of_lt_of_le h.den_pos h.den_le_num)).mp
      (Nat.le_of_lt_succ hcount)
  · omega

/-- The rounded distance of a channel from the origin. -/
def roundedStep (r : Range) (i : ℕ) : ℕ :=
  (i * r.stepNum.toNat + r.stepDen.toNat / 2) / r.stepDen.toNat

theorem Range.Grid.roundedStep_le (h : r.Grid) (hi : i < channelCount r) :
    roundedStep r i ≤ r.endHz.toNat - r.startHz.toNat := by
  have hstep := h.step_le hi
  refine Nat.le_of_lt_succ ((Nat.div_lt_iff_lt_mul h.den_pos).mpr ?_)
  have hhalf : r.stepDen.toNat / 2 < r.stepDen.toNat := Nat.div_lt_self h.den_pos (by decide)
  calc i * r.stepNum.toNat + r.stepDen.toNat / 2
      < (r.endHz.toNat - r.startHz.toNat) * r.stepDen.toNat + r.stepDen.toNat := by omega
    _ = (r.endHz.toNat - r.startHz.toNat + 1) * r.stepDen.toNat := by rw [Nat.add_mul, Nat.one_mul]

theorem Range.Grid.toNat_frequency (h : r.Grid) (hi : i < channelCount r) :
    (frequency r i).toNat = r.startHz.toNat + roundedStep r i := by
  have hround := h.roundedStep_le hi
  have hend := r.endHz.isLt
  have hle := h.start_le_end
  rw [frequency, if_neg (Nat.not_le.mpr hi), BitVec.toNat_add, BitVec.toNat_ofNat,
    show (i * r.stepNum.toNat + r.stepDen.toNat / 2) / r.stepDen.toNat = roundedStep r i from rfl,
    Nat.mod_eq_of_lt (by omega : roundedStep r i < 2 ^ 32), Nat.mod_eq_of_lt (by omega)]

theorem Range.Grid.frequency_mem (h : r.Grid) (hi : i < channelCount r) :
    r.startHz.toNat ≤ (frequency r i).toNat ∧ (frequency r i).toNat ≤ r.endHz.toNat := by
  have hround := h.roundedStep_le hi
  have hle := h.start_le_end
  rw [h.toNat_frequency hi]
  omega

/-- The channels of a valid range increase strictly. -/
theorem Range.Grid.frequency_lt (h : r.Grid) {j : ℕ} (hij : i < j) (hj : j < channelCount r) :
    (frequency r i).toNat < (frequency r j).toNat := by
  rw [h.toNat_frequency (hij.trans hj), h.toNat_frequency hj]
  refine Nat.add_lt_add_left ?_ _
  calc roundedStep r i < roundedStep r i + 1 := Nat.lt_succ_self _
    _ = (i * r.stepNum.toNat + r.stepDen.toNat / 2 + r.stepDen.toNat) / r.stepDen.toNat :=
        (Nat.add_div_right _ h.den_pos).symm
    _ ≤ roundedStep r j := Nat.div_le_div_right ?_
  have hstep : (i + 1) * r.stepNum.toNat ≤ j * r.stepNum.toNat := Nat.mul_le_mul_right _ hij
  have hden := h.den_le_num
  rw [Nat.add_mul, Nat.one_mul] at hstep
  omega

/-- `dsd_signal_search_span`; its count is the number of its frequencies. -/
structure Span where
  tuneHz : BitVec 32
  first : ℕ
  next : ℕ
  frequencies : List (BitVec 32)
  deriving DecidableEq

/-- No span. -/
def Span.zero : Span := ⟨0, 0, 0, []⟩

/-- The doubling of `dsd_signal_search_fft_size`, at a channel width of `num / den`. -/
def fftGrow (rate num den : ℕ) : ℕ → ℕ → ℕ
  | 0, n => n
  | room + 1, n =>
    if num * n < rate * 8 * den ∧ n < maxFft then fftGrow rate num den room (n * 2) else n

/-- `dsd_signal_search_fft_size`, in exact arithmetic. -/
def fftSize (rate : BitVec 32) (r : Range) : ℕ :=
  if rate = 0 ∨ (validate r).isSome then 0
  else
    let bw := r.bandwidthHz.toNat
    let (num, den) :=
      if bw * r.stepDen.toNat < r.stepNum.toNat then (bw, 1) else (r.stepNum.toNat, r.stepDen.toNat)
    let n := fftGrow rate.toNat num den 11 32
    if rate.toNat * 8 * den ≤ num * n then n else 0

/-- The loop of `dsd_signal_search_plan` over the channels that fit the capture. -/
def planLoop (r : Range) (limit : ℤ) : ℕ → ℕ → List (BitVec 32)
  | 0, _ => []
  | room + 1, first =>
    if first < channelCount r then
      if limit < (frequency r first).toNat then []
      else frequency r first :: planLoop r limit room (first + 1)
    else []

/-- `dsd_signal_search_plan`: its result and the span it leaves in place of `span`. -/
def plan (r : Range) (first : ℕ) (rate : BitVec 32) (captureOffset : ℤ) (span : Span) : ℤ × Span :=
  if fftSize rate r = 0 then (-1, span)
  else if channelCount r ≤ first then (0, Span.zero)
  else
    let margin : ℤ := r.bandwidthHz.toNat * 4
    let width : ℤ := rate.toNat * 4 / 10 - 2 * margin - rate.toNat / 100
    if width < 0 then (-1, Span.zero)
    else
      let low : ℤ := (frequency r first).toNat
      let capture := low + rate.toNat * 4 / 10 - margin
      let tune := capture - captureOffset
      if tune ≤ 0 ∨ 4294967295 < tune ∨ 4294967295 < capture then (-1, Span.zero)
      else
        let frequencies := planLoop r (low + width) maxCandidates first
        (1, ⟨BitVec.ofInt 32 tune, first, first + frequencies.length, frequencies⟩)

theorem length_planLoop_le (r : Range) (limit : ℤ) (room first : ℕ) :
    (planLoop r limit room first).length ≤ room := by
  induction room generalizing first with
  | zero => exact Nat.le_refl 0
  | succ room ih =>
    rw [planLoop]
    split_ifs
    · exact Nat.zero_le _
    · exact Nat.succ_le_succ (ih (first + 1))
    · exact Nat.zero_le _

theorem add_length_planLoop_le (r : Range) (limit : ℤ) (room : ℕ) {first : ℕ}
    (h : first ≤ channelCount r) :
    first + (planLoop r limit room first).length ≤ channelCount r := by
  induction room generalizing first with
  | zero => exact h
  | succ room ih =>
    rw [planLoop]
    split_ifs with hlt hlimit
    · exact h
    · have hrest : first + 1 + (planLoop r limit room (first + 1)).length ≤ channelCount r :=
        ih (Nat.succ_le_of_lt hlt)
      rw [List.length_cons]
      omega
    · exact h

/-- The planned channels are the ones of the grid, in order. -/
theorem planLoop_eq (r : Range) (limit : ℤ) (room first : ℕ) :
    planLoop r limit room first =
      (List.range' first (planLoop r limit room first).length).map (frequency r) := by
  induction room generalizing first with
  | zero => rfl
  | succ room ih =>
    rw [planLoop]
    split_ifs
    · rfl
    · rw [List.length_cons, List.range'_succ, List.map_cons, ← ih (first + 1)]
    · rfl

/-- A planned span: at least one channel, at most a request's worth, in order on the grid. -/
structure Span.Planned (p : Span) (r : Range) (first : ℕ) : Prop where
  first_eq : p.first = first
  next_eq : p.next = first + p.frequencies.length
  length_pos : 0 < p.frequencies.length
  length_le : p.frequencies.length ≤ maxCandidates
  next_le : p.next ≤ channelCount r
  frequencies_eq : p.frequencies = (List.range' first p.frequencies.length).map (frequency r)

theorem planned_of_plan {first : ℕ} {rate : BitVec 32} {offset : ℤ} {span p : Span}
    (h : plan r first rate offset span = (1, p)) : p.Planned r first := by
  rw [plan] at h
  dsimp only at h
  split_ifs at h with hfft hfirst hwidth htune
  · cases h
  · cases h
  · cases h
  · cases h
  · rw [Nat.not_le] at hfirst
    simp only [Prod.mk.injEq, true_and] at h
    subst h
    -- the first channel fits any capture that is not refused
    have hpos : 0 < (planLoop r ((frequency r first).toNat +
        (rate.toNat * 4 / 10 - 2 * (r.bandwidthHz.toNat * 4) - rate.toNat / 100))
        maxCandidates first).length := by
      rw [maxCandidates, planLoop, if_pos hfirst, if_neg (by omega), List.length_cons]
      exact Nat.succ_pos _
    exact ⟨rfl, rfl, hpos, length_planLoop_le _ _ _ _,
      add_length_planLoop_le _ _ _ (Nat.le_of_lt hfirst), planLoop_eq _ _ _ _⟩

end DsdNeo.SignalSearch
