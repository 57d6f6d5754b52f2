import DsdNeo.Models.Search.Tick

/-!
# What a pass covers

The history of a search tells which channels the present pass has left behind, which
frequencies it has visited and which span it is on. The place the coordinator keeps
agrees with the history, and every event is fair to the events before it.
-/

namespace DsdNeo.SignalSearch

open List

/-- The channels of the spans that the present pass has left, by range, in order. -/
def surveyed : List Event → List (ℕ × ℕ)
  | [] => []
  | .pass :: _ => []
  | .left k p _ _ :: older =>
    surveyed older ++ (List.range' p.first (p.next - p.first)).map (k, ·)
  | _ :: older => surveyed older

/-- The passes that have ended. -/
def passes : List Event → ℕ
  | [] => 0
  | .pass :: older => passes older + 1
  | _ :: older => passes older

/-- The frequencies that the present pass has visited, in order. -/
def visited : List Event → List (BitVec 32)
  | [] => []
  | .pass :: _ => []
  | .chosen f _ :: older => visited older ++ [f]
  | _ :: older => visited older

/-- The span that was planned last, with its range. -/
def lastPlanned : List Event → Option (ℕ × Span)
  | [] => none
  | .planned k p :: _ => some (k, p)
  | _ :: older => lastPlanned older

/-- The last report on the span that was planned last. -/
def lastMeasured : List Event → Option (List Candidate)
  | [] => none
  | .planned _ _ :: _ => none
  | .measured report :: _ => some report
  | _ :: older => lastMeasured older

/-- The channels of the enabled ranges, by range, in order. -/
def grid (ranges : List Range) : List (ℕ × ℕ) :=
  ranges.zipIdx.flatMap fun (r, k) =>
    if r.enabled then (List.range (channelCount r)).map (k, ·) else []

/-- The channel frequencies of the enabled ranges. -/
def gridFrequencies (ranges : List Range) : List (BitVec 32) :=
  (ranges.filter (·.enabled)).flatMap fun r =>
    (List.range (channelCount r)).map (frequency r)

/-- What an event says of the events before it. -/
def Event.Fair (ranges : List Range) (older : List Event) : Event → Prop
  -- a pass ends with every channel of every enabled range surveyed once, in order
  | .pass => surveyed older = grid ranges
  -- a span is planned where the channels surveyed so far end
  | .planned k p => ∃ r, ranges[k]? = some r ∧ r.enabled = true ∧ p.Planned r p.first ∧
      surveyed older = grid (ranges.take k) ++ (List.range p.first).map (k, ·)
  -- a report is one on the planned span
  | .measured report => ∃ k p, lastPlanned older = some (k, p) ∧
      report.map (·.frequencyHz) = p.frequencies
  -- a visit is a new one, to a detection of the last report
  | .chosen f avoids => f ∉ visited older ∧ f ∉ avoids ∧
      ∃ report, lastMeasured older = some report ∧
        ∃ x ∈ report, x.detected = true ∧ x.frequencyHz = f
  -- a span is left when its last report detected nothing new
  | .left k p report avoids => lastPlanned older = some (k, p) ∧
      lastMeasured older = some report ∧
        ∀ x ∈ report, x.detected = true → x.frequencyHz ∈ visited older ∨ x.frequencyHz ∈ avoids

/-- Every event is fair to those before it. -/
def Fair (ranges : List Range) : List Event → Prop
  | [] => True
  | e :: older => e.Fair ranges older ∧ Fair ranges older

theorem Fair.event {ranges : List Range} {newer older : List Event} {e : Event}
    (h : Fair ranges (newer ++ e :: older)) : e.Fair ranges older := by
  induction newer with
  | nil => exact h.1
  | cons _ newer ih => exact ih h.2

theorem grid_concat (ranges : List Range) (r : Range) :
    grid (ranges ++ [r]) =
      grid ranges ++
        if r.enabled then (List.range (channelCount r)).map (ranges.length, ·) else [] := by
  rw [grid, zipIdx_append, flatMap_append, Nat.zero_add]
  exact congrArg (grid ranges ++ ·) (append_nil _)

/-- The channels a search goes through in a range: none where it is not enabled. -/
def reach (ranges : List Range) (k : ℕ) : ℕ :=
  match ranges[k]? with
  | some r => if r.enabled then channelCount r else 0
  | none => 0

theorem grid_take_succ {ranges : List Range} {k : ℕ} (hk : k < ranges.length) :
    grid (ranges.take (k + 1)) =
      grid (ranges.take k) ++ (List.range (reach ranges k)).map (k, ·) := by
  rw [take_succ_eq_append_getElem hk, grid_concat, length_take,
    Nat.min_eq_left (Nat.le_of_lt hk), reach, getElem?_eq_getElem hk]
  dsimp only
  split_ifs
  · rfl
  · rfl

theorem grid_mono {l l' : List Range} (h : l <+: l') : grid l <+: grid l' := by
  obtain ⟨rest, rfl⟩ := h
  rw [grid, grid, zipIdx_append, flatMap_append]
  exact prefix_append _ _

theorem fst_lt_of_mem_grid {ranges : List Range} {x : ℕ × ℕ} (hx : x ∈ grid ranges) :
    x.1 < ranges.length := by
  obtain ⟨⟨r, k⟩, hr, hx⟩ := mem_flatMap.mp hx
  dsimp only at hx
  split_ifs at hx
  · obtain ⟨i, -, rfl⟩ := mem_map.mp hx
    exact (List.getElem?_eq_some_iff.mp (mk_mem_zipIdx_iff_getElem?.mp hr)).1
  · nomatch hx

/-- Every channel is in the grid once. -/
theorem nodup_grid (ranges : List Range) : (grid ranges).Nodup := by
  induction ranges using List.reverseRecOn with
  | nil => exact nodup_nil
  | append_singleton ranges r ih =>
    rw [grid_concat]
    refine nodup_append'.mpr ⟨ih, ?_, ?_⟩
    · split_ifs
      · exact nodup_range.map fun _ _ h => congrArg Prod.snd h
      · exact nodup_nil
    · intro x hx hx'
      have hlt := fst_lt_of_mem_grid hx
      split_ifs at hx'
      · obtain ⟨i, -, rfl⟩ := mem_map.mp hx'
        exact absurd hlt (Nat.lt_irrefl _)
      · nomatch hx'

theorem length_gridFrequencies (ranges : List Range) :
    (gridFrequencies ranges).length = totalChannels ranges := by
  simp only [gridFrequencies, totalChannels, length_flatMap, length_map, length_range]

theorem mem_gridFrequencies {ranges : List Range} {r : Range} {k i : ℕ}
    (hr : ranges[k]? = some r) (henabled : r.enabled = true) (hi : i < channelCount r) :
    frequency r i ∈ gridFrequencies ranges := by
  refine mem_flatMap.mpr ⟨r, ?_, ?_⟩
  · exact mem_filter.mpr ⟨mem_of_getElem? hr, henabled⟩
  · exact mem_map.mpr ⟨i, mem_range.mpr hi, rfl⟩

theorem Span.Planned.mem_gridFrequencies {p : Span} {ranges : List Range} {r : Range} {k i : ℕ}
    (h : p.Planned r i) (hr : ranges[k]? = some r) (henabled : r.enabled = true) {f : BitVec 32}
    (hf : f ∈ p.frequencies) : f ∈ gridFrequencies ranges := by
  rw [h.frequencies_eq, mem_map] at hf
  obtain ⟨j, hj, rfl⟩ := hf
  have hlt := (mem_range'_1.mp hj).2
  have hnext := h.next_eq ▸ h.next_le
  exact SignalSearch.mem_gridFrequencies hr henabled (hlt.trans_le hnext)

/-- The place of a search in its pass, with its history. -/
structure Place where
  ranges : List Range
  pass : BitVec 64
  suppressed : List (BitVec 32)
  rangeIndex : ℕ
  channelIndex : ℕ
  span : Span
  needSpan : Bool
  log : List Event

/-- The place of a state. -/
def State.place (s : State) : Place where
  ranges := s.c.config.ranges
  pass := s.c.pass
  suppressed := s.c.suppressed
  rangeIndex := s.c.rangeIndex
  channelIndex := s.c.channelIndex
  span := s.c.span
  needSpan := s.c.needSpan
  log := s.log

/-- A place that agrees with its history, on these ranges. -/
structure Surveys (ranges : List Range) (p : Place) : Prop where
  ranges_eq : p.ranges = ranges
  ranges_pos : 0 < ranges.length
  pass_eq : p.pass = BitVec.ofNat 64 (passes p.log + 1)
  room : totalChannels ranges ≤ maxChannels
  suppressed_eq : p.suppressed = visited p.log
  nodup : p.suppressed.Nodup
  subset : p.suppressed ⊆ gridFrequencies ranges
  surveyed_eq : surveyed p.log =
    grid (ranges.take p.rangeIndex) ++ (List.range p.channelIndex).map (p.rangeIndex, ·)
  range_le : p.rangeIndex ≤ ranges.length
  channel_le : p.channelIndex ≤ reach ranges p.rangeIndex
  spanned : p.needSpan = false → lastPlanned p.log = some (p.rangeIndex, p.span) ∧
    ∃ r, ranges[p.rangeIndex]? = some r ∧ r.enabled = true ∧ p.span.Planned r p.channelIndex
  fair : Fair ranges p.log

variable {ranges : List Range} {p : Place}

theorem surveys_start (hpos : 0 < ranges.length) (hroom : totalChannels ranges ≤ maxChannels)
    (span : Span) : Surveys ranges ⟨ranges, 1, [], 0, 0, span, true, []⟩ where
  ranges_eq := rfl
  ranges_pos := hpos
  pass_eq := rfl
  room := hroom
  suppressed_eq := rfl
  nodup := nodup_nil
  subset := nil_subset _
  surveyed_eq := rfl
  range_le := Nat.zero_le _
  channel_le := Nat.zero_le _
  spanned := nofun
  fair := trivial

/-- Past the last range the next pass begins. -/
theorem Surveys.wrap (h : Surveys ranges p) (hneed : p.needSpan = true)
    (hend : p.rangeIndex = ranges.length) :
    Surveys ranges
      { p with pass := p.pass + 1, rangeIndex := 0, suppressed := [], log := .pass :: p.log } := by
  have hnone : reach ranges p.rangeIndex = 0 := by
    rw [reach, hend, getElem?_eq_none (Nat.le_refl _)]
  have hchannel : p.channelIndex = 0 := Nat.le_zero.mp (hnone ▸ h.channel_le)
  have hall : surveyed p.log = grid ranges := by
    rw [h.surveyed_eq, hchannel, hend, take_length, range_zero, map_nil, append_nil]
  exact
    { ranges_eq := h.ranges_eq
      ranges_pos := h.ranges_pos
      pass_eq := by
        show p.pass + 1 = _
        rw [h.pass_eq]
        exact (BitVec.ofNat_add (passes p.log + 1) 1).symm
      room := h.room
      suppressed_eq := rfl
      nodup := nodup_nil
      subset := nil_subset _
      surveyed_eq := by
        show [] = _
        rw [hchannel, take_zero]
        rfl
      range_le := Nat.zero_le _
      channel_le := hchannel.le.trans (Nat.zero_le _)
      spanned := fun hno => absurd (hneed.symm.trans hno) nofun
      fair := ⟨hall, h.fair⟩ }

theorem Surveys.advance (h : Surveys ranges p) (hneed : p.needSpan = true)
    (hin : p.rangeIndex < ranges.length) (hdone : reach ranges p.rangeIndex ≤ p.channelIndex) :
    Surveys ranges { p with rangeIndex := p.rangeIndex + 1, channelIndex := 0 } :=
  { h with
    surveyed_eq := by
      rw [h.surveyed_eq, grid_take_succ hin, Nat.le_antisymm h.channel_le hdone, range_zero,
        map_nil, append_nil]
    range_le := hin
    channel_le := Nat.zero_le _
    spanned := fun hno => absurd (hneed.symm.trans hno) nofun }

/-- The span is given up, to be planned again. -/
theorem Surveys.replan (h : Surveys ranges p) (span : Span) :
    Surveys ranges { p with span := span, needSpan := true } :=
  { h with spanned := nofun }

theorem Surveys.plan (h : Surveys ranges p) {r : Range} {span : Span}
    (hr : ranges[p.rangeIndex]? = some r) (henabled : r.enabled = true)
    (hspan : span.Planned r p.channelIndex) :
    Surveys ranges
      { p with span := span, needSpan := false, log := .planned p.rangeIndex span :: p.log } :=
  { h with
    spanned := fun _ => ⟨rfl, r, hr, henabled, hspan⟩
    fair := by
      refine ⟨⟨r, hr, henabled, ?_, ?_⟩, h.fair⟩
      · rw [hspan.first_eq]
        exact hspan
      · rw [hspan.first_eq]
        exact h.surveyed_eq }

variable {report : List Candidate}

/-- A report on the planned span is taken. -/
theorem Surveys.measure (h : Surveys ranges p) (hneed : p.needSpan = false)
    (hreport : report.map (·.frequencyHz) = p.span.frequencies) :
    Surveys ranges { p with log := .measured report :: p.log } :=
  { h with fair := ⟨⟨_, _, (h.spanned hneed).1, hreport⟩, h.fair⟩ }

theorem Surveys.choose (h : Surveys ranges p) (hneed : p.needSpan = false)
    (hlast : lastMeasured p.log = some report)
    (hreport : report.map (·.frequencyHz) = p.span.frequencies) {x : Candidate} (hx : x ∈ report)
    (hdetected : x.detected = true) {avoids : List (BitVec 32)} (havoid : x.frequencyHz ∉ avoids)
    (hnew : x.frequencyHz ∉ p.suppressed) :
    p.suppressed.length < maxChannels ∧
      Surveys ranges
        { p with
          suppressed := p.suppressed ++ [x.frequencyHz]
          log := .chosen x.frequencyHz avoids :: p.log } := by
  obtain ⟨hplanned, r, hr, henabled, hspan⟩ := h.spanned hneed
  have hmem : x.frequencyHz ∈ gridFrequencies ranges := by
    refine hspan.mem_gridFrequencies hr henabled ?_
    rw [← hreport]
    exact mem_map_of_mem hx
  have hnodup : (p.suppressed ++ [x.frequencyHz]).Nodup := by
    refine nodup_append'.mpr ⟨h.nodup, nodup_singleton _, ?_⟩
    exact disjoint_singleton.mpr hnew
  have hsubset : p.suppressed ++ [x.frequencyHz] ⊆ gridFrequencies ranges :=
    append_subset.mpr ⟨h.subset, cons_subset.mpr ⟨hmem, nil_subset _⟩⟩
  refine ⟨?_, ?_⟩
  · -- the visited channels are distinct channels of the enabled ranges
    have hlength := (subperm_of_subset hnodup hsubset).length_le
    rw [length_gridFrequencies, length_append, length_singleton] at hlength
    exact hlength.trans h.room
  · exact
      { h with
        suppressed_eq := congrArg (· ++ [x.frequencyHz]) h.suppressed_eq
        nodup := hnodup
        subset := hsubset
        fair := ⟨⟨h.suppressed_eq ▸ hnew, havoid, report, hlast, x, hx, hdetected, rfl⟩, h.fair⟩ }

theorem Surveys.leave (h : Surveys ranges p) (hneed : p.needSpan = false)
    (hlast : lastMeasured p.log = some report) {avoids : List (BitVec 32)}
    (hnone : ∀ x ∈ report, x.detected = true →
      x.frequencyHz ∈ p.suppressed ∨ x.frequencyHz ∈ avoids) :
    Surveys ranges
      { p with
        channelIndex := p.span.next
        needSpan := true
        log := .left p.rangeIndex p.span report avoids :: p.log } := by
  obtain ⟨hplanned, r, hr, henabled, hspan⟩ := h.spanned hneed
  have hreach : reach ranges p.rangeIndex = channelCount r := by
    rw [reach, hr]
    exact if_pos henabled
  exact
    { h with
      surveyed_eq := by
        rw [surveyed, h.surveyed_eq, append_assoc, ← map_append, hspan.first_eq,
          hspan.next_eq, Nat.add_sub_cancel_left, range_eq_range', range_eq_range']
        have happend := @range'_append_1 0 p.channelIndex p.span.frequencies.length
        rw [Nat.zero_add] at happend
        rw [happend]
      channel_le := hreach ▸ hspan.next_le
      spanned := nofun
      fair := ⟨⟨hplanned, hlast, fun x hx hd => h.suppressed_eq ▸ hnone x hx hd⟩, h.fair⟩ }

theorem Surveys.prefix_grid (h : Surveys ranges p) : surveyed p.log <+: grid ranges := by
  rw [h.surveyed_eq]
  rcases Nat.lt_or_eq_of_le h.range_le with hlt | heq
  · refine List.IsPrefix.trans ?_ (grid_mono ( take_prefix (p.rangeIndex + 1) ranges))
    rw [grid_take_succ hlt]
    refine (prefix_append_right_inj _).mpr (List.IsPrefix.map _ ?_)
    rw [← Nat.add_sub_cancel' h.channel_le, range_add]
    exact prefix_append _ _
  · have hnone : reach ranges p.rangeIndex = 0 := by
      rw [reach, heq, getElem?_eq_none (Nat.le_refl _)]
    have hchannel : p.channelIndex = 0 := Nat.le_zero.mp (hnone ▸ h.channel_le)
    rw [hchannel, heq, take_length, range_zero, map_nil, append_nil]

end DsdNeo.SignalSearch
