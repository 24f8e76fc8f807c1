import ChromeGcc.Base.SlidingLine
import ChromeGcc.DelayBased.Easing

/-! What the trend is after any calls: the slope of the line through the averaged delays of the
last twenty groups. -/
namespace ChromeGcc
open FloatArith

namespace TrendlineEstimator

section Delays
variable {K : Type} [Field K] [LinearOrder K] {r : Rounding K}

/-- The delay that calls add up to. -/
def addedDelay (calls : List (DelayCall (Double r))) : K :=
  (calls.map fun c => c.recvDeltaMs.val - c.sendDeltaMs.val).sum

/-- The delays after each call, averaged. -/
def averagedDelay (calls : List (DelayCall (Double r))) : K :=
  SlidingLine.average (9 / 10) ((SlidingLine.beginnings calls).map addedDelay)

/-- The time from the first arrival to the last. -/
def arrivalSpan (calls : List (DelayCall (Double r))) : Int :=
  ((calls.getLast?.map (·.arrivalTimeMs)).getD 0) - ((calls.head?.map (·.arrivalTimeMs)).getD 0)

/-- When each group arrived, and the averaged delay. -/
def delayPoints (calls : List (DelayCall (Double r))) : List (K × K) :=
  (SlidingLine.beginnings calls).map fun seen => ((arrivalSpan seen : K), averagedDelay seen)

variable {calls : List (DelayCall (Double r))} {c : DelayCall (Double r)}

@[simp] theorem addedDelay_concat : addedDelay (calls ++ [c]) =
    addedDelay calls + (c.recvDeltaMs.val - c.sendDeltaMs.val) := by
  simp [addedDelay]

@[simp] theorem averagedDelay_concat : averagedDelay (calls ++ [c]) =
    9 / 10 * averagedDelay calls + (1 - 9 / 10) * addedDelay (calls ++ [c]) := by
  simp [averagedDelay]

@[simp] theorem delayPoints_concat : delayPoints (calls ++ [c]) =
    delayPoints calls ++ [((arrivalSpan (calls ++ [c]) : K), averagedDelay (calls ++ [c]))] := by
  simp [delayPoints]

@[simp] theorem length_delayPoints : (delayPoints calls).length = calls.length := by
  induction calls using List.reverseRecOn with
  | nil => rfl
  | append_singleton calls c ih => rw [delayPoints_concat, List.length_append, List.length_append, ih]; rfl

theorem head?_concat : (calls ++ [c]).head? = some (calls.head?.getD c) := by
  cases calls <;> rfl

theorem arrivalSpan_concat : arrivalSpan (calls ++ [c]) =
    c.arrivalTimeMs - (calls.head?.getD c).arrivalTimeMs := by
  rw [arrivalSpan, List.getLast?_concat, head?_concat]
  rfl

end Delays

section Exact
variable {K : Type} [Field K] [LinearOrder K] [FloorRing K] {r : Rounding K}
  {calls : List (DelayCall (Double r))} {c : DelayCall (Double r)} {e : TrendlineEstimator (Double r)}

/-- The estimator after calls, in terms of these. -/
structure Smooths (e : TrendlineEstimator (Double r)) (calls : List (DelayCall (Double r))) : Prop where
  settings : e.settings = {}
  smoothingCoef : e.smoothingCoef = lit 0.9
  thresholdGain : e.thresholdGain = lit 4
  predictor : e.networkStatePredictor = false
  counted : e.numOfDeltas = min (calls.length : Int) kDeltaCounterMax
  first : e.firstArrivalTimeMs = (calls.head?.map (·.arrivalTimeMs)).getD (-1)
  accumulated : e.accumulatedDelay.val = addedDelay calls
  smoothed : e.smoothedDelay.val = averagedDelay calls
  window : timingPoints e.delayHist = (delayPoints calls).rtake 20

/-- Detect leaves what it is given. -/
theorem Smooths.detect (h : e.Smooths calls) (trend tsDelta : Double r) (nowMs : Int) :
    (e.detect trend tsDelta nowMs).Smooths calls := by
  obtain ⟨_, _, _, _, _, _, hdetect⟩ := e.detect_writes trend tsDelta nowMs
  rw [hdetect]
  exact ⟨h.settings, h.smoothingCoef, h.thresholdGain, h.predictor, h.counted, h.first, h.accumulated,
    h.smoothed, h.window⟩

/-- Whether there was an arrival before: the source takes -1 for none. -/
theorem Smooths.sinceFirst (h : e.Smooths calls)
    (hstart : ∀ first ∈ calls.head?, first.arrivalTimeMs ≠ -1) :
    (if e.firstArrivalTimeMs = -1 then 0 else c.arrivalTimeMs - e.firstArrivalTimeMs) =
      arrivalSpan (calls ++ [c]) := by
  rw [h.first, arrivalSpan_concat]
  cases hhead : calls.head? with
  | none => simp
  | some first =>
      rw [Option.map_some, Option.getD_some, if_neg (hstart first hhead), Option.getD_some]

theorem Smooths.smooth (hr : r.IsExact) (h : e.Smooths calls)
    (hstart : ∀ first ∈ (calls ++ [c]).head?, first.arrivalTimeMs ≠ -1) :
    (e.smoothed c).Smooths (calls ++ [c]) := by
  have hbefore : ∀ first ∈ calls.head?, first.arrivalTimeMs ≠ -1 := by
    intro first hfirst
    refine hstart first ?_
    rw [head?_concat, hfirst]
    rfl
  obtain ⟨packet, harrival, hsmoothed, heq⟩ :=
    e.smooth_eq c.recvDeltaMs c.sendDeltaMs c.arrivalTimeMs
  have hadded : (e.accumulatedDelay + (c.recvDeltaMs - c.sendDeltaMs)).val =
      addedDelay (calls ++ [c]) := by
    rw [val_add, val_sub, hr.rnd, hr.rnd, h.accumulated, addedDelay_concat]
  have haveraged : packet.smoothedDelayMs.val = averagedDelay (calls ++ [c]) := by
    rw [averagedDelay_concat, ← hadded, ← h.smoothed, hsmoothed, h.smoothingCoef]
    simp only [val_add, val_sub, val_mul, val_lit_exact hr, hr.rnd]
    norm_num
  have hpoint : packet.arrivalTimeMs.val = (arrivalSpan (calls ++ [c]) : K) := by
    rw [harrival, h.sinceFirst hbefore, val_ofInt, hr.rnd]
  have hhist : e.extendHist packet = e.delayHist ++ [packet] := by
    unfold extendHist
    rw [h.settings]
    rfl
  change (e.smooth c.recvDeltaMs c.sendDeltaMs c.arrivalTimeMs).Smooths (calls ++ [c])
  rw [heq]
  constructor
  case settings => exact h.settings
  case smoothingCoef => exact h.smoothingCoef
  case thresholdGain => exact h.thresholdGain
  case predictor => exact h.predictor
  case counted =>
    change min (e.numOfDeltas + 1) kDeltaCounterMax = _
    rw [h.counted, List.length_append, List.length_singleton]
    push_cast
    unfold kDeltaCounterMax
    omega
  case first =>
    change (if e.firstArrivalTimeMs = -1 then c.arrivalTimeMs else e.firstArrivalTimeMs) = _
    rw [h.first, head?_concat]
    cases hhead : calls.head? with
    | none => rfl
    | some first =>
        rw [Option.map_some, Option.getD_some, if_neg (hbefore first hhead)]
        rfl
  case accumulated => exact hadded
  case smoothed => exact haveraged
  case window =>
    have hwindow := SlidingLine.rtake_concat (show 0 < 20 by decide) (delayPoints calls)
      ((arrivalSpan (calls ++ [c]) : K), averagedDelay (calls ++ [c]))
    rw [delayPoints_concat, ← hwindow, ← h.window, hhist, h.settings, ← hpoint, ← haveraged]
    change timingPoints (if (e.delayHist ++ [packet]).length > 20 then _ else _) = _
    have hlength : (timingPoints e.delayHist).length = e.delayHist.length := List.length_map _
    rw [List.length_append, List.length_append, hlength]
    change timingPoints (if e.delayHist.length + 1 > 20 then _ else _) =
      if e.delayHist.length + 1 > 20 then _ else _
    split_ifs
    · simp [timingPoints]
    · simp [timingPoints]

theorem val_lit_zero (hr : r.IsExact) : (lit 0 : Double r).val = 0 := by
  rw [val_lit_exact hr]
  simp

variable [IsStrictOrderedRing K]

/-- The trend over the window is the slope of the last full window that has one. -/
theorem Smooths.windowTrend (hr : r.IsExact) (h : e.Smooths (calls ++ [c]))
    (ht : e.prevTrend.val = SlidingLine.lastSlope 20 (delayPoints calls)) :
    e.windowTrend.val = SlidingLine.lastSlope 20 (delayPoints (calls ++ [c])) := by
  have hlength : e.delayHist.length = min 20 (calls ++ [c]).length := by
    have hpoints := congrArg List.length h.window
    rwa [timingPoints, List.length_map, SlidingLine.length_rtake, length_delayPoints] at hpoints
  have hfits : SlidingLine.Fits 20 (delayPoints (calls ++ [c])) ↔
      20 ≤ (calls ++ [c]).length ∧ LeastSquares.spreadFst (timingPoints e.delayHist) ≠ 0 := by
    rw [SlidingLine.Fits, length_delayPoints, h.window]
  have hslope := SlidingLine.lastSlope_concat 20 (delayPoints calls)
    ((arrivalSpan (calls ++ [c]) : K), averagedDelay (calls ++ [c]))
  rw [← delayPoints_concat, ← ht, ← h.window] at hslope
  rw [hslope]
  change (if e.delayHist.length = e.settings.windowSize then _ else _ : Double r).val = _
  rw [h.settings]
  change (if e.delayHist.length = 20 then (linearFitSlope e.delayHist).getD e.prevTrend
    else e.prevTrend).val = _
  by_cases hfull : 20 ≤ (calls ++ [c]).length
  · have hhist : e.delayHist.length = 20 := by omega
    have hne : e.delayHist ≠ [] := by
      apply List.ne_nil_of_length_pos
      omega
    rw [if_pos hhist, linearFitSlope_eq hr hne]
    by_cases hspread : LeastSquares.spreadFst (timingPoints e.delayHist) = 0
    · rw [if_pos hspread, if_neg fun h => (hfits.mp h).2 hspread]
      rfl
    · rw [if_neg hspread, if_pos (hfits.mpr ⟨hfull, hspread⟩)]
      rfl
  · have hhist : ¬ e.delayHist.length = 20 := by omega
    rw [if_neg hhist, if_neg fun h => hfull (hfits.mp h).1]

/-- The estimator after calls, with what Detect concluded from the trend. -/
structure Follows (e : TrendlineEstimator (Double r)) (calls : List (DelayCall (Double r))) : Prop where
  smooths : e.Smooths calls
  trend : e.prevTrend.val = SlidingLine.lastSlope 20 (delayPoints calls)
  threshold : 6 ≤ e.threshold.val ∧ e.threshold.val ≤ 600
  overuse : e.hypothesis = .kBwOverusing → 1 / 40 < e.prevTrend.val

theorem follows_new (hr : r.IsExact) :
    Follows ({ networkStatePredictor := false } : TrendlineEstimator (Double r)) [] where
  smooths := ⟨rfl, rfl, rfl, rfl, rfl, rfl, val_lit_zero hr, val_lit_zero hr, rfl⟩
  trend := val_lit_zero hr
  threshold := (eases_new hr 0).threshold
  overuse h := by cases h

/-- A trend that is taken for overuse has passed the least threshold with the greatest gain. -/
theorem Smooths.lt_of_modifiedTrend (hr : r.IsExact) (h : e.Smooths calls) {trend : Double r}
    (hthreshold : 6 ≤ e.threshold.val) (hover : e.threshold < e.modifiedTrend trend) :
    1 / 40 < trend.val := by
  have hcount : ((min e.numOfDeltas kMinNumDeltas : Int) : K) ≤ 60 := by
    exact_mod_cast min_le_right _ _
  have hnonneg : (0 : K) ≤ (min e.numOfDeltas kMinNumDeltas : Int) := by
    rw [h.counted]
    exact_mod_cast le_min (le_min (Int.natCast_nonneg _) (by decide)) (by decide)
  rw [lt_iff, TrendlineEstimator.modifiedTrend, h.thresholdGain, val_mul, val_mul, val_ofInt,
    val_lit_exact hr, hr.rnd, hr.rnd, hr.rnd] at hover
  have hpassed := hthreshold.trans_lt hover
  push_cast at hpassed hcount hnonneg
  by_contra hlow
  rw [not_lt] at hlow
  by_cases hpos : 0 ≤ trend.val
  · have hmul := mul_le_mul hcount hlow hpos (by norm_num)
    linarith
  · have hmul := mul_nonneg hnonneg (neg_nonneg.mpr (le_of_not_ge hpos))
    linarith

/-- What Detect concludes from a trend; the first call only starts the count. -/
theorem Smooths.follows_detect (hr : r.IsExact) (h : e.Smooths (calls ++ [c]))
    (hthreshold : 6 ≤ e.threshold.val ∧ e.threshold.val ≤ 600) {trend : Double r}
    (ht : trend.val = SlidingLine.lastSlope 20 (delayPoints (calls ++ [c])))
    (hkept : e.prevTrend.val = SlidingLine.lastSlope 20 (delayPoints calls)) (tsDelta : Double r)
    (nowMs : Int) : (e.detect trend tsDelta nowMs).Follows (calls ++ [c]) := by
  have hbounds := threshold_detect hthreshold trend tsDelta nowMs
  refine ⟨h.detect trend tsDelta nowMs, ?_, hbounds, ?_⟩
  · rw [detect_eq]
    split_ifs with hfew
    · rw [h.counted, List.length_append, List.length_singleton] at hfew
      have hshort : ¬ SlidingLine.Fits 20 (delayPoints (calls ++ [c])) := by
        intro hfits
        have hlong := hfits.1
        rw [length_delayPoints, List.length_append, List.length_singleton] at hlong
        unfold kDeltaCounterMax at hfew
        omega
      rw [delayPoints_concat] at hshort ⊢
      rw [SlidingLine.lastSlope_concat, if_neg hshort]
      exact hkept
    · obtain ⟨_, _, hupdate⟩ := updateThreshold_writes
        { e.judge trend tsDelta with prevTrend := trend } (e.modifiedTrend trend) nowMs
      rw [hupdate]
      exact ht
  · rw [detect_eq]
    split_ifs with hfew
    · intro hover
      cases hover
    · obtain ⟨_, _, hupdate⟩ := updateThreshold_writes
        { e.judge trend tsDelta with prevTrend := trend } (e.modifiedTrend trend) nowMs
      rw [hupdate]
      intro hover
      change (e.judge trend tsDelta).hypothesis = .kBwOverusing at hover
      refine h.lt_of_modifiedTrend hr hthreshold.1 ?_
      unfold judge at hover
      split_ifs at hover with habove hbelow
      exact habove

theorem Follows.updateTrendline (hr : r.IsExact) (h : e.Follows calls)
    (hstart : ∀ first ∈ (calls ++ [c]).head?, first.arrivalTimeMs ≠ -1) :
    (e.updateTrendline c.recvDeltaMs c.sendDeltaMs c.arrivalTimeMs).Follows (calls ++ [c]) := by
  have hsmooth : (e.smoothed c).Smooths (calls ++ [c]) := h.smooths.smooth hr hstart
  have hkept : (e.smoothed c).prevTrend = e.prevTrend ∧ (e.smoothed c).threshold = e.threshold := by
    obtain ⟨_, -, -, heq⟩ := e.smooth_eq c.recvDeltaMs c.sendDeltaMs c.arrivalTimeMs
    unfold smoothed
    rw [heq]
    exact ⟨rfl, rfl⟩
  have htrend : (e.smoothed c).prevTrend.val = SlidingLine.lastSlope 20 (delayPoints calls) := by
    rw [hkept.1]
    exact h.trend
  rw [updateTrendline_eq]
  refine hsmooth.follows_detect hr ?_ (hsmooth.windowTrend hr htrend) htrend _ _
  rw [hkept.2]
  exact h.threshold

theorem follows_afterDelays (hr : r.IsExact) (calls : List (DelayCall (Double r)))
    (hstart : ∀ first ∈ calls.head?, first.arrivalTimeMs ≠ -1) :
    (afterDelays (Double r) calls).1.Follows calls := by
  induction calls using List.reverseRecOn with
  | nil => exact follows_new hr
  | append_singleton calls c ih =>
      have hbefore : ∀ first ∈ calls.head?, first.arrivalTimeMs ≠ -1 := by
        intro first hfirst
        refine hstart first ?_
        rw [head?_concat, hfirst]
        rfl
      rw [afterDelays_snoc]
      exact (ih hbefore).updateTrendline hr hstart

/-- After any calls the window holds the averaged delays of the last twenty groups, the trend is the
slope of the line through the last full window that has one, and only a line that rises by more
than one millisecond in forty is taken for overuse. -/
theorem trend_fits_delays (hr : r.IsExact) (calls : List (DelayCall (Double r)))
    (hstart : ∀ first ∈ calls.head?, first.arrivalTimeMs ≠ -1) :
    timingPoints (afterDelays (Double r) calls).1.delayHist = (delayPoints calls).rtake 20 ∧
      (afterDelays (Double r) calls).1.prevTrend.val = SlidingLine.lastSlope 20 (delayPoints calls) ∧
      ((afterDelays (Double r) calls).1.state = .kBwOverusing →
        1 / 40 < SlidingLine.lastSlope 20 (delayPoints calls)) := by
  have hfollows := follows_afterDelays hr calls hstart
  refine ⟨hfollows.smooths.window, hfollows.trend, ?_⟩
  intro hover
  rw [← hfollows.trend]
  refine hfollows.overuse ?_
  rwa [state, hfollows.smooths.predictor] at hover

end Exact

/-- Overuse on a path whose delay grows. -/
theorem trend_fits_delays_growing :
    (afterDelays Rational ((List.range 21).map growing)).1.state = .kBwOverusing ∧
      1 / 40 < SlidingLine.lastSlope 20 (delayPoints ((List.range 21).map growing)) := by
  have hover : (afterDelays Rational ((List.range 21).map growing)).1.state = .kBwOverusing := by
    decide +kernel
  refine ⟨hover, (trend_fits_delays Rounding.exact_isExact _ ?_).2.2 hover⟩
  decide
end TrendlineEstimator
end ChromeGcc
