import ChromeGcc.DelayBased.Debounce
import ChromeGcc.DelayBased.Drift
import ChromeGcc.DelayBased.Packets
import ChromeGcc.DelayBased.BackOff
import ChromeGcc.DelayBased.Slope
import ChromeGcc.RateControl.RateFloor
import ChromeGcc.RateControl.Response

/-! A path whose delay never grows: the smoothed delay falls, no line through it rises, and
overuse is never detected. -/
namespace ChromeGcc
open FloatArith UnitBase

/-- Rounding to whole milliseconds keeps the order. -/
theorem divRoundToNearest_mono : Monotone fun n => divRoundToNearest n 1000 := by
  intro m n h
  refine Int.tdiv_le_tdiv (by decide) ?_
  rw [show (1000 : Int).tdiv 2 = 500 from rfl, show (-1000 : Int).tdiv 2 = -500 from rfl]
  split_ifs <;> omega

theorem Timestamp.ms_mono {a b : Timestamp} (ha : a.isFinite = true) (hb : b.isFinite = true)
    (h : a ≤ b) : a.ms ≤ b.ms := by
  obtain ⟨a, rfl⟩ := isFinite_iff.mp ha
  obtain ⟨b, rfl⟩ := isFinite_iff.mp hb
  have hab := finite_le_finite.mp h
  exact Int.tdiv_le_tdiv (by decide) (Int.add_le_add_right hab _)

namespace TrendlineEstimator

section Writes
variable {F : Type} [FloatArith F]

/-- The members that UpdateTrendline sets before it calls Detect. -/
theorem smooth_eq (e : TrendlineEstimator F) (recvDeltaMs sendDeltaMs : F) (arrivalTimeMs : Int) :
    ∃ packet : PacketTiming F,
      packet.arrivalTimeMs = ofInt (if e.firstArrivalTimeMs = -1 then 0
        else arrivalTimeMs - e.firstArrivalTimeMs) ∧
      packet.smoothedDelayMs = e.smoothingCoef * e.smoothedDelay + (lit 1 - e.smoothingCoef) *
        (e.accumulatedDelay + (recvDeltaMs - sendDeltaMs)) ∧
      e.smooth recvDeltaMs sendDeltaMs arrivalTimeMs =
        { e with
          numOfDeltas := min (e.numOfDeltas + 1) kDeltaCounterMax
          firstArrivalTimeMs := if e.firstArrivalTimeMs = -1 then arrivalTimeMs
            else e.firstArrivalTimeMs
          accumulatedDelay := e.accumulatedDelay + (recvDeltaMs - sendDeltaMs)
          smoothedDelay := packet.smoothedDelayMs
          delayHist := if (e.extendHist packet).length > e.settings.windowSize
            then (e.extendHist packet).tail else e.extendHist packet } := by
  unfold smooth
  by_cases hfirst : e.firstArrivalTimeMs = -1
  · simp only [hfirst, if_true, sub_self]
    exact ⟨⟨_, _, _⟩, rfl, rfl, rfl⟩
  · simp only [if_neg hfirst]
    exact ⟨⟨_, _, _⟩, rfl, rfl, rfl⟩

end Writes

section Exact
variable {K : Type} [Field K] [LinearOrder K] [FloorRing K] {r : Rounding K}

/-- How long ago the first group arrived; the source takes -1 for no time. -/
def sinceFirst (e : TrendlineEstimator (Double r)) (nowMs : Int) : Int :=
  if e.firstArrivalTimeMs = -1 then 0 else nowMs - e.firstArrivalTimeMs

/-- The window falls from the left to the right, and the estimator has seen no rising trend. -/
structure Eases (e : TrendlineEstimator (Double r)) (nowMs : Int) : Prop where
  settings : e.settings = {}
  smoothingCoef : e.smoothingCoef = lit 0.9
  thresholdGain : e.thresholdGain = lit 4
  counted : 0 ≤ e.numOfDeltas
  delay : e.accumulatedDelay.val ≤ e.smoothedDelay.val
  window : (timingPoints e.delayHist).Pairwise fun p q => p.1 ≤ q.1 ∧ q.2 ≤ p.2
  latest : ∀ p ∈ timingPoints e.delayHist, p.1 ≤ e.sinceFirst nowMs ∧ e.smoothedDelay.val ≤ p.2
  trend : e.prevTrend.val ≤ 0
  threshold : 6 ≤ e.threshold.val ∧ e.threshold.val ≤ 600
  predictor : e.networkStatePredictor = false
  hypothesis : e.hypothesis ≠ .kBwOverusing

variable [IsStrictOrderedRing K] {e : TrendlineEstimator (Double r)} {nowMs : Int}

theorem eases_new (hr : r.IsExact) (nowMs : Int) :
    Eases ({ networkStatePredictor := false } : TrendlineEstimator (Double r)) nowMs where
  settings := rfl
  smoothingCoef := rfl
  thresholdGain := rfl
  counted := le_refl _
  delay := le_refl _
  window := List.Pairwise.nil
  latest p hp := absurd hp List.not_mem_nil
  trend := by
    change (lit 0 : Double r).val ≤ 0
    rw [val_lit_exact hr]
    simp
  threshold := by
    change 6 ≤ (lit 12.5 : Double r).val ∧ (lit 12.5 : Double r).val ≤ 600
    rw [val_lit_exact hr]
    norm_num
  predictor := rfl
  hypothesis := BandwidthUsage.noConfusion

theorem Eases.later (h : e.Eases nowMs) {laterMs : Int} (hl : nowMs ≤ laterMs) : e.Eases laterMs := by
  refine ⟨h.settings, h.smoothingCoef, h.thresholdGain, h.counted, h.delay, h.window, ?_, h.trend,
    h.threshold, h.predictor, h.hypothesis⟩
  intro p hp
  refine ⟨(h.latest p hp).1.trans ?_, (h.latest p hp).2⟩
  unfold sinceFirst
  split_ifs
  · exact le_refl _
  · exact_mod_cast sub_le_sub_right hl _

/-- The line through a falling window does not rise. -/
theorem Eases.windowTrend_nonpos (hr : r.IsExact) (h : e.Eases nowMs) : e.windowTrend.val ≤ 0 := by
  unfold windowTrend
  rw [h.settings]
  split_ifs with hfull hcap
  · cases hcap
  · have hne : e.delayHist ≠ [] := by
      intro hnil
      rw [hnil] at hfull
      cases hfull
    rw [linearFitSlope_eq hr hne]
    split_ifs
    · exact h.trend
    · exact LeastSquares.slope_nonpos h.window
  · exact h.trend

theorem Eases.modifiedTrend_nonpos (hr : r.IsExact) (h : e.Eases nowMs) {trend : Double r}
    (ht : trend.val ≤ 0) : (e.modifiedTrend trend).val ≤ 0 := by
  have hcount : (0 : K) ≤ (min e.numOfDeltas kMinNumDeltas : Int) := by
    exact_mod_cast le_min h.counted (by decide)
  unfold modifiedTrend
  rw [h.thresholdGain, val_mul, val_mul, val_ofInt, val_lit_exact hr, hr.rnd, hr.rnd, hr.rnd]
  refine mul_nonpos_of_nonpos_of_nonneg (mul_nonpos_of_nonneg_of_nonpos hcount ht) ?_
  norm_num

/-- A trend that does not rise is not taken for overuse. -/
theorem Eases.detect (hr : r.IsExact) (h : e.Eases nowMs) {trend : Double r} (ht : trend.val ≤ 0)
    (tsDelta : Double r) (arrivalTimeMs : Int) : (e.detect trend tsDelta arrivalTimeMs).Eases nowMs := by
  have hbounds := threshold_detect h.threshold trend tsDelta arrivalTimeMs
  have hcalm : (e.detect trend tsDelta arrivalTimeMs).prevTrend.val ≤ 0 ∧
      (e.detect trend tsDelta arrivalTimeMs).hypothesis ≠ .kBwOverusing := by
    rw [detect_eq]
    split_ifs
    · exact ⟨h.trend, BandwidthUsage.noConfusion⟩
    · obtain ⟨_, _, hthreshold⟩ := updateThreshold_writes
        { e.judge trend tsDelta with prevTrend := trend } (e.modifiedTrend trend) arrivalTimeMs
      rw [hthreshold]
      refine ⟨ht, ?_⟩
      have hnot : ¬ e.threshold < e.modifiedTrend trend := by
        rw [lt_iff, not_lt]
        exact (h.modifiedTrend_nonpos hr ht).trans (le_trans (by norm_num) h.threshold.1)
      change (e.judge trend tsDelta).hypothesis ≠ .kBwOverusing
      unfold judge
      rw [if_neg hnot]
      split_ifs <;> exact BandwidthUsage.noConfusion
  obtain ⟨_, _, _, _, _, _, hdetect⟩ := e.detect_writes trend tsDelta arrivalTimeMs
  rw [hdetect] at hbounds hcalm ⊢
  exact ⟨h.settings, h.smoothingCoef, h.thresholdGain, h.counted, h.delay, h.window, h.latest, hcalm.1,
    hbounds, h.predictor, hcalm.2⟩

/-- Deltas that do not add to the delay keep the window falling. -/
theorem Eases.smooth (hr : r.IsExact) (h : e.Eases nowMs) {recvDeltaMs sendDeltaMs : Double r}
    (hd : recvDeltaMs.val ≤ sendDeltaMs.val) {arrivalTimeMs : Int} (ha : nowMs ≤ arrivalTimeMs) :
    (e.smooth recvDeltaMs sendDeltaMs arrivalTimeMs).Eases arrivalTimeMs := by
  obtain ⟨packet, harrival, hsmoothed, heq⟩ := e.smooth_eq recvDeltaMs sendDeltaMs arrivalTimeMs
  have hdelay : (e.accumulatedDelay + (recvDeltaMs - sendDeltaMs)).val ≤ e.accumulatedDelay.val := by
    rw [val_add, val_sub, hr.rnd, hr.rnd]
    linarith
  have hcoef : packet.smoothedDelayMs.val = 9 / 10 * e.smoothedDelay.val +
      1 / 10 * (e.accumulatedDelay + (recvDeltaMs - sendDeltaMs)).val := by
    rw [hsmoothed, h.smoothingCoef]
    simp only [val_add, val_sub, val_mul, val_lit_exact hr, hr.rnd]
    norm_num
  have hbehind := h.delay
  have hpoint : packet.arrivalTimeMs.val = e.sinceFirst arrivalTimeMs := by
    rw [harrival, val_ofInt, hr.rnd]
    rfl
  have hhist : e.extendHist packet = e.delayHist ++ [packet] := by
    unfold extendHist
    rw [h.settings]
    rfl
  have hlatest : ∀ p ∈ timingPoints e.delayHist,
      p.1 ≤ packet.arrivalTimeMs.val ∧ packet.smoothedDelayMs.val ≤ p.2 := by
    intro p hp
    obtain ⟨hfirst, hsecond⟩ := (h.later ha).latest p hp
    refine ⟨hfirst.trans hpoint.ge, ?_⟩
    linarith
  have hwindow : (timingPoints (e.extendHist packet)).Pairwise fun p q => p.1 ≤ q.1 ∧ q.2 ≤ p.2 := by
    rw [hhist, timingPoints, List.map_append]
    refine List.pairwise_append.mpr ⟨h.window, List.pairwise_singleton _ _, ?_⟩
    intro p hp q hq
    rw [List.map_singleton, List.mem_singleton] at hq
    rw [hq]
    exact hlatest p hp
  have hsublist : (timingPoints (if (e.extendHist packet).length > e.settings.windowSize
      then (e.extendHist packet).tail else e.extendHist packet)).Sublist
        (timingPoints (e.extendHist packet)) := by
    refine List.Sublist.map _ ?_
    split_ifs
    · exact List.tail_sublist _
    · exact List.Sublist.refl _
  rw [heq]
  constructor
  case settings => exact h.settings
  case smoothingCoef => exact h.smoothingCoef
  case thresholdGain => exact h.thresholdGain
  case counted => exact le_min (by linarith [h.counted]) (by decide)
  case delay =>
    change (e.accumulatedDelay + (recvDeltaMs - sendDeltaMs)).val ≤ packet.smoothedDelayMs.val
    linarith
  case window => exact hwindow.sublist hsublist
  case latest =>
    intro p hp
    have hmem := hsublist.subset hp
    rw [hhist, timingPoints, List.map_append, List.mem_append] at hmem
    have hsince : packet.arrivalTimeMs.val ≤ (if (if e.firstArrivalTimeMs = -1 then arrivalTimeMs
        else e.firstArrivalTimeMs) = -1 then 0 else arrivalTimeMs - (if e.firstArrivalTimeMs = -1
          then arrivalTimeMs else e.firstArrivalTimeMs) : Int) := by
      rw [hpoint, sinceFirst]
      split_ifs <;> simp_all
    rcases hmem with hmem | hmem
    · exact ⟨(hlatest p hmem).1.trans hsince, (hlatest p hmem).2⟩
    · rw [List.map_singleton, List.mem_singleton] at hmem
      rw [hmem]
      exact ⟨hsince, le_refl _⟩
  case trend => exact h.trend
  case threshold => exact h.threshold
  case predictor => exact h.predictor
  case hypothesis => exact h.hypothesis

theorem Eases.updateTrendline (hr : r.IsExact) (h : e.Eases nowMs) {recvDeltaMs sendDeltaMs : Double r}
    (hd : recvDeltaMs.val ≤ sendDeltaMs.val) {arrivalTimeMs : Int} (ha : nowMs ≤ arrivalTimeMs) :
    (e.updateTrendline recvDeltaMs sendDeltaMs arrivalTimeMs).Eases arrivalTimeMs := by
  have hsmooth := h.smooth hr hd ha
  rw [updateTrendline_eq]
  exact hsmooth.detect hr (hsmooth.windowTrend_nonpos hr) _ _

end Exact
end TrendlineEstimator

/-- How much later than it was sent a packet arrived. -/
def TimedPacket.delayUs (p : TimedPacket) : Int := p.arrivalTime.us - p.sendTime.us

def SendTimeGroup.delayUs (g : SendTimeGroup) : Int := g.completeTime.us - g.sendTime.us

/-- A packet after another, sent and received in this order, with no more delay. -/
structure NoSlower (p q : TimedPacket) : Prop where
  sendTime : p.sendTime ≤ q.sendTime
  arrivalTime : p.arrivalTime ≤ q.arrivalTime
  systemTime : p.systemTime ≤ q.systemTime
  delay : q.delayUs ≤ p.delayUs

instance (p q : TimedPacket) : Decidable (NoSlower p q) :=
  decidable_of_iff (p.sendTime ≤ q.sendTime ∧ p.arrivalTime ≤ q.arrivalTime ∧
      p.systemTime ≤ q.systemTime ∧ q.delayUs ≤ p.delayUs)
    ⟨fun h => ⟨h.1, h.2.1, h.2.2.1, h.2.2.2⟩,
      fun h => ⟨h.sendTime, h.arrivalTime, h.systemTime, h.delay⟩⟩

namespace InterArrivalDelta
variable {s : InterArrivalDelta} {p q : TimedPacket}

/-- No group was delayed more than one before it, nor the packet more than any of them. -/
structure Eases (s : InterArrivalDelta) (p : TimedPacket) : Prop where
  current : s.currentTimestampGroup.isFirstPacket = false → s.currentTimestampGroup.Stamped ∧
    s.currentTimestampGroup.sendTime ≤ p.sendTime ∧ p.delayUs ≤ s.currentTimestampGroup.delayUs
  prev : s.prevTimestampGroup.completeTime.isFinite = true →
    s.currentTimestampGroup.isFirstPacket = false ∧ s.prevTimestampGroup.Stamped ∧
      s.currentTimestampGroup.delayUs ≤ s.prevTimestampGroup.delayUs

theorem eases_fresh (p : TimedPacket) : Eases fresh p where
  current h := by cases h
  prev h := by cases h

theorem Eases.next (h : s.Eases p) (hpq : NoSlower p q) : s.Eases q where
  current hnot := by
    obtain ⟨hstamped, hsent, hdelay⟩ := h.current hnot
    exact ⟨hstamped, hsent.trans hpq.sendTime, hpq.delay.trans hdelay⟩
  prev := h.prev

/-- The current group after a packet that started it, joined it or opened it. -/
theorem Eases.of_current {s' : InterArrivalDelta} (hp : p.Finite)
    (hsent : s'.currentTimestampGroup.sendTime = p.sendTime)
    (hcomplete : s'.currentTimestampGroup.completeTime = p.arrivalTime)
    (hprev : s'.prevTimestampGroup.completeTime.isFinite = true →
      s'.prevTimestampGroup.Stamped ∧ p.delayUs ≤ s'.prevTimestampGroup.delayUs) : s'.Eases p where
  current _ := by
    refine ⟨⟨by rw [hsent]; exact hp.sendTime, by rw [hcomplete]; exact hp.arrivalTime⟩, hsent.le, ?_⟩
    rw [SendTimeGroup.delayUs, hsent, hcomplete]
    exact le_refl _
  prev hfinite := by
    obtain ⟨hstamped, hdelay⟩ := hprev hfinite
    refine ⟨?_, hstamped, ?_⟩
    · rw [SendTimeGroup.isFirstPacket_eq_false_iff, hcomplete]
      exact hp.arrivalTime
    · rwa [SendTimeGroup.delayUs, hsent, hcomplete]

/-- A packet keeps the delays from growing, and the deltas that it brings do not grow either. -/
theorem Eases.see (h : s.Eases p) (hp : p.Finite) : (s.see p).1.Eases p ∧
    ∀ d ∈ (s.see p).2, d.arrivalTimeDelta.ms ≤ d.sendTimeDelta.ms := by
  have hnone : ∀ d ∈ (none : Option GroupDeltas), d.arrivalTimeDelta.ms ≤ d.sendTimeDelta.ms :=
    fun d hd => absurd hd (Option.not_mem_none d)
  have hway := s.way_see p
  generalize s.see p = step at hway
  cases hway with
  | starts hfirst =>
      refine ⟨.of_current hp rfl rfl ?_, hnone⟩
      intro hprev
      rw [(h.prev hprev).1] at hfirst
      cases hfirst
  | late => exact ⟨h, hnone⟩
  | joins hnot =>
      obtain ⟨-, hsent, hdelay⟩ := h.current hnot
      refine ⟨.of_current hp (max_eq_right hsent) rfl ?_, hnone⟩
      intro hprev
      obtain ⟨-, hstamped, hgroups⟩ := h.prev hprev
      exact ⟨hstamped, hdelay.trans hgroups⟩
  | second hopens =>
      obtain ⟨hstamped, -, hdelay⟩ := h.current hopens.1
      exact ⟨.of_current hp rfl rfl fun _ => ⟨hstamped, hdelay⟩, hnone⟩
  | resets =>
      refine ⟨⟨fun hnot => ?_, fun hprev => ?_⟩, hnone⟩
      · cases hnot
      · cases hprev
  | counts => exact ⟨⟨h.current, h.prev⟩, hnone⟩
  | deltas hopens hprev =>
      obtain ⟨hstamped, -, hdelay⟩ := h.current hopens.1
      obtain ⟨-, hbefore, hgroups⟩ := h.prev hprev
      refine ⟨.of_current hp rfl rfl fun _ => ⟨hstamped, hdelay⟩, ?_⟩
      intro d hd
      cases hd
      have harrival := Timestamp.us_sub hstamped.completeTime hbefore.completeTime
      have hsend := Timestamp.us_sub hstamped.sendTime hbefore.sendTime
      unfold SendTimeGroup.delayUs at hgroups
      refine divRoundToNearest_mono ?_
      change s.groupDeltas.arrivalTimeDelta.us ≤ s.groupDeltas.sendTimeDelta.us
      unfold groupDeltas
      rw [harrival, hsend]
      omega

end InterArrivalDelta

/-- The call of ComputeDeltas that IncomingPacketFeedback makes for a packet. -/
def timedPacket (packet : PacketResult) (atTime : Timestamp) : TimedPacket where
  sendTime := packet.sentPacket.sendTime
  arrivalTime := packet.receiveTime
  systemTime := atTime
  size := toUint64 packet.sentPacket.size.bytes

namespace DelayBasedBwe

section Frame
variable {F : Type} [FloatArith F] {d : DelayBasedBwe F}

/-- Without audio apart, a packet goes through one group delta to one detector. -/
theorem incomingPacketFeedback_video (ha : d.separateAudio.enabled = false) (packet : PacketResult)
    (t : Timestamp) :
    d.incomingPacketFeedback packet t = { d.resetIfTimedOut t with
      lastSeenPacket := t
      audioInterArrivalDelta :=
        ((d.resetIfTimedOut t).audioInterArrivalDelta.see (timedPacket packet t)).1
      videoDelayDetector := detectorUpdate (d.resetIfTimedOut t).videoDelayDetector
        ((d.resetIfTimedOut t).audioInterArrivalDelta.see (timedPacket packet t)).2
        packet.receiveTime } := by
  have hkept : (d.resetIfTimedOut t).separateAudio.enabled = false := by
    unfold resetIfTimedOut
    split_ifs <;> exact ha
  unfold incomingPacketFeedback chooseDetector feedDetector
  simp only [hkept, Bool.false_eq_true, if_false, Bool.false_and]
  rfl

end Frame

section Exact
variable {K : Type} [Field K] [LinearOrder K] [FloorRing K] {r : Rounding K}

/-- The delay of the packets has not grown so far, and the next one is delayed no more. -/
structure Eases (d : DelayBasedBwe (Double r)) (p : TimedPacket) : Prop where
  noAudio : d.separateAudio.enabled = false
  active : d.activeIsAudio = false
  groups : d.audioInterArrivalDelta.Eases p
  detector : d.videoDelayDetector.Eases p.arrivalTime.ms

variable {d : DelayBasedBwe (Double r)} {p q : TimedPacket}

theorem Eases.activeState_ne (h : d.Eases p) : d.activeState ≠ .kBwOverusing := by
  unfold activeState TrendlineEstimator.state
  rw [h.active, h.detector.predictor]
  exact h.detector.hypothesis

/-- An estimate leaves the detector and the groups alone. -/
theorem Eases.maybeUpdateEstimate (h : d.Eases p) (acked : Option DataRate) (recovered : Bool)
    (t : Timestamp) : (d.maybeUpdateEstimate acked recovered false t).1.Eases p := by
  unfold DelayBasedBwe.maybeUpdateEstimate
  dsimp only
  rw [if_neg h.activeState_ne]
  unfold recordBitrate
  dsimp only
  split_ifs <;> exact ⟨h.noAudio, h.active, h.groups, h.detector⟩

variable [IsStrictOrderedRing K]

theorem eases_new (hr : r.IsExact) (p : TimedPacket) : Eases ({} : DelayBasedBwe (Double r)) p :=
  ⟨rfl, rfl, InterArrivalDelta.eases_fresh p, TrendlineEstimator.eases_new hr _⟩

theorem Eases.next (h : d.Eases p) (hp : p.Finite) (hq : q.Finite) (hpq : NoSlower p q) : d.Eases q :=
  ⟨h.noAudio, h.active, h.groups.next hpq,
    h.detector.later (Timestamp.ms_mono hp.arrivalTime hq.arrivalTime hpq.arrivalTime)⟩

/-- A stream that has timed out starts over, with nothing known of its delay. -/
theorem Eases.resetIfTimedOut (hr : r.IsExact) (h : d.Eases p) (t : Timestamp) :
    (d.resetIfTimedOut t).Eases p := by
  unfold DelayBasedBwe.resetIfTimedOut
  split_ifs
  · exact ⟨h.noAudio, rfl, InterArrivalDelta.eases_fresh p, TrendlineEstimator.eases_new hr _⟩
  · exact h

/-- A packet delayed no more than those before is not taken for overuse. -/
theorem Eases.incomingPacketFeedback (hr : r.IsExact) {packet : PacketResult} {t : Timestamp}
    (h : d.Eases (timedPacket packet t)) (hp : (timedPacket packet t).Finite) :
    (d.incomingPacketFeedback packet t).Eases (timedPacket packet t) := by
  obtain ⟨hno, hactive, hgroups, hdetector⟩ := h.resetIfTimedOut hr t
  obtain ⟨hsee, hdeltas⟩ := hgroups.see hp
  rw [incomingPacketFeedback_video h.noAudio]
  refine ⟨hno, hactive, hsee, ?_⟩
  change TrendlineEstimator.Eases (detectorUpdate _ _ packet.receiveTime) packet.receiveTime.ms
  cases hd : ((d.resetIfTimedOut t).audioInterArrivalDelta.see (timedPacket packet t)).2 with
  | none => exact hdetector
  | some deltas =>
      refine hdetector.updateTrendline hr ?_ (le_refl _)
      rw [val_ofInt, val_ofInt, hr.rnd, hr.rnd]
      exact_mod_cast hdeltas deltas hd

end Exact
end DelayBasedBwe

/-! Without overuse the estimate does not fall. -/

section Rising
variable {K : Type} [Field K] [LinearOrder K] [FloorRing K] [IsStrictOrderedRing K]
  {r : Rounding K} {now : Int}

theorem AimdRateControl.Settled.rises {c : AimdRateControl (Double r)} (h : c.Settled now)
    (hinit : c.bitrateIsInitialized = true) {input : RateControlInput}
    (hcalm : input.bwState ≠ .kBwOverusing) :
    (c.update input (.finite now)).bitrateIsInitialized = true ∧
      c.currentBitrate ≤ (c.update input (.finite now)).currentBitrate := by
  rw [AimdRateControl.update, initializeBitrate_of_initialized hinit]
  refine ⟨changeBitrate_initialized (.inl hinit) _, ?_⟩
  cases hbw : input.bwState with
  | kBwOverusing => exact absurd hbw hcalm
  | kBwUnderusing => exact (h.underusing_eq hinit hbw _).ge
  | kBwNormal => exact h.le_normal hinit hbw

/-- What an estimate is left with, and what it reports. -/
structure DelayBasedBwe.Rises (d : DelayBasedBwe (Double r)) (after : DelayBasedBwe (Double r) × BweResult)
    (now : Int) : Prop where
  settled : after.1.rateControl.Settled now
  kept : d.rateControl.bitrateIsInitialized = true →
    after.1.rateControl.bitrateIsInitialized = true ∧
      d.rateControl.currentBitrate ≤ after.1.rateControl.currentBitrate
  reported : after.2.updated = true → after.1.rateControl.bitrateIsInitialized = true ∧
    after.2.targetBitrate = after.1.rateControl.currentBitrate

theorem DelayBasedBwe.rises_maybeUpdateEstimate {d : DelayBasedBwe (Double r)}
    (h : d.rateControl.Settled now) (hcalm : d.activeState ≠ .kBwOverusing) (acked : Option DataRate)
    (recovered : Bool) : d.Rises (d.maybeUpdateEstimate acked recovered false (.finite now)) now := by
  unfold maybeUpdateEstimate
  dsimp only
  rw [if_neg hcalm]
  constructor
  case settled =>
    rw [rateControl_recordBitrate]
    exact h.update _
  case kept =>
    intro hinit
    rw [rateControl_recordBitrate]
    exact h.rises hinit hcalm
  case reported =>
    intro hu
    rw [rateControl_recordBitrate]
    exact ⟨hu, rfl⟩

end Rising
end ChromeGcc
