import ChromeGcc.Base.Trace
import ChromeGcc.DelayBased.Bwe
import ChromeGcc.DelayBased.Predictor
import ChromeGcc.DelayBased.Telescope

/-! The accumulated delay against the exact one. Each group delta is rounded to whole
milliseconds before it is added, so the errors add up. -/
namespace ChromeGcc
open FloatArith UnitBase

/-- Rounding to thousands is off by at most five hundred. -/
theorem divRoundToNearest_error (n : Int) : |1000 * divRoundToNearest n 1000 - n| ≤ 500 := by
  rw [abs_le]
  unfold divRoundToNearest
  by_cases h : n ≥ 0
  · have hdiv : (n + (1000 : Int).tdiv 2).tdiv 1000 = (n + 500) / 1000 := by
      rw [show (1000 : Int).tdiv 2 = 500 from rfl, Int.tdiv_eq_ediv_of_nonneg (by omega)]
    rw [if_pos h, hdiv]
    omega
  · have hneg : n + (-1000 : Int).tdiv 2 = -(500 - n) := by
      rw [show (-1000 : Int).tdiv 2 = -500 from rfl]
      omega
    have hdiv : (n + (-1000 : Int).tdiv 2).tdiv 1000 = -((500 - n) / 1000) := by
      rw [hneg, Int.neg_tdiv, Int.tdiv_eq_ediv_of_nonneg (by omega)]
    rw [if_neg h, hdiv]
    omega

namespace GroupDeltas

/-- What a group adds to the delay, in microseconds. -/
def delayUs (d : GroupDeltas) : Int := d.arrivalTimeDelta.us - d.sendTimeDelta.us

/-- What UpdateTrendline adds for it, in milliseconds. -/
def delayMs (d : GroupDeltas) : Int := d.arrivalTimeDelta.ms - d.sendTimeDelta.ms

theorem delayMs_error (d : GroupDeltas) : |1000 * d.delayMs - d.delayUs| ≤ 1000 := by
  have harrival := abs_le.mp (divRoundToNearest_error d.arrivalTimeDelta.toValue)
  have hsend := abs_le.mp (divRoundToNearest_error d.sendTimeDelta.toValue)
  simp only [abs_le, delayMs, delayUs, TimeDelta.ms, TimeDelta.us]
  omega

/-- The errors of the deltas add up, at most a millisecond for each. -/
theorem sum_delayMs_error (deltas : List GroupDeltas) :
    |1000 * (deltas.map delayMs).sum - (deltas.map delayUs).sum| ≤ 1000 * deltas.length := by
  induction deltas with
  | nil => simp
  | cons d deltas ih =>
      have hd := abs_le.mp d.delayMs_error
      rw [abs_le] at ih ⊢
      rw [List.map_cons, List.map_cons, List.sum_cons, List.sum_cons, List.length_cons]
      push_cast
      omega

theorem sum_delayUs (deltas : List GroupDeltas) :
    (deltas.map delayUs).sum =
      (deltas.map fun d => d.arrivalTimeDelta.us).sum - (deltas.map fun d => d.sendTimeDelta.us).sum := by
  induction deltas with
  | nil => rfl
  | cons d deltas ih =>
      rw [List.map_cons, List.map_cons, List.map_cons, List.sum_cons, List.sum_cons, List.sum_cons, ih,
        delayUs]
      omega

end GroupDeltas

namespace TrendlineEstimator
variable {F : Type} [FloatArith F] (e : TrendlineEstimator F)

theorem accumulatedDelay_detect (trend tsDelta : F) (nowMs : Int) :
    (e.detect trend tsDelta nowMs).accumulatedDelay = e.accumulatedDelay := by
  obtain ⟨_, _, _, _, _, _, hdetect⟩ := e.detect_writes trend tsDelta nowMs
  rw [hdetect]

/-- UpdateTrendline adds the difference of its two deltas to the delay. -/
theorem accumulatedDelay_updateTrendline (recvDeltaMs sendDeltaMs : F) (arrivalTimeMs : Int) :
    (e.updateTrendline recvDeltaMs sendDeltaMs arrivalTimeMs).accumulatedDelay =
      e.accumulatedDelay + (recvDeltaMs - sendDeltaMs) := by
  rw [updateTrendline_eq, accumulatedDelay_detect]
  unfold smooth
  by_cases hfirst : e.firstArrivalTimeMs = -1
  · simp only [hfirst, if_true]
  · simp only [hfirst, if_false]

end TrendlineEstimator

namespace DelayBasedBwe

section Watch
variable {F : Type} [FloatArith F]

/-- An estimation, and the first group that it saw complete. -/
structure Watched (F : Type) [FloatArith F] where
  bwe : DelayBasedBwe F := {}
  first : Option SendTimeGroup := none

/-- What starts the delay signal anew. -/
inductive Interruption where
  | timedOut
  | reset
  deriving DecidableEq, Repr

/-- IncomingPacketFeedback, with the deltas that it computes, unless it is interrupted. -/
def watch (w : Watched F) (feed : PacketResult × Timestamp) :
    Except Interruption (Watched F × Option GroupDeltas) :=
  if w.bwe.lastSeenPacket.isFinite = true ∧ feed.2 - w.bwe.lastSeenPacket > kStreamTimeOut then
    .error .timedOut
  else if w.bwe.audioInterArrivalDelta.Resets feed.1.sentPacket.sendTime feed.1.receiveTime then
    .error .reset
  else
    let bwe := w.bwe.incomingPacketFeedback feed.1 feed.2
    let deltas := (w.bwe.audioInterArrivalDelta.computeDeltas feed.1.sentPacket.sendTime
      feed.1.receiveTime feed.2 (toUint64 feed.1.sentPacket.size.bytes)).2
    .ok ({ bwe := bwe, first := w.first.or bwe.audioInterArrivalDelta.completed }, deltas)

/-- A packet whose times are all known. -/
structure Timed (feed : PacketResult × Timestamp) : Prop where
  sendTime : feed.1.sentPacket.sendTime.isFinite = true
  receiveTime : feed.1.receiveTime.isFinite = true
  atTime : feed.2.isFinite = true

/-- Without audio apart, a packet goes through one group delta to one detector. -/
theorem incomingPacketFeedback_eq {d : DelayBasedBwe F} (ha : d.separateAudio.enabled = false)
    {t : Timestamp} (hr : d.resetIfTimedOut t = d) (p : PacketResult) :
    (d.incomingPacketFeedback p t).separateAudio = d.separateAudio ∧
      (d.incomingPacketFeedback p t).lastSeenPacket = t ∧
      (d.incomingPacketFeedback p t).audioInterArrivalDelta =
        (d.audioInterArrivalDelta.computeDeltas p.sentPacket.sendTime p.receiveTime t
          (toUint64 p.sentPacket.size.bytes)).1 ∧
      (d.incomingPacketFeedback p t).videoDelayDetector =
        detectorUpdate d.videoDelayDetector
          (d.audioInterArrivalDelta.computeDeltas p.sentPacket.sendTime p.receiveTime t
            (toUint64 p.sentPacket.size.bytes)).2 p.receiveTime := by
  have hchoose : DelayBasedBwe.chooseDetector { d with lastSeenPacket := t } p =
      { d with lastSeenPacket := t } := by
    unfold chooseDetector
    rw [if_neg (by rw [ha]; exact Bool.false_ne_true)]
  unfold incomingPacketFeedback
  dsimp only
  rw [hr, hchoose]
  simp only [feedDetector, ha, Bool.false_and, Bool.false_eq_true, if_false, and_self]

/-- A step of a run that is not interrupted. -/
theorem watch_ok {w w' : Watched F} {feed : PacketResult × Timestamp} {deltas : Option GroupDeltas}
    (h : watch w feed = .ok (w', deltas)) :
    ¬ (w.bwe.lastSeenPacket.isFinite = true ∧ feed.2 - w.bwe.lastSeenPacket > kStreamTimeOut) ∧
      ¬ w.bwe.audioInterArrivalDelta.Resets feed.1.sentPacket.sendTime feed.1.receiveTime ∧
      w'.bwe = w.bwe.incomingPacketFeedback feed.1 feed.2 ∧
      w'.first = w.first.or w'.bwe.audioInterArrivalDelta.completed ∧
      deltas = (w.bwe.audioInterArrivalDelta.computeDeltas feed.1.sentPacket.sendTime
        feed.1.receiveTime feed.2 (toUint64 feed.1.sentPacket.size.bytes)).2 := by
  unfold watch at h
  split_ifs at h with htimeout hreset
  cases h
  exact ⟨htimeout, hreset, rfl, rfl, rfl⟩

end Watch

section Exact
open Machine
variable {K : Type} [Field K] [LinearOrder K] [FloorRing K]
  {sqrt : K → K} {pow : K → K → K} {divZero : K → K}

/-- The deltas of the calls that computed some. -/
def computed (deltas : List (Option GroupDeltas)) : List GroupDeltas := deltas.flatMap Option.toList

theorem computed_snoc (deltas : List (Option GroupDeltas)) (d : Option GroupDeltas) :
    computed (deltas ++ [d]) = computed deltas ++ d.toList := by
  rw [computed, List.flatMap_append, List.flatMap_singleton, computed]

/-- What a run without interruption keeps: its packets go to one detector, the group deltas
telescope, and the delay is the sum of the rounded ones. -/
structure Accumulates (deltas : List (Option GroupDeltas))
    (w : Watched (Double (Rounding.exact sqrt pow divZero))) : Prop where
  noAudio : w.bwe.separateAudio.enabled = false
  seen : w.bwe.lastSeenPacket.isFinite = true ∨ w = {}
  telescopes : w.bwe.audioInterArrivalDelta.Telescopes w.first (computed deltas)
  delay : w.bwe.videoDelayDetector.accumulatedDelay.val =
    (((computed deltas).map GroupDeltas.delayMs).sum : Int)

theorem accumulates_new :
    Accumulates [] ({} : Watched (Double (Rounding.exact sqrt pow divZero : Rounding K))) where
  noAudio := rfl
  seen := .inr rfl
  telescopes := InterArrivalDelta.telescopes_fresh _
  delay := by
    change ((0 : ℚ).num : K) / ((0 : ℚ).den : K) = ((0 : Int) : K)
    simp

variable {deltas : List (Option GroupDeltas)}
  {w : Watched (Double (Rounding.exact sqrt pow divZero : Rounding K))}

/-- Without a timeout the detectors stay. -/
theorem Accumulates.resetIfTimedOut (h : Accumulates deltas w) {t : Timestamp}
    (ht : ¬ (w.bwe.lastSeenPacket.isFinite = true ∧ t - w.bwe.lastSeenPacket > kStreamTimeOut)) :
    w.bwe.resetIfTimedOut t = w.bwe := by
  rcases h.seen with hseen | rfl
  · unfold DelayBasedBwe.resetIfTimedOut
    rw [if_neg]
    rintro (hinf | hlate)
    · rw [UnitBase.isInfinite, hseen] at hinf
      cases hinf
    · exact ht ⟨hseen, hlate⟩
  · exact if_pos (.inl rfl)

theorem accumulatedDelay_detectorUpdate
    (e : TrendlineEstimator (Double (Rounding.exact sqrt pow divZero : Rounding K)))
    (d : Option GroupDeltas) (t : Timestamp) :
    (detectorUpdate e d t).accumulatedDelay.val =
      e.accumulatedDelay.val + ((d.toList.map GroupDeltas.delayMs).sum : Int) := by
  cases d with
  | none =>
      change e.accumulatedDelay.val = e.accumulatedDelay.val + ((0 : Int) : K)
      simp
  | some d =>
      have hupdate := e.accumulatedDelay_updateTrendline (ofInt d.arrivalTimeDelta.ms)
        (ofInt d.sendTimeDelta.ms) t.ms
      rw [show detectorUpdate e (some d) t = e.updateTrendline (ofInt d.arrivalTimeDelta.ms)
        (ofInt d.sendTimeDelta.ms) t.ms from rfl, hupdate]
      change e.accumulatedDelay.val + ((d.arrivalTimeDelta.ms : K) - (d.sendTimeDelta.ms : K)) = _
      simp [GroupDeltas.delayMs]

theorem Accumulates.step (h : Accumulates deltas w) {feed : PacketResult × Timestamp}
    (hf : Timed feed) {w' : Watched (Double (Rounding.exact sqrt pow divZero : Rounding K))}
    {d : Option GroupDeltas} (hs : watch w feed = .ok (w', d)) : Accumulates (deltas ++ [d]) w' := by
  obtain ⟨htimeout, hreset, hbwe, hfirst, hd⟩ := watch_ok hs
  obtain ⟨haudio, hlast, hgroups, hdetector⟩ :=
    incomingPacketFeedback_eq h.noAudio (h.resetIfTimedOut htimeout) feed.1
  rw [← hbwe] at haudio hlast hgroups hdetector
  rw [← hd] at hdetector
  constructor
  case noAudio =>
    rw [haudio]
    exact h.noAudio
  case seen =>
    left
    rw [hlast]
    exact hf.atTime
  case telescopes =>
    rw [hfirst, hgroups, computed_snoc, hd]
    exact h.telescopes.step hreset hf.sendTime hf.receiveTime _ _
  case delay =>
    rw [hdetector, accumulatedDelay_detectorUpdate, h.delay, computed_snoc, List.map_append,
      List.sum_append]
    push_cast
    rfl

theorem accumulates_of_trace {feeds : List (PacketResult × Timestamp)}
    (h : Trace watch {} feeds deltas w) (hf : ∀ feed ∈ feeds, Timed feed) : Accumulates deltas w := by
  induction h with
  | nil => exact accumulates_new
  | snoc _ hs ih =>
      have hbefore := ih fun feed hfeed => hf feed (List.mem_append_left _ hfeed)
      exact hbefore.step (hf _ (List.mem_append_right _ (List.mem_singleton_self _))) hs

/-- The delay between two groups, in microseconds. -/
def delayBetween (first last : SendTimeGroup) : Int :=
  (last.completeTime.us - first.completeTime.us) - (last.sendTime.us - first.sendTime.us)

variable [IsStrictOrderedRing K]

/-- The accumulated delay is off by at most a millisecond for each delta computed so far, at
any finite times. -/
theorem drift_bounded {feeds : List (PacketResult × Timestamp)} (h : Trace watch {} feeds deltas w)
    (hf : ∀ feed ∈ feeds, Timed feed) :
    ∀ first ∈ w.first, ∀ last ∈ w.bwe.audioInterArrivalDelta.completed,
      |w.bwe.videoDelayDetector.accumulatedDelay.val - (delayBetween first last : K) / 1000| ≤
        (computed deltas).length := by
  intro first hfirst last hlast
  have haccumulates := accumulates_of_trace h hf
  have herror := GroupDeltas.sum_delayMs_error (computed deltas)
  rw [GroupDeltas.sum_delayUs, haccumulates.telescopes.arrivalTime first hfirst last hlast,
    haccumulates.telescopes.sendTime first hfirst last hlast] at herror
  have hscaled : |1000 * (((computed deltas).map GroupDeltas.delayMs).sum : K) -
      (delayBetween first last : K)| ≤ 1000 * (computed deltas).length := by
    exact_mod_cast herror
  have hscale : ((((computed deltas).map GroupDeltas.delayMs).sum : Int) : K) -
      (delayBetween first last : K) / 1000 =
      (1000 * ((((computed deltas).map GroupDeltas.delayMs).sum : Int) : K) -
        (delayBetween first last : K)) / 1000 := by
    field_simp
  rw [haccumulates.delay, hscale, abs_div, abs_of_pos (by norm_num : (0 : K) < 1000)]
  refine (div_le_iff₀ (by norm_num)).mpr ?_
  rw [mul_comm _ (1000 : K)]
  exact hscaled

end Exact

section Drifting
open Machine

/-- A packet of its own group: sent every 9.4 ms, received every 10.5 ms. -/
def drifting (n : Int) : PacketResult × Timestamp :=
  ({ sentPacket := { sequenceNumber := n, sendTime := .micros (9400 * n) }
     receiveTime := .micros (10500 * n) }, .micros (10500 * n))

/-- The first four of them complete three groups and compute two deltas. -/
def driftingFeeds : List (PacketResult × Timestamp) := [drifting 0, drifting 1, drifting 2, drifting 3]

theorem driftingFeeds_run : (run watch ({} : Watched Rational) driftingFeeds).isOk = true := by
  decide +kernel

/-- Two deltas are enough for an error above a millisecond: the delay has grown by 2.2 ms, and
4 ms are accumulated. -/
theorem drift_exceeds_millisecond :
    (driftingFeeds.Pairwise fun a b =>
        a.1.sentPacket.sendTime ≤ b.1.sentPacket.sendTime ∧ a.1.receiveTime ≤ b.1.receiveTime) ∧
      ∃ deltas, ∃ w : Watched Rational, Trace watch {} driftingFeeds deltas w ∧
        (∃ d, deltas.getLast? = some (some d)) ∧
        ∃ first ∈ w.first, ∃ last ∈ w.bwe.audioInterArrivalDelta.completed,
          w.bwe.videoDelayDetector.accumulatedDelay.val = 4 ∧ delayBetween first last = 2200 ∧
          ¬ |w.bwe.videoDelayDetector.accumulatedDelay.val - (delayBetween first last : ℚ) / 1000| ≤
            1 := by
  have hdelay : (final watch ({} : Watched Rational)
      driftingFeeds).bwe.videoDelayDetector.accumulatedDelay.val = 4 := by decide +kernel
  refine ⟨by decide, _, _, trace_final driftingFeeds_run, ⟨_, rfl⟩, _, rfl, _, rfl, hdelay, rfl, ?_⟩
  rw [hdelay, show delayBetween _ _ = 2200 from rfl]
  norm_num [abs_le]

theorem drift_bounded_drifting :
    ∃ deltas, ∃ w : Watched Rational, Trace watch {} driftingFeeds deltas w ∧
      ∀ first ∈ w.first, ∀ last ∈ w.bwe.audioInterArrivalDelta.completed,
        |w.bwe.videoDelayDetector.accumulatedDelay.val - (delayBetween first last : ℚ) / 1000| ≤
          (computed deltas).length := by
  have h := trace_final driftingFeeds_run
  refine ⟨_, _, h, drift_bounded h ?_⟩
  intro feed hfeed
  simp only [driftingFeeds, List.mem_cons, List.not_mem_nil, or_false] at hfeed
  rcases hfeed with rfl | rfl | rfl | rfl
  · exact ⟨rfl, rfl, rfl⟩
  · exact ⟨rfl, rfl, rfl⟩
  · exact ⟨rfl, rfl, rfl⟩
  · exact ⟨rfl, rfl, rfl⟩

end Drifting
end DelayBasedBwe
end ChromeGcc
