import ChromeGcc.Controller.ClockOffset
import ChromeGcc.DelayBased.BackOff
import ChromeGcc.RateControl.RateFloor

/-! The increase rate inside the controller. The constraints are clamped before they reach the
rate control, which clamps every new rate in turn, so that no frame shrinks to nothing. -/
namespace ChromeGcc
open FloatArith UnitBase

namespace DelayBasedBwe
variable {K : Type} [Field K] [LinearOrder K] [FloorRing K] {r : Rounding K}
  {d : DelayBasedBwe (Double r)} {acked : Option DataRate}

theorem kept_reduceOnOveruse (h : d.rateControl.Kept)
    (hacked : ∀ x, acked = some x → x.isFinite = true) (t : Timestamp) :
    (d.reduceOnOveruse acked false t).1.rateControl.Kept := by
  unfold reduceOnOveruse
  simp only [Bool.and_false, Bool.false_eq_true, if_false]
  cases acked with
  | none =>
      dsimp only
      split_ifs
      · exact h.setEstimate rfl t
      · exact h
  | some x =>
      dsimp only
      split_ifs
      · exact h.update hacked t
      · exact h

theorem kept_maybeUpdateEstimate (h : d.rateControl.Kept)
    (hacked : ∀ x, acked = some x → x.isFinite = true) (recoveredFromOveruse : Bool) (t : Timestamp) :
    (d.maybeUpdateEstimate acked recoveredFromOveruse false t).1.rateControl.Kept := by
  unfold maybeUpdateEstimate
  dsimp only
  rw [rateControl_recordBitrate]
  by_cases hover : d.activeState = .kBwOverusing
  · rw [if_pos hover]
    exact kept_reduceOnOveruse h hacked t
  · rw [if_neg hover]
    exact h.update hacked t

theorem kept_incomingPacketFeedbackVector (h : d.rateControl.Kept)
    (hacked : ∀ x, acked = some x → x.isFinite = true) (msg : TransportPacketsFeedback) :
    (d.incomingPacketFeedbackVector msg acked false).1.rateControl.Kept := by
  unfold incomingPacketFeedbackVector
  dsimp only
  split_ifs
  · exact h
  · refine kept_maybeUpdateEstimate ?_ hacked _ _
    have hfed : (d.feedPackets msg.sortedByReceiveTime msg.feedbackTime).1.rateControl = d.rateControl :=
      rateControl_feedPackets d _ _
    change (AimdRateControl.setInApplicationLimitedRegion _ false).Kept
    rw [hfed]
    exact h.setInApplicationLimitedRegion false

end DelayBasedBwe

namespace GoogCcNetworkController

section Constraints
variable {F : Type} [FloatArith F] (g : GoogCcNetworkController F)

/-- The clamped constraints: a minimum of at least 5 kbps, and nothing below it. -/
theorem clampConstraints_eq :
    g.clampConstraints = { g with
      minDataRate := max g.minTargetRate getMinBitrate
      maxDataRate := max g.maxDataRate (max g.minTargetRate getMinBitrate)
      startingRate := g.startingRate.map fun rate => max rate (max g.minTargetRate getMinBitrate) } := by
  unfold clampConstraints
  generalize max g.minTargetRate getMinBitrate = minimum
  dsimp only
  have hmax : (if g.maxDataRate < minimum then
      { g with minDataRate := minimum, maxDataRate := minimum }
      else { g with minDataRate := minimum }) =
        { g with minDataRate := minimum, maxDataRate := max g.maxDataRate minimum } := by
    split_ifs with hlow
    · rw [max_eq_right hlow.le]
    · rw [max_eq_left (not_lt.mp hlow)]
  rw [hmax]
  cases hstart : g.startingRate with
  | none => rfl
  | some rate =>
      dsimp only
      split_ifs with hlow
      · rw [Option.map_some, max_eq_right hlow.le]
      · rw [Option.map_some, max_eq_left (not_lt.mp hlow)]

/-- ResetConstraints passes the clamped rates on to the rate control. -/
theorem resetConstraints_rateControl (constraints : TargetRateConstraints) :
    (g.resetConstraints constraints).packetFeedbackOnly = g.packetFeedbackOnly ∧
      (g.resetConstraints constraints).delayBasedBwe.rateControl =
        (constraints.startingRate.elim g.delayBasedBwe.rateControl fun rate =>
          g.delayBasedBwe.rateControl.setStartBitrate (max rate
            (max (constraints.minDataRate.getD .zero) getMinBitrate))).setMinBitrate
              (max (constraints.minDataRate.getD .zero) getMinBitrate) := by
  unfold resetConstraints
  dsimp only
  rw [clampConstraints_eq]
  cases constraints.startingRate with
  | none => exact ⟨rfl, rfl⟩
  | some rate => exact ⟨rfl, rfl⟩

theorem maybeTriggerOnNetworkChanged_fields (update : NetworkControlUpdate F) (t : Timestamp) :
    (g.maybeTriggerOnNetworkChanged update t).1.packetFeedbackOnly = g.packetFeedbackOnly ∧
      (g.maybeTriggerOnNetworkChanged update t).1.delayBasedBwe = g.delayBasedBwe := by
  unfold maybeTriggerOnNetworkChanged
  dsimp only
  split_ifs
  · exact ⟨rfl, rfl⟩
  · exact ⟨rfl, rfl⟩

end Constraints

/-- The calls whose runs reach the rate control. -/
inductive RateCall where
  | onTargetRateConstraints (constraints : TargetRateConstraints)
  | onRoundTripTimeUpdate (msg : RoundTripTimeUpdate)
  | onTransportPacketsFeedback (msg : TransportPacketsFeedback)

/-- Constraints are finite rates, and a round trip does not take less than no time. -/
def RateCall.Admissible : RateCall → Prop
  | .onTargetRateConstraints constraints =>
    (∀ x, constraints.minDataRate = some x → x.isFinite = true) ∧
      ∀ x, constraints.startingRate = some x → x.isFinite = true
  | .onRoundTripTimeUpdate msg => .zero ≤ msg.roundTripTime
  | .onTransportPacketsFeedback _ => True

section Runs
variable {F : Type} [FloatArith F]

def rateCall (g : GoogCcNetworkController F) : RateCall → GoogCcNetworkController F
  | .onTargetRateConstraints constraints => (g.onTargetRateConstraints constraints).1
  | .onRoundTripTimeUpdate msg => g.onRoundTripTimeUpdate msg
  | .onTransportPacketsFeedback msg => g.onTransportPacketsFeedback msg

def afterRateCalls (config : NetworkControllerConfig F) (calls : List RateCall) :
    GoogCcNetworkController F := calls.foldl rateCall (new config)

theorem afterRateCalls_snoc (config : NetworkControllerConfig F) (calls : List RateCall)
    (call : RateCall) :
    afterRateCalls config (calls ++ [call]) = (afterRateCalls config calls).rateCall call :=
  List.foldl_concat _ _ _ _

/-- The rate control of the controller, while it takes every report. -/
structure RateKept (g : GoogCcNetworkController F) : Prop where
  allReports : g.packetFeedbackOnly = false
  rateControl : g.delayBasedBwe.rateControl.Kept

theorem rateKept_new (config : NetworkControllerConfig F) : RateKept (new config) :=
  ⟨rfl, (AimdRateControl.kept_new true).setMinBitrate rfl (le_refl _)⟩

variable {g : GoogCcNetworkController F}

theorem RateKept.onTargetRateConstraints (h : g.RateKept) {constraints : TargetRateConstraints}
    (hfin : (RateCall.onTargetRateConstraints constraints).Admissible) :
    (g.onTargetRateConstraints constraints).1.RateKept := by
  obtain ⟨hmin, hstart⟩ := hfin
  obtain ⟨honly, hrate⟩ := g.resetConstraints_rateControl constraints
  obtain ⟨honly', hbwe⟩ := (g.resetConstraints constraints).maybeTriggerOnNetworkChanged_fields {}
    constraints.atTime
  have hminimum : (max (constraints.minDataRate.getD .zero) getMinBitrate).isFinite = true := by
    refine isFinite_max ?_ rfl
    cases hm : constraints.minDataRate with
    | none => rfl
    | some x => exact hmin x hm
  refine ⟨honly'.trans (honly.trans h.allReports), ?_⟩
  rw [GoogCcNetworkController.onTargetRateConstraints, hbwe, hrate]
  refine AimdRateControl.Kept.setMinBitrate ?_ hminimum (le_max_right _ _)
  cases hs : constraints.startingRate with
  | none => exact h.rateControl
  | some rate =>
      exact h.rateControl.setStartBitrate (isFinite_max (hstart rate hs) hminimum)
        (le_max_of_le_right (le_max_right _ _))

theorem RateKept.onRoundTripTimeUpdate (h : g.RateKept) {msg : RoundTripTimeUpdate}
    (hrtt : (RateCall.onRoundTripTimeUpdate msg).Admissible) :
    (g.onRoundTripTimeUpdate msg).RateKept := by
  unfold GoogCcNetworkController.onRoundTripTimeUpdate
  split_ifs
  · exact h
  · exact ⟨h.allReports, h.rateControl.setRtt hrtt⟩

end Runs

section Safety
variable {K : Type} [Field K] [LinearOrder K] [FloorRing K] {r : Rounding K}
  {g : GoogCcNetworkController (Double r)}

theorem acknowledged_finite (a : AcknowledgedBitrateEstimator (Double r)) :
    ∀ x, a.bitrate = some x → x.isFinite = true := by
  intro x hx
  unfold AcknowledgedBitrateEstimator.bitrate BitrateEstimator.bitrate at hx
  split_ifs at hx
  cases hx
  rfl

theorem RateKept.onTransportPacketsFeedback (h : g.RateKept) (msg : TransportPacketsFeedback) :
    (g.onTransportPacketsFeedback msg).RateKept := by
  by_cases hmsg : msg.packetFeedbacks.isEmpty = true
  · rw [onTransportPacketsFeedback_empty hmsg]
    exact h
  · obtain ⟨honly, -, hbwe, -⟩ := onTransportPacketsFeedback_fields h.allReports hmsg
    refine ⟨honly, ?_⟩
    rw [hbwe]
    exact DelayBasedBwe.kept_incomingPacketFeedbackVector h.rateControl
      (acknowledged_finite (g.acknowledgedAfter msg)) msg

theorem RateKept.step (h : g.RateKept) {call : RateCall} (hcall : call.Admissible) :
    (g.rateCall call).RateKept := by
  cases call with
  | onTargetRateConstraints constraints => exact h.onTargetRateConstraints hcall
  | onRoundTripTimeUpdate msg => exact h.onRoundTripTimeUpdate hcall
  | onTransportPacketsFeedback msg => exact h.onTransportPacketsFeedback msg

theorem rateKept_afterRateCalls (config : NetworkControllerConfig (Double r)) {calls : List RateCall}
    (hcalls : ∀ call ∈ calls, call.Admissible) : (afterRateCalls config calls).RateKept := by
  apply List.foldlRecOn
  · exact rateKept_new config
  · intro g h call hcall
    exact h.step (hcalls call hcall)

variable [IsStrictOrderedRing K]

/-- In every run the increase rate and the expected period are computed without a division by
zero and without an overflow, between the calls and where Update increases the rate. -/
theorem rate_increase_safe (config : NetworkControllerConfig (Double r)) {calls : List RateCall}
    (hcalls : ∀ call ∈ calls, call.Admissible)
    (hbelow : (afterRateCalls config calls).delayBasedBwe.rateControl.rateFields.Below
      (.bitsPerSec (2 * 10 ^ 14))) :
    (afterRateCalls config calls).delayBasedBwe.rateControl.IncreaseSafe ∧
      ∀ input t,
        (afterRateCalls config calls).delayBasedBwe.rateControl.IncreasesBy input t
          ((afterRateCalls config calls).delayBasedBwe.rateControl.increaseState input t) ∧
        (((afterRateCalls config calls).delayBasedBwe.rateControl.increaseState
          input t).linkCapacity.hasEstimate = true →
        ((afterRateCalls config calls).delayBasedBwe.rateControl.increaseState input t).IncreaseSafe) :=
  (rateKept_afterRateCalls config hcalls).rateControl.increaseSafe hbelow

end Safety

/-- A packet every 10 ms, each with 10 ms more delay than the one before. -/
def queuedPacket (n : Nat) : PacketResult where
  sentPacket := { sequenceNumber := n, sendTime := .micros (10000 * n), size := .ofBytes 1200 }
  receiveTime := .micros (20000 * n)

def startAt500k : TargetRateConstraints := { startingRate := some (.bitsPerSec 500000) }

/-- Enough packets for an overuse. -/
def overuseFeedback : TransportPacketsFeedback where
  feedbackTime := .micros 600000
  packetFeedbacks := (List.range 30).map queuedPacket

def startCalls : List RateCall :=
  [.onTargetRateConstraints startAt500k, .onRoundTripTimeUpdate { roundTripTime := .millis 50 }]

def overuseCalls : List RateCall := startCalls ++ [.onTransportPacketsFeedback overuseFeedback]

theorem admissible_overuseCalls : ∀ call ∈ overuseCalls, call.Admissible := by
  intro call hcall
  simp only [overuseCalls, startCalls, List.cons_append, List.nil_append, List.mem_cons,
    List.not_mem_nil, or_false] at hcall
  rcases hcall with rfl | rfl | rfl
  · refine ⟨?_, ?_⟩
    · intro x hx
      cases hx
    · intro x hx
      cases hx
      rfl
  · exact finite_le_finite.mpr (by decide)
  · trivial

theorem sorted_overuseFeedback :
    overuseFeedback.sortedByReceiveTime = (List.range 30).map queuedPacket :=
  List.mergeSort_of_pairwise (by decide +kernel)

/-- The overuse takes the estimate from 500 to 408 kbit/s. -/
theorem overuseCalls_fields :
    (afterRateCalls ⟨startAt500k, {}⟩ overuseCalls : GoogCcNetworkController
      Rational).delayBasedBwe.rateControl.rateFields =
      { currentBitrate := .finite 408000
        minConfiguredBitrate := .finite 5000
        rtt := .finite 50000
        inExperiment := false
        lastDecrease := some (.finite 92000) } := by
  have hreports : (afterRateCalls ⟨startAt500k, {}⟩ startCalls : GoogCcNetworkController
      Rational).packetFeedbackOnly = false := rfl
  have hmsg : ¬ overuseFeedback.packetFeedbacks.isEmpty = true := Bool.false_ne_true
  obtain ⟨-, -, hbwe, -⟩ := onTransportPacketsFeedback_fields hreports hmsg
  rw [overuseCalls, afterRateCalls_snoc, rateCall, hbwe, DelayBasedBwe.incomingPacketFeedbackVector,
    acknowledgedAfter, sorted_overuseFeedback]
  decide +kernel

/-- After the decrease the increase rate is computed from 408 kbit/s. -/
theorem rate_increase_safe_overuse :
    (afterRateCalls ⟨startAt500k, {}⟩ overuseCalls : GoogCcNetworkController
      Rational).delayBasedBwe.rateControl.IncreaseSafe := by
  refine (rate_increase_safe _ admissible_overuseCalls ?_).1
  rw [overuseCalls_fields]
  refine ⟨finite_lt_finite.mpr (by decide), ?_⟩
  intro lastDecrease h
  cases h
  exact finite_lt_finite.mpr (by decide)

end GoogCcNetworkController
end ChromeGcc
