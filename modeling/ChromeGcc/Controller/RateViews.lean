import ChromeGcc.Base.Trace
import ChromeGcc.Controller.GoogCc
import ChromeGcc.SendSide.Runs

/-! The two views of the sending rate. GetNetworkState gives the rate that was cached by the last
OnTargetRateConstraints, GetSenderSideDataRate the estimation's own. -/
namespace ChromeGcc
open FloatArith UnitBase

namespace SendSideBandwidthEstimation
variable {F : Type} [FloatArith F]

/-- The rate given to the sender. -/
def Core.rate (c : Core F) : DataRate :=
  max c.minConfigured (if c.capsOnly then min c.target c.receiverLimit else c.target)

theorem targetRate_core (e : SendSideBandwidthEstimation F) : e.targetRate = e.core.rate := rfl

instance (e : SendSideBandwidthEstimation F) (t : Timestamp) : Decidable (e.LowLoss t) :=
  inferInstanceAs (Decidable (_ ∧ _ ∧ _))

/-- A loss above the high threshold, some time after the last decrease. -/
def HighLoss (e : SendSideBandwidthEstimation F) (t : Timestamp) : Prop :=
  e.lastLossPacketReport.isInfinite = false ∧
    (t - e.lastLossPacketReport : TimeDelta) < kMaxRtcpFeedbackInterval.scale (lit 1.2 : F) ∧
    e.currentTarget > e.bitrateThreshold ∧
    ¬ lossFraction F e.lastFractionLoss ≤ e.highLossThreshold ∧
    !e.hasDecreasedSinceLastFractionLoss ∧
    t - e.timeLastDecrease ≥ kBweDecreaseInterval + e.lastRoundTripTime

instance (e : SendSideBandwidthEstimation F) (t : Timestamp) : Decidable (e.HighLoss t) :=
  inferInstanceAs (Decidable (_ ∧ _ ∧ _ ∧ _ ∧ _ ∧ _))

/-- The rate that UpdateEstimate brings within the limits. -/
def proposedRate (e : SendSideBandwidthEstimation F) (t : Timestamp) : DataRate :=
  if e.Jumps t then e.core.startBitrate
  else if e.LowLoss t then increasedBitrate F (e.updateMinHistory t).minHistoryFront
  else if e.HighLoss t then decreasedBitrate F e.currentTarget e.lastFractionLoss
  else e.currentTarget

theorem core_adjustToLoss_high {e : SendSideBandwidthEstimation F} {t : Timestamp} (hl : ¬ e.LowLoss t) :
    (e.adjustToLoss t).core = { e.core with
      target := e.core.clamp
        (if e.HighLoss t then decreasedBitrate F e.currentTarget e.lastFractionLoss
        else e.currentTarget) } := by
  unfold adjustToLoss
  by_cases hh : e.HighLoss t
  · obtain ⟨hfin, hrecent, hrate⟩ := hh
    have hlow : ¬ (e.currentTarget < e.bitrateThreshold ∨
        lossFraction F e.lastFractionLoss ≤ e.lowLossThreshold) := fun h => hl ⟨hfin, hrecent, h⟩
    rw [if_neg (by rw [hfin]; exact Bool.false_ne_true), if_pos hrecent, if_neg hlow, if_pos hrate,
      if_pos ⟨hfin, hrecent, hrate⟩, core_updateTargetBitrate]
    rfl
  · rw [if_neg hh]
    split_ifs with hinf hrecent hlow hdec
    · exact core_applyTargetLimits e t
    · rw [Bool.not_eq_true] at hinf
      exact absurd ⟨hinf, hrecent, hlow⟩ hl
    · rw [Bool.not_eq_true] at hinf
      exact absurd ⟨hinf, hrecent, hdec⟩ hh
    · exact core_applyTargetLimits e t
    · exact core_applyTargetLimits e t

/-- UpdateEstimate proposes a rate and clamps it. -/
theorem core_updateEstimate_proposed (e : SendSideBandwidthEstimation F) (t : Timestamp) :
    ∃ history, (e.updateEstimate t).core =
      { e.core with history := history, target := e.core.clamp (e.proposedRate t) } := by
  unfold proposedRate
  by_cases hj : e.Jumps t
  · refine ⟨[(t, e.core.target)], ?_⟩
    rw [if_pos hj, updateEstimate_jump hj, core_updateTargetBitrate]
    rfl
  · refine ⟨e.core.pushed t, ?_⟩
    rw [if_neg hj, updateEstimate_regular hj]
    by_cases hl : e.LowLoss t
    · rw [if_pos hl, adjustToLoss_lowLoss (e := e.updateMinHistory t) hl, core_updateTargetBitrate]
      rfl
    · rw [if_neg hl]
      exact core_adjustToLoss_high (e := e.updateMinHistory t) hl

/-- What a report of the receiver's limit leaves for the sender. -/
def rateAfterLimit (e : SendSideBandwidthEstimation F) (bandwidth : DataRate) : DataRate :=
  { e.core with
    receiverLimit := if bandwidth.isZero then .plusInfinity else bandwidth
    target := e.core.clamp e.core.target : Core F }.rate

theorem targetRate_updateReceiverEstimate (e : SendSideBandwidthEstimation F) (t : Timestamp)
    (bandwidth : DataRate) :
    (e.updateReceiverEstimate t bandwidth).targetRate = e.rateAfterLimit bandwidth := by
  rw [targetRate_core, core_updateReceiverEstimate]
  rfl

/-- What a loss report leaves: the proposed rate, once there are packets enough for a fraction. -/
def rateAfterLoss (e : SendSideBandwidthEstimation F) (lost n : Int) (t : Timestamp) : DataRate :=
  if e.Completes n then
    { e.core with target := e.core.clamp ((e.reported lost n t).proposedRate t) : Core F }.rate
  else e.core.rate

theorem targetRate_updatePacketsLost (e : SendSideBandwidthEstimation F) (lost n : Int) (t : Timestamp) :
    (e.updatePacketsLost lost n t).targetRate = e.rateAfterLoss lost n t := by
  unfold rateAfterLoss
  by_cases h : e.Completes n
  · obtain ⟨history, hcore⟩ := core_updateEstimate_proposed (e.reported lost n t) t
    rw [if_pos h, targetRate_core, core_updatePacketsLost h, hcore, core_reported]
    rfl
  · rw [if_neg h, targetRate_core, core_updatePacketsLost_accumulate h]

end SendSideBandwidthEstimation

namespace GoogCcNetworkController

/-- The calls between which the two views are compared. -/
inductive ViewCall where
  | onTargetRateConstraints (constraints : TargetRateConstraints)
  | onTransportLossReport (msg : TransportLossReport)
  | onRemoteBitrateReport (msg : RemoteBitrateReport)
  | onRoundTripTimeUpdate (msg : RoundTripTimeUpdate)
  | onProcessInterval (atTime : Timestamp)
  deriving DecidableEq, Repr

section Views
variable {F : Type} [FloatArith F]

def viewCall (g : GoogCcNetworkController F) : ViewCall → GoogCcNetworkController F
  | .onTargetRateConstraints constraints => (g.onTargetRateConstraints constraints).1
  | .onTransportLossReport msg => g.onTransportLossReport msg
  | .onRemoteBitrateReport msg => g.onRemoteBitrateReport msg
  | .onRoundTripTimeUpdate msg => g.onRoundTripTimeUpdate msg
  | .onProcessInterval atTime => g.onProcessInterval atTime

def afterViewCalls (g : GoogCcNetworkController F) (calls : List ViewCall) :
    GoogCcNetworkController F := calls.foldl viewCall g

/-- GetNetworkState at any time gives the rate of GetSenderSideDataRate. -/
def ViewsAgree (g : GoogCcNetworkController F) : Prop :=
  ∀ t, (g.getNetworkState t).targetRate.map (fun msg => msg.targetRate) = some g.getSenderSideDataRate

variable {g : GoogCcNetworkController F}

theorem viewsAgree_iff : g.ViewsAgree ↔ g.lastPushbackTargetRate = g.bandwidthEstimation.targetRate := by
  constructor
  · intro h
    exact Option.some.inj (h .plusInfinity)
  · intro h t
    exact congrArg some h

/-- The cached rate of a new controller is the starting rate of its configuration. -/
theorem viewsAgree_new_iff (config : NetworkControllerConfig F) :
    (new config).ViewsAgree ↔ config.constraints.startingRate.getD .zero = .bitsPerSec initialPacingRate :=
  viewsAgree_iff

/-- The cache is refreshed, whether anything changed or not. -/
theorem viewsAgree_maybeTriggerOnNetworkChanged (update : NetworkControlUpdate F) (t : Timestamp) :
    (g.maybeTriggerOnNetworkChanged update t).1.ViewsAgree := by
  rw [viewsAgree_iff]
  unfold maybeTriggerOnNetworkChanged
  dsimp only
  split_ifs with hchanged
  · rfl
  · by_contra hne
    exact hchanged (.inr (.inr (.inr (.inl fun h => hne h.symm))))

/-- The report leaves the estimation at the rate that it has. -/
def KeepsRate (g : GoogCcNetworkController F) : ViewCall → Prop
  | .onTransportLossReport msg => g.packetFeedbackOnly = false →
      g.bandwidthEstimation.rateAfterLoss (toInt64 msg.packetsLostDelta)
        (toInt64 (msg.packetsReceivedDelta + msg.packetsLostDelta : Nat)) msg.receiveTime =
          g.bandwidthEstimation.targetRate
  | .onRemoteBitrateReport msg => g.packetFeedbackOnly = false →
      g.bandwidthEstimation.rateAfterLimit msg.bandwidth = g.bandwidthEstimation.targetRate
  | _ => True

theorem viewsAgree_loss_iff (h : g.ViewsAgree) (msg : TransportLossReport) :
    (g.onTransportLossReport msg).ViewsAgree ↔ g.KeepsRate (.onTransportLossReport msg) := by
  have hcached := viewsAgree_iff.mp h
  unfold onTransportLossReport KeepsRate
  cases honly : g.packetFeedbackOnly with
  | true => simp [h]
  | false =>
      rw [viewsAgree_iff]
      simp only [Bool.false_eq_true, if_false, forall_const, hcached,
        SendSideBandwidthEstimation.targetRate_updatePacketsLost]
      exact eq_comm

theorem viewsAgree_limit_iff (h : g.ViewsAgree) (msg : RemoteBitrateReport) :
    (g.onRemoteBitrateReport msg).ViewsAgree ↔ g.KeepsRate (.onRemoteBitrateReport msg) := by
  have hcached := viewsAgree_iff.mp h
  unfold onRemoteBitrateReport KeepsRate
  cases honly : g.packetFeedbackOnly with
  | true => simp [h]
  | false =>
      rw [viewsAgree_iff]
      simp only [Bool.false_eq_true, if_false, forall_const, hcached,
        SendSideBandwidthEstimation.targetRate_updateReceiverEstimate]
      exact eq_comm

theorem viewsAgree_rtt (h : g.ViewsAgree) (msg : RoundTripTimeUpdate) :
    (g.onRoundTripTimeUpdate msg).ViewsAgree := by
  unfold onRoundTripTimeUpdate
  split_ifs
  · exact h
  · rw [viewsAgree_iff, SendSideBandwidthEstimation.targetRate_core,
      SendSideBandwidthEstimation.core_updateRtt]
    exact viewsAgree_iff.mp h

theorem viewsAgree_step_iff (h : g.ViewsAgree) (call : ViewCall) :
    (g.viewCall call).ViewsAgree ↔ g.KeepsRate call := by
  cases call with
  | onTargetRateConstraints constraints =>
      exact iff_true_intro (viewsAgree_maybeTriggerOnNetworkChanged _ _)
  | onTransportLossReport msg => exact viewsAgree_loss_iff h msg
  | onRemoteBitrateReport msg => exact viewsAgree_limit_iff h msg
  | onRoundTripTimeUpdate msg => exact iff_true_intro (viewsAgree_rtt h msg)
  | onProcessInterval atTime => exact iff_true_intro h

/-- Before every call of a run OnProcessInterval leaves the two views in agreement exactly when
they agree at its start and every report of it leaves the estimation at its rate. -/
theorem views_agree_iff (g : GoogCcNetworkController F) (calls : List ViewCall) :
    (∀ done, done <+: calls → ∀ t, (g.afterViewCalls (done ++ [.onProcessInterval t])).ViewsAgree) ↔
      g.ViewsAgree ∧
        ∀ done call, done ++ [call] <+: calls → (g.afterViewCalls done).KeepsRate call := by
  have hprocess : ∀ done t, (g.afterViewCalls (done ++ [.onProcessInterval t])).ViewsAgree ↔
      (g.afterViewCalls done).ViewsAgree := by
    intro done t
    unfold afterViewCalls
    rw [List.foldl_append]
    rfl
  have hruns : g.ViewsAgree → ((∀ done, done <+: calls → (g.afterViewCalls done).ViewsAgree) ↔
      ∀ done call, done ++ [call] <+: calls → (g.afterViewCalls done).KeepsRate call) := by
    intro hstart
    refine Machine.foldl_all_iff (P := ViewsAgree (F := F)) (C := KeepsRate) hstart ?_ calls
    intro done call h
    rw [List.foldl_append]
    exact viewsAgree_step_iff h call
  simp only [hprocess]
  constructor
  · intro hall
    have hstart : g.ViewsAgree := hall [] List.nil_prefix .plusInfinity
    exact ⟨hstart, (hruns hstart).mp fun done hdone => hall done hdone .plusInfinity⟩
  · rintro ⟨hstart, hkeeps⟩ done hdone -
    exact (hruns hstart).mpr hkeeps done hdone

end Views

/-- The default rate as the starting rate. -/
def defaultConfig : NetworkControllerConfig Rational :=
  { constraints := { startingRate := some (.bitsPerSec 500000) } }

/-- A limit of 100 kbit/s after the start. -/
def limitedBelow : List ViewCall := [.onRemoteBitrateReport ⟨.finite 0, .bitsPerSec 100000⟩]

/-- OnProcessInterval does not bring the cached rate down to the limit. -/
theorem views_disagree :
    (new defaultConfig).ViewsAgree ∧
      ((new defaultConfig).afterViewCalls
          (limitedBelow ++ [.onProcessInterval (.finite 1000000)])).lastPushbackTargetRate =
        .bitsPerSec 500000 ∧
      ((new defaultConfig).afterViewCalls
          (limitedBelow ++ [.onProcessInterval (.finite 1000000)])).getSenderSideDataRate =
        .bitsPerSec 100000 ∧
      ¬ ((new defaultConfig).afterViewCalls
          (limitedBelow ++ [.onProcessInterval (.finite 1000000)])).ViewsAgree := by
  refine ⟨(viewsAgree_new_iff defaultConfig).mpr rfl, rfl, rfl, ?_⟩
  intro h
  have hsame := viewsAgree_iff.mp h
  revert hsame
  decide

end GoogCcNetworkController
end ChromeGcc
