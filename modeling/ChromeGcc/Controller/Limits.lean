import ChromeGcc.Controller.GoogCc
import ChromeGcc.SendSide.Runs

/-! The configured rate limits. The constructor keeps the constraints of its configuration
without applying them, so the default limits are in force. -/
namespace ChromeGcc
namespace GoogCcNetworkController
open FloatArith UnitBase

/-- The two reports that a Sender passes to its controller. -/
inductive Report where
  | transportLoss (msg : TransportLossReport)
  | remoteBitrate (msg : RemoteBitrateReport)
  deriving DecidableEq, Repr

def Report.receiveTime : Report → Timestamp
  | .transportLoss msg => msg.receiveTime
  | .remoteBitrate msg => msg.receiveTime

section Reports
variable {F : Type} [FloatArith F]

def onReport (g : GoogCcNetworkController F) : Report → GoogCcNetworkController F
  | .transportLoss msg => g.onTransportLossReport msg
  | .remoteBitrate msg => g.onRemoteBitrateReport msg

def afterReports (config : NetworkControllerConfig F) (reports : List Report) :
    GoogCcNetworkController F := reports.foldl onReport (new config)

/-- The call on the estimation that a report becomes. -/
def Report.toCall : Report → Timestamp × SendSideBandwidthEstimation.Call
  | .transportLoss msg => (msg.receiveTime, .updatePacketsLost (toInt64 msg.packetsLostDelta)
      (toInt64 (msg.packetsReceivedDelta + msg.packetsLostDelta : Nat)))
  | .remoteBitrate msg => (msg.receiveTime, .updateReceiverEstimate msg.bandwidth)

theorem onReport_eq {g : GoogCcNetworkController F} (h : g.packetFeedbackOnly = false)
    (report : Report) :
    g.onReport report = { g with
      bandwidthEstimation := g.bandwidthEstimation.call report.toCall.1 report.toCall.2 } := by
  cases report with
  | transportLoss msg =>
      unfold onReport onTransportLossReport
      rw [h]
      rfl
  | remoteBitrate msg =>
      unfold onReport onRemoteBitrateReport
      rw [h]
      rfl

/-- The estimation of a controller goes through the calls that its reports become. -/
theorem afterReports_estimation (config : NetworkControllerConfig F) (reports : List Report) :
    (afterReports config reports).packetFeedbackOnly = false ∧
      (afterReports config reports).bandwidthEstimation =
        SendSideBandwidthEstimation.afterCalls F (reports.map Report.toCall) := by
  induction reports using List.reverseRecOn with
  | nil => exact ⟨rfl, rfl⟩
  | append_singleton reports report ih =>
      have hstep : afterReports config (reports ++ [report]) =
          (afterReports config reports).onReport report := List.foldl_concat _ _ _ _
      rw [hstep, onReport_eq ih.1]
      refine ⟨ih.1, ?_⟩
      rw [List.map_append, List.map_singleton, ih.2,
        show report.toCall = (report.toCall.1, report.toCall.2) from rfl,
        SendSideBandwidthEstimation.afterCalls_snoc]

/-- The rate given to the sender keeps the default limits. -/
theorem inRange_targetRate {e : SendSideBandwidthEstimation F} (h : e.core.Regular) :
    SendSideBandwidthEstimation.InRange e.targetRate := by
  have hmin : e.minBitrateConfigured = getMinBitrate := h.minConfigured
  unfold SendSideBandwidthEstimation.targetRate
  rw [hmin, show e.receiverLimitCapsOnly = true from h.capsOnly]
  refine ⟨le_max_left _ _, max_le (finite_le_finite.mpr (by decide)) ?_⟩
  exact (min_le_left _ _).trans h.target.2

/-- A configuration with finite limits around its starting rate. -/
structure Configured (config : NetworkControllerConfig F) (minRate startRate maxRate : Int) :
    Prop where
  minDataRate : config.constraints.minDataRate = some (.finite minRate)
  startingRate : config.constraints.startingRate = some (.finite startRate)
  maxDataRate : config.constraints.maxDataRate = some (.finite maxRate)
  fiveKbps_le : 5000 ≤ minRate
  min_le_start : minRate ≤ startRate
  start_le_max : startRate ≤ maxRate

/-- Reports in the order of their receive times. -/
def InOrder (reports : List Report) : Prop :=
  reports.Pairwise fun a b => a.receiveTime ≤ b.receiveTime

/-- A limit of 5 kbps brings the rate down to the default minimum. -/
def lowReports : List Report := [.remoteBitrate ⟨.finite 0, .finite 5000⟩]

/-- The start phase takes the rate up to the default maximum. -/
def highReports : List Report :=
  [.remoteBitrate ⟨.finite 0, .finite 1000000000⟩,
    .transportLoss ⟨.finite 0, .finite 0, .finite 0, 0, 20⟩]

theorem lowReports_rate (config : NetworkControllerConfig F) :
    (afterReports config lowReports).getSenderSideDataRate = .finite 5000 := by
  rw [getSenderSideDataRate, (afterReports_estimation config lowReports).2]
  rfl

theorem highReports_rate (config : NetworkControllerConfig F) :
    (afterReports config highReports).getSenderSideDataRate = .finite 1000000000 := by
  rw [getSenderSideDataRate, (afterReports_estimation config highReports).2]
  rfl

/-- The configured limits are honoured by every run exactly when they contain the defaults. -/
theorem configured_limits_honoured_iff {config : NetworkControllerConfig F}
    {minRate startRate maxRate : Int} (h : Configured config minRate startRate maxRate) :
    (∀ reports : List Report, InOrder reports →
        .finite minRate ≤ (afterReports config reports).getSenderSideDataRate ∧
          (afterReports config reports).getSenderSideDataRate ≤ .finite maxRate) ↔
      minRate = 5000 ∧ 1000000000 ≤ maxRate := by
  constructor
  · intro hall
    have hlow := (hall lowReports (List.pairwise_singleton _ _)).1
    have hhigh := (hall highReports (by simp [highReports, InOrder, Report.receiveTime])).2
    rw [lowReports_rate, finite_le_finite] at hlow
    rw [highReports_rate, finite_le_finite] at hhigh
    exact ⟨le_antisymm hlow h.fiveKbps_le, hhigh⟩
  · rintro ⟨rfl, hmax⟩ reports -
    have hreg := SendSideBandwidthEstimation.regular_afterCalls (F := F) (reports.map Report.toCall)
    have hrange := inRange_targetRate hreg
    rw [← (afterReports_estimation config reports).2] at hrange
    exact ⟨hrange.1, hrange.2.trans (finite_le_finite.mpr hmax)⟩

end Reports

/-- A configuration of three rates in bits per second. -/
def configOf (minRate startRate maxRate : Int) : NetworkControllerConfig Rational :=
  { constraints :=
      { minDataRate := some (.finite minRate)
        startingRate := some (.finite startRate)
        maxDataRate := some (.finite maxRate) } }

/-- From 5 kbps to 2 Gbps every run stays within the configured limits. -/
theorem configured_limits_honoured_wide :
    Configured (configOf 5000 300000 2000000000) 5000 300000 2000000000 ∧
      ∀ reports : List Report, InOrder reports →
        .finite 5000 ≤
            (afterReports (configOf 5000 300000 2000000000) reports).getSenderSideDataRate ∧
          (afterReports (configOf 5000 300000 2000000000) reports).getSenderSideDataRate ≤
            .finite 2000000000 :=
  have h : Configured (configOf 5000 300000 2000000000) 5000 300000 2000000000 :=
    ⟨rfl, rfl, rfl, by decide, by decide, by decide⟩
  ⟨h, (configured_limits_honoured_iff h).mpr ⟨rfl, by decide⟩⟩

/-- Configured for 1 to 3 Mbps, a new controller gives 500 kbps. -/
theorem configured_minimum_ignored :
    Configured (configOf 1000000 2000000 3000000) 1000000 2000000 3000000 ∧ InOrder [] ∧
      ¬ .finite 1000000 ≤
        (afterReports (configOf 1000000 2000000 3000000) []).getSenderSideDataRate ∧
      (afterReports (configOf 1000000 2000000 3000000) []).getSenderSideDataRate = .finite 500000 := by
  have hrate : (afterReports (configOf 1000000 2000000 3000000) []).getSenderSideDataRate =
      .finite 500000 := rfl
  refine ⟨⟨rfl, rfl, rfl, by decide, by decide, by decide⟩, List.Pairwise.nil, ?_, hrate⟩
  rw [hrate, finite_le_finite]
  decide

end GoogCcNetworkController
end ChromeGcc
