import ChromeGcc.SendSide.Estimation
import ChromeGcc.Base.MinQueue

/-! What each operation does to the fields that decide the target. -/
namespace ChromeGcc
namespace SendSideBandwidthEstimation
open FloatArith

/-- The fields that decide the target, without logs, statistics and link capacity. -/
structure Core (F : Type) where
  history : List (Timestamp × DataRate)
  target : DataRate
  minConfigured : DataRate
  maxConfigured : DataRate
  receiverLimit : DataRate
  delayBasedLimit : DataRate
  fractionLoss : Nat
  lowLossThreshold : F
  bitrateThreshold : DataRate
  capsOnly : Bool

variable {F : Type} [FloatArith F]

def core (e : SendSideBandwidthEstimation F) : Core F where
  history := e.minBitrateHistory
  target := e.currentTarget
  minConfigured := e.minBitrateConfigured
  maxConfigured := e.maxBitrateConfigured
  receiverLimit := e.receiverLimit
  delayBasedLimit := e.delayBasedLimit
  fractionLoss := e.lastFractionLoss
  lowLossThreshold := e.lowLossThreshold
  bitrateThreshold := e.bitrateThreshold
  capsOnly := e.receiverLimitCapsOnly

/-- A rate brought within the configured limits; the lower one wins. -/
def Core.clamp (c : Core F) (rate : DataRate) : DataRate :=
  max c.minConfigured (min rate (min c.delayBasedLimit c.maxConfigured))

@[simp] theorem core_maybeLogLowBitrateWarning (e : SendSideBandwidthEstimation F) (b : DataRate)
    (t : Timestamp) : (e.maybeLogLowBitrateWarning b t).core = e.core := by
  unfold maybeLogLowBitrateWarning
  split_ifs <;> rfl

@[simp] theorem core_maybeLogLossBasedEvent (e : SendSideBandwidthEstimation F) (t : Timestamp) :
    (e.maybeLogLossBasedEvent t).core = e.core := by
  unfold maybeLogLossBasedEvent
  split_ifs <;> rfl

/-- UpdateTargetBitrate sets the target to the clamped rate. -/
theorem core_updateTargetBitrate (e : SendSideBandwidthEstimation F) (b : DataRate) (t : Timestamp) :
    (e.updateTargetBitrate b t).core = { e.core with target := e.core.clamp b } := by
  have log : ∀ (d : SendSideBandwidthEstimation F) (rate : DataRate), d.core = e.core →
      ({ d with currentTarget := rate }.maybeLogLossBasedEvent t).core =
        { e.core with target := rate } := by
    intro d rate hd
    rw [core_maybeLogLossBasedEvent, ← hd]
    rfl
  unfold updateTargetBitrate
  dsimp only
  by_cases hlow : min b e.getUpperLimit < e.minBitrateConfigured
  · rw [if_pos hlow]
    have hclamp : e.core.clamp b = e.minBitrateConfigured := max_eq_left hlow.le
    rw [hclamp]
    exact log _ _ (core_maybeLogLowBitrateWarning e (min b e.getUpperLimit) t)
  · rw [if_neg hlow]
    have hclamp : e.core.clamp b = min b e.getUpperLimit := max_eq_right (not_lt.mp hlow)
    rw [hclamp]
    exact log _ _ rfl

theorem core_applyTargetLimits (e : SendSideBandwidthEstimation F) (t : Timestamp) :
    (e.applyTargetLimits t).core = { e.core with target := e.core.clamp e.core.target } :=
  core_updateTargetBitrate e _ t

@[simp] theorem core_updateUmaStatsPacketsLost (e : SendSideBandwidthEstimation F) (t : Timestamp)
    (n : Int) : (e.updateUmaStatsPacketsLost t n).core = e.core := by
  unfold updateUmaStatsPacketsLost
  dsimp only
  split_ifs <;> rfl

theorem core_updateReceiverEstimate (e : SendSideBandwidthEstimation F) (t : Timestamp)
    (bandwidth : DataRate) :
    (e.updateReceiverEstimate t bandwidth).core =
      { e.core with
        receiverLimit := if bandwidth.isZero then .plusInfinity else bandwidth
        target := e.core.clamp e.core.target } := by
  rw [updateReceiverEstimate, core_applyTargetLimits]
  rfl

theorem core_updateRtt (e : SendSideBandwidthEstimation F) (rtt : TimeDelta) (t : Timestamp) :
    (e.updateRtt rtt t).core = e.core := by
  unfold updateRtt
  dsimp only
  split_ifs <;> rfl

/-- The history after an update at a time. -/
def Core.pushed (c : Core F) (t : Timestamp) : List (Timestamp × DataRate) :=
  MinQueue.push (historyExpired t) c.history t c.target

/-- The rate that the start phase takes: the largest finite limit, if above the target. -/
def Core.startBitrate (c : Core F) : DataRate :=
  let newBitrate := if c.receiverLimit.isFinite then max c.receiverLimit c.target else c.target
  if c.delayBasedLimit.isFinite then max c.delayBasedLimit newBitrate else newBitrate

/-- UpdateEstimate jumps: no loss in the start phase, and a limit above the target. -/
def Jumps (e : SendSideBandwidthEstimation F) (t : Timestamp) : Prop :=
  e.lastFractionLoss = 0 ∧ e.isInStartPhase t = true ∧ e.core.startBitrate ≠ e.currentTarget

instance (e : SendSideBandwidthEstimation F) (t : Timestamp) : Decidable (e.Jumps t) :=
  inferInstanceAs (Decidable (_ ∧ _ ∧ _))

/-- The loss fraction as the float the thresholds are compared with. -/
def lossFraction (F : Type) [FloatArith F] (n : Nat) : F := narrow (ofInt n / lit 256)

/-- The low-loss branch is taken: feedback is recent and the loss at most two percent. -/
def LowLoss (e : SendSideBandwidthEstimation F) (t : Timestamp) : Prop :=
  e.lastLossPacketReport.isInfinite = false ∧
    (t - e.lastLossPacketReport : TimeDelta) < kMaxRtcpFeedbackInterval.scale (lit 1.2 : F) ∧
    (e.currentTarget < e.bitrateThreshold ∨ lossFraction F e.lastFractionLoss ≤ e.lowLossThreshold)

/-- UpdateEstimate after the history was updated. -/
def adjustToLoss (e : SendSideBandwidthEstimation F) (t : Timestamp) :
    SendSideBandwidthEstimation F :=
  if e.lastLossPacketReport.isInfinite then e.applyTargetLimits t
  else if (t - e.lastLossPacketReport : TimeDelta) < kMaxRtcpFeedbackInterval.scale (lit 1.2 : F) then
    if e.currentTarget < e.bitrateThreshold ∨
        lossFraction F e.lastFractionLoss ≤ e.lowLossThreshold then
      e.updateTargetBitrate (increasedBitrate F e.minHistoryFront) t
    else if e.currentTarget > e.bitrateThreshold ∧
        ¬ lossFraction F e.lastFractionLoss ≤ e.highLossThreshold ∧
        !e.hasDecreasedSinceLastFractionLoss ∧
        t - e.timeLastDecrease ≥ kBweDecreaseInterval + e.lastRoundTripTime then
      { e with
        timeLastDecrease := t
        hasDecreasedSinceLastFractionLoss := true }.updateTargetBitrate
          (decreasedBitrate F e.currentTarget e.lastFractionLoss) t
    else e.applyTargetLimits t
  else e.applyTargetLimits t

theorem updateEstimate_jump {e : SendSideBandwidthEstimation F} {t : Timestamp} (h : e.Jumps t) :
    e.updateEstimate t =
      { e with minBitrateHistory := [(t, e.currentTarget)] }.updateTargetBitrate
        e.core.startBitrate t :=
  if_pos h

theorem updateEstimate_regular {e : SendSideBandwidthEstimation F} {t : Timestamp}
    (h : ¬ e.Jumps t) : e.updateEstimate t = (e.updateMinHistory t).adjustToLoss t :=
  if_neg h

theorem adjustToLoss_lowLoss {e : SendSideBandwidthEstimation F} {t : Timestamp} (h : e.LowLoss t) :
    e.adjustToLoss t = e.updateTargetBitrate (increasedBitrate F e.minHistoryFront) t := by
  unfold adjustToLoss
  rw [if_neg (by rw [h.1]; exact Bool.false_ne_true), if_pos h.2.1, if_pos h.2.2]

/-- Without low loss the target is decreased, or only kept within its limits. -/
theorem core_adjustToLoss {e : SendSideBandwidthEstimation F} {t : Timestamp} (h : ¬ e.LowLoss t) :
    (e.adjustToLoss t).core =
        { e.core with target := e.core.clamp (decreasedBitrate F e.core.target e.core.fractionLoss) } ∨
      (e.adjustToLoss t).core = { e.core with target := e.core.clamp e.core.target } := by
  unfold adjustToLoss
  split_ifs with hinf hrecent hlow hdec
  · exact .inr (core_applyTargetLimits e t)
  · rw [Bool.not_eq_true] at hinf
    exact absurd ⟨hinf, hrecent, hlow⟩ h
  · left
    rw [core_updateTargetBitrate]
    rfl
  · exact .inr (core_applyTargetLimits e t)
  · exact .inr (core_applyTargetLimits e t)

/-- The four ways of UpdateEstimate: a jump of the start phase, an increase, a decrease,
or only a history entry. -/
theorem updateEstimate_cases (e : SendSideBandwidthEstimation F) (t : Timestamp) :
    (e.Jumps t ∧ (e.updateEstimate t).core =
        { e.core with
          history := [(t, e.core.target)]
          target := e.core.clamp e.core.startBitrate }) ∨
      (¬ e.Jumps t ∧ e.LowLoss t ∧ (e.updateEstimate t).core =
        { e.core with
          history := e.core.pushed t
          target := e.core.clamp (increasedBitrate F (e.updateMinHistory t).minHistoryFront) }) ∨
      (¬ e.Jumps t ∧ ¬ e.LowLoss t ∧
        ((e.updateEstimate t).core =
            { e.core with
              history := e.core.pushed t
              target := e.core.clamp (decreasedBitrate F e.core.target e.core.fractionLoss) } ∨
          (e.updateEstimate t).core =
            { e.core with history := e.core.pushed t, target := e.core.clamp e.core.target })) := by
  by_cases hj : e.Jumps t
  · left
    refine ⟨hj, ?_⟩
    rw [updateEstimate_jump hj, core_updateTargetBitrate]
    rfl
  · right
    rw [updateEstimate_regular hj]
    by_cases hl : e.LowLoss t
    · left
      refine ⟨hj, hl, ?_⟩
      rw [adjustToLoss_lowLoss (e := e.updateMinHistory t) hl, core_updateTargetBitrate]
      rfl
    · right
      exact ⟨hj, hl, core_adjustToLoss (e := e.updateMinHistory t) hl⟩

/-- Whichever way it takes, UpdateEstimate changes the history and clamps a new target. -/
theorem core_updateEstimate (e : SendSideBandwidthEstimation F) (t : Timestamp) :
    ∃ history rate,
      (e.updateEstimate t).core = { e.core with history := history, target := e.core.clamp rate } := by
  rcases updateEstimate_cases e t with ⟨-, hcore⟩ | ⟨-, -, hcore⟩ | ⟨-, -, hcore | hcore⟩
  · exact ⟨_, _, hcore⟩
  · exact ⟨_, _, hcore⟩
  · exact ⟨_, _, hcore⟩
  · exact ⟨_, _, hcore⟩

/-! Only a report changes the loss accounting and the time of the first report. -/

structure ReportFields where
  lost : Int
  expected : Int
  fraction : Nat
  firstReport : Timestamp
  deriving DecidableEq, Repr

def reportFields (e : SendSideBandwidthEstimation F) : ReportFields where
  lost := e.lostPacketsSinceLastLossUpdate
  expected := e.expectedPacketsSinceLastLossUpdate
  fraction := e.lastFractionLoss
  firstReport := e.firstReportTime

section Frame
variable (e : SendSideBandwidthEstimation F) (t : Timestamp)

theorem reportFields_updateTargetBitrate (rate : DataRate) :
    (e.updateTargetBitrate rate t).reportFields = e.reportFields := by
  unfold updateTargetBitrate maybeLogLossBasedEvent maybeLogLowBitrateWarning
  dsimp only
  split_ifs <;> rfl

theorem reportFields_adjustToLoss : (e.adjustToLoss t).reportFields = e.reportFields := by
  unfold adjustToLoss
  split_ifs
  · exact reportFields_updateTargetBitrate e t _
  · exact reportFields_updateTargetBitrate e t _
  · exact reportFields_updateTargetBitrate _ t _
  · exact reportFields_updateTargetBitrate e t _
  · exact reportFields_updateTargetBitrate e t _

theorem reportFields_updateEstimate : (e.updateEstimate t).reportFields = e.reportFields := by
  by_cases hj : e.Jumps t
  · rw [updateEstimate_jump hj]
    exact reportFields_updateTargetBitrate _ t _
  · rw [updateEstimate_regular hj]
    exact reportFields_adjustToLoss (e.updateMinHistory t) t

theorem reportFields_updateUmaStatsPacketsLost (n : Int) :
    (e.updateUmaStatsPacketsLost t n).reportFields = e.reportFields := by
  unfold updateUmaStatsPacketsLost
  dsimp only
  split_ifs <;> rfl

/-- The time of the first report after one at a time. -/
def firstReportBy (e : SendSideBandwidthEstimation F) (t : Timestamp) : Timestamp :=
  if e.firstReportTime.isInfinite then t else e.firstReportTime

/-- The three ways of UpdatePacketsLost: no packets, too few for a fraction, and enough. -/
theorem reportFields_updatePacketsLost (lost n : Int) :
    (e.updatePacketsLost lost n t).reportFields =
      if n > 0 then
        if e.expectedPacketsSinceLastLossUpdate + n < kLimitNumPackets then
          { lost := toInt32 (e.lostPacketsSinceLastLossUpdate + lost)
            expected := toInt32 (e.expectedPacketsSinceLastLossUpdate + n)
            fraction := e.lastFractionLoss
            firstReport := e.firstReportBy t }
        else
          { lost := 0
            expected := 0
            fraction := toUint8 (min (toInt32 (((e.lostPacketsSinceLastLossUpdate + lost) * 256).tdiv
              (e.expectedPacketsSinceLastLossUpdate + n))) 255)
            firstReport := e.firstReportBy t }
      else { e.reportFields with firstReport := e.firstReportBy t } := by
  unfold updatePacketsLost firstReportBy
  by_cases hfirst : e.firstReportTime.isInfinite = true
  · simp only [hfirst, if_true]
    split_ifs
    · rfl
    · rw [reportFields_updateUmaStatsPacketsLost, reportFields_updateEstimate]
      rfl
    · rw [reportFields_updateUmaStatsPacketsLost]
      rfl
  · simp only [if_neg hfirst]
    split_ifs
    · rfl
    · rw [reportFields_updateUmaStatsPacketsLost, reportFields_updateEstimate]
      rfl
    · rw [reportFields_updateUmaStatsPacketsLost]
      rfl

end Frame

end SendSideBandwidthEstimation
end ChromeGcc
