import ChromeGcc.SendSide.Rates

/-! Runs of the estimation as a Sender drives it: receiver limits and loss reports.
The target stays within the default limits, and the history bounds it from above
except where the start phase jumped. -/
namespace ChromeGcc
namespace SendSideBandwidthEstimation
open FloatArith UnitBase

/-- The calls that a Sender makes on its estimation. -/
inductive Call where
  | updateReceiverEstimate (bandwidth : DataRate)
  | updatePacketsLost (packetsLost numberOfPackets : Int)
  deriving DecidableEq, Repr

theorem Core.le_startBitrate {F : Type} (c : Core F) : c.target ≤ c.startBitrate := by
  unfold Core.startBitrate
  dsimp only
  split_ifs
  · exact (le_max_right _ _).trans (le_max_right _ _)
  · exact le_max_right _ _
  · exact le_max_right _ _
  · exact le_refl _

section Calls
variable {F : Type} [FloatArith F]

def call (e : SendSideBandwidthEstimation F) (atTime : Timestamp) :
    Call → SendSideBandwidthEstimation F
  | .updateReceiverEstimate bandwidth => e.updateReceiverEstimate atTime bandwidth
  | .updatePacketsLost packetsLost numberOfPackets =>
    e.updatePacketsLost packetsLost numberOfPackets atTime

/-- The loss report completes enough packets for a loss fraction. -/
def Completes (e : SendSideBandwidthEstimation F) (numberOfPackets : Int) : Prop :=
  numberOfPackets > 0 ∧
    ¬ e.expectedPacketsSinceLastLossUpdate + numberOfPackets < kLimitNumPackets

instance (e : SendSideBandwidthEstimation F) (n : Int) : Decidable (e.Completes n) :=
  inferInstanceAs (Decidable (_ ∧ _))

/-- UpdatePacketsLost up to its call of UpdateEstimate. -/
def reported (e : SendSideBandwidthEstimation F) (packetsLost numberOfPackets : Int)
    (atTime : Timestamp) : SendSideBandwidthEstimation F :=
  let e := { e with lastLossFeedback := atTime }
  let e := if e.firstReportTime.isInfinite then { e with firstReportTime := atTime } else e
  { e with
    hasDecreasedSinceLastFractionLoss := false
    lastFractionLoss := toUint8 (min (toInt32 (((e.lostPacketsSinceLastLossUpdate + packetsLost) *
      256).tdiv (e.expectedPacketsSinceLastLossUpdate + numberOfPackets))) 255)
    lostPacketsSinceLastLossUpdate := 0
    expectedPacketsSinceLastLossUpdate := 0
    lastLossPacketReport := atTime }

/-- The call takes the start-phase shortcut to a limit above the target. -/
def JumpsOn (e : SendSideBandwidthEstimation F) (atTime : Timestamp) : Call → Prop
  | .updateReceiverEstimate _ => False
  | .updatePacketsLost packetsLost numberOfPackets =>
    e.Completes numberOfPackets ∧ (e.reported packetsLost numberOfPackets atTime).Jumps atTime

instance (e : SendSideBandwidthEstimation F) (t : Timestamp) (c : Call) : Decidable (e.JumpsOn t c) :=
  match c with
  | .updateReceiverEstimate _ => inferInstanceAs (Decidable False)
  | .updatePacketsLost _ _ => inferInstanceAs (Decidable (_ ∧ _))

/-- A report over too few packets leaves the target and the history alone. -/
theorem core_updatePacketsLost_accumulate {e : SendSideBandwidthEstimation F} {n : Int}
    (h : ¬ e.Completes n) (lost : Int) (t : Timestamp) :
    (e.updatePacketsLost lost n t).core = e.core := by
  unfold updatePacketsLost
  by_cases hfirst : e.firstReportTime.isInfinite = true
  · simp only [hfirst, if_true]
    split_ifs with hn hfew
    · rfl
    · exact absurd ⟨hn, hfew⟩ h
    · rw [core_updateUmaStatsPacketsLost]
      rfl
  · simp only [if_neg hfirst]
    split_ifs with hn hfew
    · rfl
    · exact absurd ⟨hn, hfew⟩ h
    · rw [core_updateUmaStatsPacketsLost]
      rfl

theorem core_updatePacketsLost {e : SendSideBandwidthEstimation F} {n : Int} (h : e.Completes n)
    (lost : Int) (t : Timestamp) :
    (e.updatePacketsLost lost n t).core = ((e.reported lost n t).updateEstimate t).core := by
  unfold updatePacketsLost reported
  by_cases hfirst : e.firstReportTime.isInfinite = true
  · simp only [hfirst, if_true, if_pos h.1, if_neg h.2, core_updateUmaStatsPacketsLost]
  · simp only [if_neg hfirst, if_pos h.1, if_neg h.2, core_updateUmaStatsPacketsLost]

theorem core_reported (e : SendSideBandwidthEstimation F) (lost n : Int) (t : Timestamp) :
    (e.reported lost n t).core =
      { e.core with fractionLoss := (e.reported lost n t).lastFractionLoss } := by
  unfold reported
  by_cases hfirst : e.firstReportTime.isInfinite = true
  · simp only [hfirst, if_true]
    rfl
  · simp only [if_neg hfirst]
    rfl

theorem lastLossPacketReport_reported (e : SendSideBandwidthEstimation F) (lost n : Int)
    (t : Timestamp) : (e.reported lost n t).lastLossPacketReport = t := rfl

theorem lastFractionLoss_reported_le (e : SendSideBandwidthEstimation F) (lost n : Int)
    (t : Timestamp) : (e.reported lost n t).lastFractionLoss ≤ 512 := by
  have h : ∀ m : Int, toUint8 m ≤ 512 := by
    intro m
    unfold toUint8
    omega
  exact h _

/-- The estimation after calls on a fresh object. -/
def afterCalls (F : Type) [FloatArith F] (calls : List (Timestamp × Call)) :
    SendSideBandwidthEstimation F := calls.foldl (fun e c => e.call c.1 c.2) {}

/-- The latest call that took the start-phase shortcut: its time, and the target it left. -/
def latestJump (F : Type) [FloatArith F] (calls : List (Timestamp × Call)) :
    Option (Timestamp × DataRate) :=
  (calls.foldl (fun s c => (s.1.call c.1 c.2,
    if s.1.JumpsOn c.1 c.2 then some (c.1, s.1.currentTarget) else s.2))
      (({} : SendSideBandwidthEstimation F), none)).2

theorem afterCalls_snoc (calls : List (Timestamp × Call)) (t : Timestamp) (c : Call) :
    afterCalls F (calls ++ [(t, c)]) = (afterCalls F calls).call t c :=
  List.foldl_concat _ _ _ _

theorem latestJump_snoc (calls : List (Timestamp × Call)) (t : Timestamp) (c : Call) :
    latestJump F (calls ++ [(t, c)]) =
      if (afterCalls F calls).JumpsOn t c then some (t, (afterCalls F calls).currentTarget)
      else latestJump F calls := by
  have hfst : ∀ (l : List (Timestamp × Call)) (s : SendSideBandwidthEstimation F)
      (j : Option (Timestamp × DataRate)),
      (l.foldl (fun s c => (s.1.call c.1 c.2,
        if s.1.JumpsOn c.1 c.2 then some (c.1, s.1.currentTarget) else s.2)) (s, j)).1 =
        l.foldl (fun e c => e.call c.1 c.2) s := by
    intro l
    induction l with
    | nil => intro s j; rfl
    | cons c l ih => intro s j; exact ih _ _
  unfold latestJump afterCalls
  rw [List.foldl_append, ← hfst calls {} none]
  rfl

/-- A rate within the default limits. -/
def InRange (rate : DataRate) : Prop := getMinBitrate ≤ rate ∧ rate ≤ kDefaultMaxBitrate

theorem InRange.exists_finite {rate : DataRate} (h : InRange rate) :
    ∃ x : Int, rate = .finite x ∧ 5000 ≤ x ∧ x ≤ 1000000000 := by
  obtain ⟨hlow, hhigh⟩ := h
  cases rate with
  | minusInfinity => exact absurd (le_minusInfinity.mp hlow) (by decide)
  | plusInfinity => exact absurd (plusInfinity_le.mp hhigh) (by decide)
  | finite x => exact ⟨x, rfl, finite_le_finite.mp hlow, finite_le_finite.mp hhigh⟩

theorem inRange_initial : InRange (.bitsPerSec initialPacingRate) := ⟨by decide, by decide⟩

/-- No limit but the defaults is in force, and the target obeys them. -/
structure Core.Regular (c : Core F) : Prop where
  delayBasedLimit : c.delayBasedLimit = .plusInfinity
  minConfigured : c.minConfigured = getMinBitrate
  maxConfigured : c.maxConfigured = kDefaultMaxBitrate
  lowLossThreshold : c.lowLossThreshold = kDefaultLowLossThreshold F
  bitrateThreshold : c.bitrateThreshold = kDefaultBitrateThreshold
  capsOnly : c.capsOnly = true
  target : InRange c.target

variable {c : Core F}

theorem Core.Regular.clamp_eq (h : c.Regular) (b : DataRate) :
    c.clamp b = max getMinBitrate (min b kDefaultMaxBitrate) := by
  rw [Core.clamp, h.delayBasedLimit, h.minConfigured, h.maxConfigured,
    min_eq_right (le_plusInfinity kDefaultMaxBitrate)]

theorem Core.Regular.inRange_clamp (h : c.Regular) (b : DataRate) : InRange (c.clamp b) := by
  rw [h.clamp_eq]
  exact ⟨le_max_left _ _, max_le (by decide) (min_le_right _ _)⟩

theorem Core.Regular.clamp_of_inRange (h : c.Regular) {b : DataRate} (hb : InRange b) :
    c.clamp b = b := by
  rw [h.clamp_eq, min_eq_left hb.2, max_eq_right hb.1]

theorem Core.Regular.clamp_mono (h : c.Regular) {a b : DataRate} (hab : a ≤ b) :
    c.clamp a ≤ c.clamp b := by
  rw [h.clamp_eq, h.clamp_eq]
  exact max_le_max_left _ (min_le_min_right _ hab)

theorem Core.Regular.clamp_le (h : c.Regular) {b : DataRate} (hb : getMinBitrate ≤ b) :
    c.clamp b ≤ b := by
  rw [h.clamp_eq]
  exact max_le hb (min_le_left _ _)

/-- Clamping cannot bring a rate below one within the limits, nor raise it to it. -/
theorem Core.Regular.le_clamp_iff (h : c.Regular) {a b : DataRate} (ha : InRange a)
    (hb : getMinBitrate ≤ b) : a ≤ c.clamp b ↔ a ≤ b := by
  constructor
  · intro hab
    exact hab.trans (h.clamp_le hb)
  · intro hab
    rw [← h.clamp_of_inRange ha]
    exact h.clamp_mono hab

/-- The default limits stay in force whatever the other fields become. -/
theorem Core.Regular.update (h : c.Regular) (history : List (Timestamp × DataRate))
    (receiverLimit : DataRate) {rate : DataRate} (hrate : InRange rate) (n : Nat) :
    ({ c with
      history := history
      receiverLimit := receiverLimit
      target := rate
      fractionLoss := n } : Core F).Regular :=
  ⟨h.delayBasedLimit, h.minConfigured, h.maxConfigured, h.lowLossThreshold, h.bitrateThreshold,
    h.capsOnly, hrate⟩

theorem regular_reported {e : SendSideBandwidthEstimation F} (h : e.core.Regular) (lost n : Int)
    (t : Timestamp) : (e.reported lost n t).core.Regular := by
  rw [core_reported]
  exact h.update _ _ h.target _

theorem regular_updateEstimate {e : SendSideBandwidthEstimation F} (h : e.core.Regular)
    (t : Timestamp) : (e.updateEstimate t).core.Regular := by
  obtain ⟨history, rate, hcore⟩ := core_updateEstimate e t
  rw [hcore]
  exact h.update _ _ (h.inRange_clamp _) _

theorem regular_call {e : SendSideBandwidthEstimation F} (h : e.core.Regular) (t : Timestamp)
    (c : Call) : (e.call t c).core.Regular := by
  cases c with
  | updateReceiverEstimate bandwidth =>
      rw [call, core_updateReceiverEstimate]
      exact h.update _ _ (h.inRange_clamp _) _
  | updatePacketsLost lost n =>
      by_cases hn : e.Completes n
      · rw [call, core_updatePacketsLost hn]
        exact regular_updateEstimate (regular_reported h lost n t) t
      · rw [call, core_updatePacketsLost_accumulate hn]
        exact h

theorem regular_fresh : ({} : SendSideBandwidthEstimation F).core.Regular :=
  ⟨rfl, rfl, rfl, rfl, rfl, rfl, inRange_initial⟩

/-- The target of a Sender stays within the default limits, whatever it is told. -/
theorem regular_afterCalls (calls : List (Timestamp × Call)) :
    (afterCalls F calls).core.Regular := by
  induction calls using List.reverseRecOn with
  | nil => exact regular_fresh
  | append_singleton calls c ih =>
      rw [afterCalls_snoc]
      exact regular_call ih c.1 c.2

end Calls

end SendSideBandwidthEstimation
end ChromeGcc
