import ChromeGcc.SendSide.Runs
import ChromeGcc.Base.Trace

/-! The configured limits over runs of every operation. The operations that set the limits
do not apply them to the target, and a missing maximum is replaced without a look at the
minimum; every other operation restores the range. -/
namespace ChromeGcc
namespace SendSideBandwidthEstimation
open FloatArith UnitBase

/-- The operations on an estimation that touch its limits or its target. -/
inductive Operation where
  | setBitrates (sendBitrate : Option DataRate) (minBitrate maxBitrate : DataRate)
  | setMinMaxBitrate (minBitrate maxBitrate : DataRate)
  | setSendBitrate (bitrate : DataRate)
  | updateReceiverEstimate (bandwidth : DataRate)
  | updateDelayBasedEstimate (bitrate : DataRate)
  | updatePacketsLost (packetsLost numberOfPackets : Int)
  | updateRtt (rtt : TimeDelta)
  | onRouteChange
  deriving DecidableEq, Repr

theorem Core.clamp_le_max {F : Type} {c : Core F} (h : c.minConfigured ≤ c.maxConfigured)
    (rate : DataRate) : c.clamp rate ≤ c.maxConfigured :=
  max_le h ((min_le_right _ _).trans (min_le_right _ _))

section Operations
variable {F : Type} [FloatArith F]

def perform (e : SendSideBandwidthEstimation F) (o : Timestamp × Operation) :
    SendSideBandwidthEstimation F :=
  match o.2 with
  | .setBitrates sendBitrate minBitrate maxBitrate =>
    e.setBitrates sendBitrate minBitrate maxBitrate o.1
  | .setMinMaxBitrate minBitrate maxBitrate => e.setMinMaxBitrate minBitrate maxBitrate
  | .setSendBitrate bitrate => e.setSendBitrate bitrate o.1
  | .updateReceiverEstimate bandwidth => e.updateReceiverEstimate o.1 bandwidth
  | .updateDelayBasedEstimate bitrate => e.updateDelayBasedEstimate o.1 bitrate
  | .updatePacketsLost packetsLost numberOfPackets =>
    e.updatePacketsLost packetsLost numberOfPackets o.1
  | .updateRtt rtt => e.updateRtt rtt o.1
  | .onRouteChange => e.onRouteChange

/-- The estimation after operations on a new object. -/
def afterOperations (F : Type) [FloatArith F] (ops : List (Timestamp × Operation)) :
    SendSideBandwidthEstimation F := ops.foldl perform {}

/-- The range that the limits promise for the rate given to the sender. -/
structure WithinLimits (e : SendSideBandwidthEstimation F) : Prop where
  ordered : e.minBitrateConfigured ≤ e.maxBitrateConfigured
  above : e.minBitrateConfigured ≤ e.targetRate
  below : e.targetRate ≤ e.maxBitrateConfigured

/-- The target of target_rate before the minimum is put under it. -/
def cappedTarget (e : SendSideBandwidthEstimation F) : DataRate :=
  if e.receiverLimitCapsOnly then min e.currentTarget e.receiverLimit else e.currentTarget

/-- The limits that SetMinMaxBitrate stores. -/
def lowerLimit (minBitrate : DataRate) : DataRate := max minBitrate getMinBitrate

def upperLimit (minBitrate maxBitrate : DataRate) : DataRate :=
  if maxBitrate > .zero ∧ maxBitrate.isFinite then max (lowerLimit minBitrate) maxBitrate
  else kDefaultMaxBitrate

/-- The maximum is a rate of its own, or its default is not below the minimum. -/
def Ordered (minBitrate maxBitrate : DataRate) : Prop :=
  (maxBitrate > .zero ∧ maxBitrate.isFinite = true) ∨ lowerLimit minBitrate ≤ kDefaultMaxBitrate

/-- What an operation that sets the limits needs: limits in order, and, where it sets no
send rate, a target that is already below the new maximum. -/
def KeepsLimits (e : SendSideBandwidthEstimation F) : Operation → Prop
  | .setBitrates (some _) minBitrate maxBitrate => Ordered minBitrate maxBitrate
  | .setBitrates none minBitrate maxBitrate =>
    Ordered minBitrate maxBitrate ∧ e.cappedTarget ≤ upperLimit minBitrate maxBitrate
  | .setMinMaxBitrate minBitrate maxBitrate =>
    Ordered minBitrate maxBitrate ∧ e.cappedTarget ≤ upperLimit minBitrate maxBitrate
  | _ => True

theorem ordered_iff {minBitrate maxBitrate : DataRate} :
    lowerLimit minBitrate ≤ upperLimit minBitrate maxBitrate ↔ Ordered minBitrate maxBitrate := by
  unfold Ordered upperLimit
  by_cases h : maxBitrate > .zero ∧ maxBitrate.isFinite = true
  · rw [if_pos h]
    exact ⟨fun _ => .inl h, fun _ => le_max_left _ _⟩
  · rw [if_neg h]
    exact ⟨.inr, fun ho => ho.resolve_left h⟩

theorem targetRate_eq (e : SendSideBandwidthEstimation F) :
    e.targetRate = max e.minBitrateConfigured e.cappedTarget := rfl

theorem cappedTarget_le (e : SendSideBandwidthEstimation F) : e.cappedTarget ≤ e.currentTarget := by
  unfold cappedTarget
  split_ifs
  · exact min_le_left _ _
  · exact le_refl _

/-- The minimum is always kept; the rest is the order of the limits and a capped target. -/
theorem withinLimits_iff {e : SendSideBandwidthEstimation F} :
    e.WithinLimits ↔
      e.minBitrateConfigured ≤ e.maxBitrateConfigured ∧ e.cappedTarget ≤ e.maxBitrateConfigured := by
  constructor
  · intro h
    have hbelow := h.below
    rw [targetRate_eq] at hbelow
    exact ⟨h.ordered, (le_max_right _ _).trans hbelow⟩
  · intro h
    exact ⟨h.1, le_max_left _ _, max_le h.1 h.2⟩

theorem withinLimits_of_target {e : SendSideBandwidthEstimation F}
    (h : e.minBitrateConfigured ≤ e.maxBitrateConfigured)
    (ht : e.currentTarget ≤ e.maxBitrateConfigured) : e.WithinLimits :=
  withinLimits_iff.mpr ⟨h, e.cappedTarget_le.trans ht⟩

/-- What decides the range is part of the core. -/
theorem withinLimits_congr {e d : SendSideBandwidthEstimation F} (h : d.core = e.core) :
    d.WithinLimits ↔ e.WithinLimits := by
  have hmin : d.minBitrateConfigured = e.minBitrateConfigured := congrArg Core.minConfigured h
  have hmax : d.maxBitrateConfigured = e.maxBitrateConfigured := congrArg Core.maxConfigured h
  have htarget : d.currentTarget = e.currentTarget := congrArg Core.target h
  have hlimit : d.receiverLimit = e.receiverLimit := congrArg Core.receiverLimit h
  have hcaps : d.receiverLimitCapsOnly = e.receiverLimitCapsOnly := congrArg Core.capsOnly h
  rw [withinLimits_iff, withinLimits_iff, cappedTarget, cappedTarget, hmin, hmax, htarget, hlimit,
    hcaps]

theorem limits_updateTargetBitrate (e : SendSideBandwidthEstimation F) (rate : DataRate)
    (t : Timestamp) :
    (e.updateTargetBitrate rate t).minBitrateConfigured = e.minBitrateConfigured ∧
      (e.updateTargetBitrate rate t).maxBitrateConfigured = e.maxBitrateConfigured :=
  ⟨congrArg Core.minConfigured (core_updateTargetBitrate e rate t),
    congrArg Core.maxConfigured (core_updateTargetBitrate e rate t)⟩

/-- A target clamped to limits that are in order restores the range. -/
theorem withinLimits_of_clamped {e d : SendSideBandwidthEstimation F}
    {history : List (Timestamp × DataRate)} {rate : DataRate}
    (hcore : d.core = { e.core with history := history, target := e.core.clamp rate })
    (h : e.minBitrateConfigured ≤ e.maxBitrateConfigured) : d.WithinLimits := by
  have hmin : d.minBitrateConfigured = e.minBitrateConfigured := congrArg Core.minConfigured hcore
  have hmax : d.maxBitrateConfigured = e.maxBitrateConfigured := congrArg Core.maxConfigured hcore
  have htarget : d.currentTarget = e.core.clamp rate := congrArg Core.target hcore
  apply withinLimits_of_target
  · rw [hmin, hmax]
    exact h
  · rw [htarget, hmax]
    exact Core.clamp_le_max h rate

theorem withinLimits_updateTargetBitrate {e : SendSideBandwidthEstimation F}
    (h : e.minBitrateConfigured ≤ e.maxBitrateConfigured) (rate : DataRate) (t : Timestamp) :
    (e.updateTargetBitrate rate t).WithinLimits :=
  withinLimits_of_clamped (core_updateTargetBitrate e rate t) h

theorem withinLimits_updateEstimate {e : SendSideBandwidthEstimation F}
    (h : e.minBitrateConfigured ≤ e.maxBitrateConfigured) (t : Timestamp) :
    (e.updateEstimate t).WithinLimits := by
  obtain ⟨history, rate, hcore⟩ := core_updateEstimate e t
  exact withinLimits_of_clamped hcore h

theorem withinLimits_updatePacketsLost {e : SendSideBandwidthEstimation F} (h : e.WithinLimits)
    (lost n : Int) (t : Timestamp) : (e.updatePacketsLost lost n t).WithinLimits := by
  by_cases hn : e.Completes n
  · have hreported := core_reported e lost n t
    rw [withinLimits_congr (core_updatePacketsLost hn lost t)]
    apply withinLimits_updateEstimate
    rw [show (e.reported lost n t).minBitrateConfigured = e.minBitrateConfigured from
        congrArg Core.minConfigured hreported,
      show (e.reported lost n t).maxBitrateConfigured = e.maxBitrateConfigured from
        congrArg Core.maxConfigured hreported]
    exact h.ordered
  · rw [withinLimits_congr (core_updatePacketsLost_accumulate hn lost t)]
    exact h

theorem limits_setMinMaxBitrate (e : SendSideBandwidthEstimation F) (lo hi : DataRate) :
    (e.setMinMaxBitrate lo hi).minBitrateConfigured = lowerLimit lo ∧
      (e.setMinMaxBitrate lo hi).maxBitrateConfigured = upperLimit lo hi ∧
        (e.setMinMaxBitrate lo hi).cappedTarget = e.cappedTarget := by
  unfold setMinMaxBitrate upperLimit
  dsimp only
  split_ifs
  · exact ⟨rfl, rfl, rfl⟩
  · exact ⟨rfl, rfl, rfl⟩

theorem withinLimits_setMinMaxBitrate {e : SendSideBandwidthEstimation F} {lo hi : DataRate} :
    (e.setMinMaxBitrate lo hi).WithinLimits ↔
      Ordered lo hi ∧ e.cappedTarget ≤ upperLimit lo hi := by
  obtain ⟨hmin, hmax, htarget⟩ := limits_setMinMaxBitrate e lo hi
  rw [withinLimits_iff, hmin, hmax, htarget, ordered_iff]

theorem limits_setSendBitrate (e : SendSideBandwidthEstimation F) (rate : DataRate) (t : Timestamp) :
    (e.setSendBitrate rate t).minBitrateConfigured = e.minBitrateConfigured ∧
      (e.setSendBitrate rate t).maxBitrateConfigured = e.maxBitrateConfigured :=
  limits_updateTargetBitrate { e with delayBasedLimit := .plusInfinity } rate t

theorem withinLimits_setSendBitrate {e : SendSideBandwidthEstimation F}
    (h : e.minBitrateConfigured ≤ e.maxBitrateConfigured) (rate : DataRate) (t : Timestamp) :
    (e.setSendBitrate rate t).WithinLimits := by
  have hupdate := withinLimits_updateTargetBitrate
    (e := { e with delayBasedLimit := .plusInfinity }) h rate t
  exact ⟨hupdate.ordered, hupdate.above, hupdate.below⟩

/-- With a send rate the limits are applied at once, so only their order matters. -/
theorem withinLimits_setBitrates_some {e : SendSideBandwidthEstimation F} {rate lo hi : DataRate}
    {t : Timestamp} : (e.setBitrates (some rate) lo hi t).WithinLimits ↔ Ordered lo hi := by
  obtain ⟨hmin, hmax, -⟩ := limits_setMinMaxBitrate e lo hi
  let started : SendSideBandwidthEstimation F :=
    { e.setMinMaxBitrate lo hi with
      linkCapacity := (e.setMinMaxBitrate lo hi).linkCapacity.onStartingRate rate }
  have hstarted : started.minBitrateConfigured ≤ started.maxBitrateConfigured ↔ Ordered lo hi := by
    rw [show started.minBitrateConfigured = lowerLimit lo from hmin,
      show started.maxBitrateConfigured = upperLimit lo hi from hmax, ordered_iff]
  obtain ⟨hmin', hmax'⟩ := limits_setSendBitrate started rate t
  constructor
  · intro h
    have hordered := h.ordered
    rw [show (e.setBitrates (some rate) lo hi t).minBitrateConfigured = _ from hmin',
      show (e.setBitrates (some rate) lo hi t).maxBitrateConfigured = _ from hmax', hstarted] at hordered
    exact hordered
  · intro h
    exact withinLimits_setSendBitrate (hstarted.mpr h) rate t

/-- What one operation does to the range: it keeps it exactly under its condition. -/
theorem withinLimits_perform {e : SendSideBandwidthEstimation F} (h : e.WithinLimits)
    (o : Timestamp × Operation) : (e.perform o).WithinLimits ↔ e.KeepsLimits o.2 := by
  obtain ⟨t, o⟩ := o
  cases o with
  | setBitrates sendBitrate lo hi =>
      cases sendBitrate with
      | none => exact withinLimits_setMinMaxBitrate
      | some rate => exact withinLimits_setBitrates_some
  | setMinMaxBitrate lo hi => exact withinLimits_setMinMaxBitrate
  | setSendBitrate rate => exact iff_of_true (withinLimits_setSendBitrate h.ordered rate t) trivial
  | updateReceiverEstimate bandwidth =>
      refine iff_of_true ?_ trivial
      exact withinLimits_updateTargetBitrate
        (e := { e with receiverLimit := if bandwidth.isZero then .plusInfinity else bandwidth })
        h.ordered _ t
  | updateDelayBasedEstimate bitrate =>
      refine iff_of_true ?_ trivial
      exact withinLimits_updateTargetBitrate
        (e := { e with
          linkCapacity := e.linkCapacity.updateDelayBasedEstimate t bitrate
          delayBasedLimit := if bitrate.isZero then .plusInfinity else bitrate }) h.ordered _ t
  | updatePacketsLost lost n => exact iff_of_true (withinLimits_updatePacketsLost h lost n t) trivial
  | updateRtt rtt => exact iff_of_true ((withinLimits_congr (core_updateRtt e rtt t)).mpr h) trivial
  | onRouteChange =>
      refine iff_of_true (withinLimits_of_target ?_ ?_) trivial
      · exact finite_le_finite.mpr (by decide)
      · exact finite_le_finite.mpr (by decide)

theorem withinLimits_fresh : ({} : SendSideBandwidthEstimation F).WithinLimits := by
  apply withinLimits_of_target
  · exact finite_le_finite.mpr (by decide)
  · exact finite_le_finite.mpr (by decide)

/-- The range holds after every operation of a run exactly when every operation that sets
the limits gives them in order and, without a send rate, not below the target in force. -/
theorem range_kept_iff (ops : List (Timestamp × Operation)) :
    (∀ done, done <+: ops → (afterOperations F done).WithinLimits) ↔
      ∀ done o, done ++ [o] <+: ops → (afterOperations F done).KeepsLimits o.2 := by
  unfold afterOperations
  refine Machine.foldl_all_iff (P := WithinLimits (F := F)) (C := fun e o => e.KeepsLimits o.2)
    withinLimits_fresh ?_ ops
  intro done o h
  rw [List.foldl_append]
  exact withinLimits_perform h o

end Operations

/-- A minimum of 2 Gbps and no maximum, with a send rate that is applied at once. -/
def highMinimum : List (Timestamp × Operation) :=
  [(.micros 0, .setBitrates (some (.bitsPerSec 3000000000)) (.bitsPerSec 2000000000) .plusInfinity)]

/-- A maximum below the initial rate. -/
def lowMaximum : List (Timestamp × Operation) :=
  [(.micros 0, .setMinMaxBitrate .zero (.bitsPerSec 100000))]

/-- The default maximum is put below the minimum, and a new maximum below the target. -/
theorem range_lost :
    (afterOperations Rational highMinimum).minBitrateConfigured = .bitsPerSec 2000000000 ∧
      (afterOperations Rational highMinimum).maxBitrateConfigured = .bitsPerSec 1000000000 ∧
      (afterOperations Rational highMinimum).targetRate = .bitsPerSec 2000000000 ∧
      (afterOperations Rational lowMaximum).maxBitrateConfigured = .bitsPerSec 100000 ∧
      (afterOperations Rational lowMaximum).targetRate = .bitsPerSec 500000 ∧
      ¬ (afterOperations Rational highMinimum).WithinLimits ∧
      ¬ (afterOperations Rational lowMaximum).WithinLimits := by
  have hhigh : (afterOperations Rational highMinimum).targetRate = .bitsPerSec 2000000000 ∧
      (afterOperations Rational highMinimum).maxBitrateConfigured = .bitsPerSec 1000000000 :=
    ⟨rfl, rfl⟩
  have hlow : (afterOperations Rational lowMaximum).targetRate = .bitsPerSec 500000 ∧
      (afterOperations Rational lowMaximum).maxBitrateConfigured = .bitsPerSec 100000 := ⟨rfl, rfl⟩
  refine ⟨rfl, hhigh.2, hhigh.1, hlow.2, hlow.1, ?_, ?_⟩
  · intro h
    have hbelow := h.below
    rw [hhigh.1, hhigh.2, finite_le_finite] at hbelow
    exact absurd hbelow (by decide)
  · intro h
    have hbelow := h.below
    rw [hlow.1, hlow.2, finite_le_finite] at hbelow
    exact absurd hbelow (by decide)

end SendSideBandwidthEstimation
end ChromeGcc
