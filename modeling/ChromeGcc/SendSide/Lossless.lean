import ChromeGcc.SendSide.LowLoss

/-! An estimation that is never told of a loss: neither its target nor its history falls below
the initial rate, though a jump of the start phase may be taken back. -/
namespace ChromeGcc
namespace SendSideBandwidthEstimation
open FloatArith UnitBase

/-- The rate that the estimation starts from. -/
def initialTarget : DataRate := .bitsPerSec initialPacingRate

/-- No loss has been counted, and the rates are not below the initial one. -/
structure Unharmed {F : Type} [FloatArith F] (e : SendSideBandwidthEstimation F) : Prop where
  regular : e.core.Regular
  lost : e.lostPacketsSinceLastLossUpdate = 0
  fraction : e.lastFractionLoss = 0
  target : initialTarget ≤ e.currentTarget
  history : ∀ h ∈ e.minBitrateHistory, InRange h.2 ∧ initialTarget ≤ h.2

section Fields
variable {F : Type} [FloatArith F] {e d : SendSideBandwidthEstimation F}

theorem unharmed_fresh : Unharmed ({} : SendSideBandwidthEstimation F) where
  regular := regular_fresh
  lost := rfl
  fraction := rfl
  target := le_refl _
  history _ hh := absurd hh List.not_mem_nil

/-- What matters is in the core and in the loss accounting. -/
theorem Unharmed.congr (h : e.Unharmed) (hcore : d.core = e.core)
    (hlost : d.lostPacketsSinceLastLossUpdate = 0) : d.Unharmed where
  regular := by
    rw [hcore]
    exact h.regular
  lost := hlost
  fraction := (congrArg Core.fractionLoss hcore).trans h.fraction
  target := h.target.trans (congrArg Core.target hcore).ge
  history := by
    rw [show d.minBitrateHistory = e.minBitrateHistory from congrArg Core.history hcore]
    exact h.history

/-- A limit of the receiver caps the rate that is used, not the target. -/
theorem Unharmed.updateReceiverEstimate (h : e.Unharmed) (t : Timestamp) (bandwidth : DataRate) :
    (e.updateReceiverEstimate t bandwidth).Unharmed := by
  have hcore := core_updateReceiverEstimate e t bandwidth
  rw [h.regular.clamp_of_inRange h.regular.target] at hcore
  constructor
  · rw [hcore]
    exact h.regular.update _ _ h.regular.target _
  · exact (congrArg ReportFields.lost (reportFields_updateTargetBitrate _ t _)).trans h.lost
  · exact (congrArg Core.fractionLoss hcore).trans h.fraction
  · exact h.target.trans (congrArg Core.target hcore).ge
  · have hhistory := congrArg Core.history hcore
    intro entry he
    exact h.history entry (by rwa [← show _ = e.minBitrateHistory from hhistory])

theorem fraction_of_no_loss (h : e.lostPacketsSinceLastLossUpdate = 0) (n : Int) (t : Timestamp) :
    (e.reported 0 n t).lastFractionLoss = 0 := by
  unfold reported
  by_cases hfirst : e.firstReportTime.isInfinite = true
  · simp only [hfirst, if_true, h, Int.add_zero, Int.zero_mul, Int.zero_tdiv]
    rfl
  · simp only [if_neg hfirst, h, Int.add_zero, Int.zero_mul, Int.zero_tdiv]
    rfl

/-- Without loss no report counts a lost packet. -/
theorem lost_updatePacketsLost (h : e.lostPacketsSinceLastLossUpdate = 0) (n : Int) (t : Timestamp) :
    (e.updatePacketsLost 0 n t).lostPacketsSinceLastLossUpdate = 0 := by
  refine (congrArg ReportFields.lost (reportFields_updatePacketsLost e t 0 n)).trans ?_
  split_ifs
  · rw [h]
    rfl
  · rfl
  · exact h

end Fields

section Rounded
variable {K : Type} [Field K] [LinearOrder K] [FloorRing K] {r : Rounding K}
  [IsStrictOrderedRing K] {e : SendSideBandwidthEstimation (Double r)}

/-- A loss of nothing takes nothing off a rate. -/
theorem le_decreasedBitrate_zero {x : DataRate} (h : InRange x) :
    x ≤ decreasedBitrate (Double r) x 0 := by
  obtain ⟨x, rfl, hlow, hhigh⟩ := h.exists_finite
  have hx : (ofInt x : Double r).val = x := val_ofInt_eq (by rw [abs_le]; omega)
  have hpart : (ofInt (512 - ((0 : Nat) : Int)) : Double r).val = ((512 : Int) : K) :=
    val_ofInt_eq (n := 512) (by decide)
  have hwhole : (lit 512 : Double r).val = 512 := by
    exact_mod_cast val_lit_int (r := r) (n := 512) (by norm_num)
  have hmul : ((x * 512 : Int) : K) ≤ (ofInt x * ofInt (512 - ((0 : Nat) : Int)) : Double r).val := by
    refine r.le_rnd (by rw [abs_le]; omega) ?_
    rw [hx, hpart, ← Int.cast_mul]
  have hdiv : (x : K) ≤
      (ofInt x * ofInt (512 - ((0 : Nat) : Int)) / lit 512 : Double r).val := by
    rw [val_div _ _ (by rw [hwhole]; norm_num), hwhole]
    refine r.le_rnd (by rw [abs_le]; omega) ?_
    rw [le_div_iff₀ (by norm_num)]
    exact_mod_cast hmul
  exact finite_le_finite.mpr (le_truncField hdiv)

/-- Whichever way UpdateEstimate goes, it goes from rates that are not below the initial one. -/
theorem Unharmed.updateEstimate (h : e.Unharmed) (t : Timestamp) : (e.updateEstimate t).Unharmed := by
  have hstart : InRange initialTarget := inRange_initial
  have above : ∀ {rate : DataRate}, initialTarget ≤ rate → initialTarget ≤ e.core.clamp rate := by
    intro rate hrate
    rw [← h.regular.clamp_of_inRange hstart]
    exact h.regular.clamp_mono hrate
  have pushed : ∀ entry ∈ e.core.pushed t, InRange entry.2 ∧ initialTarget ≤ entry.2 := by
    intro entry he
    rcases MinQueue.mem_push he with he | rfl
    · exact h.history entry he
    · exact ⟨h.regular.target, h.target⟩
  have settled : ∀ {history : List (Timestamp × DataRate)} {rate : DataRate},
      (e.updateEstimate t).core =
        { e.core with history := history, target := e.core.clamp rate } →
      (∀ entry ∈ history, InRange entry.2 ∧ initialTarget ≤ entry.2) → initialTarget ≤ rate →
      (e.updateEstimate t).Unharmed := by
    intro history rate hcore hhistory hrate
    constructor
    · exact regular_updateEstimate h.regular t
    · exact (congrArg ReportFields.lost (reportFields_updateEstimate e t)).trans h.lost
    · exact (congrArg Core.fractionLoss hcore).trans h.fraction
    · exact (above hrate).trans (congrArg Core.target hcore).ge
    · rw [show (e.updateEstimate t).minBitrateHistory = history from congrArg Core.history hcore]
      exact hhistory
  rcases updateEstimate_cases e t with ⟨-, hcore⟩ | ⟨-, -, hcore⟩ | ⟨-, -, hcore | hcore⟩
  · refine settled hcore ?_ (h.target.trans e.core.le_startBitrate)
    intro entry he
    cases List.mem_singleton.mp he
    exact ⟨h.regular.target, h.target⟩
  · obtain ⟨front, rest, hpush, hfront⟩ := minHistoryFront_updateMinHistory e t
    have hmem : front ∈ pushedHistory e.core.history e.core.target t := hpush ▸ List.mem_cons_self
    obtain ⟨hrange, hrate⟩ := pushed front hmem
    rw [hfront] at hcore
    exact settled hcore pushed (hrate.trans hrange.le_increased)
  · rw [show e.core.fractionLoss = 0 from h.fraction] at hcore
    exact settled hcore pushed (h.target.trans (le_decreasedBitrate_zero h.regular.target))
  · exact settled hcore pushed h.target

theorem Unharmed.updatePacketsLost (h : e.Unharmed) (n : Int) (t : Timestamp) :
    (e.updatePacketsLost 0 n t).Unharmed := by
  have hlost := lost_updatePacketsLost h.lost n t
  by_cases hn : e.Completes n
  · have hcore := core_reported e 0 n t
    have hreported : (e.reported 0 n t).Unharmed := by
      constructor
      · exact regular_reported h.regular 0 n t
      · rfl
      · exact fraction_of_no_loss h.lost n t
      · exact h.target.trans (congrArg Core.target hcore).ge
      · rw [show (e.reported 0 n t).minBitrateHistory = e.minBitrateHistory from
          congrArg Core.history hcore]
        exact h.history
    exact (hreported.updateEstimate t).congr (core_updatePacketsLost hn 0 t) hlost
  · exact h.congr (core_updatePacketsLost_accumulate hn 0 t) hlost

end Rounded
end SendSideBandwidthEstimation
end ChromeGcc
