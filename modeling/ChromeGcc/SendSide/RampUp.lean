import ChromeGcc.SendSide.LowLoss

/-! How fast the target may rise. Once the start phase is over, every report of a second
starts its increase from a rate that the target had in that second. -/
namespace ChromeGcc
namespace SendSideBandwidthEstimation
open FloatArith UnitBase

/-- The start phase is over at a time. -/
structure StartPhaseOver {F : Type} [FloatArith F] (e : SendSideBandwidthEstimation F)
    (s : Timestamp) : Prop where
  reported : e.firstReportTime.isFinite = true
  past : kStartPhase ≤ s - e.firstReportTime

section Steps
variable {F : Type} [FloatArith F] {e : SendSideBandwidthEstimation F} {s t : Timestamp}

theorem StartPhaseOver.not_isInStartPhase (h : StartPhaseOver e s) (hst : s ≤ t) :
    e.isInStartPhase t = false := by
  obtain ⟨first, hfirst⟩ := isFinite_iff.mp h.reported
  have hpast := h.past
  unfold isInStartPhase
  rw [hfirst] at hpast ⊢
  have hlater : kStartPhase ≤ t - (.finite first : Timestamp) := by
    cases s with
    | minusInfinity =>
        have hnever : ¬ kStartPhase ≤ (.minusInfinity : TimeDelta) := by decide
        exact absurd hpast hnever
    | plusInfinity =>
        rw [plusInfinity_le] at hst
        rw [hst]
        exact hpast
    | finite s =>
        cases t with
        | minusInfinity => simp at hst
        | plusInfinity => exact le_plusInfinity _
        | finite t =>
            refine hpast.trans ?_
            rw [Timestamp.finite_sub, Timestamp.finite_sub, finite_le_finite]
            have := finite_le_finite.mp hst
            omega
  rw [isInfinite_finite, Bool.false_or, decide_eq_false_iff_not, not_lt]
  exact hlater

theorem firstReportBy_of_finite (h : e.firstReportTime.isFinite = true) :
    e.firstReportBy t = e.firstReportTime := by
  rw [firstReportBy, isInfinite, h]
  rfl

/-- A known time of the first report is kept. -/
theorem firstReportTime_call (h : e.firstReportTime.isFinite = true) (c : Call) :
    (e.call t c).firstReportTime = e.firstReportTime := by
  cases c with
  | updateReceiverEstimate bandwidth =>
      exact congrArg ReportFields.firstReport (reportFields_updateTargetBitrate _ t _)
  | updatePacketsLost lost n =>
      have hstep := congrArg ReportFields.firstReport (reportFields_updatePacketsLost e t lost n)
      rw [firstReportBy_of_finite h] at hstep
      refine hstep.trans ?_
      split_ifs <;> rfl

theorem firstReportTime_reported (e : SendSideBandwidthEstimation F) (lost n : Int) (t : Timestamp) :
    (e.reported lost n t).firstReportTime = e.firstReportBy t := by
  unfold reported firstReportBy
  by_cases hfirst : e.firstReportTime.isInfinite = true
  · simp only [hfirst, if_true]
  · simp only [if_neg hfirst]

theorem StartPhaseOver.call (h : StartPhaseOver e s) (c : Call) : StartPhaseOver (e.call t c) s := by
  have hsame := firstReportTime_call (t := t) h.reported c
  exact ⟨by rw [hsame]; exact h.reported, by rw [hsame]; exact h.past⟩

/-- After the start phase no report jumps. -/
theorem StartPhaseOver.not_jumps (h : StartPhaseOver e s) (hst : s ≤ t) (lost n : Int) :
    ¬ (e.reported lost n t).Jumps t := by
  rintro ⟨-, hphase, -⟩
  have hsame : (e.reported lost n t).firstReportTime = e.firstReportTime :=
    (firstReportTime_reported e lost n t).trans (firstReportBy_of_finite h.reported)
  have hover : StartPhaseOver (e.reported lost n t) s :=
    ⟨by rw [hsame]; exact h.reported, by rw [hsame]; exact h.past⟩
  rw [hover.not_isInStartPhase hst] at hphase
  cases hphase

end Steps

variable {K : Type} [Field K] [LinearOrder K] [FloorRing K] {r : Rounding K}

/-- The rise of the target since a time s at which it was rate: it is at most one increase of
that rate, and unless it has not moved a history entry since then is no higher than rate. -/
structure Rise (r : Rounding K) (s : Timestamp) (rate : DataRate) (c : Core (Double r)) : Prop where
  increasing : MinQueue.Increasing c.history
  inRange : ∀ h ∈ c.history, InRange h.2
  target_le : c.target ≤ increasedBitrate (Double r) rate
  anchor : c.target = rate ∨ ∃ h ∈ c.history, s ≤ h.1 ∧ h.2 ≤ rate

section Rise
variable {s t : Timestamp} {rate : DataRate} {c : Core (Double r)}

/-- The history after a report holds an entry since s that is no higher than the rate. -/
theorem Rise.anchor_push (h : Rise r s rate c) (hst : s ≤ t) (hfresh : historyExpired t s = false) :
    ∃ e ∈ c.pushed t, s ≤ e.1 ∧ e.2 ≤ rate := by
  rcases h.anchor with hsame | ⟨e, he, hse, hrate⟩
  · exact ⟨(t, c.target), MinQueue.new_mem_push, hst, hsame.le⟩
  · exact MinQueue.exists_le_push (p := (s ≤ ·)) he
      (fun _ hlater => historyExpired_eq_false hlater hfresh) hse hrate hst

theorem Rise.inRange_push (h : Rise r s rate c) (htarget : InRange c.target) :
    ∀ e ∈ c.pushed t, InRange e.2 := by
  intro e he
  rcases MinQueue.mem_push he with he | rfl
  · exact h.inRange e he
  · exact htarget

variable [IsStrictOrderedRing K]

/-- A report keeps the bound if its new target is no higher than the old one, or than the
increase of the rate at the front. -/
theorem Rise.push (h : Rise r s rate c) (htarget : InRange c.target) (hrate : InRange rate)
    (hst : s ≤ t) (hfresh : historyExpired t s = false) {front : Timestamp × DataRate}
    {rest : List (Timestamp × DataRate)} (hfront : c.pushed t = front :: rest) {next : DataRate}
    (hnext : next ≤ c.target ∨ next ≤ increasedBitrate (Double r) front.2) (n : Nat) :
    Rise r s rate { c with history := c.pushed t, target := next, fractionLoss := n } where
  increasing := h.increasing.push
  inRange := h.inRange_push htarget
  target_le := by
    rcases hnext with hnext | hnext
    · exact hnext.trans h.target_le
    · obtain ⟨e, he, -, hle⟩ := h.anchor_push hst hfresh
      have hsorted : MinQueue.Increasing (c.pushed t) := h.increasing.push
      rw [hfront] at hsorted he
      have hfrontle : front.2 ≤ rate := (hsorted.front_le e he).trans hle
      have hrange : InRange front.2 :=
        h.inRange_push (t := t) htarget front (hfront ▸ List.mem_cons_self)
      exact hnext.trans (hrange.increased_mono hrate hfrontle)
  anchor := .inr (h.anchor_push hst hfresh)

end Rise

section Runs
variable [IsStrictOrderedRing K] {e : SendSideBandwidthEstimation (Double r)} {s t : Timestamp}
  {rate : DataRate}

theorem rise_updateEstimate (hreg : e.core.Regular) (hrate : InRange rate)
    (hloss : e.lastFractionLoss ≤ 512) (hj : ¬ e.Jumps t) (hst : s ≤ t)
    (hfresh : historyExpired t s = false) (h : Rise r s rate e.core) :
    Rise r s rate (e.updateEstimate t).core := by
  obtain ⟨front, rest, hpush, hfront⟩ := minHistoryFront_updateMinHistory e t
  have hpushed : e.core.pushed t = front :: rest := hpush
  have hmem : front ∈ e.core.pushed t := by
    rw [hpushed]
    exact List.mem_cons_self
  have hrange : InRange front.2 := h.inRange_push hreg.target front hmem
  rcases updateEstimate_cases e t with ⟨hjump, -⟩ | ⟨-, -, hcore⟩ | ⟨-, -, hcore | hcore⟩
  · exact absurd hjump hj
  · rw [hcore]
    refine h.push hreg.target hrate hst hfresh hpush (.inr ?_) _
    rw [hfront]
    exact hreg.clamp_le (hrange.1.trans hrange.le_increased)
  · rw [hcore]
    refine h.push hreg.target hrate hst hfresh hpush (.inl ?_) _
    have hless := hreg.clamp_mono (hreg.target.decreased_le (r := r) hloss)
    rwa [hreg.clamp_of_inRange hreg.target] at hless
  · rw [hcore]
    refine h.push hreg.target hrate hst hfresh hpush (.inl ?_) _
    exact (hreg.clamp_of_inRange hreg.target).le

theorem rise_call (hreg : e.core.Regular) (hrate : InRange rate) (hover : StartPhaseOver e s)
    (hst : s ≤ t) (hfresh : historyExpired t s = false) (h : Rise r s rate e.core) (c : Call) :
    Rise r s rate (e.call t c).core := by
  cases c with
  | updateReceiverEstimate bandwidth =>
      rw [call, core_updateReceiverEstimate, hreg.clamp_of_inRange hreg.target]
      exact ⟨h.increasing, h.inRange, h.target_le, h.anchor⟩
  | updatePacketsLost lost n =>
      by_cases hn : e.Completes n
      · have hbefore : Rise r s rate (e.reported lost n t).core := by
          rw [core_reported]
          exact ⟨h.increasing, h.inRange, h.target_le, h.anchor⟩
        rw [call, core_updatePacketsLost hn]
        exact rise_updateEstimate (regular_reported hreg lost n t) hrate
          (lastFractionLoss_reported_le e lost n t) (hover.not_jumps hst lost n) hst hfresh hbefore
      · rw [call, core_updatePacketsLost_accumulate hn]
        exact h

/-- The bound holds through any calls of the following second. -/
theorem rise_calls (hreg : e.core.Regular) (hrate : InRange rate) (hover : StartPhaseOver e s)
    (h : Rise r s rate e.core) {calls : List (Timestamp × Call)}
    (hcalls : ∀ c ∈ calls, s ≤ c.1 ∧ historyExpired c.1 s = false) :
    Rise r s rate (calls.foldl (fun e c => e.call c.1 c.2) e).core := by
  induction calls generalizing e with
  | nil => exact h
  | cons c calls ih =>
      obtain ⟨hst, hfresh⟩ := hcalls c List.mem_cons_self
      rw [List.foldl_cons]
      exact ih (regular_call hreg c.1 c.2) (hover.call c.2)
        (rise_call hreg hrate hover hst hfresh h c.2)
        fun d hd => hcalls d (List.mem_cons_of_mem c hd)

end Runs

/-- The calls of a run up to a time. -/
def callsUntil (calls : List (Timestamp × Call)) (t : Timestamp) : List (Timestamp × Call) :=
  calls.filter fun c => decide (c.1 ≤ t)

/-- Calls in order are those up to a time and those after it. -/
theorem callsUntil_append_after {calls : List (Timestamp × Call)} (h : InOrder calls)
    (s : Timestamp) : callsUntil calls s ++ (calls.filter fun c => decide (s < c.1)) = calls := by
  unfold callsUntil
  induction calls with
  | nil => rfl
  | cons c calls ih =>
      obtain ⟨hhead, htail⟩ := List.pairwise_cons.mp h
      by_cases hs : c.1 ≤ s
      · simp only [List.filter_cons, decide_eq_true hs, decide_eq_false (not_lt.mpr hs), if_true,
          Bool.false_eq_true, if_false, List.cons_append, ih htail]
      · have hlater : ∀ d ∈ c :: calls, s < d.1 := by
          intro d hd
          rcases List.mem_cons.mp hd with rfl | hd
          · exact not_le.mp hs
          · exact (not_le.mp hs).trans_le (hhead d hd)
        rw [List.filter_eq_nil_iff.mpr fun d hd => by simpa using hlater d hd,
          List.filter_eq_self.mpr fun d hd => by simpa using hlater d hd, List.nil_append]

theorem callsUntil_callsUntil {s t : Timestamp} (hst : s ≤ t) (calls : List (Timestamp × Call)) :
    callsUntil (callsUntil calls t) s = callsUntil calls s := by
  unfold callsUntil
  rw [List.filter_filter]
  refine List.filter_congr fun c _ => ?_
  rw [← Bool.decide_and, decide_eq_decide]
  exact ⟨fun h => h.1, fun h => ⟨h, h.trans hst⟩⟩

/-- Within 999 ms no history entry expires. -/
theorem historyExpired_of_within {s t : Timestamp} (h : t - s ≤ TimeDelta.millis 999) :
    historyExpired t s = false := by
  cases t with
  | minusInfinity =>
      cases s with
      | minusInfinity => exact absurd (plusInfinity_le.mp h) (by decide)
      | finite s => rfl
      | plusInfinity => rfl
  | finite t =>
      cases s with
      | minusInfinity => exact absurd (plusInfinity_le.mp h) (by decide)
      | finite s =>
          rw [historyExpired_finite, decide_eq_false_iff_not]
          have := finite_le_finite.mp h
          omega
      | plusInfinity => rfl
  | plusInfinity =>
      have hinf : (.plusInfinity : Timestamp) - s = (.plusInfinity : TimeDelta) := by cases s <;> rfl
      rw [hinf] at h
      exact absurd (plusInfinity_le.mp h) (by decide)

/-- current_target_ after the calls up to a time. -/
def targetAt (F : Type) [FloatArith F] (calls : List (Timestamp × Call)) (t : Timestamp) : DataRate :=
  (afterCalls F (callsUntil calls t)).currentTarget

section Bound
variable [IsStrictOrderedRing K] {calls : List (Timestamp × Call)} {s t : Timestamp}

/-- Under any rounding the target rises by at most one increase in a second. -/
theorem target_le_increased (h : InOrder calls)
    (hover : StartPhaseOver (afterCalls (Double r) (callsUntil calls s)) s) (hst : s ≤ t)
    (hwithin : t - s ≤ TimeDelta.millis 999) :
    targetAt (Double r) calls t ≤ increasedBitrate (Double r) (targetAt (Double r) calls s) := by
  have hreg : (afterCalls (Double r) (callsUntil calls s)).core.Regular := regular_afterCalls _
  have hearly : InOrder (callsUntil calls s) := h.sublist List.filter_sublist
  have huntil : ∀ c ∈ callsUntil calls s, c.1 ≤ s := fun c hc => by
    simpa [callsUntil] using (List.mem_filter.mp hc).2
  have hramp := ramp_afterCalls (r := r) hearly huntil
  have hstart : Rise r s (targetAt (Double r) calls s)
      (afterCalls (Double r) (callsUntil calls s)).core :=
    ⟨hramp.increasing, hramp.inRange, hreg.target.le_increased, .inl rfl⟩
  have hlate : InOrder (callsUntil calls t) := h.sublist List.filter_sublist
  have hsplit := callsUntil_append_after hlate s
  rw [callsUntil_callsUntil hst] at hsplit
  have hbetween : ∀ c ∈ (callsUntil calls t).filter (fun c => decide (s < c.1)),
      s ≤ c.1 ∧ historyExpired c.1 s = false := by
    intro c hc
    obtain ⟨hmem, hlater⟩ := List.mem_filter.mp hc
    have hle : c.1 ≤ t := by simpa [callsUntil] using (List.mem_filter.mp hmem).2
    have hsc : s < c.1 := by simpa using hlater
    refine ⟨hsc.le, ?_⟩
    by_contra hexp
    have hlate := historyExpired_mono hle (Bool.not_eq_false _ ▸ hexp)
    rw [historyExpired_of_within hwithin] at hlate
    cases hlate
  have hrise := rise_calls hreg hreg.target hover hstart hbetween
  have hfold : afterCalls (Double r) (callsUntil calls t) =
      ((callsUntil calls t).filter fun c => decide (s < c.1)).foldl (fun e c => e.call c.1 c.2)
        (afterCalls (Double r) (callsUntil calls s)) := by
    conv_lhs => rw [← hsplit]
    unfold afterCalls
    rw [List.foldl_append]
  rw [← hfold] at hrise
  exact hrise.target_le

/-- Without rounding an increase is at most eight percent and 1000.5 bits per second. -/
theorem increasedBitrate_exact (sqrt : K → K) (pow : K → K → K) (divZero : K → K) {y : Int}
    (hy : 0 ≤ y) :
    ((increasedBitrate (Double (Rounding.exact sqrt pow divZero)) (.finite y)).bps : K) ≤
      1.08 * y + 1000.5 := by
  have hgrown : grown (Rounding.exact sqrt pow divZero) y = 1.08 * (y : K) + 0.5 := by
    have hvalue : grown (Rounding.exact sqrt pow divZero) y =
        (y : K) * ((1.08 : ℚ).num / (1.08 : ℚ).den) + (0.5 : ℚ).num / (0.5 : ℚ).den := rfl
    rw [hvalue]
    norm_num
    ring
  have hy' : (0 : K) ≤ y := by exact_mod_cast hy
  have hnonneg : (0 : K) ≤ 1.08 * y + 0.5 := by positivity
  have hbps : (increasedBitrate (Double (Rounding.exact sqrt pow divZero)) (.finite y)).bps =
      ⌊1.08 * (y : K) + 0.5⌋ + 1000 := by
    rw [increasedBitrate_finite, hgrown, truncField, if_pos hnonneg]
    exact toValue_finite _
  have hfloor := Int.floor_le (1.08 * (y : K) + 0.5)
  rw [hbps]
  push_cast
  linarith

/-- After the start phase the target rises by at most eight percent and 1000.5 bits per
second in 999 ms, however many reports arrive. -/
theorem ramp_up_limited (sqrt : K → K) (pow : K → K → K) (divZero : K → K) (h : InOrder calls)
    (hover : StartPhaseOver
      (afterCalls (Double (Rounding.exact sqrt pow divZero)) (callsUntil calls s)) s)
    (hst : s ≤ t) (hwithin : t - s ≤ TimeDelta.millis 999) :
    ((targetAt (Double (Rounding.exact sqrt pow divZero)) calls t).bps : K) ≤
      1.08 * (targetAt (Double (Rounding.exact sqrt pow divZero)) calls s).bps + 1000.5 := by
  have hle := target_le_increased h hover hst hwithin
  have hreg : ∀ u, InRange (targetAt (Double (Rounding.exact sqrt pow divZero)) calls u) :=
    fun u => (regular_afterCalls (callsUntil calls u)).target
  obtain ⟨x, hx, -, -⟩ := (hreg t).exists_finite
  obtain ⟨y, hy, hlow, -⟩ := (hreg s).exists_finite
  have hexact := increasedBitrate_exact sqrt pow divZero (y := y) (by omega)
  rw [hx, hy, increasedBitrate_finite, finite_le_finite] at hle
  rw [increasedBitrate_finite] at hexact
  rw [hx, hy]
  have hcast : (x : K) ≤
      ((truncField (grown (Rounding.exact sqrt pow divZero) y) + 1000 : Int) : K) := by
    exact_mod_cast hle
  exact hcast.trans hexact

end Bound

/-- A report a second for three seconds, then reports every fifth of a second. -/
def frequentReports : List (Timestamp × Call) :=
  [(.finite 1000000, .updatePacketsLost 0 20), (.finite 2000000, .updatePacketsLost 0 20),
    (.finite 3000000, .updatePacketsLost 0 20), (.finite 3200000, .updatePacketsLost 0 20),
    (.finite 3400000, .updatePacketsLost 0 20), (.finite 3600000, .updatePacketsLost 0 20)]

theorem ramp_up_limited_frequent :
    ((targetAt Rational frequentReports (.finite 3900000)).bps : ℚ) ≤
      1.08 * (targetAt Rational frequentReports (.finite 3000000)).bps + 1000.5 :=
  ramp_up_limited id (fun x _ => x) id (by decide) ⟨by decide +kernel, by decide +kernel⟩ (by decide)
    (by decide)

end SendSideBandwidthEstimation
end ChromeGcc
