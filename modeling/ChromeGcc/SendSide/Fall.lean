import ChromeGcc.SendSide.RampUp

/-! How fast the target may fall. Once the start phase has been over for a second only loss lowers
it, by half at most, and not a second time within 300 ms. -/
namespace ChromeGcc
namespace SendSideBandwidthEstimation
open FloatArith UnitBase

/-- The members that decide when the target may be decreased. -/
structure DecreaseFields (F : Type) where
  timeLastDecrease : Timestamp
  lastRoundTripTime : TimeDelta
  highLossThreshold : F

/-- Those of them that no call of a Sender sets. -/
def DecreaseFields.fixed {F : Type} (d : DecreaseFields F) : TimeDelta × F :=
  (d.lastRoundTripTime, d.highLossThreshold)

section Frame
variable {F : Type} [FloatArith F]

def decreaseFields (e : SendSideBandwidthEstimation F) : DecreaseFields F where
  timeLastDecrease := e.timeLastDecrease
  lastRoundTripTime := e.lastRoundTripTime
  highLossThreshold := e.highLossThreshold

variable (e : SendSideBandwidthEstimation F) (t : Timestamp)

theorem decreaseFields_updateTargetBitrate (rate : DataRate) :
    (e.updateTargetBitrate rate t).decreaseFields = e.decreaseFields := by
  unfold updateTargetBitrate maybeLogLowBitrateWarning maybeLogLossBasedEvent
  dsimp only
  split_ifs <;> rfl

theorem decreaseFields_updateUmaStatsPacketsLost (n : Int) :
    (e.updateUmaStatsPacketsLost t n).decreaseFields = e.decreaseFields := by
  unfold updateUmaStatsPacketsLost
  dsimp only
  split_ifs <;> rfl

theorem decreaseFields_reported (lost n : Int) :
    (e.reported lost n t).decreaseFields = e.decreaseFields := by
  unfold reported
  dsimp only
  split_ifs <;> rfl

theorem decreaseFields_updatePacketsLost {n : Int} (lost : Int) :
    (e.updatePacketsLost lost n t).decreaseFields =
      if e.Completes n then ((e.reported lost n t).updateEstimate t).decreaseFields
      else e.decreaseFields := by
  by_cases h : e.Completes n
  · rw [if_pos h]
    unfold updatePacketsLost reported
    by_cases hfirst : e.firstReportTime.isInfinite = true
    · simp only [hfirst, if_true, if_pos h.1, if_neg h.2, decreaseFields_updateUmaStatsPacketsLost]
    · simp only [if_neg hfirst, if_pos h.1, if_neg h.2, decreaseFields_updateUmaStatsPacketsLost]
  · rw [if_neg h]
    unfold updatePacketsLost
    by_cases hfirst : e.firstReportTime.isInfinite = true
    · simp only [hfirst, if_true]
      split_ifs with hn hfew
      · rfl
      · exact absurd ⟨hn, hfew⟩ h
      · exact decreaseFields_updateUmaStatsPacketsLost _ _ _
    · simp only [if_neg hfirst]
      split_ifs with hn hfew
      · rfl
      · exact absurd ⟨hn, hfew⟩ h
      · exact decreaseFields_updateUmaStatsPacketsLost _ _ _

theorem lastFractionLoss_reported_lt (lost n : Int) : (e.reported lost n t).lastFractionLoss ≤ 255 := by
  have h : ∀ m : Int, toUint8 m ≤ 255 := by
    intro m
    unfold toUint8
    omega
  exact h _

/-- High loss lowers the target, some time after it did so last. -/
structure Decreases (e d : SendSideBandwidthEstimation F) (t : Timestamp) : Prop where
  lossy : ¬ lossFraction F e.lastFractionLoss ≤ e.highLossThreshold
  spaced : kBweDecreaseInterval + e.lastRoundTripTime ≤ t - e.timeLastDecrease
  fields : d.decreaseFields = { e.decreaseFields with timeLastDecrease := t }
  target : d.currentTarget = e.core.clamp (decreasedBitrate F e.currentTarget e.lastFractionLoss)

variable {e t}

theorem target_updateTargetBitrate (e : SendSideBandwidthEstimation F) (rate : DataRate)
    (t : Timestamp) : (e.updateTargetBitrate rate t).currentTarget = e.core.clamp rate :=
  congrArg Core.target (core_updateTargetBitrate e rate t)

/-- Without low loss the target is decreased, or only kept within its limits. -/
theorem decreases_adjustToLoss (h : ¬ e.LowLoss t) :
    e.Decreases (e.adjustToLoss t) t ∨ ((e.adjustToLoss t).decreaseFields = e.decreaseFields ∧
      (e.adjustToLoss t).currentTarget = e.core.clamp e.currentTarget) := by
  have hkept : (e.applyTargetLimits t).decreaseFields = e.decreaseFields ∧
      (e.applyTargetLimits t).currentTarget = e.core.clamp e.currentTarget :=
    ⟨decreaseFields_updateTargetBitrate _ _ _, target_updateTargetBitrate _ _ _⟩
  unfold adjustToLoss
  split_ifs with hinf hrecent hlow hdec
  · exact .inr hkept
  · rw [Bool.not_eq_true] at hinf
    exact absurd ⟨hinf, hrecent, hlow⟩ h
  · left
    refine ⟨hdec.2.1, hdec.2.2.2, decreaseFields_updateTargetBitrate _ _ _, ?_⟩
    exact target_updateTargetBitrate _ _ _
  · exact .inr hkept
  · exact .inr hkept

theorem exists_finite_between {s t : Int} {u : Timestamp} (hs : .finite s ≤ u) (ht : u ≤ .finite t) :
    ∃ v, u = .finite v := by
  cases hu : u with
  | minusInfinity => simp [hu] at hs
  | plusInfinity => simp [hu] at ht
  | finite v => exact ⟨v, rfl⟩

theorem StartPhaseOver.later {s s' : Int} (h : StartPhaseOver e (.finite s)) (hs : s ≤ s') :
    StartPhaseOver e (.finite s') := by
  obtain ⟨first, hfirst⟩ := isFinite_iff.mp h.reported
  have hpast := h.past
  refine ⟨h.reported, ?_⟩
  rw [hfirst] at hpast ⊢
  refine hpast.trans (finite_le_finite.mpr ?_)
  omega

theorem fixed_updateEstimate (e : SendSideBandwidthEstimation F) (t : Timestamp) :
    (e.updateEstimate t).decreaseFields.fixed = e.decreaseFields.fixed := by
  by_cases hj : e.Jumps t
  · rw [updateEstimate_jump hj]
    exact congrArg DecreaseFields.fixed (decreaseFields_updateTargetBitrate _ t _)
  · rw [updateEstimate_regular hj]
    unfold adjustToLoss
    split_ifs <;>
      exact (congrArg DecreaseFields.fixed (decreaseFields_updateTargetBitrate _ t _)).trans rfl

theorem fixed_call (e : SendSideBandwidthEstimation F) (t : Timestamp) (c : Call) :
    (e.call t c).decreaseFields.fixed = e.decreaseFields.fixed := by
  cases c with
  | updateReceiverEstimate bandwidth =>
      exact congrArg DecreaseFields.fixed (decreaseFields_updateTargetBitrate _ t _)
  | updatePacketsLost lost n =>
      have hfields := congrArg DecreaseFields.fixed
        (e.decreaseFields_updatePacketsLost t (n := n) lost)
      refine hfields.trans ?_
      split_ifs
      · refine (fixed_updateEstimate _ t).trans ?_
        exact congrArg DecreaseFields.fixed (e.decreaseFields_reported t lost n)
      · rfl

theorem fixed_afterCalls (calls : List (Timestamp × Call)) :
    (afterCalls F calls).decreaseFields.fixed = (.zero, kDefaultHighLossThreshold F) := by
  induction calls using List.reverseRecOn with
  | nil => rfl
  | append_singleton calls c ih =>
      rw [show c = (c.1, c.2) from rfl, afterCalls_snoc, fixed_call, ih]

theorem lastRoundTripTime_afterCalls (calls : List (Timestamp × Call)) :
    (afterCalls F calls).lastRoundTripTime = .zero := congrArg Prod.fst (fixed_afterCalls calls)

theorem highLossThreshold_afterCalls (calls : List (Timestamp × Call)) :
    (afterCalls F calls).highLossThreshold = kDefaultHighLossThreshold F :=
  congrArg Prod.snd (fixed_afterCalls calls)

theorem firstReportTime_updatePacketsLost (e : SendSideBandwidthEstimation F) (lost n : Int)
    (t : Timestamp) : (e.updatePacketsLost lost n t).firstReportTime = e.firstReportBy t := by
  refine (congrArg ReportFields.firstReport (reportFields_updatePacketsLost e t lost n)).trans ?_
  split_ifs <;> rfl

end Frame

section Falls
variable {K : Type} [Field K] [LinearOrder K] [FloorRing K] [IsStrictOrderedRing K]
  {r : Rounding K} {e : SendSideBandwidthEstimation (Double r)} {t : Timestamp}
  {jump : Option (Timestamp × DataRate)}

/-- A fraction of at most a tenth does not count as high loss. -/
theorem lossFraction_le_high {n : Nat} (hn : n ≤ 25) :
    lossFraction (Double r) n ≤ kDefaultHighLossThreshold (Double r) := by
  have hparts : (ofInt (n : Int) : Double r).val = ((n : Int) : K) :=
    val_ofInt_eq (by rw [abs_of_nonneg (by omega)]; omega)
  have hwhole : (lit 256 : Double r).val = 256 := by
    exact_mod_cast val_lit_int (r := r) (n := 256) (by norm_num)
  refine r.narrow_mono ?_
  rw [val_div _ _ (by rw [hwhole]; norm_num), hwhole, hparts]
  have hcast : ((n : Int) : K) ≤ 25 := by exact_mod_cast (show (n : Int) ≤ 25 by omega)
  have htenth : ((n : Int) : K) / 256 ≤ ((0.1 : ℚ).num : K) / (0.1 : ℚ).den := by
    refine (div_le_div_of_nonneg_right hcast (by norm_num)).trans ?_
    norm_num
  exact r.rnd_mono htenth

/-- Once the last jump has expired, a report does not lower the target unless it decreases it. -/
theorem falls_updateEstimate (hreg : e.core.Regular) (hj : ¬ e.Jumps t)
    (hramp : Ramp r e.core.history e.core.target jump t)
    (hexpired : ∀ tj rj, jump = some (tj, rj) → historyExpired t tj = true) :
    e.Decreases (e.updateEstimate t) t ∨ ((e.updateEstimate t).decreaseFields = e.decreaseFields ∧
      e.currentTarget ≤ (e.updateEstimate t).currentTarget) := by
  rw [updateEstimate_regular hj]
  by_cases hl : (e.updateMinHistory t).LowLoss t
  · right
    obtain ⟨h, rest, hpush, hfront⟩ := minHistoryFront_updateMinHistory e t
    have hmem : h ∈ pushedHistory e.core.history e.core.target t := hpush ▸ List.mem_cons_self
    have hrate : InRange h.2 := hramp.inRange_push hreg.target hmem
    rw [adjustToLoss_lowLoss hl, hfront, decreaseFields_updateTargetBitrate,
      target_updateTargetBitrate]
    refine ⟨rfl, ?_⟩
    refine (hreg.le_clamp_iff hreg.target (hrate.1.trans hrate.le_increased)).mpr ?_
    refine (hramp.target_le_increase_iff hreg.target hpush).mpr ?_
    intro tj rj hjump
    exact .inl (hexpired tj rj hjump)
  · rcases decreases_adjustToLoss hl with ⟨hlossy, hspaced, hfields, htarget⟩ | ⟨hfields, htarget⟩
    · exact .inl ⟨hlossy, hspaced, hfields, htarget⟩
    · right
      refine ⟨hfields, ?_⟩
      rw [htarget]
      exact (hreg.clamp_of_inRange hreg.target).ge

/-- The same for any call of a Sender, in terms of the fraction that its report sets. -/
theorem falls_call (hreg : e.core.Regular) {s : Timestamp} (hover : StartPhaseOver e s) (hst : s ≤ t)
    (hramp : Ramp r e.core.history e.core.target jump t)
    (hexpired : ∀ tj rj, jump = some (tj, rj) → historyExpired t tj = true) (c : Call) :
    (∃ n : Nat, n ≤ 255 ∧ (e.call t c).lastFractionLoss = n ∧
        ¬ lossFraction (Double r) n ≤ e.highLossThreshold ∧
        kBweDecreaseInterval + e.lastRoundTripTime ≤ t - e.timeLastDecrease ∧
        (e.call t c).decreaseFields = { e.decreaseFields with timeLastDecrease := t } ∧
        (e.call t c).currentTarget = e.core.clamp (decreasedBitrate (Double r) e.currentTarget n)) ∨
      ((e.call t c).decreaseFields = e.decreaseFields ∧
        e.currentTarget ≤ (e.call t c).currentTarget) := by
  cases c with
  | updateReceiverEstimate bandwidth =>
      right
      refine ⟨decreaseFields_updateTargetBitrate _ _ _, ?_⟩
      have hsame := congrArg Core.target (core_updateReceiverEstimate e t bandwidth)
      exact (hsame.trans (hreg.clamp_of_inRange hreg.target)).ge
  | updatePacketsLost lost n =>
      have hfields := e.decreaseFields_updatePacketsLost t (n := n) lost
      by_cases hn : e.Completes n
      · have hcore := core_reported e lost n t
        have hbefore : Ramp r (e.reported lost n t).core.history (e.reported lost n t).core.target
            jump t := by
          rw [hcore]
          exact hramp
        have htarget := congrArg Core.target (core_updatePacketsLost hn lost t)
        rw [if_pos hn] at hfields
        have hkept := e.decreaseFields_reported t lost n
        rcases falls_updateEstimate (regular_reported hreg lost n t) (hover.not_jumps hst lost n)
          hbefore hexpired with ⟨hlossy, hspaced, hlast, hdecreased⟩ | ⟨hlast, hle⟩
        · left
          refine ⟨(e.reported lost n t).lastFractionLoss, ?_, ?_, ?_, ?_, ?_, ?_⟩
          · exact lastFractionLoss_reported_lt e t lost n
          · have hstep := congrArg Core.fractionLoss (core_updatePacketsLost hn lost t)
            exact hstep.trans (fractionLoss_updateEstimate _ t)
          · have hthreshold := congrArg DecreaseFields.highLossThreshold hkept
            change (e.reported lost n t).highLossThreshold = e.highLossThreshold at hthreshold
            rwa [hthreshold] at hlossy
          · have hround := congrArg DecreaseFields.lastRoundTripTime hkept
            have htime := congrArg DecreaseFields.timeLastDecrease hkept
            change (e.reported lost n t).lastRoundTripTime = e.lastRoundTripTime at hround
            change (e.reported lost n t).timeLastDecrease = e.timeLastDecrease at htime
            rwa [hround, htime] at hspaced
          · rw [call, hfields, hlast, hkept]
          · refine htarget.trans (hdecreased.trans ?_)
            rw [hcore, show (e.reported lost n t).currentTarget = e.currentTarget from
              congrArg Core.target hcore]
            rfl
        · right
          refine ⟨hfields.trans (hlast.trans hkept), ?_⟩
          refine le_trans ?_ (hle.trans htarget.ge)
          exact (congrArg Core.target hcore).ge
      · right
        rw [if_neg hn] at hfields
        refine ⟨hfields, ?_⟩
        exact (congrArg Core.target (core_updatePacketsLost_accumulate hn lost t)).ge

/-- The latest jump came no later than the first report, or in the start phase after it. -/
theorem latestJump_early {calls : List (Timestamp × Call)} (h : InOrder calls) {tj : Timestamp}
    {rj : DataRate} (hj : latestJump (Double r) calls = some (tj, rj))
    (hfirst : (afterCalls (Double r) calls).firstReportTime.isFinite = true) :
    tj ≤ (afterCalls (Double r) calls).firstReportTime ∨
      tj - (afterCalls (Double r) calls).firstReportTime < kStartPhase := by
  induction calls using List.reverseRecOn with
  | nil => cases hj
  | append_singleton calls c ih =>
      obtain ⟨t, c⟩ := c
      obtain ⟨hcalls, hpast⟩ := h.of_snoc
      rw [afterCalls_snoc] at hfirst ⊢
      rw [latestJump_snoc] at hj
      have hramp := ramp_afterCalls (r := r) hcalls hpast
      by_cases hknown : (afterCalls (Double r) calls).firstReportTime.isFinite = true
      · rw [firstReportTime_call hknown c]
        split_ifs at hj with hjump
        · cases hj
          cases c with
          | updateReceiverEstimate bandwidth => exact hjump.elim
          | updatePacketsLost lost n =>
              right
              have hphase := hjump.2.2.1
              unfold isInStartPhase at hphase
              rw [firstReportTime_reported, firstReportBy_of_finite hknown] at hphase
              simpa [isInfinite, hknown] using hphase
        · exact ih hcalls hj hknown
      · -- The call is the first report.
        left
        cases c with
        | updateReceiverEstimate bandwidth =>
            have hsame : ((afterCalls (Double r) calls).call t
                (.updateReceiverEstimate bandwidth)).firstReportTime =
                  (afterCalls (Double r) calls).firstReportTime :=
              congrArg ReportFields.firstReport (reportFields_updateTargetBitrate _ t _)
            rw [hsame] at hfirst
            exact absurd hfirst hknown
        | updatePacketsLost lost n =>
            rw [Bool.not_eq_true] at hknown
            rw [call, firstReportTime_updatePacketsLost, firstReportBy, isInfinite, hknown]
            split_ifs at hj with hjump
            · cases hj
              exact le_refl _
            · exact (hramp.jumpPast tj rj hj).1

/-- A second after the start phase the latest jump has expired. -/
theorem historyExpired_latestJump {calls : List (Timestamp × Call)} (h : InOrder calls) {s : Int}
    (hover : StartPhaseOver (afterCalls (Double r) calls) (.finite (s - 1000000))) {tj : Timestamp}
    {rj : DataRate} (hj : latestJump (Double r) calls = some (tj, rj)) :
    historyExpired (.finite s) tj = true := by
  obtain ⟨first, hfirst⟩ := isFinite_iff.mp hover.reported
  have hpast := hover.past
  have hjump := latestJump_early h hj hover.reported
  rw [hfirst] at hpast hjump
  have hgap : 2000000 ≤ s - 1000000 - first := finite_le_finite.mp hpast
  cases tj with
  | minusInfinity => exact historyExpired_of_minusInfinity _
  | plusInfinity =>
      rcases hjump with hjump | hjump
      · cases plusInfinity_le.mp hjump
      · exact absurd (show (.plusInfinity : TimeDelta) < kStartPhase from hjump) (by decide)
  | finite tj =>
      rw [historyExpired_finite, decide_eq_true_iff]
      rcases hjump with hjump | hjump
      · have := finite_le_finite.mp hjump
        omega
      · have : tj - first < 2000000 := finite_lt_finite.mp hjump
        omega

end Falls

/-! Without rounding: what is left of a rate after some decreases. -/

section Exact
variable {K : Type} [Field K] [LinearOrder K] [FloorRing K] [IsStrictOrderedRing K]
  {r : Rounding K} {e : SendSideBandwidthEstimation (Double r)} {jump : Option (Timestamp × DataRate)}
  {s now t : Int} {rate : DataRate}

/-- A decrease leaves 257 parts in 512, up to one bit. -/
theorem le_decreasedBitrate (hr : r.IsExact) {x : Int} (hx : 0 ≤ x) {n : Nat} (hn : n ≤ 255) :
    ∃ y, decreasedBitrate (Double r) (.finite x) n = .finite y ∧ (257 / 512 : K) * x ≤ y + 1 := by
  have hxK : (0 : K) ≤ x := by exact_mod_cast hx
  have hnK : (n : K) ≤ 255 := by exact_mod_cast hn
  have hwhole : (lit 512 : Double r).val = 512 := by
    exact_mod_cast val_lit_int (r := r) (n := 512) (by norm_num)
  have hval : (ofInt x * ofInt (512 - (n : Int)) / lit 512 : Double r).val =
      x * (512 - n) / 512 := by
    rw [val_div _ _ (by rw [hwhole]; norm_num), hwhole, val_mul, val_ofInt, val_ofInt, hr.rnd, hr.rnd,
      hr.rnd, hr.rnd]
    push_cast
    rfl
  have hpart : (257 / 512 : K) * x ≤ x * (512 - n) / 512 := by
    have hmul := mul_le_mul_of_nonneg_left (show (257 : K) ≤ 512 - n by linarith) hxK
    linarith
  refine ⟨_, rfl, ?_⟩
  have hnonneg : (0 : K) ≤ (x : K) * (512 - n) / 512 := le_trans (by positivity) hpart
  change _ ≤ ((trunc (ofInt x * ofInt (512 - (n : Int)) / lit 512 : Double r) : Int) : K) + 1
  rw [trunc_eq, hval, truncField, if_pos hnonneg]
  have hfloor := Int.lt_floor_add_one ((x : K) * (512 - n) / 512)
  linarith

/-- What is left of the rate that the target was at a time: so many decreases since then, each
300 ms after the one before. -/
structure Falling (r : Rounding K) (s : Int) (rate : DataRate) (jump : Option (Timestamp × DataRate))
    (now : Int) (e : SendSideBandwidthEstimation (Double r)) : Prop where
  regular : e.core.Regular
  started : StartPhaseOver e (.finite s)
  ramp : Ramp r e.core.history e.core.target jump (.finite now)
  roundTrip : e.lastRoundTripTime = .zero
  since : s ≤ now
  left : ∃ k : Nat, (257 / 512 : K) ^ k * rate.bps ≤ e.currentTarget.bps + 3 ∧
    (k = 0 ∨ ∃ v ≤ now, e.timeLastDecrease = .finite v ∧ s + 300000 * k ≤ v + 300000)

theorem Falling.call (hr : r.IsExact) (h : Falling r s rate jump now e) (ht : now ≤ t)
    (hexpired : ∀ tj rj, jump = some (tj, rj) → historyExpired (.finite s) tj = true) (c : Call) :
    Falling r s rate jump t (e.call (.finite t) c) := by
  have hst : s ≤ t := h.since.trans ht
  have hstamp : (.finite s : Timestamp) ≤ .finite t := finite_le_finite.mpr hst
  have hramp := h.ramp.later (finite_le_finite.mpr ht)
  have hexpired' : ∀ tj rj, jump = some (tj, rj) → historyExpired (.finite t) tj = true :=
    fun tj rj hj => historyExpired_mono hstamp (hexpired tj rj hj)
  have hjumps : ¬ e.JumpsOn (.finite t) c := by
    cases c with
    | updateReceiverEstimate bandwidth => exact id
    | updatePacketsLost lost n => exact fun hj => h.started.not_jumps hstamp lost n hj.2
  have hnext := ramp_call h.regular hramp c
  rw [if_neg hjumps] at hnext
  have hregular := regular_call h.regular (.finite t) c
  obtain ⟨x, hx, hlow, -⟩ := h.regular.target.exists_finite
  obtain ⟨y, hy, -, -⟩ := hregular.target.exists_finite
  change e.currentTarget = _ at hx
  change (e.call (.finite t) c).currentTarget = _ at hy
  obtain ⟨k, hk, hlast⟩ := h.left
  rcases falls_call h.regular h.started hstamp hramp hexpired' c with
    ⟨n, hn, -, -, hspaced, hfields, htarget⟩ | ⟨hfields, hle⟩
  · refine ⟨hregular, h.started.call c, hnext,
      (congrArg DecreaseFields.lastRoundTripTime hfields).trans h.roundTrip, hst, k + 1, ?_, .inr ?_⟩
    · obtain ⟨z, hz, hpart⟩ := le_decreasedBitrate hr (x := x) (by omega) hn
      have hzy : z ≤ y := by
        have hless : decreasedBitrate (Double r) e.currentTarget n ≤ e.currentTarget :=
          h.regular.target.decreased_le (r := r) (show n ≤ 512 by omega)
        have hraised : decreasedBitrate (Double r) e.currentTarget n ≤
            (e.call (.finite t) c).currentTarget := by
          rw [htarget, h.regular.clamp_eq, min_eq_left (hless.trans h.regular.target.2)]
          exact le_max_right _ _
        rw [hy, hx, hz, finite_le_finite] at hraised
        exact hraised
      have hcast : (z : K) ≤ y := by exact_mod_cast hzy
      have hnext : (257 / 512 : K) ^ (k + 1) * rate.bps ≤ 257 / 512 * (x + 3) := by
        rw [pow_succ', mul_assoc]
        refine mul_le_mul_of_nonneg_left ?_ (by norm_num)
        rwa [hx] at hk
      rw [hy]
      change _ ≤ (y : K) + 3
      linarith
    · refine ⟨t, le_refl _, congrArg DecreaseFields.timeLastDecrease hfields, ?_⟩
      rcases hlast with rfl | ⟨v, -, htime, hgap⟩
      · push_cast
        omega
      · rw [htime, h.roundTrip, Timestamp.finite_sub] at hspaced
        have := finite_le_finite.mp (show (.finite 300000 : TimeDelta) ≤ .finite (t - v) from hspaced)
        push_cast
        omega
  · refine ⟨hregular, h.started.call c, hnext,
      (congrArg DecreaseFields.lastRoundTripTime hfields).trans h.roundTrip, hst, k, ?_, ?_⟩
    · rw [hx, hy] at hle
      rw [hx] at hk
      rw [hy]
      have hcast : (x : K) ≤ y := by exact_mod_cast finite_le_finite.mp hle
      exact hk.trans (by simpa using hcast)
    · refine hlast.imp id ?_
      rintro ⟨v, hv, htime, hgap⟩
      exact ⟨v, hv.trans ht, (congrArg DecreaseFields.timeLastDecrease hfields).trans htime, hgap⟩

/-- The calls up to a time are those up to an earlier one and some between the two. -/
theorem exists_calls_between {F : Type} [FloatArith F] {calls : List (Timestamp × Call)}
    (h : InOrder calls) {s t : Timestamp} (hst : s ≤ t) :
    ∃ between : List (Timestamp × Call), InOrder between ∧ (∀ c ∈ between, s ≤ c.1 ∧ c.1 ≤ t) ∧
      afterCalls F (callsUntil calls t) =
        between.foldl (fun e c => e.call c.1 c.2) (afterCalls F (callsUntil calls s)) := by
  have hlate : InOrder (callsUntil calls t) := h.sublist List.filter_sublist
  have hsplit := callsUntil_append_after hlate s
  rw [callsUntil_callsUntil hst] at hsplit
  refine ⟨(callsUntil calls t).filter fun c => decide (s < c.1),
    hlate.sublist List.filter_sublist, ?_, ?_⟩
  · intro c hc
    obtain ⟨hmem, hlater⟩ := List.mem_filter.mp hc
    refine ⟨?_, ?_⟩
    · exact (show s < c.1 by simpa using hlater).le
    · simpa [callsUntil] using (List.mem_filter.mp hmem).2
  · conv_lhs => rw [← hsplit]
    unfold afterCalls
    rw [List.foldl_append]

theorem Falling.calls (hr : r.IsExact)
    (hexpired : ∀ tj rj, jump = some (tj, rj) → historyExpired (.finite s) tj = true)
    {calls : List (Timestamp × Call)} (hcalls : InOrder calls) (ht : now ≤ t)
    (hbetween : ∀ c ∈ calls, .finite now ≤ c.1 ∧ c.1 ≤ .finite t) (h : Falling r s rate jump now e) :
    ∃ last ≤ t, Falling r s rate jump last (calls.foldl (fun e c => e.call c.1 c.2) e) := by
  induction calls generalizing e now with
  | nil => exact ⟨now, ht, h⟩
  | cons c calls ih =>
      obtain ⟨hnow, hlate⟩ := hbetween c List.mem_cons_self
      obtain ⟨hlater, hrest⟩ := List.pairwise_cons.mp hcalls
      obtain ⟨v, hv⟩ := exists_finite_between hnow hlate
      rw [hv, finite_le_finite] at hnow hlate
      rw [List.foldl_cons, hv]
      refine ih hrest hlate ?_ (h.call hr hnow hexpired c.2)
      intro d hd
      exact ⟨hv ▸ hlater d hd, (hbetween d (List.mem_cons_of_mem c hd)).2⟩

/-- Once the start phase has been over for a second the target keeps 257 parts in 512 of what it
was, up to three bits, for each 300 ms begun since then, whatever the reports say. -/
theorem fall_limited (hr : r.IsExact) {calls : List (Timestamp × Call)} (h : InOrder calls)
    (hover : StartPhaseOver (afterCalls (Double r) (callsUntil calls (.finite s)))
      (.finite (s - 1000000)))
    (hst : s ≤ t) (n : Nat) (hwithin : t < s + 300000 * n) :
    (257 / 512 : K) ^ n * (targetAt (Double r) calls (.finite s)).bps ≤
      (targetAt (Double r) calls (.finite t)).bps + 3 := by
  have hstamp : (.finite s : Timestamp) ≤ .finite t := finite_le_finite.mpr hst
  have hearly : InOrder (callsUntil calls (.finite s)) := h.sublist List.filter_sublist
  have huntil : ∀ c ∈ callsUntil calls (.finite s), c.1 ≤ .finite s := fun c hc => by
    simpa [callsUntil] using (List.mem_filter.mp hc).2
  have hstart : Falling r s (targetAt (Double r) calls (.finite s))
      (latestJump (Double r) (callsUntil calls (.finite s))) s
      (afterCalls (Double r) (callsUntil calls (.finite s))) := by
    refine ⟨regular_afterCalls _, hover.later (by omega), ramp_afterCalls hearly huntil,
      lastRoundTripTime_afterCalls _, le_refl s, 0, ?_, .inl rfl⟩
    rw [pow_zero, one_mul]
    exact le_add_of_nonneg_right (by norm_num)
  obtain ⟨between, horder, hbetween, hfold⟩ := exists_calls_between (F := Double r) h hstamp
  obtain ⟨last, hlast, hfalling⟩ := hstart.calls hr
    (fun tj rj hj => historyExpired_latestJump hearly hover hj) horder hst hbetween
  rw [← hfold] at hfalling
  obtain ⟨k, hk, hcount⟩ := hfalling.left
  have hkn : k ≤ n := by
    rcases hcount with rfl | ⟨v, hv, -, hgap⟩
    · exact Nat.zero_le n
    · omega
  obtain ⟨x, hx, hlow, -⟩ :=
    (regular_afterCalls (F := Double r) (callsUntil calls (.finite s))).target.exists_finite
  have hnonneg : (0 : K) ≤ (targetAt (Double r) calls (.finite s)).bps := by
    have hsame : targetAt (Double r) calls (.finite s) = .finite x := hx
    rw [hsame]
    exact_mod_cast (show (0 : Int) ≤ x by omega)
  have hpow : (257 / 512 : K) ^ n ≤ (257 / 512 : K) ^ k :=
    pow_le_pow_of_le_one (by norm_num) (by norm_num) hkn
  exact (mul_le_mul_of_nonneg_right hpow hnonneg).trans hk

end Exact

/-- A report at one second, and from four seconds on one with half of the packets lost every
fifth of a second. -/
def lossyReports : List (Timestamp × Call) :=
  [(.finite 1000000, .updatePacketsLost 0 20), (.finite 4000000, .updatePacketsLost 10 20),
    (.finite 4200000, .updatePacketsLost 10 20), (.finite 4400000, .updatePacketsLost 10 20),
    (.finite 4600000, .updatePacketsLost 10 20), (.finite 4800000, .updatePacketsLost 10 20)]

theorem fall_limited_lossy :
    (257 / 512 : ℚ) ^ 3 * (targetAt Rational lossyReports (.finite 4100000)).bps ≤
      (targetAt Rational lossyReports (.finite 4900000)).bps + 3 :=
  fall_limited Rounding.exact_isExact (by decide) ⟨by decide +kernel, by decide +kernel⟩ (by decide) 3
    (by decide)

end SendSideBandwidthEstimation
end ChromeGcc
