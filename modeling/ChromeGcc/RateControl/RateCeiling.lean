import ChromeGcc.RateControl.RateFloor

/-! The estimate against the throughput: whatever the detector says and whatever the estimate
started from, it stays within the limit of the largest throughput measured so far. -/
namespace ChromeGcc
open FloatArith UnitBase

/-- A throughput that is not negative, and not above a peak. -/
def Measured (peak : Int) (x : DataRate) : Prop := ∃ v, x = .finite v ∧ 0 ≤ v ∧ v ≤ peak

namespace AimdRateControl

section Fields
variable {F : Type} [FloatArith F] (c : AimdRateControl F)

/-- Two rate controls with the same throughput, decrease factor and minimum. -/
structure SameThroughput (d c : AimdRateControl F) : Prop where
  throughput : d.latestEstimatedThroughput = c.latestEstimatedThroughput
  beta : d.beta = c.beta
  minimum : d.minConfiguredBitrate = c.minConfiguredBitrate

theorem sameThroughput_activeState (input : RateControlInput) (t : Timestamp) :
    SameThroughput (c.activeState input t) { c with
      latestEstimatedThroughput := input.estimatedThroughput.getD c.latestEstimatedThroughput } := by
  unfold activeState changeState
  cases input.bwState with
  | kBwUnderusing => exact ⟨rfl, rfl, rfl⟩
  | kBwOverusing => exact ⟨rfl, rfl, rfl⟩
  | kBwNormal =>
      dsimp only
      split_ifs
      · exact ⟨rfl, rfl, rfl⟩
      · exact ⟨rfl, rfl, rfl⟩

theorem sameThroughput_changeBitrateIncrease (throughput : DataRate) (t : Timestamp) :
    SameThroughput (c.changeBitrateIncrease throughput t).1 c := by
  unfold changeBitrateIncrease
  dsimp only
  split_ifs <;> exact ⟨rfl, rfl, rfl⟩

theorem sameThroughput_changeBitrateDecrease (throughput : DataRate) (t : Timestamp) :
    SameThroughput (c.changeBitrateDecrease throughput t).1 c := by
  unfold changeBitrateDecrease
  dsimp only
  constructor <;> split_ifs <;> rfl

end Fields

section Rounded
variable {K : Type} [Field K] [LinearOrder K] [FloorRing K] {r : Rounding K} {peak : Int}
  {c : AimdRateControl (Double r)}

/-- The limit of the largest throughput measured. -/
def peakLimit (r : Rounding K) (peak : Int) : DataRate :=
  throughputBasedLimit (Double r) (.finite peak)

theorem val_lit_oneAndHalf : (lit 1.5 : Double r).val = 3 / 2 := by
  have hdyadic := r.rnd_dyadic 3 1 (by norm_num) (by norm_num)
  rw [val_lit, show (1.5 : ℚ).num = 3 by norm_num, show (1.5 : ℚ).den = 2 by norm_num]
  norm_num at hdyadic ⊢
  exact hdyadic

/-- Once there is an estimate it is within the limit, and computed from what was measured. -/
structure Limited (peak : Int) (c : AimdRateControl (Double r)) : Prop where
  beta : c.beta = lit 0.85
  minimum : c.minConfiguredBitrate ≤ peakLimit r peak
  rate : c.bitrateIsInitialized = true → c.currentBitrate ≤ peakLimit r peak
  throughput : c.bitrateIsInitialized = true → Measured peak c.latestEstimatedThroughput

theorem limited_settle {d : AimdRateControl (Double r)} (hbeta : d.beta = lit 0.85)
    (hmin : d.minConfiguredBitrate ≤ peakLimit r peak) {newBitrate : Option DataRate}
    (hrate : newBitrate.getD d.currentBitrate ≤ peakLimit r peak)
    (hmeasured : Measured peak d.latestEstimatedThroughput) : Limited peak (d.settle newBitrate) :=
  ⟨hbeta, hmin, fun _ => max_le hrate hmin, fun _ => hmeasured⟩

/-- An overuse leaves at most the scaled throughput, even before there was an estimate. -/
theorem decreased_le (c : AimdRateControl (Double r)) (throughput : DataRate) (t : Timestamp) :
    (c.changeBitrateDecrease throughput t).2.getD (c.changeBitrateDecrease throughput t).1.currentBitrate ≤
      throughput.scale c.beta := by
  rw [(changeBitrateDecrease_spec c throughput t).1, changeBitrateDecrease_snd]
  unfold decreasedRate
  by_cases hcapacity : throughput.scale c.beta > c.currentBitrate ∧ c.linkCapacity.hasEstimate = true
  · rw [if_pos hcapacity]
    split_ifs with hlower
    · exact hlower.le.trans hcapacity.1.le
    · exact hcapacity.1.le
  · rw [if_neg hcapacity]
    split_ifs with hlower
    · exact le_refl _
    · exact not_lt.mp hlower

variable [IsStrictOrderedRing K]

theorem val_lit_beta_le : (lit 0.85 : Double r).val ≤ 1 := by
  rw [val_lit]
  have hle := r.rnd_le (n := 1) (x := ((0.85 : ℚ).num : K) / ((0.85 : ℚ).den : K)) (by norm_num) ?_
  · simpa using hle
  · rw [show (0.85 : ℚ).num = 17 by norm_num, show (0.85 : ℚ).den = 20 by norm_num]
    norm_num

/-- Scaled down, what is not negative does not grow. -/
theorem scale_le {v : Int} (hv : 0 ≤ v) (hsmall : v ≤ 2 ^ 53) {factor : Double r}
    (hfactor : factor.val ≤ 1) : (.finite v : DataRate).scale factor ≤ .finite v := by
  have hval : (ofInt v : Double r).val = v := val_ofInt_eq (by rwa [abs_of_nonneg hv])
  have hnonneg : (0 : K) ≤ v := by exact_mod_cast hv
  refine finite_le_finite.mpr (truncField_le ?_)
  rw [val_round, Int.cast_le, toValue_finite]
  refine roundField_le ?_
  rw [val_mul, hval]
  refine r.rnd_le (by rwa [abs_of_nonneg hv]) ?_
  exact mul_le_of_le_one_right hnonneg hfactor

theorem le_peakLimit (hpeak : 0 ≤ peak) (hsmall : peak ≤ 2 ^ 52) {v : Int}
    (hv : v ≤ peak + 10000) : (.finite v : DataRate) ≤ peakLimit r peak := by
  have hbits : |peak| ≤ 2 ^ 53 := by
    rw [abs_of_nonneg hpeak]
    omega
  have hval : (ofInt peak : Double r).val = peak := val_ofInt_eq hbits
  have hnonneg : (0 : K) ≤ peak := by exact_mod_cast hpeak
  have hscaled : peak ≤ trunc (round (ofInt peak * lit 1.5 : Double r)) := by
    refine le_truncField ?_
    rw [val_round, Int.cast_le]
    refine le_roundField ?_
    rw [val_mul, hval, val_lit_oneAndHalf]
    refine r.le_rnd hbits ?_
    linarith
  refine finite_le_finite.mpr ?_
  rw [toValue_finite]
  omega

theorem throughputBasedLimit_mono {v w : Int} (h : v ≤ w) :
    throughputBasedLimit (Double r) (.finite v) ≤ throughputBasedLimit (Double r) (.finite w) := by
  have hcast : (v : K) ≤ w := by exact_mod_cast h
  have hscaled : trunc (round (ofInt v * lit 1.5 : Double r)) ≤
      trunc (round (ofInt w * lit 1.5 : Double r)) := by
    refine truncField_mono ?_
    rw [val_round, val_round, Int.cast_le]
    refine roundField_mono ?_
    rw [val_mul, val_mul, val_lit_oneAndHalf]
    refine r.rnd_mono (mul_le_mul_of_nonneg_right (r.rnd_mono hcast) (by norm_num))
  refine finite_le_finite.mpr ?_
  rw [toValue_finite, toValue_finite]
  omega

/-- The limit of a limit that 53 bits hold, without rounding errors. -/
theorem peakLimit_le {limit : Int} (hpeak : 3 * peak ≤ 2 * limit) (hnonneg : 0 ≤ peak)
    (hsmall : limit ≤ 2 ^ 53) : peakLimit r peak ≤ .finite (limit + 10000) := by
  have hval : (ofInt peak : Double r).val = peak :=
    val_ofInt_eq (by rw [abs_of_nonneg hnonneg]; omega)
  have hcast : (3 * peak : K) ≤ 2 * limit := by exact_mod_cast hpeak
  have hscaled : trunc (round (ofInt peak * lit 1.5 : Double r)) ≤ limit := by
    refine truncField_le ?_
    rw [val_round, Int.cast_le]
    refine roundField_le ?_
    rw [val_mul, hval, val_lit_oneAndHalf]
    refine r.rnd_le (by rw [abs_of_nonneg (by omega)]; exact hsmall) ?_
    linarith
  refine finite_le_finite.mpr ?_
  rw [toValue_finite]
  omega

/-- ChangeBitrate keeps to the limit, whether or not the estimate was computed from throughputs
that were measured. -/
theorem limited_changeBitrate (hpeak : 0 ≤ peak) (hsmall : peak ≤ 2 ^ 52) (hbeta : c.beta = lit 0.85)
    (hmin : c.minConfiguredBitrate ≤ peakLimit r peak)
    (hrate : c.bitrateIsInitialized = true → c.currentBitrate ≤ peakLimit r peak)
    {input : RateControlInput} (hmeasured : c.Acts input →
      Measured peak (input.estimatedThroughput.getD c.latestEstimatedThroughput)) (t : Timestamp) :
    Limited peak (c.changeBitrate input t) := by
  by_cases hacts : c.Acts input
  · have hthroughput := hmeasured hacts
    have hactive := c.sameThroughput_activeState input t
    obtain ⟨hfields, -, -⟩ := c.activeState_fields input t
    have hsame : (c.activeState input t).currentBitrate = c.currentBitrate :=
      congrArg RateFields.currentBitrate hfields
    generalize hactivated : c.activeState input t = d at hactive hsame
    obtain ⟨hlatest, hb, hm⟩ := hactive
    rw [changeBitrate_active c hacts, hactivated]
    generalize input.estimatedThroughput.getD c.latestEstimatedThroughput = x at hthroughput hlatest ⊢
    have hover : input.bwState = .kBwOverusing → d.rateControlState = .kRcDecrease := by
      intro hbw
      rw [← hactivated, activeState, hbw]
      rfl
    cases hstate : d.rateControlState with
    | kRcHold =>
        have hinit : c.bitrateIsInitialized = true := by
          refine hacts.resolve_right ?_
          intro hbw
          rw [hover hbw] at hstate
          cases hstate
        refine limited_settle (hb.trans hbeta) (hm.le.trans hmin) ?_ (hlatest ▸ hthroughput)
        exact hsame.le.trans (hrate hinit)
    | kRcIncrease =>
        have hinit : c.bitrateIsInitialized = true := by
          refine hacts.resolve_right ?_
          intro hbw
          rw [hover hbw] at hstate
          cases hstate
        obtain ⟨hlatest', hb', hm'⟩ := d.sameThroughput_changeBitrateIncrease x t
        refine limited_settle (hb'.trans (hb.trans hbeta)) (hm'.le.trans (hm.le.trans hmin)) ?_
          (hlatest'.trans hlatest ▸ hthroughput)
        cases hnew : (d.changeBitrateIncrease x t).2 with
        | none =>
            rw [Option.getD_none, (changeBitrateIncrease_spec d x t).1, hsame]
            exact hrate hinit
        | some b =>
            obtain ⟨v, rfl, -, hle⟩ := hthroughput
            rw [(changeBitrateIncrease_some hnew).2]
            exact (min_le_right _ _).trans (throughputBasedLimit_mono hle)
    | kRcDecrease =>
        obtain ⟨hlatest', hb', hm'⟩ := d.sameThroughput_changeBitrateDecrease x t
        refine limited_settle (hb'.trans (hb.trans hbeta)) (hm'.le.trans (hm.le.trans hmin)) ?_
          (hlatest'.trans hlatest ▸ hthroughput)
        refine (decreased_le d x t).trans ?_
        obtain ⟨v, rfl, hnonneg, hle⟩ := hthroughput
        rw [hb.trans hbeta]
        exact (scale_le hnonneg (hle.trans (hsmall.trans (by norm_num))) val_lit_beta_le).trans
          (le_peakLimit hpeak hsmall (by omega))
  · obtain ⟨hinit, hbw⟩ := not_or.mp hacts
    rw [changeBitrate_uninitialized (by simpa using hinit) hbw]
    exact ⟨hbeta, hmin, fun h => absurd h hinit, fun h => absurd h hinit⟩

/-- An overuse comes with a throughput; without one the estimate waits. -/
theorem Limited.update (hpeak : 0 ≤ peak) (hsmall : peak ≤ 2 ^ 52) (h : Limited peak c)
    {input : RateControlInput} (hin : ∀ x, input.estimatedThroughput = some x → Measured peak x)
    (hover : input.bwState = .kBwOverusing → input.estimatedThroughput.isSome = true)
    (t : Timestamp) : Limited peak (c.update input t) := by
  have hmeasured : ∀ d : AimdRateControl (Double r),
      (d.bitrateIsInitialized = true → Measured peak d.latestEstimatedThroughput) → d.Acts input →
      Measured peak (input.estimatedThroughput.getD d.latestEstimatedThroughput) := by
    intro d hd hacts
    cases hthroughput : input.estimatedThroughput with
    | some x => exact hin x hthroughput
    | none =>
        refine hd (hacts.resolve_right ?_)
        intro hbw
        rw [hthroughput] at hover
        cases hover hbw
  rw [AimdRateControl.update]
  rcases initializeBitrate_cases c input t with hc | hc | ⟨x, hx, hc⟩
  · rw [hc]
    exact limited_changeBitrate hpeak hsmall h.beta h.minimum h.rate (hmeasured c h.throughput) t
  · rw [hc]
    exact limited_changeBitrate (c := { c with timeFirstThroughputEstimate := t }) hpeak hsmall h.beta
      h.minimum h.rate (hmeasured _ h.throughput) t
  · rw [hc]
    refine limited_changeBitrate (c := { c with currentBitrate := x, bitrateIsInitialized := true })
      hpeak hsmall h.beta h.minimum ?_ ?_ t
    · intro _
      obtain ⟨v, rfl, -, hle⟩ := hin x hx
      exact le_peakLimit hpeak hsmall (by omega)
    · intro _
      rw [hx]
      exact hin x hx

/-- Half of an estimate, when the throughput of an overuse is not known. -/
theorem Limited.halve (hpeak : 0 ≤ peak) (hsmall : peak ≤ 2 ^ 52) (h : Limited peak c)
    (hinit : c.bitrateIsInitialized = true) (hfloor : getMinBitrate ≤ c.currentBitrate) (t : Timestamp) :
    Limited peak (c.setEstimate (c.latestEstimate.divInt (Double r) 2) t) := by
  have hrate := h.rate hinit
  have hpeakLimit : peakLimit r peak ≤ .finite (2 ^ 53 + 10000) :=
    peakLimit_le (by omega) hpeak (le_refl _)
  have hlimit := hrate.trans hpeakLimit
  obtain ⟨v, hv⟩ : ∃ v, c.currentBitrate = .finite v := by
    cases hc : c.currentBitrate with
    | finite v => exact ⟨v, rfl⟩
    | plusInfinity =>
        rw [hc] at hlimit
        simp at hlimit
    | minusInfinity =>
        rw [hc] at hfloor
        simp [getMinBitrate] at hfloor
  rw [hv] at hlimit hfloor hrate
  rw [finite_le_finite] at hlimit
  have hnonneg : 5000 ≤ v := finite_le_finite.mp hfloor
  have hquotient : v.tdiv 2 = v / 2 := Int.tdiv_eq_ediv_of_nonneg (by omega)
  have hhalf : c.latestEstimate.divInt (Double r) 2 = .finite (v / 2) := by
    rw [latestEstimate, hv, ← hquotient]
    refine divInt_eq ?_
    rw [hquotient, abs_of_nonneg (by omega)]
    omega
  have hle : c.clampBitrate (c.latestEstimate.divInt (Double r) 2) ≤ peakLimit r peak := by
    rw [hhalf]
    refine max_le (le_trans ?_ hrate) h.minimum
    exact finite_le_finite.mpr (by omega)
  have hkept := h.throughput hinit
  unfold AimdRateControl.setEstimate
  dsimp only
  split_ifs
  · exact ⟨h.beta, h.minimum, fun _ => hle, fun _ => hkept⟩
  · exact ⟨h.beta, h.minimum, fun _ => hle, fun _ => hkept⟩

end Rounded
end AimdRateControl
end ChromeGcc
