import ChromeGcc.SendSide.Steps

/-! The rate changes of UpdateEstimate under a rounding: which way each moves a rate,
and which history entries have expired. -/
namespace ChromeGcc
namespace SendSideBandwidthEstimation
open FloatArith UnitBase

section Rates
variable {K : Type} [Field K] [LinearOrder K] [FloorRing K] {r : Rounding K}

/-- Eight percent on top of a rate, before the cut to whole bits per second. -/
def grown (r : Rounding K) (y : Int) : K := (ofInt y * lit 1.08 + lit 0.5 : Double r).val

theorem increasedBitrate_finite (y : Int) :
    increasedBitrate (Double r) (.finite y) = .finite (truncField (grown r y) + 1000) := rfl

variable [IsStrictOrderedRing K]

/-- The factor of the increase is at least one. -/
theorem one_le_factor : (1 : K) ≤ (lit 1.08 : Double r).val := by
  have h : ((1 : ℤ) : K) ≤ ((1.08 : ℚ).num : K) / (1.08 : ℚ).den := by norm_num
  simpa using r.le_rnd (by norm_num) h

theorem zero_le_half : (0 : K) ≤ (lit 0.5 : Double r).val := by
  have h : ((0 : ℤ) : K) ≤ ((0.5 : ℚ).num : K) / (0.5 : ℚ).den := by norm_num
  simpa using r.le_rnd (by norm_num) h

theorem le_grown {y : Int} (h0 : 0 ≤ y) (h : y ≤ 2 ^ 53) : (y : K) ≤ grown r y := by
  have habs : |y| ≤ 2 ^ 53 := by rwa [abs_of_nonneg h0]
  have hy : (0 : K) ≤ y := by exact_mod_cast h0
  have hmul : (y : K) ≤ (ofInt y * lit 1.08 : Double r).val := by
    refine r.le_rnd habs ?_
    rw [val_ofInt_eq habs]
    exact le_mul_of_one_le_right hy one_le_factor
  refine r.le_rnd habs ?_
  exact hmul.trans (le_add_of_nonneg_right zero_le_half)

theorem grown_mono {y y' : Int} (h : y ≤ y') : grown r y ≤ grown r y' := by
  have hle : (y : K) ≤ y' := by exact_mod_cast h
  have hfactor := zero_le_one.trans (one_le_factor (r := r))
  have hval : (ofInt y : Double r).val ≤ (ofInt y' : Double r).val := r.rnd_mono hle
  exact r.rnd_mono (add_le_add_left (r.rnd_mono (mul_le_mul_of_nonneg_right hval hfactor)) _)

theorem le_increasedBitrate {y : Int} (h0 : 0 ≤ y) (h : y ≤ 2 ^ 53) :
    (.finite (y + 1000) : DataRate) ≤ increasedBitrate (Double r) (.finite y) := by
  rw [increasedBitrate_finite, finite_le_finite]
  exact Int.add_le_add_right (le_truncField (le_grown h0 h)) 1000

theorem increasedBitrate_mono {y y' : Int} (h : y ≤ y') :
    increasedBitrate (Double r) (.finite y) ≤ increasedBitrate (Double r) (.finite y') := by
  rw [increasedBitrate_finite, increasedBitrate_finite, finite_le_finite]
  exact Int.add_le_add_right (truncField_mono (grown_mono h)) 1000

/-- A reported loss never raises a rate. -/
theorem decreasedBitrate_le {x : Int} (h0 : 0 ≤ x) (h : x ≤ 2 ^ 40) {n : Nat} (hn : n ≤ 512) :
    decreasedBitrate (Double r) (.finite x) n ≤ .finite x := by
  have hx : (ofInt x : Double r).val = x := val_ofInt_eq (by rw [abs_of_nonneg h0]; omega)
  have hpart : (ofInt (512 - (n : Int)) : Double r).val = ((512 - (n : Int) : Int) : K) :=
    val_ofInt_eq (by rw [abs_le]; omega)
  have hwhole : (lit 512 : Double r).val = 512 := by
    exact_mod_cast val_lit_int (r := r) (n := 512) (by norm_num)
  have hmul : (ofInt x * ofInt (512 - (n : Int)) : Double r).val ≤ ((x * 512 : Int) : K) := by
    refine r.rnd_le (by rw [abs_of_nonneg (by omega)]; omega) ?_
    rw [hx, hpart, ← Int.cast_mul]
    exact_mod_cast Int.mul_le_mul_of_nonneg_left (by omega) h0
  have hdiv : (ofInt x * ofInt (512 - (n : Int)) / lit 512 : Double r).val ≤ x := by
    rw [val_div _ _ (by rw [hwhole]; norm_num), hwhole]
    refine r.rnd_le (by rw [abs_of_nonneg h0]; omega) ?_
    rw [div_le_iff₀ (by norm_num)]
    exact_mod_cast hmul
  exact finite_le_finite.mpr (truncField_le hdiv)

/-- A fraction of at most five parts in 256 counts as low loss. -/
theorem lossFraction_le {n : Nat} (hn : n ≤ 5) :
    lossFraction (Double r) n ≤ kDefaultLowLossThreshold (Double r) := by
  have hparts : (ofInt (n : Int) : Double r).val = ((n : Int) : K) :=
    val_ofInt_eq (by rw [abs_of_nonneg (by omega)]; omega)
  have hwhole : (lit 256 : Double r).val = 256 := by
    exact_mod_cast val_lit_int (r := r) (n := 256) (by norm_num)
  refine r.narrow_mono ?_
  rw [val_div _ _ (by rw [hwhole]; norm_num), hwhole, hparts]
  have hfive := r.rnd_dyadic 5 8 (by norm_num) (by norm_num)
  have hle : ((n : Int) : K) / 256 ≤ (5 : ℤ) / 2 ^ 8 := by
    have hcast : ((n : Int) : K) ≤ 5 := by exact_mod_cast (show (n : Int) ≤ 5 by omega)
    rw [show ((2 : K) ^ 8) = 256 by norm_num]
    exact div_le_div_of_nonneg_right (by simpa using hcast) (by norm_num)
  refine (r.rnd_mono hle).trans ?_
  exact r.rnd_mono (by norm_num)

/-- Six seconds, up to rounding: at least the feedback interval itself. -/
theorem zero_lt_feedbackWindow :
    (.finite 0 : TimeDelta) < kMaxRtcpFeedbackInterval.scale (lit 1.2 : Double r) := by
  have hfactor : (1 : K) ≤ (lit 1.2 : Double r).val := by
    have h : ((1 : ℤ) : K) ≤ ((1.2 : ℚ).num : K) / (1.2 : ℚ).den := by norm_num
    simpa using r.le_rnd (by norm_num) h
  have hmul : ((5000000 : Int) : K) ≤ (ofInt 5000000 * lit 1.2 : Double r).val := by
    refine r.le_rnd (by norm_num) ?_
    rw [val_ofInt_eq (by norm_num)]
    exact le_mul_of_one_le_right (by norm_num) hfactor
  have htrunc : (5000000 : Int) ≤
      truncField ((roundField (ofInt 5000000 * lit 1.2 : Double r).val : Int) : K) := by
    rw [truncField_intCast]
    exact le_roundField hmul
  exact finite_lt_finite.mpr (lt_of_lt_of_le (by norm_num) htrunc)

end Rates

/-! Expiry of history entries, at any times. -/

theorem historyExpired_finite (t s : Int) :
    historyExpired (.finite t) (.finite s) = decide (t - s > 999000) := by
  have h : historyExpired (.finite t) (.finite s) = decide (1000 * 1000 < t - s + 1 * 1000) := by
    simp only [historyExpired, gt_iff_lt, kBweIncreaseInterval, TimeDelta.millis, Timestamp.finite_sub,
      TimeDelta.finite_add, finite_lt_finite]
  rw [h, decide_eq_decide]
  omega

theorem historyExpired_plusInfinity (s : Timestamp) : historyExpired .plusInfinity s = true := by
  cases s <;> rfl

theorem historyExpired_of_minusInfinity (t : Timestamp) : historyExpired t .minusInfinity = true := by
  cases t <;> rfl

/-- As time passes an expired entry stays expired. -/
theorem historyExpired_mono {t t' s : Timestamp} (h : t ≤ t') (hs : historyExpired t s = true) :
    historyExpired t' s = true := by
  cases t' with
  | plusInfinity => exact historyExpired_plusInfinity s
  | minusInfinity =>
      rw [le_minusInfinity] at h
      rwa [h] at hs
  | finite t' =>
      cases s with
      | minusInfinity => exact historyExpired_of_minusInfinity _
      | plusInfinity =>
          cases t with
          | minusInfinity => cases hs
          | finite t => cases hs
          | plusInfinity => simp at h
      | finite s =>
          cases t with
          | minusInfinity => cases hs
          | plusInfinity => simp at h
          | finite t =>
              rw [historyExpired_finite, decide_eq_true_eq] at hs ⊢
              rw [finite_le_finite] at h
              omega

/-- An entry older than an expired one has expired. -/
theorem historyExpired_anti {t s s' : Timestamp} (h : s ≤ s') (hs : historyExpired t s' = true) :
    historyExpired t s = true := by
  cases s with
  | minusInfinity => exact historyExpired_of_minusInfinity t
  | plusInfinity =>
      rw [plusInfinity_le] at h
      rwa [h] at hs
  | finite s =>
      cases t with
      | plusInfinity => exact historyExpired_plusInfinity _
      | minusInfinity =>
          cases s' with
          | minusInfinity => simp at h
          | finite s' => cases hs
          | plusInfinity => cases hs
      | finite t =>
          cases s' with
          | minusInfinity => simp at h
          | plusInfinity => cases hs
          | finite s' =>
              rw [historyExpired_finite, decide_eq_true_eq] at hs ⊢
              rw [finite_le_finite] at h
              omega

theorem historyExpired_eq_false {t s s' : Timestamp} (h : s ≤ s') (hs : historyExpired t s = false) :
    historyExpired t s' = false :=
  Bool.eq_false_iff.mpr (mt (historyExpired_anti h) (Bool.eq_false_iff.mp hs))

/-- At an infinite time nothing in the past is kept. -/
theorem historyExpired_of_infinite {t s : Timestamp} (ht : t.isInfinite = true) (h : s ≤ t) :
    historyExpired t s = true := by
  cases t with
  | minusInfinity =>
      rw [le_minusInfinity.mp h]
      rfl
  | finite t => cases ht
  | plusInfinity => exact historyExpired_plusInfinity s

end SendSideBandwidthEstimation
end ChromeGcc
