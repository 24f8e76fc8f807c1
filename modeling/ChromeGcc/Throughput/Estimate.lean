import ChromeGcc.Throughput.Samples

/-! The estimate is a weighted mean of its samples. -/
namespace ChromeGcc
namespace BitrateEstimator
open FloatArith

/-- A mean with one positive weight lies between its values. -/
theorem mean_between {K : Type} [Field K] [LinearOrder K] [IsStrictOrderedRing K]
    {v p x y lo hi : K} (hv : 0 ≤ v) (hp : 0 < p) (hlox : lo ≤ x) (hloy : lo ≤ y) (hxhi : x ≤ hi)
    (hyhi : y ≤ hi) : lo ≤ (v * x + p * y) / (v + p) ∧ (v * x + p * y) / (v + p) ≤ hi := by
  have hpos : 0 < v + p := add_pos_of_nonneg_of_pos hv hp
  constructor
  · rw [le_div_iff₀ hpos]
    have hx := mul_le_mul_of_nonneg_left hlox hv
    have hy := mul_le_mul_of_nonneg_left hloy hp.le
    linarith
  · rw [div_le_iff₀ hpos]
    have hx := mul_le_mul_of_nonneg_left hxhi hv
    have hy := mul_le_mul_of_nonneg_left hyhi hp.le
    linarith

section Exact
variable {K : Type} [Field K] [LinearOrder K] [FloorRing K] {r : Rounding K}
  {b : BitrateEstimator (Double r)} {kbps : Double r}

/-- The cap is zero, so that the estimate alone divides the uncertainty. -/
theorem val_uncertaintyDivisor (hr : r.IsExact) (hcap : b.uncertaintySymmetryCap = .zero)
    (hk : 0 ≤ kbps.val) : (b.uncertaintyDivisor kbps).val = b.bitrateEstimateKbps.val := by
  have hmin := val_stdMin kbps (DataRate.kbpsFloat .zero)
  rw [val_kbpsFloat_zero, min_eq_right hk] at hmin
  rw [uncertaintyDivisor, val_fadd_exact hr, hcap, hmin, add_zero]

variable [IsStrictOrderedRing K]

theorem sampleVar_nonneg (b : BitrateEstimator (Double r)) (kbps : Double r) :
    0 ≤ (b.sampleVar kbps).val := r.narrow_rnd_nonneg (mul_self_nonneg _)

theorem predBitrateEstimateVar_pos (hr : r.IsExact) (hvar : 0 ≤ b.bitrateEstimateVar.val) :
    0 < b.predBitrateEstimateVar.val := by
  rw [predBitrateEstimateVar, val_fadd_exact hr, val_flit_five]
  linarith

theorem updateDivisor_pos (hr : r.IsExact) (hvar : 0 ≤ b.bitrateEstimateVar.val) (kbps : Double r) :
    0 < (b.updateDivisor kbps).val := by
  rw [updateDivisor, val_fadd_exact hr]
  exact add_pos_of_nonneg_of_pos (b.sampleVar_nonneg kbps) (predBitrateEstimateVar_pos hr hvar)

/-- Weighing keeps the variance from falling below zero. -/
theorem weigh_var_nonneg (hr : r.IsExact) (hvar : 0 ≤ b.bitrateEstimateVar.val) :
    0 ≤ (b.weigh kbps).bitrateEstimateVar.val := by
  have hdivisor := updateDivisor_pos hr hvar kbps
  unfold weigh
  dsimp only
  rw [val_fdiv_exact hr hdivisor.ne', val_fmul_exact hr]
  exact div_nonneg
    (mul_nonneg (b.sampleVar_nonneg kbps) (predBitrateEstimateVar_pos hr hvar).le) hdivisor.le

/-- Weighing moves the estimate toward the sample and no further. -/
theorem weigh_between (hr : r.IsExact) (hfloor : b.estimateFloor = .zero)
    (hvar : 0 ≤ b.bitrateEstimateVar.val) {lo hi : K} (hlo : 0 ≤ lo)
    (hestimate : lo ≤ b.bitrateEstimateKbps.val ∧ b.bitrateEstimateKbps.val ≤ hi)
    (hsample : lo ≤ kbps.val ∧ kbps.val ≤ hi) :
    lo ≤ (b.weigh kbps).bitrateEstimateKbps.val ∧ (b.weigh kbps).bitrateEstimateKbps.val ≤ hi := by
  have hdivisor := updateDivisor_pos hr hvar kbps
  obtain ⟨hlow, hhigh⟩ := mean_between (b.sampleVar_nonneg kbps) (predBitrateEstimateVar_pos hr hvar)
    hestimate.1 hsample.1 hestimate.2 hsample.2
  unfold weigh
  dsimp only
  rw [val_stdMax, hfloor, val_kbpsFloat_zero, val_fdiv_exact hr hdivisor.ne', val_fadd_exact hr,
    val_fmul_exact hr, val_fmul_exact hr, updateDivisor, val_fadd_exact hr,
    max_eq_left (hlo.trans hlow)]
  exact ⟨hlow, hhigh⟩

variable {s : BitrateEstimator (Double r) × List (Sample (Double r))}

/-- A run whose estimate lies between two of its samples. -/
structure Within (s : BitrateEstimator (Double r) × List (Sample (Double r))) : Prop where
  positive : ∀ x ∈ s.2, 0 < x.kbps.val
  var : 0 ≤ s.1.bitrateEstimateVar.val
  between : ¬ s.1.bitrateEstimateKbps < flit 0 →
    ∃ lo ∈ s.2, ∃ hi ∈ s.2,
      lo.kbps.val ≤ s.1.bitrateEstimateKbps.val ∧ s.1.bitrateEstimateKbps.val ≤ hi.kbps.val

/-- The bytes of a sample are those of at least one call. -/
theorem sampleOf_pos (hr : r.IsExact) (hs : Started s) {u : Ack}
    (he : s.1.window.Emits u.ms s.1.rateWindowMs) : 0 < (s.1.sampleOf u).val := by
  obtain ⟨hknown, hle, hgap⟩ := hs.emits_within he
  have hadvance := RateWindow.advance_within (w := s.1.window) hknown hle hgap
  have hsum : 0 < s.1.window.sum := by
    rcases hs.live with hempty | ⟨-, hpos⟩
    · rw [show s.1.prevTimeMs = s.1.window.prevMs from rfl, hempty] at hknown
      exact absurd hknown (by decide)
    · exact hpos
  have hwindow : (0 : K) < s.1.rateWindowMs := by exact_mod_cast hs.rateWindowMs_bounds.1
  have hbytes : (0 : K) < s.1.window.sum := by exact_mod_cast hsum
  rw [(hs.sampleOf_eq he).1, hadvance,
    val_sampleKbps_exact hr hs.rateWindowMs_bounds.1 hs.rateWindowMs_bounds.2]
  positivity

/-- A call that weighs its sample divides by no zero. -/
def DividesSafely (b : BitrateEstimator (Double r)) (u : Ack) : Prop :=
  ¬ b.sampleOf u < flit 0 → ¬ b.bitrateEstimateKbps < flit 0 →
    (b.uncertaintyDivisor (b.sampleOf u)).val ≠ 0 ∧ (b.updateDivisor (b.sampleOf u)).val ≠ 0

theorem Within.dividesSafely (hr : r.IsExact) (hs : Started s) (h : Within s) (u : Ack) :
    s.1.DividesSafely u := by
  intro hsample hset
  obtain ⟨lo, hlo, -, -, hle, -⟩ := h.between hset
  rw [lt_iff, val_flit_zero, not_lt] at hsample
  rw [val_uncertaintyDivisor hr hs.symmetryCap hsample]
  exact ⟨((h.positive lo hlo).trans_le hle).ne', (updateDivisor_pos hr h.var _).ne'⟩

theorem Within.step (hr : r.IsExact) (hs : Started s) (h : Within s) (u : Ack) :
    Within (record s u) := by
  by_cases he : s.1.window.Emits u.ms s.1.rateWindowMs
  · have hpos := sampleOf_pos hr hs he
    have hnew : s.1.sampleAt u ∈ s.2 ++ [s.1.sampleAt u] := by simp
    have hold : ∀ x ∈ s.2, x ∈ s.2 ++ [s.1.sampleAt u] := fun x hx => List.mem_append_left _ hx
    have hpositive : ∀ x ∈ s.2 ++ [s.1.sampleAt u], 0 < x.kbps.val := by
      intro x hx
      rcases List.mem_append.mp hx with hx | hx
      · exact h.positive x hx
      · rw [List.mem_singleton.mp hx]
        exact hpos
    rw [hs.record_of_emits he]
    split_ifs with hnil
    · exact ⟨hpositive, h.var, fun _ => ⟨_, hnew, _, hnew, le_refl _, le_refl _⟩⟩
    · have hset : ¬ s.1.bitrateEstimateKbps < flit 0 := fun hneg => hnil (hs.estimate_neg_iff.mp hneg)
      obtain ⟨lo, hlo, hi, hhi, hle, hge⟩ := h.between hset
      have hlow : ∃ x ∈ s.2 ++ [s.1.sampleAt u],
          x.kbps.val ≤ lo.kbps.val ∧ x.kbps.val ≤ (s.1.sampleOf u).val := by
        rcases le_total lo.kbps.val (s.1.sampleOf u).val with hfirst | hfirst
        · exact ⟨lo, hold lo hlo, le_refl _, hfirst⟩
        · exact ⟨_, hnew, hfirst, le_refl _⟩
      have hhigh : ∃ x ∈ s.2 ++ [s.1.sampleAt u],
          hi.kbps.val ≤ x.kbps.val ∧ (s.1.sampleOf u).val ≤ x.kbps.val := by
        rcases le_total (s.1.sampleOf u).val hi.kbps.val with hfirst | hfirst
        · exact ⟨hi, hold hi hhi, le_refl _, hfirst⟩
        · exact ⟨_, hnew, hfirst, le_refl _⟩
      obtain ⟨low, hlowMem, hlowOld, hlowNew⟩ := hlow
      obtain ⟨high, hhighMem, hhighOld, hhighNew⟩ := hhigh
      refine ⟨hpositive, weigh_var_nonneg hr h.var, fun _ => ⟨low, hlowMem, high, hhighMem, ?_⟩⟩
      exact weigh_between (b := s.1.withWindow (s.1.windowAfter u)) hr hs.floor h.var
        (hpositive low hlowMem).le ⟨hlowOld.trans hle, hge.trans hhighOld⟩ ⟨hlowNew, hhighNew⟩
  · rw [record_of_not_emits he]
    exact ⟨h.positive, h.var, h.between⟩

theorem within_new : Within (r := r) ({}, []) := by
  refine ⟨?_, ?_, ?_⟩
  · intro x hx
    cases hx
  · exact r.narrow_rnd_nonneg (by positivity)
  · intro hset
    exact absurd (started_new.estimate_neg_iff.mpr rfl) hset

theorem within_afterAcks (hr : r.IsExact) (us : List Ack) : Within (afterAcks (Double r) us) := by
  induction us using List.reverseRecOn with
  | nil => exact within_new
  | append_singleton us u ih =>
      rw [afterAcks_snoc]
      exact ih.step hr (started_afterAcks us) u

/-- In every run the samples are positive, the variance is not negative, the estimate lies
between two of the samples, and no call divides by zero. -/
theorem estimate_within_samples (hr : r.IsExact) (us : List Ack) :
    Within (afterAcks (Double r) us) ∧
      ∀ u, (afterAcks (Double r) us).1.DividesSafely u := by
  have hwithin := within_afterAcks hr us
  exact ⟨hwithin, hwithin.dividesSafely hr (started_afterAcks us)⟩

end Exact

/-- Two samples, the second of them after a step back of the clock. -/
theorem estimate_within_samples_back :
    Within (afterAcks Rational ([0, 400, 500, 300, 420, 460].map ackAt)) ∧
      (afterAcks Rational ([0, 400, 500, 300, 420, 460].map ackAt)).2.length = 2 :=
  ⟨(estimate_within_samples Rounding.exact_isExact _).1, by decide +kernel⟩

end BitrateEstimator
end ChromeGcc
