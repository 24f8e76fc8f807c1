import ChromeGcc.RateControl.LinkCapacity
import Mathlib.Analysis.Convex.Segment
import Mathlib.Analysis.Real.Sqrt

/-! The link capacity over a run: its bounds enclose it, and it lies among the samples since
the last Reset. -/
namespace ChromeGcc
open FloatArith UnitBase

/-- A call of LinkCapacityEstimator, with a finite rate in bits per second. -/
inductive CapacityCall where
  | onOveruseDetected (acknowledgedRate : Nat)
  | onProbeRate (probeRate : Nat)
  | reset
  deriving DecidableEq, Repr

/-- The samples since the last Reset, in kilobits per second. -/
def CapacityCall.record (samples : List Int) : CapacityCall → List Int
  | .onOveruseDetected acknowledgedRate => samples ++ [DataRate.kbps (.finite acknowledgedRate)]
  | .onProbeRate probeRate => samples ++ [DataRate.kbps (.finite probeRate)]
  | .reset => []

def samplesSinceReset (calls : List CapacityCall) : List Int := calls.foldl CapacityCall.record []

theorem kbps_nonneg (bps : Nat) : 0 ≤ DataRate.kbps (.finite bps) := by
  unfold DataRate.kbps divRoundPositiveToNearest
  apply Int.tdiv_nonneg
  · have hhalf : (0 : Int) ≤ (1000 : Int).tdiv 2 := by decide
    have hbps : (0 : Int) ≤ toValue (.finite bps : DataRate) := Int.natCast_nonneg bps
    omega
  · decide

namespace LinkCapacityEstimator

section Calls
variable {F : Type} [FloatArith F]

def afterCall (l : LinkCapacityEstimator F) : CapacityCall → LinkCapacityEstimator F
  | .onOveruseDetected acknowledgedRate => l.onOveruseDetected (.finite acknowledgedRate)
  | .onProbeRate probeRate => l.onProbeRate (.finite probeRate)
  | .reset => l.reset

def afterCalls (calls : List CapacityCall) : LinkCapacityEstimator F :=
  calls.foldl afterCall {}

/-- The estimate that Update stores. -/
def blended (l : LinkCapacityEstimator F) (alpha sampleKbps : F) : F :=
  match l.estimateKbps with
  | none => sampleKbps
  | some estimate => (lit 1 - alpha) * estimate + alpha * sampleKbps

/-- The deviation before its clamp. -/
def rawDeviation (l : LinkCapacityEstimator F) (alpha sampleKbps estimate : F) : F :=
  (lit 1 - alpha) * l.deviationKbps +
    alpha * (estimate - sampleKbps) * (estimate - sampleKbps) / stdMax estimate (lit 1)

theorem update_eq (l : LinkCapacityEstimator F) (capacitySample : DataRate) (alpha : F) :
    l.update capacitySample alpha =
      { estimateKbps := some (l.blended alpha (ofInt capacitySample.kbps))
        deviationKbps :=
          safeClamp (l.rawDeviation alpha (ofInt capacitySample.kbps)
              (l.blended alpha (ofInt capacitySample.kbps)))
            (narrow (lit 0.4)) (narrow (lit 2.5)) } := rfl

end Calls

section Exact
variable {K : Type} [Field K] [LinearOrder K] [FloorRing K] {r : Rounding K}
  {l : LinkCapacityEstimator (Double r)} {samples : List Int}

/-- The deviation between its bounds, and the estimate, where there is one, between two of the
samples since the last Reset. -/
structure Ordered (l : LinkCapacityEstimator (Double r)) (samples : List Int) : Prop where
  deviation : (0.4 : K) ≤ l.deviationKbps.val ∧ l.deviationKbps.val ≤ 2.5
  samples_nonneg : ∀ sample ∈ samples, 0 ≤ sample
  between : ∀ estimate, l.estimateKbps = some estimate →
    ∃ low ∈ samples, ∃ high ∈ samples, (low : K) ≤ estimate.val ∧ estimate.val ≤ high

theorem val_narrow_lit_exact (hr : r.IsExact) (q : ℚ) :
    (narrow (lit q) : Double r).val = q.num / q.den := by
  rw [val_narrow, hr.narrow, val_lit_exact hr]

theorem Ordered.reset (h : Ordered l samples) : Ordered l.reset [] where
  deviation := h.deviation
  samples_nonneg sample hsample := by cases hsample
  between estimate hestimate := by cases hestimate

variable [IsStrictOrderedRing K]

theorem ordered_initial (hr : r.IsExact) : Ordered ({} : LinkCapacityEstimator (Double r)) [] where
  deviation := by
    have hdeviation : ({} : LinkCapacityEstimator (Double r)).deviationKbps.val = 2 / 5 := by
      rw [val_lit_exact hr]
      norm_num
    rw [hdeviation]
    norm_num
  samples_nonneg sample hsample := by cases hsample
  between estimate hestimate := by cases hestimate

/-- The blend lies between two samples, of which the new one may be one. -/
theorem Ordered.blended (hr : r.IsExact) (h : Ordered l samples) {alpha : Double r} (h0 : 0 ≤ alpha.val)
    (h1 : alpha.val ≤ 1) (sample : Int) :
    ∃ low ∈ samples ++ [sample], ∃ high ∈ samples ++ [sample],
      (low : K) ≤ (l.blended alpha (ofInt sample)).val ∧
        (l.blended alpha (ofInt sample)).val ≤ high := by
  have hnew : sample ∈ samples ++ [sample] := List.mem_append_right _ List.mem_cons_self
  unfold LinkCapacityEstimator.blended
  cases hl : l.estimateKbps with
  | none =>
      refine ⟨sample, hnew, sample, hnew, ?_, ?_⟩
      · dsimp only
        rw [val_ofInt, hr.rnd]
      · dsimp only
        rw [val_ofInt, hr.rnd]
  | some estimate =>
      obtain ⟨low, hlow, high, hhigh, hle, hge⟩ := h.between estimate hl
      have hval : ((lit 1 - alpha) * estimate + alpha * ofInt sample : Double r).val =
          (1 - alpha.val) • estimate.val + alpha.val • (sample : K) := by
        rw [val_add, val_mul, val_mul, val_sub, val_lit_exact hr, val_ofInt]
        simp only [hr.rnd, smul_eq_mul]
        norm_num
      have hweight : 1 - alpha.val + alpha.val = 1 := by ring
      have hmin := Convex.min_le_combo estimate.val (sample : K) (sub_nonneg.mpr h1) h0 hweight
      have hmax := Convex.combo_le_max estimate.val (sample : K) (sub_nonneg.mpr h1) h0 hweight
      dsimp only
      rw [hval]
      rcases le_total estimate.val (sample : K) with hup | hdown
      · rw [min_eq_left hup] at hmin
        rw [max_eq_right hup] at hmax
        exact ⟨low, List.mem_append_left _ hlow, sample, hnew, hle.trans hmin, hmax⟩
      · rw [min_eq_right hdown] at hmin
        rw [max_eq_left hdown] at hmax
        exact ⟨sample, hnew, high, List.mem_append_left _ hhigh, hmin, hmax.trans hge⟩

theorem Ordered.update (hr : r.IsExact) (h : Ordered l samples) {alpha : Double r} (h0 : 0 ≤ alpha.val)
    (h1 : alpha.val ≤ 1) (bps : Nat) :
    Ordered (l.update (.finite bps) alpha) (samples ++ [DataRate.kbps (.finite bps)]) where
  deviation := by
    have hlow : (narrow (lit 0.4) : Double r).val = 0.4 := by
      rw [val_narrow_lit_exact hr]
      norm_num
    have hhigh : (narrow (lit 2.5) : Double r).val = 2.5 := by
      rw [val_narrow_lit_exact hr]
      norm_num
    have hclamp := safeClamp_between
      (l.rawDeviation alpha (ofInt (DataRate.kbps (.finite bps)))
        (l.blended alpha (ofInt (DataRate.kbps (.finite bps)))))
      (narrow (lit 0.4)) (narrow (lit 2.5)) (by rw [hlow, hhigh]; norm_num)
    rw [hlow, hhigh] at hclamp
    exact hclamp
  samples_nonneg sample hsample := by
    rcases List.mem_append.mp hsample with hold | hnew
    · exact h.samples_nonneg sample hold
    · rw [List.mem_singleton.mp hnew]
      exact kbps_nonneg bps
  between estimate hestimate := by
    rw [update_eq] at hestimate
    cases hestimate
    exact h.blended hr h0 h1 _

theorem Ordered.afterCall (hr : r.IsExact) (h : Ordered l samples) (call : CapacityCall) :
    Ordered (l.afterCall call) (call.record samples) := by
  cases call with
  | onOveruseDetected acknowledgedRate =>
      have halpha : (lit 0.05 : Double r).val = 0.05 := by
        rw [val_lit_exact hr]
        norm_num
      exact h.update hr (by rw [halpha]; norm_num) (by rw [halpha]; norm_num) acknowledgedRate
  | onProbeRate probeRate =>
      have halpha : (lit 0.5 : Double r).val = 0.5 := by
        rw [val_lit_exact hr]
        norm_num
      exact h.update hr (by rw [halpha]; norm_num) (by rw [halpha]; norm_num) probeRate
  | reset => exact h.reset

theorem ordered_afterCalls (hr : r.IsExact) (calls : List CapacityCall) :
    Ordered (afterCalls calls : LinkCapacityEstimator (Double r)) (samplesSinceReset calls) := by
  unfold afterCalls samplesSinceReset
  induction calls using List.reverseRecOn with
  | nil => exact ordered_initial hr
  | append_singleton calls call ih =>
      rw [List.foldl_append, List.foldl_append]
      exact ih.afterCall hr call

section Bounds
variable {estimate : Double r}

theorem Ordered.estimate_nonneg (h : Ordered l samples) (hl : l.estimateKbps = some estimate) :
    0 ≤ estimate.val := by
  obtain ⟨low, hlow, -, -, hle, -⟩ := h.between estimate hl
  have hnonneg : (0 : K) ≤ low := by exact_mod_cast h.samples_nonneg low hlow
  exact hnonneg.trans hle

/-- What the square root is taken of. -/
theorem Ordered.sqrt_argument_nonneg (hr : r.IsExact) (h : Ordered l samples)
    (hl : l.estimateKbps = some estimate) : 0 ≤ (l.deviationKbps * estimate).val := by
  have hdeviation : (0 : K) ≤ l.deviationKbps.val := le_trans (by norm_num) h.deviation.1
  rw [val_mul, hr.rnd]
  exact mul_nonneg hdeviation (h.estimate_nonneg hl)

theorem fromFraction_mono (hr : r.IsExact) {x y : Double r} (h : x.val ≤ y.val) :
    (UnitBase.fromFraction 1000 x : DataRate) ≤ UnitBase.fromFraction 1000 y := by
  change (UnitBase.finite _ : DataRate) ≤ .finite _
  rw [finite_le_finite]
  apply truncField_mono
  rw [val_mul, val_mul, val_ofInt, hr.rnd, hr.rnd, hr.rnd]
  exact mul_le_mul_of_nonneg_right h (by norm_num)

theorem Ordered.lowerBound_le_estimate (hr : r.IsExact) (hsqrt : ∀ x, 0 ≤ r.sqrt x)
    (h : Ordered l samples) (hl : l.estimateKbps = some estimate) : l.lowerBound ≤ l.estimate := by
  unfold lowerBound LinkCapacityEstimator.estimate
  rw [hl]
  apply fromFraction_mono hr
  have hdeviation : 0 ≤ (l.deviationEstimateKbps estimate).val := hsqrt _
  have hestimate := h.estimate_nonneg hl
  rw [val_stdMax, val_sub, val_mul, val_lit_exact hr, val_lit_exact hr]
  simp only [hr.rnd]
  norm_num
  exact ⟨hestimate, hdeviation⟩

theorem estimate_le_upperBound (hr : r.IsExact) (hsqrt : ∀ x, 0 ≤ r.sqrt x)
    (hl : l.estimateKbps = some estimate) : l.estimate ≤ l.upperBound := by
  unfold upperBound LinkCapacityEstimator.estimate
  rw [hl]
  apply fromFraction_mono hr
  have hdeviation : 0 ≤ (l.deviationEstimateKbps estimate).val := hsqrt _
  rw [val_add, val_mul, val_lit_exact hr]
  simp only [hr.rnd]
  norm_num
  exact hdeviation

/-- What holds of an estimator with an estimate, given the samples since the last Reset. -/
structure BoundsOrdered (l : LinkCapacityEstimator (Double r)) (samples : List Int) : Prop where
  lower : l.lowerBound ≤ l.estimate
  upper : l.estimate ≤ l.upperBound
  deviation : (0.4 : K) ≤ l.deviationKbps.val ∧ l.deviationKbps.val ≤ 2.5
  sqrtArgument : ∀ estimate, l.estimateKbps = some estimate → 0 ≤ (l.deviationKbps * estimate).val
  between : ∃ estimate, l.estimateKbps = some estimate ∧
    ∃ low ∈ samples, ∃ high ∈ samples, (low : K) ≤ estimate.val ∧ estimate.val ≤ high

theorem Ordered.boundsOrdered (hr : r.IsExact) (hsqrt : ∀ x, 0 ≤ r.sqrt x) (h : Ordered l samples)
    (hl : l.estimateKbps = some estimate) : BoundsOrdered l samples where
  lower := h.lowerBound_le_estimate hr hsqrt hl
  upper := estimate_le_upperBound hr hsqrt hl
  deviation := h.deviation
  sqrtArgument _ hsome := h.sqrt_argument_nonneg hr hsome
  between := ⟨estimate, hl, h.between estimate hl⟩

end Bounds
end Exact

section Reals
variable (pow : ℝ → ℝ → ℝ) (divZero : ℝ → ℝ)

/-- Real arithmetic with its square root. -/
abbrev Reals : Type := Double (Rounding.exact Real.sqrt pow divZero)

/-- Whatever the calls: where there is an estimate, the bounds enclose it, the deviation keeps to
its range, and the estimate lies between two of the samples since the last Reset. -/
theorem capacity_bounds_ordered (calls : List CapacityCall)
    (h : (afterCalls calls : LinkCapacityEstimator (Reals pow divZero)).hasEstimate = true) :
    BoundsOrdered (afterCalls calls : LinkCapacityEstimator (Reals pow divZero))
      (samplesSinceReset calls) := by
  have hr : (Rounding.exact Real.sqrt pow divZero).IsExact := Rounding.exact_isExact
  obtain ⟨estimate, hestimate⟩ := Option.isSome_iff_exists.mp h
  exact (ordered_afterCalls hr calls).boundsOrdered hr Real.sqrt_nonneg hestimate

/-- An overuse, a Reset, a probe and an overuse again: the last two samples count. -/
def probeAfterReset : List CapacityCall :=
  [.onOveruseDetected 500000, .reset, .onProbeRate 800000, .onOveruseDetected 600000]

/-- The sample of the second overuse weighs one twentieth. -/
theorem capacity_bounds_ordered_probe :
    samplesSinceReset probeAfterReset = [800, 600] ∧
    (∃ estimate, (afterCalls probeAfterReset :
      LinkCapacityEstimator (Reals (fun x _ => x) id)).estimateKbps = some estimate ∧
        estimate.val = 790) ∧
    BoundsOrdered (afterCalls probeAfterReset : LinkCapacityEstimator (Reals (fun x _ => x) id))
      (samplesSinceReset probeAfterReset) := by
  refine ⟨by decide, ⟨_, rfl, ?_⟩, capacity_bounds_ordered (fun x _ => x) id probeAfterReset rfl⟩
  have hr : (Rounding.exact Real.sqrt (fun x _ => x) id).IsExact := Rounding.exact_isExact
  change ((lit 1 - lit 0.05) * ofInt 800 + lit 0.05 * ofInt 600 : Reals (fun x _ => x) id).val = 790
  rw [val_add, val_mul, val_mul, val_sub, val_lit_exact hr, val_lit_exact hr, val_ofInt, val_ofInt]
  simp only [hr.rnd]
  norm_num

end Reals
end LinkCapacityEstimator
end ChromeGcc
