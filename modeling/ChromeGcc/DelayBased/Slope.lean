import ChromeGcc.Base.LeastSquares
import ChromeGcc.DelayBased.Trendline

/-! LinearFitSlope in exact arithmetic: the slope of the line with the least squared residuals. -/
namespace ChromeGcc
open FloatArith

section Slope
variable {K : Type} [Field K] [LinearOrder K] {r : Rounding K} {packets : List (PacketTiming (Double r))}

/-- The squared residuals of the line a + k t over the smoothed delays of a window. -/
def squaredResiduals (packets : List (PacketTiming (Double r))) (a k : K) : K :=
  (packets.map fun p => (p.smoothedDelayMs.val - a - k * p.arrivalTimeMs.val) ^ 2).sum

def arrivalTimeAvg (packets : List (PacketTiming (Double r))) : K :=
  (packets.map fun p => p.arrivalTimeMs.val).sum / packets.length

def smoothedDelayAvg (packets : List (PacketTiming (Double r))) : K :=
  (packets.map fun p => p.smoothedDelayMs.val).sum / packets.length

/-- The window as points of the plane. -/
def timingPoints (packets : List (PacketTiming (Double r))) : List (K × K) :=
  packets.map fun p => (p.arrivalTimeMs.val, p.smoothedDelayMs.val)

theorem squaredResiduals_eq (packets : List (PacketTiming (Double r))) (a k : K) :
    squaredResiduals packets a k = LeastSquares.residual a k (timingPoints packets) := by
  rw [LeastSquares.residual, timingPoints, List.map_map]
  rfl

theorem meanFst_timingPoints (packets : List (PacketTiming (Double r))) :
    LeastSquares.meanFst (timingPoints packets) = arrivalTimeAvg packets := by
  rw [LeastSquares.meanFst, timingPoints, List.map_map, List.length_map]
  rfl

theorem meanSnd_timingPoints (packets : List (PacketTiming (Double r))) :
    LeastSquares.meanSnd (timingPoints packets) = smoothedDelayAvg packets := by
  rw [LeastSquares.meanSnd, timingPoints, List.map_map, List.length_map]
  rfl

theorem timingPoints_ne_nil (h : packets ≠ []) : timingPoints packets ≠ [] := by
  intro hnil
  exact h (List.map_eq_nil_iff.mp hnil)

theorem spreadFst_timingPoints :
    LeastSquares.spreadFst (timingPoints packets) = (packets.map fun p =>
      (p.arrivalTimeMs.val - arrivalTimeAvg packets) *
        (p.arrivalTimeMs.val - arrivalTimeAvg packets)).sum := by
  rw [LeastSquares.spreadFst, meanFst_timingPoints, timingPoints, List.map_map]
  rfl

theorem covariation_timingPoints :
    LeastSquares.covariation (timingPoints packets) = (packets.map fun p =>
      (p.arrivalTimeMs.val - arrivalTimeAvg packets) *
        (p.smoothedDelayMs.val - smoothedDelayAvg packets)).sum := by
  rw [LeastSquares.covariation, meanFst_timingPoints, meanSnd_timingPoints, timingPoints, List.map_map]
  rfl

theorem same_arrival_iff :
    (∀ p ∈ timingPoints packets, ∀ q ∈ timingPoints packets, p.1 = q.1) ↔
      ∀ p ∈ packets, ∀ q ∈ packets, p.arrivalTimeMs = q.arrivalTimeMs := by
  unfold timingPoints
  simp only [List.forall_mem_map, Double.ext_iff]

section Loops
variable [FloorRing K]

/-- An accumulating loop of exact additions is a sum. -/
theorem val_foldl_add (hr : r.IsExact) {α : Type} (f : α → Double r) (xs : List α) (start : Double r) :
    (xs.foldl (fun sum x => sum + f x) start).val = start.val + (xs.map fun x => (f x).val).sum := by
  induction xs generalizing start with
  | nil => simp
  | cons x xs ih =>
      rw [List.foldl_cons, ih, val_add, hr.rnd, List.map_cons, List.sum_cons, add_assoc]

theorem val_loopSum (hr : r.IsExact) {α : Type} (f : α → Double r) (xs : List α) :
    (xs.foldl (fun sum x => sum + f x) (lit 0)).val = (xs.map fun x => (f x).val).sum := by
  rw [val_foldl_add hr, val_lit_exact hr]
  simp

theorem eqv_lit_zero_iff (hr : r.IsExact) (a : Double r) : eqv a (lit 0) ↔ a.val = 0 := by
  have hzero : (lit 0 : Double r).val = 0 := by
    rw [val_lit_exact hr]
    simp
  change a.val ≤ (lit 0 : Double r).val ∧ (lit 0 : Double r).val ≤ a.val ↔ a.val = 0
  rw [hzero]
  exact antisymm_iff

/-- The second pass, over averages that the first one has found. -/
theorem val_secondPass (hr : r.IsExact) (packets : List (PacketTiming (Double r)))
    (f g : PacketTiming (Double r) → Double r) (fAvg gAvg : Double r) :
    (packets.foldl (fun sum p => sum + (f p - fAvg) * (g p - gAvg)) (lit 0)).val =
      (packets.map fun p => ((f p).val - fAvg.val) * ((g p).val - gAvg.val)).sum := by
  rw [val_loopSum hr]
  congr 1
  apply List.map_congr_left
  intro p _
  rw [val_mul, val_sub, val_sub, hr.rnd, hr.rnd, hr.rnd]

section Ordered
variable [IsStrictOrderedRing K]

theorem val_average (hr : r.IsExact) (h : packets ≠ []) (f : PacketTiming (Double r) → Double r) :
    (packets.foldl (fun sum p => sum + f p) (lit 0) / ofInt packets.length).val =
      (packets.map fun p => (f p).val).sum / packets.length := by
  have hcount : (ofInt packets.length : Double r).val = packets.length := by
    rw [val_ofInt, hr.rnd, Int.cast_natCast]
  have hlen : (packets.length : K) ≠ 0 := LeastSquares.length_ne_zero h
  rw [val_div _ _ (by rw [hcount]; exact hlen), hr.rnd, hcount, val_loopSum hr]

/-- The two passes compute the slope of the least residual. -/
theorem linearFitSlope_eq (hr : r.IsExact) (h : packets ≠ []) :
    linearFitSlope packets =
      if LeastSquares.spreadFst (timingPoints packets) = 0 then none
      else some ⟨LeastSquares.slope (timingPoints packets)⟩ := by
  have hden := val_secondPass hr packets (fun p => p.arrivalTimeMs)
    (fun p => p.arrivalTimeMs)
    (packets.foldl (fun sum p => sum + p.arrivalTimeMs) (lit 0) / ofInt packets.length)
    (packets.foldl (fun sum p => sum + p.arrivalTimeMs) (lit 0) / ofInt packets.length)
  have hnum := val_secondPass hr packets (fun p => p.arrivalTimeMs)
    (fun p => p.smoothedDelayMs)
    (packets.foldl (fun sum p => sum + p.arrivalTimeMs) (lit 0) / ofInt packets.length)
    (packets.foldl (fun sum p => sum + p.smoothedDelayMs) (lit 0) / ofInt packets.length)
  rw [val_average hr h, ← arrivalTimeAvg, ← spreadFst_timingPoints] at hden
  rw [val_average hr h, val_average hr h, ← arrivalTimeAvg, ← smoothedDelayAvg,
    ← covariation_timingPoints] at hnum
  unfold linearFitSlope
  simp only [eqv_lit_zero_iff hr]
  rw [hden]
  by_cases hspread : LeastSquares.spreadFst (timingPoints packets) = 0
  · rw [if_pos hspread, if_pos hspread]
  · rw [if_neg hspread, if_neg hspread, Option.some.injEq, Double.ext_iff]
    rw [val_div _ _ (by rw [hden]; exact hspread), hr.rnd, hden, hnum]
    rfl

/-- LinearFitSlope has no value exactly when all arrival times are equal; otherwise no line has
residuals as small as the one with its slope through the average. -/
theorem linearFitSlope_least_squares (hr : r.IsExact) (h : packets ≠ []) :
    (linearFitSlope packets = none ↔ ∀ p ∈ packets, ∀ q ∈ packets, p.arrivalTimeMs = q.arrivalTimeMs) ∧
    ∀ k, linearFitSlope packets = some k →
      ∀ line : K × K, line ≠ (smoothedDelayAvg packets - k.val * arrivalTimeAvg packets, k.val) →
        squaredResiduals packets (smoothedDelayAvg packets - k.val * arrivalTimeAvg packets) k.val <
          squaredResiduals packets line.1 line.2 := by
  have hpoints := timingPoints_ne_nil h
  rw [linearFitSlope_eq hr h, ← same_arrival_iff, ← LeastSquares.spreadFst_eq_zero_iff hpoints]
  by_cases hspread : LeastSquares.spreadFst (timingPoints packets) = 0
  · rw [if_pos hspread]
    refine ⟨⟨fun _ => hspread, fun _ => rfl⟩, ?_⟩
    intro k hk
    cases hk
  · rw [if_neg hspread]
    refine ⟨⟨fun hnone => (by cases hnone), fun hzero => absurd hzero hspread⟩, ?_⟩
    intro k hk line hline
    cases hk
    rw [squaredResiduals_eq, squaredResiduals_eq, ← meanFst_timingPoints, ← meanSnd_timingPoints]
    rw [← meanFst_timingPoints, ← meanSnd_timingPoints] at hline
    exact LeastSquares.residual_lt hpoints hspread hline

end Ordered
end Loops

/-- Three groups, each five milliseconds later and with two milliseconds more delay. -/
def risingDelay : List (PacketTiming Rational) :=
  [{ arrivalTimeMs := ⟨0⟩, smoothedDelayMs := ⟨0⟩, rawDelayMs := ⟨0⟩ },
   { arrivalTimeMs := ⟨5⟩, smoothedDelayMs := ⟨2⟩, rawDelayMs := ⟨2⟩ },
   { arrivalTimeMs := ⟨10⟩, smoothedDelayMs := ⟨4⟩, rawDelayMs := ⟨4⟩ }]

theorem linearFitSlope_least_squares_risingDelay :
    linearFitSlope risingDelay = some ⟨2 / 5⟩ ∧
    ∀ line : ℚ × ℚ, line ≠ (smoothedDelayAvg risingDelay - 2 / 5 * arrivalTimeAvg risingDelay, 2 / 5) →
      squaredResiduals risingDelay
          (smoothedDelayAvg risingDelay - 2 / 5 * arrivalTimeAvg risingDelay) (2 / 5) <
        squaredResiduals risingDelay line.1 line.2 := by
  have hne : risingDelay ≠ [] := List.cons_ne_nil _ _
  have hslope : linearFitSlope risingDelay = some ⟨2 / 5⟩ := by
    rw [linearFitSlope_eq Rounding.exact_isExact hne, LeastSquares.slope, spreadFst_timingPoints,
      covariation_timingPoints]
    norm_num [risingDelay, arrivalTimeAvg, smoothedDelayAvg]
  refine ⟨hslope, ?_⟩
  exact (linearFitSlope_least_squares Rounding.exact_isExact hne).2 ⟨2 / 5⟩ hslope

end Slope
end ChromeGcc
