import Mathlib.Algebra.Order.Chebyshev
import Mathlib.Tactic

/-! The line through a list of points with the least sum of squared residuals. -/

namespace LeastSquares
variable {K : Type} [Field K]

/-- The squared distances of the points from the line a + k x, along the second axis. -/
def residual (a k : K) (pts : List (K × K)) : K := (pts.map fun p => (p.2 - a - k * p.1) ^ 2).sum

def meanFst (pts : List (K × K)) : K := (pts.map Prod.fst).sum / pts.length

def meanSnd (pts : List (K × K)) : K := (pts.map Prod.snd).sum / pts.length

def spreadFst (pts : List (K × K)) : K := (pts.map fun p => (p.1 - meanFst pts) * (p.1 - meanFst pts)).sum

def spreadSnd (pts : List (K × K)) : K := (pts.map fun p => (p.2 - meanSnd pts) * (p.2 - meanSnd pts)).sum

def covariation (pts : List (K × K)) : K :=
  (pts.map fun p => (p.1 - meanFst pts) * (p.2 - meanSnd pts)).sum

/-- A sum of squared differences in the sums of their parts. -/
theorem sum_sq_line (pts : List (K × K)) (x y k d : K) :
    (pts.map fun p => (p.2 - y - k * (p.1 - x) - d) ^ 2).sum =
      (pts.map fun p => (p.2 - y) * (p.2 - y)).sum - 2 * k * (pts.map fun p => (p.1 - x) * (p.2 - y)).sum +
        k ^ 2 * (pts.map fun p => (p.1 - x) * (p.1 - x)).sum + pts.length * d ^ 2 -
        2 * d * ((pts.map fun p => p.2 - y).sum - k * (pts.map fun p => p.1 - x).sum) := by
  induction pts with
  | nil => simp
  | cons p pts ih =>
      simp only [List.map_cons, List.sum_cons, List.length_cons]
      rw [ih]
      push_cast
      ring

theorem sum_map_sub_const (xs : List K) (c : K) :
    (xs.map fun x => x - c).sum = xs.sum - xs.length * c := by
  induction xs with
  | nil => simp
  | cons x xs ih =>
      rw [List.map_cons, List.sum_cons, List.sum_cons, List.length_cons, ih]
      push_cast
      ring

theorem sum_map_mul_sub (pts : List (K × K)) (x y : K) :
    (pts.map fun p => (p.1 - x) * (p.2 - y)).sum =
      (pts.map fun p => p.1 * p.2).sum - x * (pts.map Prod.snd).sum -
        y * (pts.map fun p => p.1 - x).sum := by
  induction pts with
  | nil => simp
  | cons p pts ih =>
      simp only [List.map_cons, List.sum_cons]
      rw [ih]
      ring

section Line
variable [LinearOrder K] [IsStrictOrderedRing K] {pts : List (K × K)}

theorem length_ne_zero {α : Type} {xs : List α} (h : xs ≠ []) : (xs.length : K) ≠ 0 := by
  rw [Nat.cast_ne_zero, ne_eq, List.length_eq_zero_iff]
  exact h

/-- The differences from a mean cancel. -/
theorem sum_sub_meanFst (h : pts ≠ []) : (pts.map fun p => p.1 - meanFst pts).sum = 0 := by
  have hsum := sum_map_sub_const (pts.map Prod.fst) (meanFst pts)
  rw [List.map_map, List.length_map, meanFst, mul_div_cancel₀ _ (length_ne_zero h), sub_self] at hsum
  exact hsum

theorem sum_sub_meanSnd (h : pts ≠ []) : (pts.map fun p => p.2 - meanSnd pts).sum = 0 := by
  have hsum := sum_map_sub_const (pts.map Prod.snd) (meanSnd pts)
  rw [List.map_map, List.length_map, meanSnd, mul_div_cancel₀ _ (length_ne_zero h), sub_self] at hsum
  exact hsum

theorem residual_eq (h : pts ≠ []) (a k : K) :
    residual a k pts = spreadSnd pts - 2 * k * covariation pts + k ^ 2 * spreadFst pts +
      pts.length * (a - (meanSnd pts - k * meanFst pts)) ^ 2 := by
  have hcentred : residual a k pts = (pts.map fun p => (p.2 - meanSnd pts - k * (p.1 - meanFst pts) -
      (a - (meanSnd pts - k * meanFst pts))) ^ 2).sum := by
    unfold residual
    congr 1
    apply List.map_congr_left
    intro p _
    ring
  rw [hcentred, sum_sq_line, sum_sub_meanFst h, sum_sub_meanSnd h]
  unfold spreadFst spreadSnd covariation
  ring

/-- The slope of the line with the least residual. -/
def slope (pts : List (K × K)) : K := covariation pts / spreadFst pts

def intercept (pts : List (K × K)) : K := meanSnd pts - slope pts * meanFst pts

/-- What another line has more than the least one: two squares. -/
theorem residual_excess (h : pts ≠ []) (hspread : spreadFst pts ≠ 0) (a k : K) :
    residual a k pts = residual (intercept pts) (slope pts) pts +
      spreadFst pts * (k - slope pts) ^ 2 + pts.length * (a - (meanSnd pts - k * meanFst pts)) ^ 2 := by
  have hslope : slope pts * spreadFst pts = covariation pts := div_mul_cancel₀ _ hspread
  rw [residual_eq h, residual_eq h, ← hslope, intercept]
  ring

theorem spreadFst_nonneg (pts : List (K × K)) : 0 ≤ spreadFst pts := by
  apply List.sum_nonneg
  intro x hx
  obtain ⟨p, -, rfl⟩ := List.mem_map.mp hx
  exact mul_self_nonneg _

theorem spreadFst_eq_zero_iff_mean : spreadFst pts = 0 ↔ ∀ p ∈ pts, p.1 = meanFst pts := by
  constructor
  · intro hzero p hp
    have hsquare := List.all_zero_of_le_zero_le_of_sum_eq_zero (fun x hx => by
      obtain ⟨q, -, rfl⟩ := List.mem_map.mp hx
      exact mul_self_nonneg _) hzero (List.mem_map_of_mem hp)
    exact sub_eq_zero.mp (mul_self_eq_zero.mp hsquare)
  · intro hmean
    apply List.sum_eq_zero
    intro x hx
    obtain ⟨p, hp, rfl⟩ := List.mem_map.mp hx
    rw [hmean p hp, sub_self, mul_zero]

/-- The spread vanishes exactly when the first coordinates agree. -/
theorem spreadFst_eq_zero_iff (h : pts ≠ []) :
    spreadFst pts = 0 ↔ ∀ p ∈ pts, ∀ q ∈ pts, p.1 = q.1 := by
  rw [spreadFst_eq_zero_iff_mean]
  constructor
  · intro hmean p hp q hq
    rw [hmean p hp, hmean q hq]
  · intro hall p hp
    have hconst : pts.map Prod.fst = List.replicate pts.length p.1 := by
      rw [List.eq_replicate_iff, List.length_map]
      refine ⟨rfl, ?_⟩
      intro x hx
      obtain ⟨q, hq, rfl⟩ := List.mem_map.mp hx
      exact hall q hq p hp
    rw [meanFst, hconst, List.sum_replicate, nsmul_eq_mul, mul_div_cancel_left₀ _ (length_ne_zero h)]

/-- No other line has so small a residual. -/
theorem residual_lt (h : pts ≠ []) (hspread : spreadFst pts ≠ 0) {a k : K}
    (hne : (a, k) ≠ (intercept pts, slope pts)) :
    residual (intercept pts) (slope pts) pts < residual a k pts := by
  have hfst : 0 < spreadFst pts := lt_of_le_of_ne (spreadFst_nonneg pts) (Ne.symm hspread)
  have hlen : (0 : K) < pts.length := lt_of_le_of_ne (Nat.cast_nonneg _) (Ne.symm (length_ne_zero h))
  rw [residual_excess h hspread a k, add_assoc, lt_add_iff_pos_right]
  by_cases hk : k = slope pts
  · have ha : a - (meanSnd pts - k * meanFst pts) ≠ 0 := by
      intro ha
      apply hne
      rw [Prod.mk.injEq, intercept, ← hk]
      exact ⟨sub_eq_zero.mp ha, rfl⟩
    have hpos := pow_pos (abs_pos.mpr ha) 2
    rw [sq_abs] at hpos
    have hnonneg : 0 ≤ spreadFst pts * (k - slope pts) ^ 2 := by positivity
    exact add_pos_of_nonneg_of_pos hnonneg (mul_pos hlen hpos)
  · have hpos := pow_pos (abs_pos.mpr (sub_ne_zero.mpr hk)) 2
    rw [sq_abs] at hpos
    have hnonneg : 0 ≤ pts.length * (a - (meanSnd pts - k * meanFst pts)) ^ 2 := by positivity
    exact add_pos_of_pos_of_nonneg (mul_pos hfst hpos) hnonneg

/-- Points whose second coordinates fall while the first ones rise have no rising line. -/
theorem slope_nonpos (hfalls : pts.Pairwise fun p q => p.1 ≤ q.1 ∧ q.2 ≤ p.2) : slope pts ≤ 0 := by
  refine div_nonpos_of_nonpos_of_nonneg ?_ (spreadFst_nonneg pts)
  by_cases h : pts = []
  · subst h
    exact le_of_eq rfl
  have hsum : ∀ f : K × K → K, (pts.map f).sum = ∑ i : Fin pts.length, f pts[i] :=
    fun f => (Fin.sum_univ_fun_getElem pts f).symm
  have hordered := List.pairwise_iff_getElem.mp hfalls
  have hanti : Antivary (fun i : Fin pts.length => pts[i].1) (fun i : Fin pts.length => pts[i].2) := by
    intro i j hlt
    rcases lt_trichotomy i j with hij | rfl | hji
    · exact absurd hlt (not_lt.mpr (hordered i j i.2 j.2 hij).2)
    · exact absurd hlt (lt_irrefl _)
    · exact (hordered j i j.2 i.2 hji).1
  have hchebyshev := hanti.card_mul_sum_le_sum_mul_sum
  rw [Fintype.card_fin, ← hsum fun p => p.1 * p.2, ← hsum fun p => p.1, ← hsum fun p => p.2] at hchebyshev
  have hlen : (0 : K) < pts.length := lt_of_le_of_ne (Nat.cast_nonneg _) (Ne.symm (length_ne_zero h))
  rw [covariation, sum_map_mul_sub, sum_sub_meanFst h, mul_zero, sub_zero, sub_nonpos, meanFst,
    div_mul_eq_mul_div, le_div_iff₀ hlen, mul_comm]
  exact hchebyshev

end Line
end LeastSquares
