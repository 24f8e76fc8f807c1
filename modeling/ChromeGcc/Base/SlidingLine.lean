import ChromeGcc.Base.LeastSquares
import Mathlib.Data.List.DropRight

/-! A window that slides over a stream of points, and the line through the last full one. -/

namespace SlidingLine
section Lists
variable {α : Type}

/-- What has been seen of a stream after each of its values. -/
def beginnings (xs : List α) : List (List α) := xs.inits.tail

@[simp] theorem beginnings_nil : beginnings ([] : List α) = [] := rfl

@[simp] theorem beginnings_concat (xs : List α) (x : α) :
    beginnings (xs ++ [x]) = beginnings xs ++ [xs ++ [x]] := by
  have hne : xs.inits ≠ [] := by
    apply List.ne_nil_of_length_pos
    simp
  have hinits : (xs ++ [x]).inits = xs.inits ++ [xs ++ [x]] := by
    simp [List.inits_append]
  rw [beginnings, hinits, List.tail_append_of_ne_nil hne]
  rfl

theorem length_rtake (n : Nat) (xs : List α) : (xs.rtake n).length = min n xs.length := by
  rw [List.rtake, List.length_drop]
  omega

/-- A queue of bounded length keeps the last values of the stream. -/
theorem rtake_concat {size : Nat} (hsize : 0 < size) (xs : List α) (x : α) :
    (if (xs.rtake size ++ [x]).length > size then (xs.rtake size ++ [x]).tail
      else xs.rtake size ++ [x]) = (xs ++ [x]).rtake size := by
  have hlength := length_rtake size xs
  rw [List.length_append, hlength, List.length_singleton]
  obtain ⟨n, rfl⟩ : ∃ n, size = n + 1 := ⟨size - 1, by omega⟩
  rw [List.rtake_concat_succ]
  split_ifs with hfull
  · have hne : xs.rtake (n + 1) ≠ [] := by
      apply List.ne_nil_of_length_pos
      omega
    rw [List.tail_append_of_ne_nil hne, List.rtake, List.rtake, List.tail_drop]
    congr 2
    omega
  · rw [List.rtake, List.rtake, show xs.length - (n + 1) = xs.length - n by omega]

end Lists

variable {K : Type} [Field K]

/-- The exponential average of a stream that starts from zero. -/
def average (a : K) (xs : List K) : K := xs.foldl (fun mean x => a * mean + (1 - a) * x) 0

@[simp] theorem average_concat (a : K) (xs : List K) (x : K) :
    average a (xs ++ [x]) = a * average a xs + (1 - a) * x := List.foldl_concat _ _ _ _

/-- A window is full and its points are not one above the other. -/
def Fits (size : Nat) (seen : List (K × K)) : Prop :=
  size ≤ seen.length ∧ LeastSquares.spreadFst (seen.rtake size) ≠ 0

instance [DecidableEq K] (size : Nat) (seen : List (K × K)) : Decidable (Fits size seen) :=
  inferInstanceAs (Decidable (_ ∧ _))

/-- The slope of the last window that has a line, or zero. -/
def lastSlope [DecidableEq K] (size : Nat) (pts : List (K × K)) : K :=
  ((beginnings pts).filter fun seen => Fits size seen).getLast?.elim 0 fun seen =>
    LeastSquares.slope (seen.rtake size)

theorem lastSlope_concat [DecidableEq K] (size : Nat) (pts : List (K × K)) (p : K × K) :
    lastSlope size (pts ++ [p]) =
      if Fits size (pts ++ [p]) then LeastSquares.slope ((pts ++ [p]).rtake size)
      else lastSlope size pts := by
  unfold lastSlope
  rw [beginnings_concat, List.filter_append, List.filter_singleton]
  split_ifs with hfits
  · simp [hfits]
  · simp [hfits]

end SlidingLine
