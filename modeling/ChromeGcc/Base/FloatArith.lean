import Mathlib.Data.Rat.Floor
import Mathlib.Tactic

/-! Floating-point arithmetic as an interface. A program written over it can be
read with any arithmetic: a proof that needs no law covers every machine format,
and one that does says which rounder contract it rests on. -/

/-- The floating-point operations of a program; no law is assumed here. -/
class FloatArith (F : Type) extends Add F, Sub F, Mul F, Div F, Neg F, LE F, LT F where
  decidableLE : DecidableLE F
  decidableLT : DecidableLT F
  ofInt : Int → F
  /-- A decimal literal of the program text. -/
  lit : ℚ → F
  /-- Conversion from double to float. -/
  narrow : F → F
  plusInf : F
  minusInf : F
  isPlusInf : F → Bool
  isMinusInf : F → Bool
  /-- Conversion to an integer, toward zero. -/
  trunc : F → Int
  /-- Rounding to an integral value, half away from zero. -/
  round : F → F
  ceil : F → F
  sqrt : F → F
  pow : F → F → F

namespace FloatArith

instance {F : Type} [FloatArith F] : DecidableLE F := FloatArith.decidableLE
instance {F : Type} [FloatArith F] : DecidableLT F := FloatArith.decidableLT

section Derived
variable {F : Type} [FloatArith F]

/-- std::min: the first argument unless the second is smaller. -/
def stdMin (a b : F) : F := if b < a then b else a

/-- std::max: the first argument unless the second is larger. -/
def stdMax (a b : F) : F := if a < b then b else a

def abs (a : F) : F := if a < lit 0 then -a else a

end Derived

/-- A rounder contract: both roundings are monotone and fix the dyadic fractions that
their format represents. The remaining fields are arbitrary functions. -/
structure Rounding (K : Type) [Field K] [LinearOrder K] where
  rnd : K → K
  narrow : K → K
  rnd_mono : Monotone rnd
  rnd_dyadic : ∀ (m : ℤ) (k : ℕ), |m| ≤ 2 ^ 53 → k ≤ 1074 → rnd (m / 2 ^ k) = m / 2 ^ k
  narrow_mono : Monotone narrow
  narrow_dyadic : ∀ (m : ℤ) (k : ℕ), |m| ≤ 2 ^ 24 → k ≤ 149 → narrow (m / 2 ^ k) = m / 2 ^ k
  sqrt : K → K
  pow : K → K → K
  /-- The value that stands for a division by zero. -/
  divZero : K → K

/-- No rounding at all: arithmetic in the ordered field itself. -/
def Rounding.exact {K : Type} [Field K] [LinearOrder K]
    (sqrt : K → K) (pow : K → K → K) (divZero : K → K) : Rounding K where
  rnd := id
  narrow := id
  rnd_mono := monotone_id
  rnd_dyadic _ _ _ _ := rfl
  narrow_mono := monotone_id
  narrow_dyadic _ _ _ _ := rfl
  sqrt := sqrt
  pow := pow
  divZero := divZero

/-- A rounding that changes nothing. -/
structure Rounding.IsExact {K : Type} [Field K] [LinearOrder K] (r : Rounding K) : Prop where
  rnd : ∀ x, r.rnd x = x
  narrow : ∀ x, r.narrow x = x

theorem Rounding.exact_isExact {K : Type} [Field K] [LinearOrder K] {sqrt : K → K} {pow : K → K → K}
    {divZero : K → K} : (Rounding.exact sqrt pow divZero).IsExact :=
  ⟨fun _ => rfl, fun _ => rfl⟩

section Contract
variable {K : Type} [Field K] [LinearOrder K] (r : Rounding K)

theorem Rounding.rnd_int (n : ℤ) (h : |n| ≤ 2 ^ 53) : r.rnd n = n := by
  simpa using r.rnd_dyadic n 0 h (by omega)

theorem Rounding.le_rnd {n : ℤ} {x : K} (h : |n| ≤ 2 ^ 53) (hx : (n : K) ≤ x) : (n : K) ≤ r.rnd x := by
  rw [← r.rnd_int n h]
  exact r.rnd_mono hx

theorem Rounding.rnd_le {n : ℤ} {x : K} (h : |n| ≤ 2 ^ 53) (hx : x ≤ n) : r.rnd x ≤ n := by
  rw [← r.rnd_int n h]
  exact r.rnd_mono hx

theorem Rounding.narrow_rnd_int {n : ℤ} (h : |n| ≤ 2 ^ 24) : r.narrow (r.rnd n) = n := by
  rw [r.rnd_int n (h.trans (by norm_num))]
  simpa using r.narrow_dyadic n 0 h (by omega)

theorem Rounding.narrow_rnd_nonneg {x : K} (h : 0 ≤ x) : 0 ≤ r.narrow (r.rnd x) := by
  have hzero := r.narrow_rnd_int (n := 0) (by norm_num)
  have hmono := r.narrow_mono (r.rnd_mono h)
  rw [Int.cast_zero] at hzero
  rwa [hzero] at hmono

end Contract

/-- A finite floating-point number under a rounding. -/
@[ext] structure Double {K : Type} [Field K] [LinearOrder K] (r : Rounding K) where
  val : K

section Field
variable {K : Type} [Field K] [LinearOrder K] [FloorRing K]

/-- The integral part, toward zero. -/
def truncField (x : K) : Int := if 0 ≤ x then ⌊x⌋ else -⌊-x⌋

/-- The nearest integer, half away from zero. -/
def roundField (x : K) : Int := if 0 ≤ x then ⌊x + 1 / 2⌋ else -⌊-x + 1 / 2⌋

/-- Every operation is the exact one followed by the rounding. -/
instance (r : Rounding K) : FloatArith (Double r) where
  add a b := ⟨r.rnd (a.val + b.val)⟩
  sub a b := ⟨r.rnd (a.val - b.val)⟩
  mul a b := ⟨r.rnd (a.val * b.val)⟩
  div a b := ⟨if b.val = 0 then r.divZero a.val else r.rnd (a.val / b.val)⟩
  neg a := ⟨-a.val⟩
  le a b := a.val ≤ b.val
  lt a b := a.val < b.val
  decidableLE a b := inferInstanceAs (Decidable (a.val ≤ b.val))
  decidableLT a b := inferInstanceAs (Decidable (a.val < b.val))
  ofInt n := ⟨r.rnd n⟩
  lit q := ⟨r.rnd (q.num / q.den)⟩
  narrow a := ⟨r.narrow a.val⟩
  plusInf := ⟨0⟩
  minusInf := ⟨0⟩
  isPlusInf _ := false
  isMinusInf _ := false
  trunc a := truncField a.val
  round a := ⟨roundField a.val⟩
  ceil a := ⟨⌈a.val⌉⟩
  sqrt a := ⟨r.sqrt a.val⟩
  pow a b := ⟨r.pow a.val b.val⟩

section Values
variable {r : Rounding K} (a b : Double r)

@[simp] theorem val_add : (a + b).val = r.rnd (a.val + b.val) := rfl
@[simp] theorem val_sub : (a - b).val = r.rnd (a.val - b.val) := rfl
@[simp] theorem val_mul : (a * b).val = r.rnd (a.val * b.val) := rfl
@[simp] theorem val_neg : (-a).val = -a.val := rfl
@[simp] theorem val_ofInt (n : Int) : (ofInt n : Double r).val = r.rnd n := rfl
@[simp] theorem val_lit (q : ℚ) : (lit q : Double r).val = r.rnd (q.num / q.den) := rfl
@[simp] theorem val_narrow : (narrow a).val = r.narrow a.val := rfl
@[simp] theorem val_round : (round a).val = roundField a.val := rfl
@[simp] theorem val_ceil : (ceil a).val = (⌈a.val⌉ : K) := rfl
@[simp] theorem trunc_eq : trunc a = truncField a.val := rfl
@[simp] theorem isPlusInf_eq : isPlusInf a = false := rfl
@[simp] theorem isMinusInf_eq : isMinusInf a = false := rfl

theorem val_lit_exact (hr : r.IsExact) (q : ℚ) : (lit q : Double r).val = q.num / q.den := by
  rw [val_lit, hr.rnd]

/-- A whole number of at most 53 bits survives the rounding. -/
theorem val_ofInt_eq {n : ℤ} (h : |n| ≤ 2 ^ 53) : (ofInt n : Double r).val = n := r.rnd_int n h

theorem val_lit_int {n : ℤ} (h : |n| ≤ 2 ^ 53) : (lit n : Double r).val = n := by
  rw [val_lit, Rat.num_intCast, Rat.den_intCast, Nat.cast_one, div_one, r.rnd_int n h]

/-- A small whole literal survives both roundings. -/
theorem val_narrow_lit {n : ℤ} (h : |n| ≤ 2 ^ 24) : (narrow (lit n) : Double r).val = n := by
  rw [val_narrow, val_lit, Rat.num_intCast, Rat.den_intCast, Nat.cast_one, div_one, r.narrow_rnd_int h]

theorem lt_iff : a < b ↔ a.val < b.val := Iff.rfl

theorem val_div (h : b.val ≠ 0) : (a / b).val = r.rnd (a.val / b.val) := by
  change (if b.val = 0 then r.divZero a.val else r.rnd (a.val / b.val)) = _
  rw [if_neg h]

theorem val_stdMin : (stdMin a b).val = min a.val b.val := by
  simp only [stdMin, lt_iff]
  split
  · next h => exact (min_eq_right h.le).symm
  · next h => exact (min_eq_left (not_lt.mp h)).symm

theorem val_stdMax : (stdMax a b).val = max a.val b.val := by
  simp only [stdMax, lt_iff]
  split
  · next h => exact (max_eq_right h.le).symm
  · next h => exact (max_eq_left (not_lt.mp h)).symm

end Values

section Integers
variable [IsStrictOrderedRing K]

theorem truncField_mono : Monotone (truncField (K := K)) := by
  intro x y h
  unfold truncField
  split_ifs with hx hy hy
  · exact Int.floor_le_floor h
  · exact absurd (hx.trans h) hy
  · have hfy : (0 : ℤ) ≤ ⌊y⌋ := Int.floor_nonneg.mpr hy
    have hfx : (0 : ℤ) ≤ ⌊-x⌋ := Int.floor_nonneg.mpr (by linarith [not_le.mp hx])
    omega
  · have := Int.floor_le_floor (neg_le_neg h)
    omega

@[simp] theorem truncField_intCast (n : ℤ) : truncField (n : K) = n := by
  unfold truncField
  split_ifs
  · exact Int.floor_intCast n
  · rw [← Int.cast_neg, Int.floor_intCast, neg_neg]

theorem le_truncField {n : ℤ} {x : K} (h : (n : K) ≤ x) : n ≤ truncField x := by
  simpa using truncField_mono h

theorem truncField_le {n : ℤ} {x : K} (h : x ≤ n) : truncField x ≤ n := by
  simpa using truncField_mono h

theorem truncField_nonneg {x : K} (h : 0 ≤ x) : 0 ≤ truncField x := by
  exact_mod_cast le_truncField (n := 0) (by simpa using h)

theorem roundField_mono : Monotone (roundField (K := K)) := by
  intro x y h
  unfold roundField
  split_ifs with hx hy hy
  · exact Int.floor_le_floor (by linarith)
  · exact absurd (hx.trans h) hy
  · have hfy : (0 : ℤ) ≤ ⌊y + 1 / 2⌋ := Int.floor_nonneg.mpr (by linarith)
    have hfx : (0 : ℤ) ≤ ⌊-x + 1 / 2⌋ := Int.floor_nonneg.mpr (by linarith [not_le.mp hx])
    omega
  · have := Int.floor_le_floor (show -y + 1 / 2 ≤ -x + 1 / 2 by linarith)
    omega

@[simp] theorem roundField_intCast (n : ℤ) : roundField (n : K) = n := by
  have half : ⌊(n : K) + 1 / 2⌋ = n := by
    rw [Int.floor_intCast_add]
    norm_num [Int.floor_eq_iff]
  have half' : ⌊-(n : K) + 1 / 2⌋ = -n := by
    rw [← Int.cast_neg, Int.floor_intCast_add]
    norm_num [Int.floor_eq_iff]
  unfold roundField
  split_ifs
  · exact half
  · rw [half', neg_neg]

theorem le_roundField {n : ℤ} {x : K} (h : (n : K) ≤ x) : n ≤ roundField x := by
  have hmono := roundField_mono h
  rwa [roundField_intCast] at hmono

theorem roundField_le {n : ℤ} {x : K} (h : x ≤ n) : roundField x ≤ n := by
  have hmono := roundField_mono h
  rwa [roundField_intCast] at hmono

theorem truncField_eq {n : ℤ} {x : K} (hn : 0 ≤ n) (hle : (n : K) ≤ x) (hlt : x < n + 1) :
    truncField x = n := by
  have hx : 0 ≤ x := le_trans (by exact_mod_cast hn) hle
  rw [truncField, if_pos hx, Int.floor_eq_iff]
  exact ⟨hle, hlt⟩

theorem exists_two_pow_between {b : ℕ} (hb : 0 < b) : ∃ k, b ≤ 2 ^ k ∧ 2 ^ k ≤ 2 * b := by
  refine ⟨Nat.log 2 b + 1, (Nat.lt_pow_succ_log_self (by decide) b).le, ?_⟩
  rw [pow_succ, mul_comm]
  exact Nat.mul_le_mul_left 2 (Nat.pow_log_le_self 2 hb.ne')

section Quotient
variable (r : Rounding K) {a b n : ℕ}

theorem Rounding.le_rnd_div (hb : 0 < b) (hab : a + b ≤ 2 ^ 51) (hn : n * b ≤ a) :
    (n : K) ≤ r.rnd ((a : K) / b) := by
  have hbK : (0 : K) < b := by exact_mod_cast hb
  have hq : ((n : ℤ) : K) ≤ (a : K) / b := by
    rw [Int.cast_natCast, le_div_iff₀ hbK]
    exact_mod_cast hn
  have hna : n ≤ a := (Nat.le_mul_of_pos_right n hb).trans hn
  have hsmall : |(n : ℤ)| ≤ 2 ^ 53 := by
    rw [Nat.abs_cast]
    exact_mod_cast (by omega : n ≤ 2 ^ 53)
  exact_mod_cast r.le_rnd hsmall hq

/-- Between a quotient and the next integer lies a dyadic fraction, which the rounding
cannot pass. -/
theorem Rounding.rnd_div_lt (hb : 0 < b) (hab : a + b ≤ 2 ^ 51) (hn : n * b ≤ a)
    (hlt : a < (n + 1) * b) : r.rnd ((a : K) / b) < n + 1 := by
  have hbK : (0 : K) < b := by exact_mod_cast hb
  obtain ⟨k, hbk, hkb⟩ := exists_two_pow_between hb
  have hpow : (0 : K) < 2 ^ k := by positivity
  have htop : (n + 1) * 2 ^ k ≤ 2 ^ 53 := by
    calc (n + 1) * 2 ^ k ≤ (n + 1) * (2 * b) := Nat.mul_le_mul_left _ hkb
      _ = 2 * (n * b + b) := by ring
      _ ≤ 2 ^ 53 := by omega
  have hk : k ≤ 52 := (Nat.pow_le_pow_iff_right (by decide)).mp (by omega : 2 ^ k ≤ 2 ^ 52)
  have hsmall : |((n : ℤ) + 1) * 2 ^ k - 1| ≤ 2 ^ 53 := by
    have hpos : (1 : ℤ) ≤ (n + 1) * 2 ^ k := by exact_mod_cast Nat.one_le_iff_ne_zero.mpr (by positivity)
    have htop' : ((n : ℤ) + 1) * 2 ^ k ≤ 2 ^ 53 := by exact_mod_cast htop
    rw [abs_of_nonneg (by omega)]
    omega
  have hdyadic := r.rnd_dyadic _ k hsmall (by omega)
  have hvalue : ((((n : ℤ) + 1) * 2 ^ k - 1 : ℤ) : K) / 2 ^ k = n + 1 - 1 / 2 ^ k := by
    push_cast
    field_simp
  have hquot : (a : K) / b ≤ n + 1 - 1 / 2 ^ k := by
    have hone : 1 / 2 ^ k * (b : K) ≤ 1 := by
      rw [div_mul_eq_mul_div, one_mul, div_le_one hpow]
      exact_mod_cast hbk
    have hcast : (a : K) + 1 ≤ (n + 1) * b := by exact_mod_cast hlt
    rw [div_le_iff₀ hbK, sub_mul]
    linarith
  rw [hvalue] at hdyadic
  have hgap : (0 : K) < 1 / 2 ^ k := by positivity
  calc r.rnd ((a : K) / b) ≤ r.rnd (n + 1 - 1 / 2 ^ k) := r.rnd_mono hquot
    _ = n + 1 - 1 / 2 ^ k := hdyadic
    _ < n + 1 := by linarith

/-- The truncated quotient of two small integers is exact under every rounding. -/
theorem Rounding.truncField_rnd_div (hb : 0 < b) (hab : a + b ≤ 2 ^ 51) :
    truncField (r.rnd ((a : K) / b)) = ((a / b : ℕ) : ℤ) := by
  have hn : a / b * b ≤ a := Nat.div_mul_le_self a b
  have hlt : a < (a / b + 1) * b := by
    rw [Nat.add_mul, Nat.one_mul]
    exact Nat.lt_div_mul_add hb
  refine truncField_eq (Int.natCast_nonneg _) ?_ ?_
  · exact_mod_cast r.le_rnd_div hb hab hn
  · exact_mod_cast r.rnd_div_lt hb hab hn hlt

end Quotient
end Integers
end Field

/-- Rational arithmetic, for runs on fixed inputs that take no root and no power. -/
abbrev Rational := Double (Rounding.exact id (fun x _ => x) id : Rounding ℚ)

end FloatArith
