import ChromeGcc.Base.FloatArith

/-! Unit values of the congestion controller: timestamps, durations, rates and
sizes. The source stores one int64 for each and reserves its two extreme values
for the infinities. Here the infinities are constructors, and a finite value is
an unbounded integer: signed overflow, undefined in the source, is not modelled. -/
namespace ChromeGcc

/-- The subclasses of the source's UnitBase. -/
inductive UnitKind where
  | timestamp
  | timeDelta
  | dataRate
  | dataSize
  deriving DecidableEq, Repr

inductive UnitBase (k : UnitKind) where
  | minusInfinity
  | finite (value : Int)
  | plusInfinity
  deriving DecidableEq, Repr

abbrev Timestamp := UnitBase .timestamp
abbrev TimeDelta := UnitBase .timeDelta
abbrev DataRate := UnitBase .dataRate
abbrev DataSize := UnitBase .dataSize

namespace UnitBase
variable {k : UnitKind}

abbrev zero : UnitBase k := .finite 0

/-- The stored int64, with the encodings of the two infinities. -/
def toValue : UnitBase k → Int
  | .minusInfinity => -9223372036854775808
  | .finite v => v
  | .plusInfinity => 9223372036854775807

@[simp] theorem toValue_finite (v : Int) : toValue (k := k) (.finite v) = v := rfl

def isFinite : UnitBase k → Bool
  | .finite _ => true
  | _ => false

def isInfinite (u : UnitBase k) : Bool := !u.isFinite

def isZero : UnitBase k → Bool
  | .finite v => v == 0
  | _ => false

@[simp] theorem isFinite_finite (v : Int) : isFinite (k := k) (.finite v) = true := rfl
@[simp] theorem isFinite_minusInfinity : isFinite (k := k) .minusInfinity = false := rfl
@[simp] theorem isFinite_plusInfinity : isFinite (k := k) .plusInfinity = false := rfl
@[simp] theorem isInfinite_finite (v : Int) : isInfinite (k := k) (.finite v) = false := rfl
@[simp] theorem isInfinite_minusInfinity : isInfinite (k := k) .minusInfinity = true := rfl
@[simp] theorem isInfinite_plusInfinity : isInfinite (k := k) .plusInfinity = true := rfl

theorem isFinite_iff {u : UnitBase k} : u.isFinite = true ↔ ∃ v, u = .finite v := by
  cases u with
  | minusInfinity => simp
  | finite v => simp
  | plusInfinity => simp

/-- Comparison of the stored values. -/
def ble : UnitBase k → UnitBase k → Bool
  | .minusInfinity, _ => true
  | .finite _, .minusInfinity => false
  | .finite a, .finite b => decide (a ≤ b)
  | .finite _, .plusInfinity => true
  | .plusInfinity, .plusInfinity => true
  | .plusInfinity, _ => false

instance : LE (UnitBase k) := ⟨fun a b => a.ble b = true⟩
instance : LT (UnitBase k) := ⟨fun a b => ¬ b ≤ a⟩
instance : DecidableLE (UnitBase k) := fun a b => inferInstanceAs (Decidable (a.ble b = true))
instance : DecidableLT (UnitBase k) := fun a b => inferInstanceAs (Decidable (¬ b ≤ a))

theorem le_iff_ble {a b : UnitBase k} : a ≤ b ↔ a.ble b = true := Iff.rfl

private theorem unit_le_trans (a b c : UnitBase k) (hab : a ≤ b) (hbc : b ≤ c) : a ≤ c := by
  rw [le_iff_ble] at *
  cases a <;> cases b <;> cases c <;> simp_all [ble]
  omega

private theorem unit_le_antisymm (a b : UnitBase k) (hab : a ≤ b) (hba : b ≤ a) : a = b := by
  rw [le_iff_ble] at *
  cases a <;> cases b <;> simp_all [ble]
  omega

private theorem unit_le_total (a b : UnitBase k) : a ≤ b ∨ b ≤ a := by
  simp only [le_iff_ble]
  cases a <;> cases b <;> simp [ble]
  omega

instance : LinearOrder (UnitBase k) where
  le_refl a := (unit_le_total a a).elim id id
  le_trans := unit_le_trans
  lt_iff_le_not_ge a b :=
    ⟨fun h => ⟨(unit_le_total a b).resolve_right h, h⟩, fun h => h.2⟩
  le_antisymm := unit_le_antisymm
  le_total := unit_le_total
  toDecidableLE := inferInstance
  toDecidableLT := inferInstance
  toDecidableEq := inferInstance

@[simp] theorem finite_le_finite {a b : Int} :
    (finite a : UnitBase k) ≤ finite b ↔ a ≤ b := by simp [le_iff_ble, ble]

@[simp] theorem finite_lt_finite {a b : Int} :
    (finite a : UnitBase k) < finite b ↔ a < b := by
  rw [← not_le, finite_le_finite, not_le]

@[simp] theorem minusInfinity_le (a : UnitBase k) : minusInfinity ≤ a := by
  cases a <;> rfl

@[simp] theorem le_plusInfinity (a : UnitBase k) : a ≤ plusInfinity := by
  cases a <;> rfl

@[simp] theorem minusInfinity_lt_finite (v : Int) : (minusInfinity : UnitBase k) < finite v := by
  simp [← not_le, le_iff_ble, ble]

@[simp] theorem finite_lt_plusInfinity (v : Int) : (finite v : UnitBase k) < plusInfinity := by
  simp [← not_le, le_iff_ble, ble]

@[simp] theorem minusInfinity_lt_plusInfinity : (minusInfinity : UnitBase k) < plusInfinity := by
  simp [← not_le, le_iff_ble, ble]

@[simp] theorem not_lt_minusInfinity (a : UnitBase k) : ¬ a < minusInfinity := by
  simp [not_lt]

@[simp] theorem not_plusInfinity_lt (a : UnitBase k) : ¬ plusInfinity < a := by
  simp [not_lt]

@[simp] theorem le_minusInfinity {a : UnitBase k} : a ≤ minusInfinity ↔ a = minusInfinity :=
  ⟨fun h => le_antisymm h (minusInfinity_le a), fun h => h.le⟩

@[simp] theorem plusInfinity_le {a : UnitBase k} : plusInfinity ≤ a ↔ a = plusInfinity :=
  ⟨fun h => le_antisymm (le_plusInfinity a) h, fun h => h.ge⟩

@[simp] theorem max_finite (a b : Int) :
    max (finite a : UnitBase k) (finite b) = finite (max a b) := by
  rcases le_total a b with h | h
  · rw [max_eq_right h, max_eq_right (finite_le_finite.mpr h)]
  · rw [max_eq_left h, max_eq_left (finite_le_finite.mpr h)]

@[simp] theorem min_finite (a b : Int) :
    min (finite a : UnitBase k) (finite b) = finite (min a b) := by
  rcases le_total a b with h | h
  · rw [min_eq_left h, min_eq_left (finite_le_finite.mpr h)]
  · rw [min_eq_right h, min_eq_right (finite_le_finite.mpr h)]

theorem isFinite_max {a b : UnitBase k} (ha : a.isFinite = true) (hb : b.isFinite = true) :
    (max a b).isFinite = true := by
  rcases max_choice a b with h | h
  · rw [h]
    exact ha
  · rw [h]
    exact hb

theorem isFinite_min {a b : UnitBase k} (ha : a.isFinite = true) (hb : b.isFinite = true) :
    (min a b).isFinite = true := by
  rcases min_choice a b with h | h
  · rw [h]
    exact ha
  · rw [h]
    exact hb

/-- Addition of the source, whatever the classes of the operands and the sum. -/
def plus {j l : UnitKind} : UnitBase j → UnitBase k → UnitBase l
  | .plusInfinity, _ => .plusInfinity
  | _, .plusInfinity => .plusInfinity
  | .minusInfinity, _ => .minusInfinity
  | _, .minusInfinity => .minusInfinity
  | .finite a, .finite b => .finite (a + b)

/-- Subtraction of the source; equal infinities give an infinity. -/
def minus {j l : UnitKind} : UnitBase j → UnitBase k → UnitBase l
  | .plusInfinity, _ => .plusInfinity
  | _, .minusInfinity => .plusInfinity
  | .minusInfinity, _ => .minusInfinity
  | _, .plusInfinity => .minusInfinity
  | .finite a, .finite b => .finite (a - b)

end UnitBase

instance : HAdd Timestamp TimeDelta Timestamp := ⟨UnitBase.plus⟩
instance : HSub Timestamp TimeDelta Timestamp := ⟨UnitBase.minus⟩
instance : HSub Timestamp Timestamp TimeDelta := ⟨UnitBase.minus⟩
instance : Add TimeDelta := ⟨UnitBase.plus⟩
instance : Sub TimeDelta := ⟨UnitBase.minus⟩
instance : Add DataRate := ⟨UnitBase.plus⟩
instance : Sub DataRate := ⟨UnitBase.minus⟩
instance : Add DataSize := ⟨UnitBase.plus⟩

section FiniteArithmetic
variable (a b : Int)

@[simp] theorem Timestamp.finite_add :
    (UnitBase.finite a : Timestamp) + (UnitBase.finite b : TimeDelta) = (.finite (a + b) : Timestamp) := rfl

@[simp] theorem Timestamp.finite_sub_delta :
    (UnitBase.finite a : Timestamp) - (UnitBase.finite b : TimeDelta) = (.finite (a - b) : Timestamp) := rfl

@[simp] theorem Timestamp.finite_sub :
    (UnitBase.finite a : Timestamp) - (UnitBase.finite b : Timestamp) = (.finite (a - b) : TimeDelta) := rfl

@[simp] theorem TimeDelta.finite_add :
    (UnitBase.finite a : TimeDelta) + UnitBase.finite b = .finite (a + b) := rfl

@[simp] theorem TimeDelta.finite_sub :
    (UnitBase.finite a : TimeDelta) - UnitBase.finite b = .finite (a - b) := rfl

@[simp] theorem DataRate.finite_add :
    (UnitBase.finite a : DataRate) + UnitBase.finite b = .finite (a + b) := rfl

@[simp] theorem DataRate.finite_sub :
    (UnitBase.finite a : DataRate) - UnitBase.finite b = .finite (a - b) := rfl

@[simp] theorem DataSize.finite_add :
    (UnitBase.finite a : DataSize) + UnitBase.finite b = .finite (a + b) := rfl

end FiniteArithmetic

@[simp] theorem Timestamp.plusInfinity_add (d : TimeDelta) :
    (UnitBase.plusInfinity : Timestamp) + d = (.plusInfinity : Timestamp) := rfl

@[simp] theorem Timestamp.minusInfinity_add (v : Int) :
    (UnitBase.minusInfinity : Timestamp) + (.finite v : TimeDelta) = (.minusInfinity : Timestamp) := rfl

@[simp] theorem Timestamp.add_plusInfinity (t : Timestamp) :
    t + (.plusInfinity : TimeDelta) = (.plusInfinity : Timestamp) := by
  cases t <;> rfl

@[simp] theorem Timestamp.add_minusInfinity {t : Timestamp} (h : t ≠ .plusInfinity) :
    t + (.minusInfinity : TimeDelta) = (.minusInfinity : Timestamp) := by
  cases t with
  | minusInfinity => rfl
  | finite v => rfl
  | plusInfinity => exact absurd rfl h

theorem DataRate.isFinite_add {a b : DataRate} (ha : a.isFinite = true) (hb : b.isFinite = true) :
    (a + b).isFinite = true := by
  obtain ⟨x, rfl⟩ := UnitBase.isFinite_iff.mp ha
  obtain ⟨y, rfl⟩ := UnitBase.isFinite_iff.mp hb
  rfl

abbrev Timestamp.micros (value : Int) : Timestamp := .finite value
abbrev Timestamp.us (t : Timestamp) : Int := t.toValue
abbrev TimeDelta.micros (value : Int) : TimeDelta := .finite value
abbrev TimeDelta.millis (value : Int) : TimeDelta := .finite (value * 1000)
abbrev TimeDelta.seconds (value : Int) : TimeDelta := .finite (value * 1000000)
abbrev TimeDelta.us (d : TimeDelta) : Int := d.toValue
abbrev DataRate.bitsPerSec (value : Int) : DataRate := .finite value
abbrev DataRate.kilobitsPerSec (value : Int) : DataRate := .finite (value * 1000)
abbrev DataRate.bps (r : DataRate) : Int := r.toValue
abbrev DataSize.ofBytes (value : Int) : DataSize := .finite value
abbrev DataSize.bytes (s : DataSize) : Int := s.toValue

/-- Rounding division for the one-sided classes; the source assumes n ≥ 0 and d > 0. -/
def divRoundPositiveToNearest (n d : Int) : Int := (n + d.tdiv 2).tdiv d

/-- Rounding division, half away from zero; the source assumes d > 0. -/
def divRoundToNearest (n d : Int) : Int :=
  (n + if n ≥ 0 then d.tdiv 2 else (-d).tdiv 2).tdiv d

def Timestamp.ms (t : Timestamp) : Int := divRoundPositiveToNearest t.toValue 1000
def TimeDelta.ms (d : TimeDelta) : Int := divRoundToNearest d.toValue 1000
def DataRate.kbps (r : DataRate) : Int := divRoundPositiveToNearest r.toValue 1000

/-- The source's Clamped: the upper bound is applied first. -/
def TimeDelta.clamped (d min_value max_value : TimeDelta) : TimeDelta :=
  max min_value (min d max_value)

theorem TimeDelta.clamped_between {lo hi : TimeDelta} (h : lo ≤ hi) (d : TimeDelta) :
    lo ≤ d.clamped lo hi ∧ d.clamped lo hi ≤ hi :=
  ⟨le_max_left _ _, max_le h (min_le_right _ _)⟩

section Doubles
variable {F : Type} [FloatArith F] {k : UnitKind}
open FloatArith

/-- FromValue of a floating-point number. -/
def UnitBase.fromDouble (x : F) : UnitBase k :=
  if isPlusInf x then .plusInfinity
  else if isMinusInf x then .minusInfinity
  else .finite (trunc x)

/-- ToValue as a floating-point number. -/
def UnitBase.toDouble : UnitBase k → F
  | .plusInfinity => plusInf
  | .minusInfinity => minusInf
  | .finite v => ofInt v

/-- The source's operator*(double): the stored value is scaled and rounded. -/
def UnitBase.scale (u : UnitBase k) (x : F) : UnitBase k :=
  .fromDouble (round (ofInt u.toValue * x))

/-- FromFraction with the denominator d. -/
def UnitBase.fromFraction (d : Int) (x : F) : UnitBase k := .fromDouble (x * ofInt d)

/-- ToFraction with the denominator d, as a floating-point number. -/
def UnitBase.toFraction (d : Int) (u : UnitBase k) : F := u.toDouble * (ofInt 1 / ofInt d)

/-- The ratio of two values of one class. -/
def UnitBase.ratio (u v : UnitBase k) : F := u.toDouble / v.toDouble

/-- operator/ with a floating-point divisor. -/
def UnitBase.divDouble (u : UnitBase k) (x : F) : UnitBase k :=
  .fromDouble (round (ofInt u.toValue / x))

/-- operator/ with an integer divisor: the integer quotient passes through a double. -/
def UnitBase.divInt (F : Type) [FloatArith F] (u : UnitBase k) (n : Int) : UnitBase k :=
  .fromDouble (round (ofInt (u.toValue.tdiv n) : F))

/-- rtc::SafeClamp of a double to two bounds given as floats. -/
def safeClamp (value min max : F) : F :=
  let value := if max < value then max else value
  if value < min then min else value

/-- Equality of floating-point numbers. -/
def eqv (a b : F) : Prop := a ≤ b ∧ b ≤ a

instance (a b : F) : Decidable (eqv a b) := inferInstanceAs (Decidable (_ ∧ _))

end Doubles

section Clamp
open FloatArith
variable {K : Type} [Field K] [LinearOrder K] [FloorRing K] {r : Rounding K} (x low high : Double r)

theorem val_safeClamp : (safeClamp x low high).val = max (min x.val high.val) low.val := by
  have hclamp : safeClamp x low high = stdMax (stdMin x high) low := rfl
  rw [hclamp, val_stdMax, val_stdMin]

theorem safeClamp_between (h : low.val ≤ high.val) :
    low.val ≤ (safeClamp x low high).val ∧ (safeClamp x low high).val ≤ high.val := by
  rw [val_safeClamp]
  exact ⟨le_max_right _ _, max_le (min_le_right _ _) h⟩

/-- An integer quotient that a double represents passes through it unchanged. -/
theorem UnitBase.divInt_eq [IsStrictOrderedRing K] {k : UnitKind} {n d : Int}
    (h : |n.tdiv d| ≤ 2 ^ 53) : (.finite n : UnitBase k).divInt (Double r) d = .finite (n.tdiv d) := by
  have hround : roundField (r.rnd ((n.tdiv d : Int) : K)) = n.tdiv d := by
    rw [r.rnd_int _ h, roundField_intCast]
  change (UnitBase.finite (truncField ((roundField (r.rnd ((n.tdiv d : Int) : K)) : Int) : K)) :
    UnitBase k) = _
  rw [hround, truncField_intCast]

end Clamp

/-! Operations between the classes; a division by zero, undefined in the source, gives zero. -/

def DataSize.microbits (size : DataSize) : Int := size.bytes * 8000000

def DataSize.perDelta (size : DataSize) (duration : TimeDelta) : DataRate :=
  .bitsPerSec (size.microbits.tdiv duration.us)

def DataSize.perRate (size : DataSize) (rate : DataRate) : TimeDelta :=
  .micros (size.microbits.tdiv rate.bps)

def DataRate.timesDelta (rate : DataRate) (duration : TimeDelta) : DataSize :=
  .ofBytes ((rate.bps * duration.us + 4000000).tdiv 8000000)

/-- operator* with an integer factor. -/
def UnitBase.timesInt {k : UnitKind} (u : UnitBase k) (n : Int) : UnitBase k := .finite (u.toValue * n)

end ChromeGcc
