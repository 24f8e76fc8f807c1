import ChromeGcc.RateControl.Aimd

/-! The arithmetic of the increase rate: what it divides by and what it multiplies, for an
estimate between 5 kbps and 200 Tbps. -/
namespace ChromeGcc
open FloatArith UnitBase

namespace AimdRateControl

section Steps
variable {F : Type} [FloatArith F] (c : AimdRateControl F)

theorem responseTime_pos {c : AimdRateControl F} (hrtt : .zero ≤ c.rtt) (hexp : c.inExperiment = false) :
    0 < c.responseTime.us := by
  unfold responseTime
  rw [hexp]
  cases h : c.rtt with
  | minusInfinity =>
      rw [h] at hrtt
      exact absurd hrtt (not_le.mpr (minusInfinity_lt_finite 0))
  | plusInfinity => decide
  | finite v =>
      rw [h, finite_le_finite] at hrtt
      change 0 < v + 100 * 1000
      omega

/-- An RTT with room for 100 ms more gives a response time that is finite in int64. -/
theorem responseTime_lt {c : AimdRateControl F} (hrtt : .zero ≤ c.rtt) (hexp : c.inExperiment = false)
    (hroom : c.rtt < .micros (2 ^ 63 - 100001)) : c.responseTime.us < 2 ^ 63 - 1 := by
  unfold responseTime
  rw [hexp]
  cases h : c.rtt with
  | minusInfinity =>
      rw [h] at hrtt
      exact absurd hrtt (not_le.mpr (minusInfinity_lt_finite 0))
  | plusInfinity =>
      rw [h] at hroom
      exact absurd hroom (not_lt.mpr (le_plusInfinity _))
  | finite v =>
      rw [h] at hroom
      have hv : v < 2 ^ 63 - 100001 := finite_lt_finite.mp hroom
      change v + 100 * 1000 < 2 ^ 63 - 1
      omega

/-- A last decrease that is a rate below 200 Tbps. -/
def DecreaseBelow : Prop :=
  ∀ lastDecrease, c.lastDecrease = some lastDecrease →
    ∃ v : Int, lastDecrease = .finite v ∧ 0 ≤ v ∧ v < 2 * 10 ^ 14

end Steps

theorem expectedBandwidthPeriod_between {F : Type} [FloatArith F] (c : AimdRateControl F) :
    .seconds 2 ≤ c.getExpectedBandwidthPeriod ∧ c.getExpectedBandwidthPeriod ≤ .seconds 50 := by
  unfold getExpectedBandwidthPeriod
  cases c.lastDecrease with
  | none => exact ⟨finite_le_finite.mpr (by decide), finite_le_finite.mpr (by decide)⟩
  | some lastDecrease => exact TimeDelta.clamped_between (finite_le_finite.mpr (by decide)) _

/-- The bytes of a frame at a rate in bits per second. -/
def frameBytes (bps : Int) : Int := (bps * 33333 + 4000000).tdiv 8000000

theorem frameBytes_bounds {x : Int} (hlow : 5000 ≤ x) (hhigh : x < 2 * 10 ^ 14) :
    21 ≤ frameBytes x ∧ frameBytes x ≤ 10 ^ 12 := by
  rw [frameBytes, Int.tdiv_eq_ediv_of_nonneg (by omega)]
  omega

section Arithmetic
variable {K : Type} [Field K] [LinearOrder K] [FloorRing K] {r : Rounding K}
  {c : AimdRateControl (Double r)} {x : Int}

theorem val_ofInt_frameBytes (hlow : 5000 ≤ x) (hhigh : x < 2 * 10 ^ 14) :
    (ofInt (frameBytes x) : Double r).val = frameBytes x := by
  obtain ⟨hmin, hmax⟩ := frameBytes_bounds hlow hhigh
  apply val_ofInt_eq
  rw [abs_of_nonneg (by omega)]
  omega

theorem le_getNearMaxIncreaseRateBpsPerSecond (c : AimdRateControl (Double r)) :
    4000 ≤ c.getNearMaxIncreaseRateBpsPerSecond.val := by
  have hmin : (lit 4000 : Double r).val = 4000 := by
    exact_mod_cast val_lit_int (r := r) (n := 4000) (by norm_num)
  unfold getNearMaxIncreaseRateBpsPerSecond
  rw [val_stdMax, hmin]
  exact le_max_left _ _

variable [IsStrictOrderedRing K]

theorem frameInterval_eq : frameInterval (Double r) = .finite 33333 := UnitBase.divInt_eq (by decide)

theorem frameSize_eq (hx : c.currentBitrate = .finite x) : c.frameSize = .finite (frameBytes x) := by
  rw [frameSize, hx, frameInterval_eq]
  rfl

/-- A frame of 21 bytes is more than a sixty-fourth of a packet. -/
theorem one_le_packetsPerFrame (hx : c.currentBitrate = .finite x) (hlow : 5000 ≤ x)
    (hhigh : x < 2 * 10 ^ 14) : 1 ≤ c.packetsPerFrame.val := by
  have hpacket : (ofInt 1200 : Double r).val = 1200 := by
    exact_mod_cast val_ofInt_eq (r := r) (n := 1200) (by norm_num)
  have hratio : (c.frameSize.ratio (DataSize.ofBytes 1200) : Double r).val =
      r.rnd ((frameBytes x : K) / 1200) := by
    rw [frameSize_eq hx]
    change (ofInt (frameBytes x) / ofInt 1200 : Double r).val = _
    rw [val_div _ _ (by rw [hpacket]; norm_num), hpacket, val_ofInt_frameBytes hlow hhigh]
  have hmin : (21 : K) ≤ frameBytes x := by exact_mod_cast (frameBytes_bounds hlow hhigh).1
  have hpart : (1 : K) / 2 ^ 6 ≤ frameBytes x / 1200 := by
    rw [le_div_iff₀ (by norm_num)]
    exact le_trans (by norm_num) hmin
  have hdyadic : r.rnd (1 / 2 ^ 6) = 1 / 2 ^ 6 := by
    have hfix := r.rnd_dyadic 1 6 (by norm_num) (by norm_num)
    rwa [Int.cast_one] at hfix
  have hpos : 0 < r.rnd ((frameBytes x : K) / 1200) := by
    have hmono := r.rnd_mono hpart
    rw [hdyadic] at hmono
    exact lt_of_lt_of_le (by positivity) hmono
  rw [packetsPerFrame, val_ceil, hratio]
  exact_mod_cast Int.one_le_ceil_iff.mpr hpos

/-- The packets of a frame are not larger than the frame. -/
theorem avgPacketSize_eq (hx : c.currentBitrate = .finite x) (hlow : 5000 ≤ x)
    (hhigh : x < 2 * 10 ^ 14) : ∃ a, c.avgPacketSize = .finite a ∧ 0 ≤ a ∧ a ≤ frameBytes x := by
  have hpackets := one_le_packetsPerFrame hx hlow hhigh
  have hpos : 0 < c.packetsPerFrame.val := lt_of_lt_of_le one_pos hpackets
  obtain ⟨hmin, hmax⟩ := frameBytes_bounds hlow hhigh
  have hbytes : (0 : K) ≤ frameBytes x := by exact_mod_cast (by omega : 0 ≤ frameBytes x)
  have hquot : (ofInt (frameBytes x) / c.packetsPerFrame : Double r).val =
      r.rnd ((frameBytes x : K) / c.packetsPerFrame.val) := by
    rw [val_div _ _ hpos.ne', val_ofInt_frameBytes hlow hhigh]
  have hnonneg : ((0 : ℤ) : K) ≤ (frameBytes x : K) / c.packetsPerFrame.val := by
    rw [Int.cast_zero]
    exact div_nonneg hbytes hpos.le
  have hle : (frameBytes x : K) / c.packetsPerFrame.val ≤ frameBytes x := div_le_self hbytes hpackets
  refine ⟨roundField (r.rnd ((frameBytes x : K) / c.packetsPerFrame.val)), ?_, ?_, ?_⟩
  · rw [avgPacketSize, frameSize_eq hx]
    change (UnitBase.finite (truncField ((roundField
      (ofInt (frameBytes x) / c.packetsPerFrame : Double r).val : ℤ) : K)) : DataSize) = _
    rw [hquot, truncField_intCast]
  · exact le_roundField (r.le_rnd (by norm_num) hnonneg)
  · refine roundField_le (r.rnd_le ?_ hle)
    rw [abs_of_nonneg (by omega)]
    omega

theorem timeToRecoverDecreaseSeconds_bounds {v : Int} (hv : 0 ≤ v) (hhigh : v < 2 * 10 ^ 14) :
    0 ≤ (c.timeToRecoverDecreaseSeconds (.finite v)).val ∧
      (c.timeToRecoverDecreaseSeconds (.finite v)).val ≤ 5 * 10 ^ 10 := by
  have hrate := le_getNearMaxIncreaseRateBpsPerSecond c
  have hpos : 0 < c.getNearMaxIncreaseRateBpsPerSecond.val := lt_of_lt_of_le (by norm_num) hrate
  have hval : (ofInt v : Double r).val = v := by
    apply val_ofInt_eq
    rw [abs_of_nonneg hv]
    omega
  have hnonneg : ((0 : ℤ) : K) ≤ (v : K) / c.getNearMaxIncreaseRateBpsPerSecond.val := by
    rw [Int.cast_zero]
    exact div_nonneg (by exact_mod_cast hv) hpos.le
  have hle : (v : K) / c.getNearMaxIncreaseRateBpsPerSecond.val ≤ (5 * 10 ^ 10 : ℤ) := by
    have hbound : (v : K) ≤ 2 * 10 ^ 14 := by exact_mod_cast hhigh.le
    rw [div_le_iff₀ hpos]
    push_cast
    nlinarith
  have hquot : (c.timeToRecoverDecreaseSeconds (.finite v)).val =
      r.rnd ((v : K) / c.getNearMaxIncreaseRateBpsPerSecond.val) := by
    change (ofInt v / c.getNearMaxIncreaseRateBpsPerSecond : Double r).val = _
    rw [val_div _ _ hpos.ne', hval]
  rw [hquot]
  exact ⟨by exact_mod_cast r.le_rnd (by norm_num) hnonneg,
    by exact_mod_cast r.rnd_le (by norm_num) hle⟩

/-- No divisor is zero, no product leaves int64, nor does the sum with an RTT that has room for it,
and the period keeps to its range. -/
structure IncreaseSafe (c : AimdRateControl (Double r)) : Prop where
  packetsPerFrame : 1 ≤ c.packetsPerFrame.val
  responseTime : 0 < c.responseTime.us
  responseSum : c.rtt < .micros (2 ^ 63 - 100001) → c.responseTime.us < 2 ^ 63 - 1
  increaseRate : 4000 ≤ c.getNearMaxIncreaseRateBpsPerSecond.val
  frameProduct : 0 ≤ c.currentBitrate.bps * (frameInterval (Double r)).us ∧
    c.currentBitrate.bps * (frameInterval (Double r)).us + 4000000 < 2 ^ 63
  microbits : 0 ≤ c.avgPacketSize.microbits ∧ c.avgPacketSize.microbits < 2 ^ 63
  notDoubled : c.inExperiment = false
  period : .seconds 2 ≤ c.getExpectedBandwidthPeriod ∧ c.getExpectedBandwidthPeriod ≤ .seconds 50
  recovery : ∀ lastDecrease, c.lastDecrease = some lastDecrease →
    0 ≤ (c.timeToRecoverDecreaseSeconds lastDecrease).val * 1000000 ∧
      (c.timeToRecoverDecreaseSeconds lastDecrease).val * 1000000 ≤ 5 * 10 ^ 16

theorem increaseSafe_of_bounds (hx : c.currentBitrate = .finite x) (hlow : 5000 ≤ x)
    (hhigh : x < 2 * 10 ^ 14) (hrtt : .zero ≤ c.rtt) (hexp : c.inExperiment = false)
    (hdecrease : c.DecreaseBelow) : c.IncreaseSafe where
  packetsPerFrame := one_le_packetsPerFrame hx hlow hhigh
  responseTime := responseTime_pos hrtt hexp
  responseSum := responseTime_lt hrtt hexp
  increaseRate := le_getNearMaxIncreaseRateBpsPerSecond c
  frameProduct := by
    rw [hx, frameInterval_eq]
    change 0 ≤ x * 33333 ∧ x * 33333 + 4000000 < 2 ^ 63
    omega
  microbits := by
    obtain ⟨a, ha, hnonneg, hle⟩ := avgPacketSize_eq hx hlow hhigh
    obtain ⟨-, hmax⟩ := frameBytes_bounds hlow hhigh
    rw [ha]
    change 0 ≤ a * 8000000 ∧ a * 8000000 < 2 ^ 63
    omega
  notDoubled := hexp
  period := expectedBandwidthPeriod_between c
  recovery := by
    intro lastDecrease hlast
    obtain ⟨v, rfl, hv, hbelow⟩ := hdecrease lastDecrease hlast
    obtain ⟨hmin, hmax⟩ := timeToRecoverDecreaseSeconds_bounds (c := c) hv hbelow
    constructor
    · positivity
    · linarith

end Arithmetic
end AimdRateControl
end ChromeGcc
