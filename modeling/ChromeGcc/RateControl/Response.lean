import ChromeGcc.RateControl.IncreaseRate

/-! The response law of the rate control: what each report of the detector may do to the
estimate, in every state that the constructor and the public operations reach. -/
namespace ChromeGcc
namespace AimdRateControl
open FloatArith UnitBase

/-- The estimate is not below its minimum, no decrease is pending, and an increase knows
when the rate last changed. -/
structure Settled {F : Type} [FloatArith F] (c : AimdRateControl F) (now : Int) : Prop where
  minLe : c.minConfiguredBitrate ≤ c.currentBitrate
  notDecrease : c.rateControlState ≠ .kRcDecrease
  lastChange : c.rateControlState = .kRcIncrease →
    ∃ v ≤ now, c.timeLastBitrateChange = .finite v

section Operations
variable {F : Type} [FloatArith F] {c : AimdRateControl F} {now t : Int}

theorem settled_new (sendSide : Bool) (now : Int) :
    Settled ({ sendSide := sendSide } : AimdRateControl F) now :=
  ⟨finite_le_finite.mpr (by decide), by simp, by simp⟩

theorem Settled.later (h : c.Settled now) (ht : now ≤ t) : c.Settled t where
  minLe := h.minLe
  notDecrease := h.notDecrease
  lastChange hs := by
    obtain ⟨v, hv, hlast⟩ := h.lastChange hs
    exact ⟨v, hv.trans ht, hlast⟩

theorem Settled.setStartBitrate (h : c.Settled now) {x : DataRate}
    (hx : c.minConfiguredBitrate ≤ x) : (c.setStartBitrate x).Settled now :=
  ⟨hx, h.notDecrease, h.lastChange⟩

theorem Settled.setMinBitrate (h : c.Settled now) (x : DataRate) : (c.setMinBitrate x).Settled now :=
  ⟨le_max_left _ _, h.notDecrease, h.lastChange⟩

theorem Settled.setEstimate (h : c.Settled now) (x : DataRate) :
    (c.setEstimate x (.finite now)).Settled now := by
  unfold AimdRateControl.setEstimate
  dsimp only
  split_ifs
  · exact ⟨le_max_right _ _, h.notDecrease, fun _ => ⟨now, le_refl _, rfl⟩⟩
  · exact ⟨le_max_right _ _, h.notDecrease, fun _ => ⟨now, le_refl _, rfl⟩⟩

/-- The decrease leaves the rate itself to the caller, and never proposes a higher one. -/
theorem changeBitrateDecrease_spec (c : AimdRateControl F) (throughput : DataRate) (t : Timestamp) :
    (c.changeBitrateDecrease throughput t).1.currentBitrate = c.currentBitrate ∧
      (c.changeBitrateDecrease throughput t).1.minConfiguredBitrate = c.minConfiguredBitrate ∧
      (c.changeBitrateDecrease throughput t).1.rateControlState = .kRcHold ∧
      ∀ b, (c.changeBitrateDecrease throughput t).2 = some b → b < c.currentBitrate := by
  unfold changeBitrateDecrease
  dsimp only
  refine ⟨?_, ?_, rfl, ?_⟩
  · split_ifs <;> rfl
  · split_ifs <;> rfl
  · intro b hb
    split_ifs at hb with hcap hlow
    · cases hb
      assumption
    · cases hb
      assumption

/-- The state in which the increase is computed: a throughput above the link capacity's upper
bound resets the capacity. -/
def checkCapacity (c : AimdRateControl F) (throughput : DataRate) : AimdRateControl F :=
  if throughput > c.linkCapacity.upperBound then { c with linkCapacity := c.linkCapacity.reset } else c

/-- The increased rate, before the throughput limits it. -/
def increasedRate (c : AimdRateControl F) (t : Timestamp) : DataRate :=
  if c.linkCapacity.hasEstimate then
    c.currentBitrate + c.additiveRateIncrease t c.timeLastBitrateChange
  else
    c.currentBitrate + multiplicativeRateIncrease F t c.timeLastBitrateChange c.currentBitrate

theorem checkCapacity_fields (c : AimdRateControl F) (throughput : DataRate) :
    (c.checkCapacity throughput).currentBitrate = c.currentBitrate ∧
      (c.checkCapacity throughput).minConfiguredBitrate = c.minConfiguredBitrate ∧
      (c.checkCapacity throughput).rateControlState = c.rateControlState ∧
      (c.checkCapacity throughput).timeLastBitrateChange = c.timeLastBitrateChange := by
  unfold checkCapacity
  split_ifs
  · exact ⟨rfl, rfl, rfl, rfl⟩
  · exact ⟨rfl, rfl, rfl, rfl⟩

/-- A rate that the increase proposes is the increased one under the throughput's limit, and
is proposed only below that limit. -/
theorem changeBitrateIncrease_some {throughput : DataRate} {t : Timestamp} {b : DataRate}
    (hb : (c.changeBitrateIncrease throughput t).2 = some b) :
    c.currentBitrate < throughputBasedLimit F throughput ∧
      b = min ((c.checkCapacity throughput).increasedRate t) (throughputBasedLimit F throughput) := by
  change (if (c.checkCapacity throughput).currentBitrate < throughputBasedLimit F throughput ∧
      !((c.checkCapacity throughput).sendSide && (c.checkCapacity throughput).inAlr) then
    some (min ((c.checkCapacity throughput).increasedRate t) (throughputBasedLimit F throughput))
    else none) = some b at hb
  rw [(checkCapacity_fields c throughput).1] at hb
  split_ifs at hb with hlimit
  exact ⟨hlimit.1, (Option.some.inj hb).symm⟩

/-- The increase leaves the rate itself to the caller, and notes the time. -/
theorem changeBitrateIncrease_spec (c : AimdRateControl F) (throughput : DataRate) (t : Timestamp) :
    (c.changeBitrateIncrease throughput t).1.currentBitrate = c.currentBitrate ∧
      (c.changeBitrateIncrease throughput t).1.minConfiguredBitrate = c.minConfiguredBitrate ∧
      (c.changeBitrateIncrease throughput t).1.rateControlState = c.rateControlState ∧
      (c.changeBitrateIncrease throughput t).1.timeLastBitrateChange = t := by
  obtain ⟨hrate, hmin, hstate, -⟩ := checkCapacity_fields c throughput
  exact ⟨hrate, hmin, hstate, rfl⟩

theorem multiplicativeRateIncrease_nonneg (t v : Timestamp) (x : DataRate) :
    (.finite 0 : DataRate) ≤ multiplicativeRateIncrease F t v x :=
  (finite_le_finite.mpr (by norm_num)).trans (le_max_right _ _)

end Operations

theorem le_add_of_zero_le {a x : DataRate} (hx : (.finite 0 : DataRate) ≤ x) : a ≤ a + x := by
  cases x with
  | minusInfinity => simp at hx
  | plusInfinity => cases a <;> exact le_plusInfinity _
  | finite n =>
      cases a with
      | minusInfinity => exact minusInfinity_le _
      | plusInfinity => exact le_refl _
      | finite m =>
          rw [finite_le_finite] at hx
          rw [DataRate.finite_add, finite_le_finite]
          omega

section Increase
variable {K : Type} [Field K] [LinearOrder K] [IsStrictOrderedRing K] [FloorRing K]
  {r : Rounding K}

theorem val_nonneg_ofInt {n : Int} (h : 0 ≤ n) : 0 ≤ (ofInt n : Double r).val := by
  have hn : ((0 : ℤ) : K) ≤ n := by exact_mod_cast h
  simpa using r.le_rnd (by norm_num) hn

theorem val_nonneg_mul {a b : Double r} (ha : 0 ≤ a.val) (hb : 0 ≤ b.val) : 0 ≤ (a * b).val := by
  have hab : ((0 : ℤ) : K) ≤ a.val * b.val := by simpa using mul_nonneg ha hb
  simpa using r.le_rnd (by norm_num) hab

theorem val_nonneg_toFraction {n d : Int} (hn : 0 ≤ n) (hd : 0 < d) (hd' : d ≤ 2 ^ 53) :
    0 ≤ ((.finite n : TimeDelta).toFraction d : Double r).val := by
  have hval : (ofInt d : Double r).val = d := val_ofInt_eq (by rwa [abs_of_pos hd])
  have hpos : (0 : K) < d := by exact_mod_cast hd
  refine val_nonneg_mul (val_nonneg_ofInt hn) ?_
  rw [val_div _ _ (by rw [hval]; exact hpos.ne'), hval]
  have hdiv : ((0 : ℤ) : K) ≤ (ofInt 1 : Double r).val / d := by
    simpa using div_nonneg (val_nonneg_ofInt (r := r) (by norm_num : (0 : Int) ≤ 1)) hpos.le
  simpa using r.le_rnd (by norm_num) hdiv

theorem val_nonneg_nearMaxIncrease (c : AimdRateControl (Double r)) :
    0 ≤ c.getNearMaxIncreaseRateBpsPerSecond.val :=
  le_trans (by norm_num) (le_getNearMaxIncreaseRateBpsPerSecond c)

theorem additiveRateIncrease_nonneg (c : AimdRateControl (Double r)) {v t : Int} (h : v ≤ t) :
    (.finite 0 : DataRate) ≤ c.additiveRateIncrease (.finite t) (.finite v) := by
  have hseconds : 0 ≤ ((.finite (t - v) : TimeDelta).toFraction 1000000 : Double r).val :=
    val_nonneg_toFraction (by omega) (by norm_num) (by norm_num)
  exact finite_le_finite.mpr (truncField_nonneg
    (val_nonneg_mul (val_nonneg_nearMaxIncrease c) hseconds))

/-- Once the time of the last change is known, an increased rate is not a lower one. -/
theorem le_increasedRate {c : AimdRateControl (Double r)} {v t : Int} (hv : v ≤ t)
    (hlast : c.timeLastBitrateChange = .finite v) :
    c.currentBitrate ≤ c.increasedRate (.finite t) := by
  unfold increasedRate
  rw [hlast]
  split_ifs
  · exact le_add_of_zero_le (additiveRateIncrease_nonneg c hv)
  · exact le_add_of_zero_le (multiplicativeRateIncrease_nonneg _ _ _)

theorem le_changeBitrateIncrease {c : AimdRateControl (Double r)} {v t : Int} (hv : v ≤ t)
    (hlast : c.timeLastBitrateChange = .finite v) (throughput : DataRate) {b : DataRate}
    (hb : (c.changeBitrateIncrease throughput (.finite t)).2 = some b) : c.currentBitrate ≤ b := by
  obtain ⟨hlimit, rfl⟩ := changeBitrateIncrease_some hb
  obtain ⟨hrate, -, -, htime⟩ := checkCapacity_fields c throughput
  refine le_min ?_ hlimit.le
  rw [← hrate]
  exact le_increasedRate hv (htime.trans hlast)

end Increase

section Update
variable {F : Type} [FloatArith F] {c : AimdRateControl F}

/-- ChangeBitrate does nothing more than note the throughput before the first estimate. -/
theorem changeBitrate_uninitialized (h : c.bitrateIsInitialized = false) {input : RateControlInput}
    (hbw : input.bwState ≠ .kBwOverusing) (t : Timestamp) :
    c.changeBitrate input t = { c with
      latestEstimatedThroughput := input.estimatedThroughput.getD c.latestEstimatedThroughput } := by
  unfold changeBitrate
  dsimp only
  rw [if_pos ⟨by rw [h]; rfl, hbw⟩]

/-- The rate that ChangeBitrate leaves: the proposed one, or the old one, not below the minimum. -/
def settle (d : AimdRateControl F) (newBitrate : Option DataRate) : AimdRateControl F :=
  { d with currentBitrate := d.clampBitrate (newBitrate.getD d.currentBitrate) }

theorem changeBitrate_overusing (c : AimdRateControl F) {input : RateControlInput}
    (hbw : input.bwState = .kBwOverusing) (t : Timestamp) :
    ∃ (d : AimdRateControl F) (newBitrate : Option DataRate),
      c.changeBitrate input t = d.settle newBitrate ∧
      d.currentBitrate = c.currentBitrate ∧
      d.minConfiguredBitrate = c.minConfiguredBitrate ∧ d.rateControlState = .kRcHold ∧
      ∀ b, newBitrate = some b → b < c.currentBitrate := by
  refine ⟨_, _, ?_, changeBitrateDecrease_spec
    { c with
      latestEstimatedThroughput := input.estimatedThroughput.getD c.latestEstimatedThroughput
      rateControlState := .kRcDecrease }
    (input.estimatedThroughput.getD c.latestEstimatedThroughput) t⟩
  unfold changeBitrate
  dsimp only
  rw [if_neg (fun h => h.2 hbw), hbw]
  rfl

theorem changeBitrate_underusing (h : c.bitrateIsInitialized = true) {input : RateControlInput}
    (hbw : input.bwState = .kBwUnderusing) (t : Timestamp) :
    ∃ d : AimdRateControl F, c.changeBitrate input t = d.settle none ∧
      d.currentBitrate = c.currentBitrate ∧
      d.minConfiguredBitrate = c.minConfiguredBitrate ∧ d.rateControlState = .kRcHold := by
  refine ⟨{ c with
    latestEstimatedThroughput := input.estimatedThroughput.getD c.latestEstimatedThroughput
    rateControlState := .kRcHold }, ?_, rfl, rfl, rfl⟩
  unfold changeBitrate
  dsimp only
  rw [if_neg (by rw [h]; simp), hbw]
  rfl

/-- On a normal network the state is Increase, with the time of the last change taken
now or kept. -/
theorem changeBitrate_normal (h : c.bitrateIsInitialized = true)
    (hstate : c.rateControlState ≠ .kRcDecrease) {input : RateControlInput}
    (hbw : input.bwState = .kBwNormal) (t : Timestamp) :
    ∃ d : AimdRateControl F,
      c.changeBitrate input t =
        (d.changeBitrateIncrease (input.estimatedThroughput.getD c.latestEstimatedThroughput) t).1.settle
          (d.changeBitrateIncrease (input.estimatedThroughput.getD c.latestEstimatedThroughput) t).2 ∧
      d.currentBitrate = c.currentBitrate ∧ d.minConfiguredBitrate = c.minConfiguredBitrate ∧
      d.rateControlState = .kRcIncrease ∧
      (d.timeLastBitrateChange = t ∨
        c.rateControlState = .kRcIncrease ∧ d.timeLastBitrateChange = c.timeLastBitrateChange) := by
  have hgo : ¬ ((!c.bitrateIsInitialized) = true ∧ input.bwState ≠ .kBwOverusing) := by
    rw [h]
    simp
  cases hs : c.rateControlState with
  | kRcDecrease => exact absurd hs hstate
  | kRcHold =>
      refine ⟨{ c with
        latestEstimatedThroughput := input.estimatedThroughput.getD c.latestEstimatedThroughput
        timeLastBitrateChange := t
        rateControlState := .kRcIncrease }, ?_, rfl, rfl, rfl, .inl rfl⟩
      unfold changeBitrate
      dsimp only
      rw [if_neg hgo, hbw]
      simp only [changeState, hs, if_true]
      rfl
  | kRcIncrease =>
      refine ⟨{ c with
        latestEstimatedThroughput :=
          input.estimatedThroughput.getD c.latestEstimatedThroughput }, ?_, rfl, rfl, hs,
        .inr ⟨rfl, rfl⟩⟩
      unfold changeBitrate
      dsimp only
      rw [if_neg hgo, hbw]
      simp only [changeState, hs]
      rfl

theorem initializeBitrate_cases (c : AimdRateControl F) (input : RateControlInput) (t : Timestamp) :
    c.initializeBitrate input t = c ∨
      c.initializeBitrate input t = { c with timeFirstThroughputEstimate := t } ∨
      ∃ x, input.estimatedThroughput = some x ∧
        c.initializeBitrate input t = { c with currentBitrate := x, bitrateIsInitialized := true } := by
  unfold initializeBitrate
  by_cases hinit : c.bitrateIsInitialized = true
  · exact .inl (if_pos hinit)
  · rw [if_neg hinit]
    by_cases hfirst : c.timeFirstThroughputEstimate.isInfinite = true
    · rw [if_pos hfirst]
      split_ifs
      · exact .inr (.inl rfl)
      · exact .inl rfl
    · rw [if_neg hfirst]
      cases input.estimatedThroughput with
      | none => exact .inl rfl
      | some x =>
          dsimp only
          by_cases hlong : t - c.timeFirstThroughputEstimate > TimeDelta.seconds 5
          · rw [if_pos hlong]
            exact .inr (.inr ⟨x, rfl, rfl⟩)
          · rw [if_neg hlong]
            exact .inl rfl

theorem initializeBitrate_of_initialized (h : c.bitrateIsInitialized = true)
    (input : RateControlInput) (t : Timestamp) : c.initializeBitrate input t = c := if_pos h

variable {now : Int}

theorem settled_settle {d : AimdRateControl F} (hstate : d.rateControlState ≠ .kRcDecrease)
    (hlast : d.rateControlState = .kRcIncrease → ∃ v ≤ now, d.timeLastBitrateChange = .finite v)
    (newBitrate : Option DataRate) : (d.settle newBitrate).Settled now :=
  ⟨le_max_right _ _, hstate, hlast⟩

theorem settled_settle_hold {d : AimdRateControl F} (hstate : d.rateControlState = .kRcHold)
    (newBitrate : Option DataRate) : (d.settle newBitrate).Settled now :=
  settled_settle (by rw [hstate]; simp) (by rw [hstate]; simp) newBitrate

/-- Once initialised, ChangeBitrate restores the invariant even from a rate below the minimum. -/
theorem settled_changeBitrate (h : c.bitrateIsInitialized = true)
    (hstate : c.rateControlState ≠ .kRcDecrease) (input : RateControlInput) :
    (c.changeBitrate input (.finite now)).Settled now := by
  cases hbw : input.bwState with
  | kBwOverusing =>
      obtain ⟨d, newBitrate, hd, -, -, hhold, -⟩ := changeBitrate_overusing c hbw (.finite now)
      rw [hd]
      exact settled_settle_hold hhold newBitrate
  | kBwUnderusing =>
      obtain ⟨d, hd, -, -, hhold⟩ := changeBitrate_underusing h hbw (.finite now)
      rw [hd]
      exact settled_settle_hold hhold none
  | kBwNormal =>
      obtain ⟨d, hd, -, -, hup, -⟩ := changeBitrate_normal h hstate hbw (.finite now)
      obtain ⟨-, -, hkept, htime⟩ := changeBitrateIncrease_spec d
        (input.estimatedThroughput.getD c.latestEstimatedThroughput) (.finite now)
      rw [hd]
      refine settled_settle (by rw [hkept, hup]; simp) ?_ _
      intro _
      exact ⟨now, le_refl _, htime⟩

theorem Settled.update (h : c.Settled now) (input : RateControlInput) :
    (c.update input (.finite now)).Settled now := by
  have hbefore : ∀ d : AimdRateControl F, d.Settled now →
      (d.changeBitrate input (.finite now)).Settled now := by
    intro d hd
    by_cases hinit : d.bitrateIsInitialized = true
    · exact settled_changeBitrate hinit hd.notDecrease input
    · by_cases hbw : input.bwState = .kBwOverusing
      · obtain ⟨d', newBitrate, hd', -, -, hhold, -⟩ := changeBitrate_overusing d hbw (.finite now)
        rw [hd']
        exact settled_settle_hold hhold newBitrate
      · rw [changeBitrate_uninitialized (by simpa using hinit) hbw]
        exact ⟨hd.minLe, hd.notDecrease, hd.lastChange⟩
  rw [AimdRateControl.update]
  rcases initializeBitrate_cases c input (.finite now) with hc | hc | ⟨x, -, hc⟩
  · rw [hc]
    exact hbefore c h
  · rw [hc]
    exact hbefore _ ⟨h.minLe, h.notDecrease, h.lastChange⟩
  · rw [hc]
    exact settled_changeBitrate (c := { c with currentBitrate := x, bitrateIsInitialized := true })
      rfl h.notDecrease input

/-- The states reached from the constructor by the public operations, at times that do not
decrease; a start bitrate is not below the minimum in force. -/
inductive Reachable : AimdRateControl F → Int → Prop
  | new (sendSide : Bool) (now : Int) : Reachable { sendSide := sendSide } now
  | wait {c : AimdRateControl F} {now t : Int} : Reachable c now → now ≤ t → Reachable c t
  | update {c : AimdRateControl F} {now : Int} (input : RateControlInput) :
      Reachable c now → Reachable (c.update input (.finite now)) now
  | setEstimate {c : AimdRateControl F} {now : Int} (bitrate : DataRate) :
      Reachable c now → Reachable (c.setEstimate bitrate (.finite now)) now
  | setMinBitrate {c : AimdRateControl F} {now : Int} (minBitrate : DataRate) :
      Reachable c now → Reachable (c.setMinBitrate minBitrate) now
  | setStartBitrate {c : AimdRateControl F} {now : Int} {startBitrate : DataRate} :
      Reachable c now → c.minConfiguredBitrate ≤ startBitrate →
        Reachable (c.setStartBitrate startBitrate) now
  | setRtt {c : AimdRateControl F} {now : Int} (rtt : TimeDelta) :
      Reachable c now → Reachable (c.setRtt rtt) now
  | setInApplicationLimitedRegion {c : AimdRateControl F} {now : Int} (inAlr : Bool) :
      Reachable c now → Reachable (c.setInApplicationLimitedRegion inAlr) now

theorem settled_of_reachable (h : Reachable c now) : c.Settled now := by
  induction h with
  | new sendSide now => exact settled_new sendSide now
  | wait _ ht ih => exact ih.later ht
  | update input _ ih => exact ih.update input
  | setEstimate bitrate _ ih => exact ih.setEstimate bitrate
  | setMinBitrate minBitrate _ ih => exact ih.setMinBitrate minBitrate
  | setStartBitrate _ hx ih => exact ih.setStartBitrate hx
  | setRtt rtt _ ih => exact ⟨ih.minLe, ih.notDecrease, ih.lastChange⟩
  | setInApplicationLimitedRegion inAlr _ ih => exact ⟨ih.minLe, ih.notDecrease, ih.lastChange⟩

/-- Overuse never raises the rate. -/
theorem Settled.overusing_le (h : c.Settled now) {input : RateControlInput}
    (hbw : input.bwState = .kBwOverusing) (t : Timestamp) :
    (c.changeBitrate input t).currentBitrate ≤ c.currentBitrate := by
  obtain ⟨d, newBitrate, hd, hrate, hmin, -, hless⟩ := changeBitrate_overusing c hbw t
  rw [hd]
  refine max_le ?_ (hmin ▸ h.minLe)
  cases newBitrate with
  | none => exact hrate.le
  | some b => exact (hless b rfl).le

/-- Underuse holds the rate. -/
theorem Settled.underusing_eq (h : c.Settled now) (hinit : c.bitrateIsInitialized = true)
    {input : RateControlInput} (hbw : input.bwState = .kBwUnderusing) (t : Timestamp) :
    (c.changeBitrate input t).currentBitrate = c.currentBitrate := by
  obtain ⟨d, hd, hrate, hmin, -⟩ := changeBitrate_underusing hinit hbw t
  rw [hd]
  change max d.currentBitrate d.minConfiguredBitrate = c.currentBitrate
  rw [hrate, hmin]
  exact max_eq_left h.minLe

/-- A normal network raises the rate at most to the limit of the throughput. -/
theorem Settled.normal_le (h : c.Settled now) (hinit : c.bitrateIsInitialized = true)
    {input : RateControlInput} (hbw : input.bwState = .kBwNormal) (t : Timestamp) :
    (c.changeBitrate input t).currentBitrate ≤ max c.currentBitrate (throughputBasedLimit F
      (input.estimatedThroughput.getD c.latestEstimatedThroughput)) := by
  obtain ⟨d, hd, hrate, hmin, -, -⟩ := changeBitrate_normal hinit h.notDecrease hbw t
  obtain ⟨hkept, hkeptMin, -, -⟩ := changeBitrateIncrease_spec d
    (input.estimatedThroughput.getD c.latestEstimatedThroughput) t
  rw [hd]
  refine max_le ?_ (le_max_of_le_left (by rw [hkeptMin, hmin]; exact h.minLe))
  cases hb : (d.changeBitrateIncrease
      (input.estimatedThroughput.getD c.latestEstimatedThroughput) t).2 with
  | none =>
      refine le_max_of_le_left ?_
      rw [Option.getD_none, hkept, hrate]
  | some b =>
      obtain ⟨-, rfl⟩ := changeBitrateIncrease_some hb
      exact le_max_of_le_right (min_le_right _ _)

end Update

section Response
variable {K : Type} [Field K] [LinearOrder K] [IsStrictOrderedRing K] [FloorRing K]

/-- A normal network never lowers the rate. -/
theorem Settled.le_normal {r : Rounding K} {c : AimdRateControl (Double r)} {now : Int}
    (h : c.Settled now) (hinit : c.bitrateIsInitialized = true) {input : RateControlInput}
    (hbw : input.bwState = .kBwNormal) :
    c.currentBitrate ≤ (c.changeBitrate input (.finite now)).currentBitrate := by
  obtain ⟨d, hd, hrate, -, -, htime⟩ := changeBitrate_normal hinit h.notDecrease hbw (.finite now)
  obtain ⟨hkept, -, -, -⟩ := changeBitrateIncrease_spec d
    (input.estimatedThroughput.getD c.latestEstimatedThroughput) (.finite now)
  have hlast : ∃ v ≤ now, d.timeLastBitrateChange = .finite v := by
    rcases htime with htime | ⟨hup, htime⟩
    · exact ⟨now, le_refl _, htime⟩
    · rw [htime]
      exact h.lastChange hup
  obtain ⟨v, hv, hlast⟩ := hlast
  rw [hd]
  refine le_max_of_le_left ?_
  cases hb : (d.changeBitrateIncrease
      (input.estimatedThroughput.getD c.latestEstimatedThroughput) (.finite now)).2 with
  | none => rw [Option.getD_none, hkept, hrate]
  | some b =>
      rw [← hrate]
      exact le_changeBitrateIncrease hv hlast _ hb

variable (sqrt : K → K) (pow : K → K → K) (divZero : K → K)

theorem throughputBasedLimit_exact (throughput : DataRate) :
    throughputBasedLimit (Double (Rounding.exact sqrt pow divZero)) throughput =
      .finite (roundField ((throughput.toValue : K) * (3 / 2)) + 10000) := by
  have hlit : (lit 1.5 : Double (Rounding.exact sqrt pow divZero)).val = 3 / 2 := by
    change ((1.5 : ℚ).num : K) / (1.5 : ℚ).den = 3 / 2
    norm_num
  change (.finite (truncField ((roundField ((throughput.toValue : K) *
    (lit 1.5 : Double (Rounding.exact sqrt pow divZero)).val) : ℤ) : K) + 10 * 1000) : DataRate) = _
  rw [hlit, truncField_intCast]
  norm_num

/-- The response law, in every reachable state that has an estimate: overuse never raises the
estimate, underuse leaves it, and a normal network never lowers it and raises it at most to
one and a half times the throughput, rounded, and ten kbps. -/
theorem update_response {c : AimdRateControl (Double (Rounding.exact sqrt pow divZero))} {now : Int}
    (h : Reachable c now) (hinit : c.bitrateIsInitialized = true) (input : RateControlInput) :
    (input.bwState = .kBwOverusing →
        (c.update input (.finite now)).latestEstimate ≤ c.latestEstimate) ∧
      (input.bwState = .kBwUnderusing →
        (c.update input (.finite now)).latestEstimate = c.latestEstimate) ∧
      (input.bwState = .kBwNormal →
        c.latestEstimate ≤ (c.update input (.finite now)).latestEstimate ∧
          (c.update input (.finite now)).latestEstimate ≤ max c.latestEstimate (.finite (roundField
            (((input.estimatedThroughput.getD c.latestEstimatedThroughput).toValue : K) *
              (3 / 2)) + 10000))) ∧
      (c.update input (.finite now)).minConfiguredBitrate ≤
        (c.update input (.finite now)).latestEstimate ∧
      ((c.update input (.finite now)).rateControlState = .kRcHold ∨
        (c.update input (.finite now)).rateControlState = .kRcIncrease) := by
  have hsettled := settled_of_reachable h
  have hnext := hsettled.update input
  have hupdate : c.update input (.finite now) = c.changeBitrate input (.finite now) := by
    rw [AimdRateControl.update, initializeBitrate_of_initialized hinit]
  refine ⟨?_, ?_, ?_, hnext.minLe, ?_⟩
  · intro hbw
    rw [hupdate]
    exact hsettled.overusing_le hbw _
  · intro hbw
    rw [hupdate]
    exact hsettled.underusing_eq hinit hbw _
  · intro hbw
    rw [hupdate]
    refine ⟨hsettled.le_normal hinit hbw, ?_⟩
    rw [← throughputBasedLimit_exact sqrt pow divZero]
    exact hsettled.normal_le hinit hbw _
  · cases hs : (c.update input (.finite now)).rateControlState with
    | kRcHold => exact .inl rfl
    | kRcIncrease => exact .inr rfl
    | kRcDecrease => exact absurd hs hnext.notDecrease

end Response

/-- A start at 2 Mbps, lowered by an overuse while 400 kbps arrive, and normal a second later. -/
def loweredControl : AimdRateControl Rational :=
  ((({ sendSide := true } : AimdRateControl Rational).setStartBitrate (.bitsPerSec 2000000)).update
    ⟨.kBwOverusing, some (.bitsPerSec 400000)⟩ (.finite 0)).update
      ⟨.kBwNormal, some (.bitsPerSec 400000)⟩ (.finite 1000000)

theorem reachable_loweredControl : Reachable loweredControl 2000000 :=
  (((((Reachable.new true 0).setStartBitrate (finite_le_finite.mpr (by decide))).update _).wait
    (by decide)).update _).wait (by decide)

/-- After a second more the three answers differ: 255, 340 and nearly 359 kbps. -/
theorem update_response_lowered :
    loweredControl.latestEstimate = .bitsPerSec 340000 ∧
      (loweredControl.update ⟨.kBwOverusing, some (.bitsPerSec 300000)⟩
        (.finite 2000000)).latestEstimate = .bitsPerSec 255000 ∧
      (loweredControl.update ⟨.kBwOverusing, some (.bitsPerSec 300000)⟩
        (.finite 2000000)).latestEstimate ≤ loweredControl.latestEstimate ∧
      (loweredControl.update ⟨.kBwUnderusing, some (.bitsPerSec 400000)⟩
        (.finite 2000000)).latestEstimate = loweredControl.latestEstimate ∧
      (loweredControl.update ⟨.kBwNormal, some (.bitsPerSec 400000)⟩
        (.finite 2000000)).latestEstimate = .bitsPerSec 358906 ∧
      loweredControl.latestEstimate ≤ (loweredControl.update
        ⟨.kBwNormal, some (.bitsPerSec 400000)⟩ (.finite 2000000)).latestEstimate ∧
      (loweredControl.update ⟨.kBwNormal, some (.bitsPerSec 400000)⟩
        (.finite 2000000)).latestEstimate ≤ max loweredControl.latestEstimate (.bitsPerSec 610000) ∧
      (loweredControl.update ⟨.kBwNormal, some (.bitsPerSec 400000)⟩
        (.finite 2000000)).minConfiguredBitrate ≤ (loweredControl.update
          ⟨.kBwNormal, some (.bitsPerSec 400000)⟩ (.finite 2000000)).latestEstimate := by
  have response := update_response id (fun x _ => x) id reachable_loweredControl (by decide +kernel)
  obtain ⟨hover, -⟩ := response ⟨.kBwOverusing, some (.bitsPerSec 300000)⟩
  obtain ⟨-, hunder, -⟩ := response ⟨.kBwUnderusing, some (.bitsPerSec 400000)⟩
  obtain ⟨-, -, hnormal, hmin, -⟩ := response ⟨.kBwNormal, some (.bitsPerSec 400000)⟩
  obtain ⟨hraises, hlimited⟩ := hnormal rfl
  exact ⟨by decide +kernel, by decide +kernel, hover rfl, hunder rfl, by decide +kernel, hraises,
    hlimited.trans_eq (by decide +kernel), hmin⟩

end AimdRateControl
end ChromeGcc
