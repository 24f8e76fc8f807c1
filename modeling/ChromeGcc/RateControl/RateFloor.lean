import ChromeGcc.RateControl.IncreaseRate
import ChromeGcc.RateControl.Response

/-! The estimate under the operations of the rate control: it stays finite and does not fall
below 5 kbps. -/
namespace ChromeGcc
open FloatArith UnitBase

namespace AimdRateControl

/-- The members that the increase rate and the expected period are computed from, and the minimum. -/
structure RateFields where
  currentBitrate : DataRate
  minConfiguredBitrate : DataRate
  rtt : TimeDelta
  inExperiment : Bool
  lastDecrease : Option DataRate
  deriving DecidableEq, Repr

section Fields
variable {F : Type} [FloatArith F] (c : AimdRateControl F)

def rateFields : RateFields where
  currentBitrate := c.currentBitrate
  minConfiguredBitrate := c.minConfiguredBitrate
  rtt := c.rtt
  inExperiment := c.inExperiment
  lastDecrease := c.lastDecrease

/-- The state in which ChangeBitrate chooses its case. -/
def activeState (input : RateControlInput) (t : Timestamp) : AimdRateControl F :=
  { c with
    latestEstimatedThroughput :=
      input.estimatedThroughput.getD c.latestEstimatedThroughput }.changeState input.bwState t

/-- ChangeBitrate does more than note the throughput. -/
def Acts (input : RateControlInput) : Prop :=
  c.bitrateIsInitialized = true ∨ input.bwState = .kBwOverusing

theorem changeBitrate_active {input : RateControlInput} (h : c.Acts input) (t : Timestamp) :
    c.changeBitrate input t =
      match (c.activeState input t).rateControlState with
      | .kRcHold => (c.activeState input t).settle none
      | .kRcIncrease =>
        ((c.activeState input t).changeBitrateIncrease
          (input.estimatedThroughput.getD c.latestEstimatedThroughput) t).1.settle
            ((c.activeState input t).changeBitrateIncrease
              (input.estimatedThroughput.getD c.latestEstimatedThroughput) t).2
      | .kRcDecrease =>
        ((c.activeState input t).changeBitrateDecrease
          (input.estimatedThroughput.getD c.latestEstimatedThroughput) t).1.settle
            ((c.activeState input t).changeBitrateDecrease
              (input.estimatedThroughput.getD c.latestEstimatedThroughput) t).2 := by
  have hgo : ¬ ((!c.bitrateIsInitialized) = true ∧ input.bwState ≠ .kBwOverusing) := by
    rintro ⟨hnot, hbw⟩
    rw [h.resolve_right hbw] at hnot
    cases hnot
  unfold changeBitrate
  dsimp only
  rw [if_neg hgo]
  unfold activeState
  generalize changeState (F := F) _ input.bwState t = s
  cases s.rateControlState with
  | kRcHold => rfl
  | kRcIncrease => rfl
  | kRcDecrease => rfl

theorem activeState_fields (input : RateControlInput) (t : Timestamp) :
    (c.activeState input t).rateFields = c.rateFields ∧
      (c.activeState input t).linkCapacity = c.linkCapacity ∧
      (c.activeState input t).bitrateIsInitialized = c.bitrateIsInitialized := by
  unfold activeState changeState
  cases input.bwState with
  | kBwUnderusing => exact ⟨rfl, rfl, rfl⟩
  | kBwOverusing => exact ⟨rfl, rfl, rfl⟩
  | kBwNormal =>
      dsimp only
      split_ifs
      · exact ⟨rfl, rfl, rfl⟩
      · exact ⟨rfl, rfl, rfl⟩

theorem rateFields_settle (newBitrate : Option DataRate) :
    (c.settle newBitrate).rateFields = { c.rateFields with
      currentBitrate := c.clampBitrate (newBitrate.getD c.currentBitrate) } := rfl

theorem checkCapacity_rateFields (throughput : DataRate) :
    (c.checkCapacity throughput).rateFields = c.rateFields := by
  unfold checkCapacity
  split_ifs
  · rfl
  · rfl

theorem hasEstimate_of_checkCapacity {c : AimdRateControl F} {throughput : DataRate}
    (h : (c.checkCapacity throughput).linkCapacity.hasEstimate = true) :
    c.linkCapacity.hasEstimate = true := by
  unfold checkCapacity at h
  split_ifs at h
  · cases h
  · exact h

theorem changeBitrateIncrease_fields (throughput : DataRate) (t : Timestamp) :
    (c.changeBitrateIncrease throughput t).1.rateFields = c.rateFields ∧
      (c.changeBitrateIncrease throughput t).1.bitrateIsInitialized = c.bitrateIsInitialized := by
  have hcheck := c.checkCapacity_rateFields throughput
  have hinit : (c.checkCapacity throughput).bitrateIsInitialized = c.bitrateIsInitialized := by
    unfold checkCapacity
    split_ifs
    · rfl
    · rfl
  exact ⟨hcheck, hinit⟩

/-- The rate that the decrease proposes when it is below the current one. -/
def decreasedRate (throughput : DataRate) : DataRate :=
  if throughput.scale c.beta > c.currentBitrate ∧ c.linkCapacity.hasEstimate then
    c.linkCapacity.estimate.scale c.beta
  else throughput.scale c.beta

theorem changeBitrateDecrease_snd (throughput : DataRate) (t : Timestamp) :
    (c.changeBitrateDecrease throughput t).2 =
      if c.decreasedRate throughput < c.currentBitrate then some (c.decreasedRate throughput)
      else none := rfl

/-- The decrease notes by how much it proposes to lower the rate, if it notes anything. -/
theorem changeBitrateDecrease_fields (throughput : DataRate) (t : Timestamp) :
    (c.changeBitrateDecrease throughput t).1.bitrateIsInitialized = true ∧
    ∃ lastDecrease, (c.changeBitrateDecrease throughput t).1.rateFields =
        { c.rateFields with lastDecrease := lastDecrease } ∧
      (lastDecrease = c.lastDecrease ∨ lastDecrease = some .zero ∨
        ∃ b, (c.changeBitrateDecrease throughput t).2 = some b ∧
          lastDecrease = some (c.currentBitrate - b)) := by
  refine ⟨rfl, ?_⟩
  rw [changeBitrateDecrease_snd]
  unfold changeBitrateDecrease
  dsimp only
  rw [← decreasedRate]
  by_cases hlower : c.decreasedRate throughput < c.currentBitrate
  · simp only [if_pos hlower]
    split_ifs
    · exact ⟨_, rfl, .inr (.inr ⟨_, rfl, rfl⟩)⟩
    · exact ⟨_, rfl, .inr (.inr ⟨_, rfl, rfl⟩)⟩
    · exact ⟨_, rfl, .inl rfl⟩
    · exact ⟨_, rfl, .inl rfl⟩
  · simp only [if_neg hlower]
    split_ifs
    · exact ⟨_, rfl, .inr (.inl rfl)⟩
    · exact ⟨_, rfl, .inr (.inl rfl)⟩
    · exact ⟨_, rfl, .inl rfl⟩
    · exact ⟨_, rfl, .inl rfl⟩

/-- ChangeBitrate leaves an initialised estimate, unless it does nothing. -/
theorem changeBitrate_initialized {c : AimdRateControl F} {input : RateControlInput}
    (h : c.Acts input) (t : Timestamp) :
    (c.changeBitrate input t).bitrateIsInitialized = true := by
  obtain ⟨-, -, hinit⟩ := c.activeState_fields input t
  rw [changeBitrate_active c h]
  by_cases hbw : input.bwState = .kBwOverusing
  · have hdecrease : (c.activeState input t).rateControlState = .kRcDecrease := by
      unfold activeState changeState
      rw [hbw]
    rw [hdecrease]
    rfl
  · have hbefore : c.bitrateIsInitialized = true := h.resolve_right hbw
    cases (c.activeState input t).rateControlState with
    | kRcHold => exact hinit.trans hbefore
    | kRcIncrease => exact (changeBitrateIncrease_fields _ _ t).2.trans (hinit.trans hbefore)
    | kRcDecrease => rfl

/-- What every operation keeps of these members, with rates that are finite. -/
structure RateFields.Sound (f : RateFields) : Prop where
  minFinite : f.minConfiguredBitrate.isFinite = true
  fiveKbps_le : getMinBitrate ≤ f.minConfiguredBitrate
  rateFinite : f.currentBitrate.isFinite = true
  rtt_nonneg : .zero ≤ f.rtt
  notInExperiment : f.inExperiment = false
  decrease : ∀ lastDecrease, f.lastDecrease = some lastDecrease →
    lastDecrease.isFinite = true ∧ .zero ≤ lastDecrease

/-- Between the operations the estimate is not below 5 kbps, and the capacity of the link is known
only once there is an estimate. -/
structure Kept (c : AimdRateControl F) : Prop where
  sound : c.rateFields.Sound
  fiveKbps_le : getMinBitrate ≤ c.currentBitrate
  capacity : c.bitrateIsInitialized = false → c.linkCapacity.hasEstimate = false

theorem kept_new (sendSide : Bool) : Kept ({ sendSide := sendSide } : AimdRateControl F) where
  sound :=
    { minFinite := rfl
      fiveKbps_le := le_refl _
      rateFinite := rfl
      rtt_nonneg := finite_le_finite.mpr (by decide)
      notInExperiment := rfl
      decrease := by
        intro lastDecrease h
        cases h }
  fiveKbps_le := finite_le_finite.mpr (by decide)
  capacity _ := rfl

variable {c}

theorem Kept.setStartBitrate (h : c.Kept) {x : DataRate} (hfin : x.isFinite = true)
    (hx : getMinBitrate ≤ x) : (c.setStartBitrate x).Kept where
  sound := { h.sound with rateFinite := hfin }
  fiveKbps_le := hx
  capacity hinit := by cases hinit

theorem Kept.setMinBitrate (h : c.Kept) {x : DataRate} (hfin : x.isFinite = true)
    (hx : getMinBitrate ≤ x) : (c.setMinBitrate x).Kept where
  sound := { h.sound with
    minFinite := hfin
    fiveKbps_le := hx
    rateFinite := isFinite_max hfin h.sound.rateFinite }
  fiveKbps_le := le_max_of_le_left hx
  capacity := h.capacity

theorem Kept.setRtt (h : c.Kept) {rtt : TimeDelta} (hrtt : .zero ≤ rtt) : (c.setRtt rtt).Kept where
  sound := { h.sound with rtt_nonneg := hrtt }
  fiveKbps_le := h.fiveKbps_le
  capacity := h.capacity

theorem Kept.setInApplicationLimitedRegion (h : c.Kept) (inAlr : Bool) :
    (c.setInApplicationLimitedRegion inAlr).Kept := ⟨h.sound, h.fiveKbps_le, h.capacity⟩

/-- The last step of ChangeBitrate keeps the rate above the minimum. -/
theorem sound_settle (h : c.rateFields.Sound) {newBitrate : Option DataRate}
    (hnew : ∀ b, newBitrate = some b → b.isFinite = true) :
    (c.settle newBitrate).rateFields.Sound ∧ getMinBitrate ≤ (c.settle newBitrate).currentBitrate := by
  have hrate : (newBitrate.getD c.currentBitrate).isFinite = true := by
    cases newBitrate with
    | none => exact h.rateFinite
    | some b => exact hnew b rfl
  refine ⟨?_, le_max_of_le_right h.fiveKbps_le⟩
  rw [rateFields_settle]
  exact { h with rateFinite := isFinite_max hrate h.minFinite }

/-- The state in which Update computes an increase. -/
def increaseState (c : AimdRateControl F) (input : RateControlInput) (t : Timestamp) :
    AimdRateControl F :=
  ((c.initializeBitrate input t).activeState input t).checkCapacity
    (input.estimatedThroughput.getD (c.initializeBitrate input t).latestEstimatedThroughput)

/-- Where Update leaves a higher rate than its minimum asks for, that is the increased rate of a
state, under the throughput's limit. -/
def IncreasesBy (c : AimdRateControl F) (input : RateControlInput) (t : Timestamp)
    (state : AimdRateControl F) : Prop :=
  c.clampBitrate (c.initializeBitrate input t).currentBitrate < (c.update input t).currentBitrate →
    (c.update input t).currentBitrate = c.clampBitrate (min (state.increasedRate t)
      (throughputBasedLimit F
        (input.estimatedThroughput.getD (c.initializeBitrate input t).latestEstimatedThroughput)))

theorem settle_le {d : AimdRateControl F} {newBitrate : Option DataRate}
    (hrate : d.currentBitrate = c.currentBitrate)
    (hmin : d.minConfiguredBitrate = c.minConfiguredBitrate)
    (h : ∀ b, newBitrate = some b → b ≤ c.currentBitrate) :
    (d.settle newBitrate).currentBitrate ≤ c.clampBitrate c.currentBitrate := by
  refine max_le_max ?_ hmin.le
  cases newBitrate with
  | none => exact hrate.le
  | some b => exact h b rfl

/-- ChangeBitrate raises the rate only in the state of an increase, to what is proposed there. -/
theorem changeBitrate_raised {input : RateControlInput} {t : Timestamp}
    (h : c.clampBitrate c.currentBitrate < (c.changeBitrate input t).currentBitrate) :
    (c.changeBitrate input t).currentBitrate = c.clampBitrate
      (min (((c.activeState input t).checkCapacity
          (input.estimatedThroughput.getD c.latestEstimatedThroughput)).increasedRate t)
        (throughputBasedLimit F (input.estimatedThroughput.getD c.latestEstimatedThroughput))) := by
  have hfields := (c.activeState_fields input t).1
  have hrate : (c.activeState input t).currentBitrate = c.currentBitrate :=
    congrArg RateFields.currentBitrate hfields
  have hmin : (c.activeState input t).minConfiguredBitrate = c.minConfiguredBitrate :=
    congrArg RateFields.minConfiguredBitrate hfields
  by_cases hacts : c.Acts input
  · rw [changeBitrate_active c hacts] at h ⊢
    cases hstate : (c.activeState input t).rateControlState with
    | kRcHold =>
        rw [hstate] at h
        exact absurd h (not_lt.mpr (settle_le hrate hmin fun b hb => by cases hb))
    | kRcIncrease =>
        rw [hstate] at h
        obtain ⟨hkept, hkeptMin, -⟩ := changeBitrateIncrease_spec (c.activeState input t)
          (input.estimatedThroughput.getD c.latestEstimatedThroughput) t
        dsimp only at h ⊢
        cases hb : ((c.activeState input t).changeBitrateIncrease
            (input.estimatedThroughput.getD c.latestEstimatedThroughput) t).2 with
        | none =>
            rw [hb] at h
            exact absurd h (not_lt.mpr (settle_le (hkept.trans hrate) (hkeptMin.trans hmin)
              fun b hsome => by cases hsome))
        | some b =>
            obtain ⟨-, rfl⟩ := changeBitrateIncrease_some hb
            exact congrArg (max _) (hkeptMin.trans hmin)
    | kRcDecrease =>
        rw [hstate] at h
        -- the decrease proposes only less
        obtain ⟨hkept, hkeptMin, -, hless⟩ := changeBitrateDecrease_spec (c.activeState input t)
          (input.estimatedThroughput.getD c.latestEstimatedThroughput) t
        refine absurd h (not_lt.mpr (settle_le (hkept.trans hrate) (hkeptMin.trans hmin) ?_))
        intro b hb
        rw [← hrate]
        exact (hless b hb).le
  · -- without an estimate and without overuse only the throughput is noted
    have hidle : c.changeBitrate input t = { c with
        latestEstimatedThroughput := input.estimatedThroughput.getD c.latestEstimatedThroughput } :=
      changeBitrate_uninitialized (by simpa using fun hi => hacts (.inl hi))
        (fun hbw => hacts (.inr hbw)) t
    rw [hidle] at h
    exact absurd h (not_lt.mpr (le_max_left _ _))

theorem increasesBy_increaseState (c : AimdRateControl F) (input : RateControlInput) (t : Timestamp) :
    c.IncreasesBy input t (c.increaseState input t) := by
  have hmin : (c.initializeBitrate input t).minConfiguredBitrate = c.minConfiguredBitrate := by
    rcases initializeBitrate_cases c input t with hc | hc | ⟨x, -, hc⟩
    · rw [hc]
    · rw [hc]
    · rw [hc]
  unfold IncreasesBy clampBitrate
  rw [← hmin]
  exact changeBitrate_raised

/-- With a link capacity the estimate was there before, so that nothing has replaced it yet. -/
theorem Kept.increaseState_fields (h : c.Kept) {input : RateControlInput} {t : Timestamp}
    (hcapacity : (c.increaseState input t).linkCapacity.hasEstimate = true) :
    (c.increaseState input t).rateFields = c.rateFields := by
  have hbefore : c.linkCapacity.hasEstimate = true := by
    have hcheck := hasEstimate_of_checkCapacity hcapacity
    rw [((c.initializeBitrate input t).activeState_fields input t).2.1] at hcheck
    rcases initializeBitrate_cases c input t with hc | hc | ⟨x, -, hc⟩
    · rwa [hc] at hcheck
    · rwa [hc] at hcheck
    · rwa [hc] at hcheck
  have hinit : c.bitrateIsInitialized = true := by
    by_contra hnot
    rw [h.capacity (by simpa using hnot)] at hbefore
    cases hbefore
  unfold increaseState
  rw [initializeBitrate_of_initialized hinit, checkCapacity_rateFields]
  exact (c.activeState_fields input t).1

/-- Rates below a limit. -/
def RateFields.Below (f : RateFields) (limit : DataRate) : Prop :=
  f.currentBitrate < limit ∧ ∀ lastDecrease, f.lastDecrease = some lastDecrease → lastDecrease < limit

end Fields

section Rounded
variable {K : Type} [Field K] [LinearOrder K] [FloorRing K] {r : Rounding K}
  {c : AimdRateControl (Double r)}

theorem changeBitrateIncrease_finite (hx : c.currentBitrate.isFinite = true) {throughput : DataRate}
    {t : Timestamp} {b : DataRate} (hb : (c.changeBitrateIncrease throughput t).2 = some b) :
    b.isFinite = true := by
  obtain ⟨-, rfl⟩ := changeBitrateIncrease_some hb
  obtain ⟨x, hx⟩ := isFinite_iff.mp hx
  have hrate : (c.checkCapacity throughput).currentBitrate = .finite x :=
    (checkCapacity_fields c throughput).1.trans hx
  refine isFinite_min ?_ rfl
  unfold increasedRate
  rw [hrate]
  split_ifs
  · rfl
  · exact DataRate.isFinite_add rfl (isFinite_max rfl rfl)

theorem decreasedRate_finite (c : AimdRateControl (Double r)) (throughput : DataRate) :
    (c.decreasedRate throughput).isFinite = true := by
  unfold decreasedRate
  split_ifs
  · rfl
  · rfl

/-- What a decrease takes off the rate is a finite rate. -/
theorem sound_changeBitrateDecrease (h : c.rateFields.Sound) (throughput : DataRate) (t : Timestamp) :
    (c.changeBitrateDecrease throughput t).1.rateFields.Sound ∧
      ∀ b, (c.changeBitrateDecrease throughput t).2 = some b → b.isFinite = true := by
  have hnew : ∀ b, (c.changeBitrateDecrease throughput t).2 = some b →
      b.isFinite = true ∧ b < c.currentBitrate := by
    intro b hb
    rw [changeBitrateDecrease_snd] at hb
    split_ifs at hb with hlower
    cases hb
    exact ⟨decreasedRate_finite c throughput, hlower⟩
  obtain ⟨-, lastDecrease, hfields, hlast⟩ := c.changeBitrateDecrease_fields throughput t
  refine ⟨?_, fun b hb => (hnew b hb).1⟩
  rw [hfields]
  refine { h with decrease := ?_ }
  rcases hlast with rfl | rfl | ⟨b, hb, rfl⟩
  · exact h.decrease
  · intro d hd
    cases hd
    exact ⟨rfl, le_refl _⟩
  · intro d hd
    obtain ⟨hfin, hless⟩ := hnew b hb
    obtain ⟨y, rfl⟩ := isFinite_iff.mp hfin
    obtain ⟨x, hx⟩ := isFinite_iff.mp h.rateFinite
    change c.currentBitrate = .finite x at hx
    rw [hx] at hless hd
    rw [finite_lt_finite] at hless
    cases hd
    exact ⟨rfl, finite_le_finite.mpr (by omega)⟩

/-- Unless ChangeBitrate does nothing, it clamps the rate, whatever the rate was before. -/
theorem kept_changeBitrate (h : c.rateFields.Sound) {input : RateControlInput} (hacts : c.Acts input)
    (t : Timestamp) :
    (c.changeBitrate input t).Kept := by
  have hactive : (c.activeState input t).rateFields.Sound := by
    rw [(c.activeState_fields input t).1]
    exact h
  have hsettled : (c.changeBitrate input t).rateFields.Sound ∧
      getMinBitrate ≤ (c.changeBitrate input t).currentBitrate := by
    rw [changeBitrate_active c hacts]
    cases (c.activeState input t).rateControlState with
    | kRcHold =>
        refine sound_settle hactive ?_
        intro b hb
        cases hb
    | kRcIncrease =>
        refine sound_settle ?_ fun b hb => changeBitrateIncrease_finite hactive.rateFinite hb
        rw [(changeBitrateIncrease_fields _ _ t).1]
        exact hactive
    | kRcDecrease =>
        obtain ⟨hsound, hnew⟩ := sound_changeBitrateDecrease hactive
          (input.estimatedThroughput.getD c.latestEstimatedThroughput) t
        exact sound_settle hsound hnew
  refine ⟨hsettled.1, hsettled.2, ?_⟩
  rw [changeBitrate_initialized hacts]
  intro hinit
  cases hinit

theorem Kept.changeBitrate (h : c.Kept) (input : RateControlInput) (t : Timestamp) :
    (c.changeBitrate input t).Kept := by
  by_cases hacts : c.Acts input
  · exact kept_changeBitrate h.sound hacts t
  · obtain ⟨hinit, hbw⟩ := not_or.mp hacts
    rw [changeBitrate_uninitialized (by simpa using hinit) hbw]
    exact ⟨h.sound, h.fiveKbps_le, h.capacity⟩

/-- A throughput that becomes the first estimate may lie below the minimum until ChangeBitrate
has clamped it. -/
theorem Kept.update (h : c.Kept) {input : RateControlInput}
    (hin : ∀ x, input.estimatedThroughput = some x → x.isFinite = true) (t : Timestamp) :
    (c.update input t).Kept := by
  rw [AimdRateControl.update]
  rcases initializeBitrate_cases c input t with hc | hc | ⟨x, hx, hc⟩
  · rw [hc]
    exact h.changeBitrate input t
  · have hsame : ({ c with timeFirstThroughputEstimate := t } : AimdRateControl (Double r)).Kept :=
      ⟨h.sound, h.fiveKbps_le, h.capacity⟩
    rw [hc]
    exact hsame.changeBitrate input t
  · rw [hc]
    exact kept_changeBitrate (c := { c with currentBitrate := x, bitrateIsInitialized := true })
      { h.sound with rateFinite := hin x hx } (.inl rfl) t

theorem Kept.setEstimate (h : c.Kept) {x : DataRate} (hx : x.isFinite = true) (t : Timestamp) :
    (c.setEstimate x t).Kept := by
  have hsound : { c.rateFields with currentBitrate := c.clampBitrate x }.Sound :=
    { h.sound with rateFinite := isFinite_max hx h.sound.minFinite }
  have hfloor : getMinBitrate ≤ c.clampBitrate x := le_max_of_le_right h.sound.fiveKbps_le
  unfold AimdRateControl.setEstimate
  dsimp only
  split_ifs
  · exact ⟨hsound, hfloor, fun hinit => by cases hinit⟩
  · exact ⟨hsound, hfloor, fun hinit => by cases hinit⟩

variable [IsStrictOrderedRing K]

theorem increaseSafe_of_fields (h : c.rateFields.Sound)
    (hfloor : getMinBitrate ≤ c.rateFields.currentBitrate)
    (hbelow : c.rateFields.Below (.bitsPerSec (2 * 10 ^ 14))) : c.IncreaseSafe := by
  obtain ⟨x, hx⟩ := isFinite_iff.mp h.rateFinite
  obtain ⟨hrate, hlast⟩ := hbelow
  rw [hx] at hfloor hrate
  refine increaseSafe_of_bounds hx (finite_le_finite.mp hfloor) (finite_lt_finite.mp hrate)
    h.rtt_nonneg h.notInExperiment ?_
  intro lastDecrease hdecrease
  obtain ⟨hfin, hnonneg⟩ := h.decrease lastDecrease hdecrease
  obtain ⟨v, rfl⟩ := isFinite_iff.mp hfin
  exact ⟨v, rfl, finite_le_finite.mp hnonneg, finite_lt_finite.mp (hlast _ hdecrease)⟩

/-- The increase rate is safe between the operations, and where Update goes by it. -/
theorem Kept.increaseSafe (h : c.Kept) (hbelow : c.rateFields.Below (.bitsPerSec (2 * 10 ^ 14))) :
    c.IncreaseSafe ∧ ∀ input t, c.IncreasesBy input t (c.increaseState input t) ∧
      ((c.increaseState input t).linkCapacity.hasEstimate = true →
        (c.increaseState input t).IncreaseSafe) := by
  refine ⟨increaseSafe_of_fields h.sound h.fiveKbps_le hbelow, ?_⟩
  intro input t
  refine ⟨c.increasesBy_increaseState input t, ?_⟩
  intro hcapacity
  have hfields := h.increaseState_fields hcapacity
  refine increaseSafe_of_fields ?_ ?_ ?_
  · rw [hfields]
    exact h.sound
  · rw [hfields]
    exact h.fiveKbps_le
  · rw [hfields]
    exact hbelow

end Rounded
end AimdRateControl
end ChromeGcc
