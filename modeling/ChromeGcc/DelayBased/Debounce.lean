import ChromeGcc.DelayBased.Predictor

/-! The overuse timer. Detect sees a trend above the threshold, below its negative or between
the two, and decides from the unbroken run of trends above it. -/
namespace ChromeGcc
open FloatArith

/-- What one call of Detect sees. -/
structure Observation (F : Type) where
  above : Bool
  below : Bool
  trend : F
  tsDelta : F

/-- The members of the detector that its decision rests on. -/
structure OveruseTimer (F : Type) where
  timeOverUsing : F
  overuseCounter : Int
  prevTrend : F
  hypothesis : BandwidthUsage

namespace OveruseTimer
variable {F : Type} [FloatArith F]

/-- The timer starts with half of an interval. -/
def elapsed (t : OveruseTimer F) (tsDelta : F) : F :=
  if eqv t.timeOverUsing (ofInt (-1)) then tsDelta / lit 2 else t.timeOverUsing + tsDelta

def Fires (t : OveruseTimer F) (o : Observation F) : Prop :=
  (lit kOverUsingTimeThreshold < t.elapsed o.tsDelta ∧ t.overuseCounter + 1 > 1) ∧
    t.prevTrend ≤ o.trend

instance (t : OveruseTimer F) (o : Observation F) : Decidable (t.Fires o) :=
  inferInstanceAs (Decidable ((_ ∧ _) ∧ _))

def observe (t : OveruseTimer F) (o : Observation F) : OveruseTimer F :=
  if o.above then
    if t.Fires o then
      { timeOverUsing := lit 0
        overuseCounter := 0
        prevTrend := o.trend
        hypothesis := .kBwOverusing }
    else
      { timeOverUsing := t.elapsed o.tsDelta
        overuseCounter := t.overuseCounter + 1
        prevTrend := o.trend
        hypothesis := t.hypothesis }
  else
    { timeOverUsing := ofInt (-1)
      overuseCounter := 0
      prevTrend := o.trend
      hypothesis := if o.below then .kBwUnderusing else .kBwNormal }

variable {t : OveruseTimer F} {o : Observation F}

theorem observe_of_fires (habove : o.above = true) (h : t.Fires o) :
    t.observe o =
      { timeOverUsing := lit 0
        overuseCounter := 0
        prevTrend := o.trend
        hypothesis := .kBwOverusing } := by
  rw [observe, if_pos habove, if_pos h]

theorem observe_of_not_fires (habove : o.above = true) (h : ¬ t.Fires o) :
    t.observe o =
      { timeOverUsing := t.elapsed o.tsDelta
        overuseCounter := t.overuseCounter + 1
        prevTrend := o.trend
        hypothesis := t.hypothesis } := by
  rw [observe, if_pos habove, if_neg h]

theorem hypothesis_observe_not_above (habove : ¬ o.above = true) :
    (t.observe o).hypothesis ≠ .kBwOverusing := by
  rw [observe, if_neg habove]
  dsimp only
  split_ifs <;> decide

/-- Above the threshold an overusing timer stays so. -/
theorem hypothesis_observe_kept (habove : o.above = true) (h : t.hypothesis = .kBwOverusing) :
    (t.observe o).hypothesis = .kBwOverusing := by
  by_cases hfires : t.Fires o
  · rw [observe_of_fires habove hfires]
  · rw [observe_of_not_fires habove hfires]
    exact h

end OveruseTimer

namespace TrendlineEstimator
variable {F : Type} [FloatArith F] (e : TrendlineEstimator F)

def overuseTimer (e : TrendlineEstimator F) : OveruseTimer F where
  timeOverUsing := e.timeOverUsing
  overuseCounter := e.overuseCounter
  prevTrend := e.prevTrend
  hypothesis := e.hypothesis

def observation (e : TrendlineEstimator F) (trend tsDelta : F) : Observation F where
  above := decide (e.threshold < e.modifiedTrend trend)
  below := decide (e.modifiedTrend trend < -e.threshold)
  trend := trend
  tsDelta := tsDelta

theorem overuseTimer_updateThreshold (modifiedTrend : F) (nowMs : Int) :
    (e.updateThreshold modifiedTrend nowMs).overuseTimer = e.overuseTimer := by
  obtain ⟨_, _, hthreshold⟩ := e.updateThreshold_writes modifiedTrend nowMs
  rw [hthreshold]
  rfl

theorem overuseTimer_smooth (recvDeltaMs sendDeltaMs : F) (arrivalTimeMs : Int) :
    (e.smooth recvDeltaMs sendDeltaMs arrivalTimeMs).overuseTimer = e.overuseTimer := by
  unfold smooth
  dsimp only
  split_ifs <;> rfl

theorem countOveruse_eq (trend tsDelta : F) :
    e.countOveruse trend tsDelta =
      if e.overusingTimeThreshold < e.overuseTimer.elapsed tsDelta ∧ e.overuseCounter + 1 > 1 then
        if e.prevTrend ≤ trend then
          { e with timeOverUsing := lit 0, overuseCounter := 0, hypothesis := .kBwOverusing }
        else
          { e with
            timeOverUsing := e.overuseTimer.elapsed tsDelta
            overuseCounter := e.overuseCounter + 1 }
      else
        { e with
          timeOverUsing := e.overuseTimer.elapsed tsDelta
          overuseCounter := e.overuseCounter + 1 } := by
  have helapsed : e.overuseTimer.elapsed tsDelta =
      if eqv e.timeOverUsing (ofInt (-1)) then tsDelta / lit 2 else e.timeOverUsing + tsDelta := rfl
  rw [helapsed]
  unfold countOveruse
  by_cases hsentinel : eqv e.timeOverUsing (ofInt (-1))
  · simp only [if_pos hsentinel]
  · simp only [if_neg hsentinel]

/-- The timer and the counter of countOveruse, with the trend stored behind it. -/
theorem overuseTimer_countOveruse (hlimit : e.overusingTimeThreshold = lit kOverUsingTimeThreshold)
    {o : Observation F} (habove : o.above = true) :
    overuseTimer { e.countOveruse o.trend o.tsDelta with prevTrend := o.trend } =
      e.overuseTimer.observe o := by
  have hfires : e.overuseTimer.Fires o ↔
      (e.overusingTimeThreshold < e.overuseTimer.elapsed o.tsDelta ∧ e.overuseCounter + 1 > 1) ∧
        e.prevTrend ≤ o.trend := by
    rw [hlimit]
    rfl
  rw [countOveruse_eq]
  unfold OveruseTimer.observe
  rw [if_pos habove]
  by_cases hlong : e.overusingTimeThreshold < e.overuseTimer.elapsed o.tsDelta ∧
      e.overuseCounter + 1 > 1
  · by_cases htrend : e.prevTrend ≤ o.trend
    · rw [if_pos (hfires.mpr ⟨hlong, htrend⟩), if_pos hlong, if_pos htrend]
      rfl
    · rw [if_neg fun h => htrend (hfires.mp h).2, if_pos hlong, if_neg htrend]
      rfl
  · rw [if_neg fun h => hlong (hfires.mp h).1, if_neg hlong]
    rfl

/-- Detect, seen through its timer, is the observation of its trend. -/
theorem overuseTimer_detect (hlimit : e.overusingTimeThreshold = lit kOverUsingTimeThreshold)
    (hcounted : ¬ e.numOfDeltas < 2) (trend tsDelta : F) (nowMs : Int) :
    (e.detect trend tsDelta nowMs).overuseTimer =
      e.overuseTimer.observe (e.observation trend tsDelta) := by
  rw [detect_eq, if_neg hcounted, overuseTimer_updateThreshold]
  unfold judge
  by_cases habove : e.threshold < e.modifiedTrend trend
  · rw [if_pos habove]
    exact e.overuseTimer_countOveruse hlimit (o := e.observation trend tsDelta) (decide_eq_true habove)
  · have hnot : ¬ (e.observation trend tsDelta).above = true := by
      rw [observation, decide_eq_false habove]
      exact Bool.false_ne_true
    unfold OveruseTimer.observe
    rw [if_neg habove, if_neg hnot]
    by_cases hbelow : e.modifiedTrend trend < -e.threshold
    · rw [if_pos hbelow, observation, decide_eq_true hbelow]
      rfl
    · rw [if_neg hbelow, observation, decide_eq_false hbelow]
      rfl

/-! What a call leaves alone. -/

theorem threshold_judge (trend tsDelta : F) : (e.judge trend tsDelta).threshold = e.threshold := by
  obtain ⟨_, _, _, hjudge⟩ := e.judge_writes trend tsDelta
  rw [hjudge]

theorem settings_detect (trend tsDelta : F) (nowMs : Int) :
    (e.detect trend tsDelta nowMs).numOfDeltas = e.numOfDeltas ∧
      (e.detect trend tsDelta nowMs).overusingTimeThreshold = e.overusingTimeThreshold ∧
      (e.detect trend tsDelta nowMs).networkStatePredictor = e.networkStatePredictor := by
  obtain ⟨_, _, _, _, _, _, hdetect⟩ := e.detect_writes trend tsDelta nowMs
  rw [hdetect]
  exact ⟨rfl, rfl, rfl⟩

theorem settings_smooth (recvDeltaMs sendDeltaMs : F) (arrivalTimeMs : Int) :
    (e.smooth recvDeltaMs sendDeltaMs arrivalTimeMs).numOfDeltas =
        min (e.numOfDeltas + 1) kDeltaCounterMax ∧
      (e.smooth recvDeltaMs sendDeltaMs arrivalTimeMs).overusingTimeThreshold =
        e.overusingTimeThreshold ∧
      (e.smooth recvDeltaMs sendDeltaMs arrivalTimeMs).networkStatePredictor =
        e.networkStatePredictor ∧
      (e.smooth recvDeltaMs sendDeltaMs arrivalTimeMs).threshold = e.threshold := by
  unfold smooth
  dsimp only
  split_ifs <;> exact ⟨rfl, rfl, rfl, rfl⟩

end TrendlineEstimator

/-! The timer and the counter as functions of the observations so far. -/

namespace OveruseTimer

section Exact
variable {K : Type} [Field K] [LinearOrder K] {r : Rounding K}

/-- The unbroken run of observations above the threshold that the last one belongs to. -/
def currentRun (os : List (Observation (Double r))) : List (Observation (Double r)) :=
  os.rtakeWhile fun o => o.above

/-- Half of the first interval of a run and all of its later ones. -/
def duration : List (Observation (Double r)) → K
  | [] => 0
  | o :: os => o.tsDelta.val / (2 : Nat) + (os.map fun o => o.tsDelta.val).sum

/-- At least two observations above the threshold, for more than 10 ms, with a trend that does
not fall at the last. -/
structure Overuses (os : List (Observation (Double r))) : Prop where
  twice : 2 ≤ (currentRun os).length
  long : 10 < duration (currentRun os)
  notFalling : ∀ before last, [before, last] <:+ os → before.trend.val ≤ last.trend.val

/-- The timer after observations: idle outside a run, and in a run that has not fired yet the
duration and the length of it. -/
structure Tracks (os : List (Observation (Double r))) (t : OveruseTimer (Double r)) : Prop where
  prevTrend : ∀ o ∈ os.getLast?, t.prevTrend = o.trend
  idle : currentRun os = [] →
    t.timeOverUsing.val = -1 ∧ t.overuseCounter = 0 ∧ t.hypothesis ≠ .kBwOverusing
  counting : currentRun os ≠ [] → t.hypothesis ≠ .kBwOverusing →
    t.timeOverUsing.val = duration (currentRun os) ∧ t.overuseCounter = (currentRun os).length

variable {os : List (Observation (Double r))} {o : Observation (Double r)}
  {t : OveruseTimer (Double r)}

theorem currentRun_above (h : o.above = true) : currentRun (os ++ [o]) = currentRun os ++ [o] :=
  List.rtakeWhile_concat_pos _ _ _ h

theorem currentRun_not_above (h : ¬ o.above = true) : currentRun (os ++ [o]) = [] :=
  List.rtakeWhile_concat_neg _ _ _ h

theorem pair_suffix_iff {α : Type} {xs : List α} {x before last : α} :
    [before, last] <:+ xs ++ [x] ↔ xs.getLast? = some before ∧ last = x := by
  constructor
  · rintro ⟨rest, hrest⟩
    rw [List.append_cons] at hrest
    obtain ⟨rfl, hlast⟩ := List.append_inj' hrest rfl
    cases hlast
    exact ⟨List.getLast?_concat, rfl⟩
  · rintro ⟨hbefore, rfl⟩
    obtain ⟨rest, rfl⟩ := List.getLast?_eq_some_iff.mp hbefore
    exact ⟨rest, List.append_cons rest before [last]⟩

theorem duration_snoc {run : List (Observation (Double r))} (h : run ≠ []) :
    duration (run ++ [o]) = duration run + o.tsDelta.val := by
  cases run with
  | nil => exact absurd rfl h
  | cons first run =>
      rw [List.cons_append, duration, duration, List.map_append, List.sum_append, List.map_singleton,
        List.sum_singleton, add_assoc]

variable [IsStrictOrderedRing K]

theorem duration_pos (hpos : ∀ o ∈ os, 0 < o.tsDelta.val) (h : currentRun os ≠ []) :
    0 < duration (currentRun os) := by
  have hsub : ∀ o ∈ currentRun os, 0 < o.tsDelta.val := fun o ho =>
    hpos o (List.rtakeWhile_suffix _ _ |>.subset ho)
  cases hrun : currentRun os with
  | nil => exact absurd hrun h
  | cons first run =>
      rw [hrun] at hsub
      have hfirst := hsub first List.mem_cons_self
      have hrest : 0 ≤ (run.map fun o => o.tsDelta.val).sum := by
        refine List.sum_nonneg ?_
        intro x hx
        obtain ⟨o, ho, rfl⟩ := List.mem_map.mp hx
        exact (hsub o (List.mem_cons_of_mem first ho)).le
      rw [duration]
      positivity

variable [FloorRing K]

/-- Until it fires in a run, the timer holds the duration of the run and the counter its
length. -/
theorem Tracks.elapsed (hr : r.IsExact) (hpos : ∀ p ∈ os, 0 < p.tsDelta.val) (h : Tracks os t)
    (habove : o.above = true) (hnot : t.hypothesis ≠ .kBwOverusing) :
    (t.elapsed o.tsDelta).val = duration (currentRun (os ++ [o])) ∧
      t.overuseCounter + 1 = (currentRun (os ++ [o])).length := by
  have hminus : (ofInt (-1) : Double r).val = -1 := by
    rw [val_ofInt, hr.rnd]
    push_cast
    rfl
  have htwo : (lit 2 : Double r).val = 2 := by
    rw [val_lit_exact hr]
    norm_num
  rw [currentRun_above habove, List.length_append, List.length_singleton]
  unfold OveruseTimer.elapsed
  by_cases hrun : currentRun os = []
  · obtain ⟨htimer, hcounter, -⟩ := h.idle hrun
    have hsentinel : eqv t.timeOverUsing (ofInt (-1)) := by
      have heq : t.timeOverUsing.val = (ofInt (-1) : Double r).val := htimer.trans hminus.symm
      exact ⟨heq.le, heq.ge⟩
    rw [if_pos hsentinel, val_div _ _ (by rw [htwo]; norm_num), htwo, hr.rnd, hrun, hcounter]
    exact ⟨(add_zero _).symm, rfl⟩
  · obtain ⟨htimer, hcounter⟩ := h.counting hrun hnot
    have hrunning := duration_pos hpos hrun
    have hsentinel : ¬ eqv t.timeOverUsing (ofInt (-1)) := by
      rintro ⟨hle, -⟩
      have hle : t.timeOverUsing.val ≤ (ofInt (-1) : Double r).val := hle
      rw [htimer, hminus] at hle
      linarith
    rw [if_neg hsentinel, val_add, hr.rnd, htimer, duration_snoc hrun, hcounter]
    exact ⟨rfl, by push_cast; rfl⟩

/-- The timer fires exactly when the observations say overuse. -/
theorem Tracks.fires_iff (hr : r.IsExact) (hpos : ∀ p ∈ os, 0 < p.tsDelta.val) (h : Tracks os t)
    (habove : o.above = true) (hnot : t.hypothesis ≠ .kBwOverusing) :
    t.Fires o ↔ Overuses (os ++ [o]) := by
  obtain ⟨htimer, hcounter⟩ := h.elapsed hr hpos habove hnot
  have hten : (lit kOverUsingTimeThreshold : Double r).val = 10 := by
    rw [val_lit_exact hr]
    norm_num [kOverUsingTimeThreshold]
  unfold Fires
  rw [lt_iff, hten, htimer, hcounter]
  constructor
  · rintro ⟨⟨hlong, htwice⟩, htrend⟩
    refine ⟨by omega, hlong, ?_⟩
    intro before last hsuffix
    obtain ⟨hbefore, rfl⟩ := pair_suffix_iff.mp hsuffix
    rw [h.prevTrend before hbefore] at htrend
    exact htrend
  · intro hover
    have htwice := hover.twice
    refine ⟨⟨hover.long, by omega⟩, ?_⟩
    -- a run of two has an observation before the last
    rw [currentRun_above habove, List.length_append, List.length_singleton] at htwice
    have hne : os ≠ [] := by
      rintro rfl
      simp [currentRun] at htwice
    obtain ⟨before, hbefore⟩ := Option.ne_none_iff_exists'.mp (mt List.getLast?_eq_none_iff.mp hne)
    rw [h.prevTrend before hbefore]
    exact hover.notFalling before o (pair_suffix_iff.mpr ⟨hbefore, rfl⟩)

theorem Tracks.observe (hr : r.IsExact) (hpos : ∀ p ∈ os, 0 < p.tsDelta.val) (h : Tracks os t) :
    Tracks (os ++ [o]) (t.observe o) := by
  have hprev : ∀ p ∈ (os ++ [o]).getLast?, (t.observe o).prevTrend = p.trend := by
    intro p hp
    rw [List.getLast?_concat] at hp
    cases hp
    unfold OveruseTimer.observe
    split_ifs <;> rfl
  by_cases habove : o.above = true
  · have hrun : currentRun (os ++ [o]) ≠ [] := by
      rw [currentRun_above habove]
      exact List.append_ne_nil_of_right_ne_nil _ (List.cons_ne_nil _ _)
    refine ⟨hprev, fun hnil => absurd hnil hrun, ?_⟩
    intro _ hnot
    by_cases hfires : t.Fires o
    · rw [observe_of_fires habove hfires] at hnot
      exact absurd rfl hnot
    · rw [observe_of_not_fires habove hfires] at hnot ⊢
      exact h.elapsed hr hpos habove hnot
  · refine ⟨hprev, ?_, fun hne => absurd (currentRun_not_above habove) hne⟩
    intro _
    refine ⟨?_, ?_, hypothesis_observe_not_above habove⟩
    · rw [OveruseTimer.observe, if_neg habove, val_ofInt, hr.rnd]
      push_cast
      rfl
    · rw [OveruseTimer.observe, if_neg habove]

/-- A timer that is not overusing becomes so exactly when the observations say so. -/
theorem Tracks.hypothesis_observe_iff (hr : r.IsExact) (hpos : ∀ p ∈ os, 0 < p.tsDelta.val)
    (h : Tracks os t) (hnot : t.hypothesis ≠ .kBwOverusing) :
    (t.observe o).hypothesis = .kBwOverusing ↔ Overuses (os ++ [o]) := by
  by_cases habove : o.above = true
  · rw [← h.fires_iff hr hpos habove hnot]
    by_cases hfires : t.Fires o
    · rw [observe_of_fires habove hfires]
      exact iff_of_true rfl hfires
    · rw [observe_of_not_fires habove hfires]
      exact iff_of_false hnot hfires
  · refine iff_of_false (hypothesis_observe_not_above habove) ?_
    intro hover
    have htwice := hover.twice
    rw [currentRun_not_above habove] at htwice
    exact absurd htwice (by simp)

end Exact
end OveruseTimer

namespace TrendlineEstimator

/-- The arguments of a call of UpdateTrendline that it reads. -/
structure DelayCall (F : Type) where
  recvDeltaMs : F
  sendDeltaMs : F
  arrivalTimeMs : Int

section Runs
variable {F : Type} [FloatArith F]

/-- The estimator as Detect finds it. -/
def smoothed (e : TrendlineEstimator F) (c : DelayCall F) : TrendlineEstimator F :=
  e.smooth c.recvDeltaMs c.sendDeltaMs c.arrivalTimeMs

/-- A call, and what Detect sees in it unless it is the first. -/
def watchCall (s : TrendlineEstimator F × List (Observation F)) (c : DelayCall F) :
    TrendlineEstimator F × List (Observation F) :=
  (s.1.updateTrendline c.recvDeltaMs c.sendDeltaMs c.arrivalTimeMs,
    if (s.1.smoothed c).numOfDeltas < 2 then s.2
    else s.2 ++ [(s.1.smoothed c).observation (s.1.smoothed c).windowTrend c.sendDeltaMs])

/-- A new estimator without a state predictor after calls, and what Detect saw in them. -/
def afterDelays (F : Type) [FloatArith F] (calls : List (DelayCall F)) :
    TrendlineEstimator F × List (Observation F) :=
  calls.foldl watchCall ({ networkStatePredictor := false }, [])

theorem afterDelays_snoc (calls : List (DelayCall F)) (c : DelayCall F) :
    afterDelays F (calls ++ [c]) = watchCall (afterDelays F calls) c :=
  List.foldl_concat _ _ _ _

end Runs

section Exact
variable {K : Type} [Field K] [LinearOrder K] [FloorRing K] {r : Rounding K}

/-- A run: the first call only sets the number of deltas. -/
structure Watched (s : TrendlineEstimator (Double r) × List (Observation (Double r))) : Prop where
  predictor : s.1.networkStatePredictor = false
  limit : s.1.overusingTimeThreshold = lit kOverUsingTimeThreshold
  counted : s.1.numOfDeltas = 0 ∧ s.2 = [] ∨ 1 ≤ s.1.numOfDeltas
  positive : ∀ o ∈ s.2, 0 < o.tsDelta.val
  tracks : OveruseTimer.Tracks s.2 s.1.overuseTimer
  threshold : 6 ≤ s.1.threshold.val ∧ s.1.threshold.val ≤ 600

variable {s : TrendlineEstimator (Double r) × List (Observation (Double r))}
  {c : DelayCall (Double r)}

/-- The first call sets the hypothesis to normal. -/
theorem overuseTimer_first (hfew : (s.1.smoothed c).numOfDeltas < 2) :
    (watchCall s c).1.overuseTimer = { s.1.overuseTimer with hypothesis := .kBwNormal } := by
  have hsmooth := s.1.overuseTimer_smooth c.recvDeltaMs c.sendDeltaMs c.arrivalTimeMs
  change (s.1.updateTrendline _ _ _).overuseTimer = _
  rw [updateTrendline_eq, detect_eq]
  unfold smoothed at hfew
  rw [if_pos hfew, ← hsmooth]
  rfl

/-- Every later call is an observation of the timer. -/
theorem overuseTimer_later (h : Watched s) (hmany : ¬ (s.1.smoothed c).numOfDeltas < 2) :
    ∃ o, o.tsDelta = c.sendDeltaMs ∧ (watchCall s c).2 = s.2 ++ [o] ∧
      (watchCall s c).1.overuseTimer = s.1.overuseTimer.observe o := by
  obtain ⟨-, hlimit, -⟩ := s.1.settings_smooth c.recvDeltaMs c.sendDeltaMs c.arrivalTimeMs
  refine ⟨(s.1.smoothed c).observation (s.1.smoothed c).windowTrend c.sendDeltaMs, rfl,
    if_neg hmany, ?_⟩
  have hdetect := (s.1.smoothed c).overuseTimer_detect (hlimit.trans h.limit) hmany
    (s.1.smoothed c).windowTrend c.sendDeltaMs c.arrivalTimeMs
  rw [smoothed, overuseTimer_smooth] at hdetect
  exact hdetect

/-- The first call has no observation and leaves the timer idle. -/
theorem Watched.first (h : Watched s) (hfew : (s.1.smoothed c).numOfDeltas < 2) :
    (watchCall s c).2 = [] ∧ 1 ≤ (s.1.smoothed c).numOfDeltas ∧
      OveruseTimer.Tracks [] (watchCall s c).1.overuseTimer := by
  have hnum := (s.1.settings_smooth c.recvDeltaMs c.sendDeltaMs c.arrivalTimeMs).1
  have hnone : s.1.numOfDeltas = 0 ∧ s.2 = [] := by
    rcases h.counted with hnone | hsome
    · exact hnone
    · rw [smoothed, hnum] at hfew
      unfold kDeltaCounterMax at hfew
      omega
  have hidle := h.tracks.idle (by rw [hnone.2]; rfl)
  refine ⟨(if_pos hfew).trans hnone.2, ?_, ?_⟩
  · rw [smoothed, hnum, hnone.1]
    decide
  · rw [overuseTimer_first hfew]
    refine ⟨?_, fun _ => ⟨hidle.1, hidle.2.1, BandwidthUsage.noConfusion⟩, fun hne => absurd rfl hne⟩
    intro o ho
    cases ho

theorem Watched.state_eq (h : Watched s) : s.1.state = s.1.overuseTimer.hypothesis := by
  unfold state
  rw [h.predictor]
  rfl

variable [IsStrictOrderedRing K] {e : TrendlineEstimator (Double r)}

/-- The threshold adapts within its bounds, whatever time has passed. -/
theorem threshold_updateThreshold (h : 6 ≤ e.threshold.val ∧ e.threshold.val ≤ 600)
    (modifiedTrend : Double r) (nowMs : Int) :
    6 ≤ (e.updateThreshold modifiedTrend nowMs).threshold.val ∧
      (e.updateThreshold modifiedTrend nowMs).threshold.val ≤ 600 := by
  have hlow : (narrow (lit 6) : Double r).val = 6 := by
    exact_mod_cast val_narrow_lit (r := r) (n := 6) (by norm_num)
  have hhigh : (narrow (lit 600) : Double r).val = 600 := by
    exact_mod_cast val_narrow_lit (r := r) (n := 600) (by norm_num)
  have hclamp : ∀ x : Double r, 6 ≤ (safeClamp x (narrow (lit 6)) (narrow (lit 600))).val ∧
      (safeClamp x (narrow (lit 6)) (narrow (lit 600))).val ≤ 600 := by
    intro x
    have hx := safeClamp_between x (narrow (lit 6)) (narrow (lit 600)) (by rw [hlow, hhigh]; norm_num)
    rwa [hlow, hhigh] at hx
  unfold updateThreshold
  by_cases hfirst : e.lastUpdateMs = -1
  · simp only [hfirst, if_true]
    split
    · exact h
    · exact hclamp _
  · simp only [hfirst, if_false]
    split
    · exact h
    · exact hclamp _

theorem threshold_detect (h : 6 ≤ e.threshold.val ∧ e.threshold.val ≤ 600) (trend tsDelta : Double r)
    (nowMs : Int) :
    6 ≤ (e.detect trend tsDelta nowMs).threshold.val ∧
      (e.detect trend tsDelta nowMs).threshold.val ≤ 600 := by
  rw [detect_eq]
  split_ifs
  · exact h
  · refine threshold_updateThreshold ?_ _ nowMs
    change 6 ≤ (e.judge trend tsDelta).threshold.val ∧ (e.judge trend tsDelta).threshold.val ≤ 600
    rw [threshold_judge]
    exact h

theorem watched_new (hr : r.IsExact) : Watched (r := r) ({ networkStatePredictor := false }, []) := by
  refine ⟨rfl, rfl, .inl ⟨rfl, rfl⟩, ?_, ⟨?_, ?_, fun h => absurd rfl h⟩, ?_⟩
  · intro o ho
    cases ho
  · intro o ho
    cases ho
  · intro _
    refine ⟨?_, rfl, BandwidthUsage.noConfusion⟩
    change (ofInt (-1) : Double r).val = -1
    rw [val_ofInt, hr.rnd]
    push_cast
    rfl
  · change 6 ≤ (lit 12.5 : Double r).val ∧ (lit 12.5 : Double r).val ≤ 600
    rw [val_lit_exact hr]
    norm_num

theorem Watched.step (hr : r.IsExact) (h : Watched s) (hc : 0 < c.sendDeltaMs.val) :
    Watched (watchCall s c) := by
  obtain ⟨-, hlimitKept, hpredictorKept, hthreshold⟩ :=
    s.1.settings_smooth c.recvDeltaMs c.sendDeltaMs c.arrivalTimeMs
  obtain ⟨hcount, hlimitSet, hpredictorSet⟩ := (s.1.smoothed c).settings_detect
    (s.1.smoothed c).windowTrend c.sendDeltaMs c.arrivalTimeMs
  have hpredictor := hpredictorSet.trans (hpredictorKept.trans h.predictor)
  have hbefore : 6 ≤ (s.1.smoothed c).threshold.val ∧ (s.1.smoothed c).threshold.val ≤ 600 := by
    rw [smoothed, hthreshold]
    exact h.threshold
  have hbounds := threshold_detect hbefore (s.1.smoothed c).windowTrend c.sendDeltaMs c.arrivalTimeMs
  have hlimit := hlimitSet.trans (hlimitKept.trans h.limit)
  by_cases hfew : (s.1.smoothed c).numOfDeltas < 2
  · obtain ⟨hnone, hone, htracks⟩ := h.first hfew
    refine ⟨hpredictor, hlimit, .inr (hone.trans hcount.ge), ?_, ?_, hbounds⟩
    · rw [hnone]
      intro o ho
      cases ho
    · rw [hnone]
      exact htracks
  · obtain ⟨o, hdelta, hobserved, htimer⟩ := overuseTimer_later h hfew
    refine ⟨hpredictor, hlimit, .inr ?_, ?_, ?_, hbounds⟩
    · exact (by omega : (1 : Int) ≤ (s.1.smoothed c).numOfDeltas).trans hcount.ge
    · rw [hobserved]
      intro p hp
      rcases List.mem_append.mp hp with hp | hp
      · exact h.positive p hp
      · rw [List.mem_singleton.mp hp, hdelta]
        exact hc
    · rw [hobserved, htimer]
      exact h.tracks.observe hr h.positive

theorem watched_afterDelays (hr : r.IsExact) {calls : List (DelayCall (Double r))}
    (hpos : ∀ c ∈ calls, 0 < c.sendDeltaMs.val) : Watched (afterDelays (Double r) calls) := by
  induction calls using List.reverseRecOn with
  | nil => exact watched_new hr
  | append_singleton calls c ih =>
      rw [afterDelays_snoc]
      exact (ih fun d hd => hpos d (List.mem_append_left _ hd)).step hr (hpos c (by simp))

/-- In every run the state becomes overusing exactly when the observations say so, it stays so
while they are above the threshold, and the threshold stays in its bounds. -/
theorem overuse_debounced (hr : r.IsExact) {calls : List (DelayCall (Double r))}
    {c : DelayCall (Double r)} (hpos : ∀ d ∈ calls ++ [c], 0 < d.sendDeltaMs.val) :
    ((afterDelays (Double r) calls).1.state ≠ .kBwOverusing →
      ((afterDelays (Double r) (calls ++ [c])).1.state = .kBwOverusing ↔
        OveruseTimer.Overuses (afterDelays (Double r) (calls ++ [c])).2)) ∧
    ((afterDelays (Double r) calls).1.state = .kBwOverusing →
      OveruseTimer.currentRun (afterDelays (Double r) (calls ++ [c])).2 ≠ [] →
      (afterDelays (Double r) (calls ++ [c])).1.state = .kBwOverusing) ∧
    6 ≤ (afterDelays (Double r) calls).1.threshold.val ∧
      (afterDelays (Double r) calls).1.threshold.val ≤ 600 := by
  have hbefore : Watched (afterDelays (Double r) calls) :=
    watched_afterDelays hr fun d hd => hpos d (List.mem_append_left _ hd)
  have hafter := watched_afterDelays hr hpos
  rw [hbefore.state_eq, hafter.state_eq, afterDelays_snoc]
  by_cases hfew : ((afterDelays (Double r) calls).1.smoothed c).numOfDeltas < 2
  · obtain ⟨hnone, -, -⟩ := hbefore.first hfew
    rw [hnone, overuseTimer_first hfew]
    refine ⟨fun _ => iff_of_false BandwidthUsage.noConfusion ?_, fun _ hne => absurd rfl hne,
      hbefore.threshold⟩
    intro hover
    exact absurd hover.twice (by simp [OveruseTimer.currentRun])
  · obtain ⟨o, -, hobserved, htimer⟩ := overuseTimer_later hbefore hfew
    rw [hobserved, htimer]
    refine ⟨hbefore.tracks.hypothesis_observe_iff hr hbefore.positive, ?_, hbefore.threshold⟩
    intro hover hrun
    have habove : o.above = true := by
      by_contra hnot
      exact hrun (OveruseTimer.currentRun_not_above hnot)
    exact OveruseTimer.hypothesis_observe_kept habove hover

end Exact

/-- Packets sent every 10 ms that arrive every 30 ms. -/
def growing (n : Nat) : DelayCall Rational where
  recvDeltaMs := lit 30
  sendDeltaMs := lit 10
  arrivalTimeMs := 1000 + 30 * n

/-- The window of 20 fills at the first trend above the threshold, and the second one fires. -/
theorem overuse_debounced_growing :
    (afterDelays Rational ((List.range 20).map growing)).1.state = .kBwNormal ∧
      OveruseTimer.Overuses (afterDelays Rational ((List.range 20).map growing ++ [growing 20])).2 := by
  have hnormal : (afterDelays Rational ((List.range 20).map growing)).1.state = .kBwNormal := by
    decide +kernel
  have hover : (afterDelays Rational ((List.range 20).map growing ++ [growing 20])).1.state =
      .kBwOverusing := by
    decide +kernel
  have hpositive : ∀ d ∈ (List.range 20).map growing ++ [growing 20], 0 < d.sendDeltaMs.val := by
    have hten : 0 < (lit 10 : Rational).val := by decide +kernel
    intro d hd
    rcases List.mem_append.mp hd with hd | hd
    · obtain ⟨n, -, rfl⟩ := List.mem_map.mp hd
      exact hten
    · rw [List.mem_singleton.mp hd]
      exact hten
  have hdebounced := overuse_debounced Rounding.exact_isExact hpositive
  refine ⟨hnormal, (hdebounced.1 ?_).mp hover⟩
  rw [hnormal]
  exact BandwidthUsage.noConfusion

end TrendlineEstimator
end ChromeGcc
