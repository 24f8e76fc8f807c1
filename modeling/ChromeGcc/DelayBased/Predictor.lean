import ChromeGcc.DelayBased.Trendline

/-! The detector built over memory with earlier contents. The constructor leaves the pointer
to the state predictor as it finds it, and the state is read through that pointer. -/
namespace ChromeGcc
open FloatArith

/-- The inputs of a call of Update that it reads. -/
structure TrendlineUpdate (F : Type) where
  recvDeltaMs : F
  sendDeltaMs : F
  arrivalTimeMs : Int
  calculatedDeltas : Bool

namespace TrendlineEstimator

section Doubles
variable {F : Type} [FloatArith F]

/-- The constructor over memory that holds a given word in the place of
network_state_predictor_. It sets every other field. -/
def construct (F : Type) [FloatArith F] (memoryWord : Nat) : TrendlineEstimator F :=
  { networkStatePredictor := decide (memoryWord ≠ 0) }

def afterUpdates (e : TrendlineEstimator F) (updates : List (TrendlineUpdate F)) :
    TrendlineEstimator F :=
  updates.foldl
    (fun e u => e.update u.recvDeltaMs u.sendDeltaMs u.arrivalTimeMs u.calculatedDeltas) e

/-- After the same updates the estimators over two memories have the same state, and it is
the hypothesis of each. -/
structure StatesAgree (memoryWord memoryWord' : Nat) (updates : List (TrendlineUpdate F)) : Prop where
  same : ((construct F memoryWord).afterUpdates updates).state =
    ((construct F memoryWord').afterUpdates updates).state
  first : ((construct F memoryWord).afterUpdates updates).state =
    ((construct F memoryWord).afterUpdates updates).hypothesis
  second : ((construct F memoryWord').afterUpdates updates).state =
    ((construct F memoryWord').afterUpdates updates).hypothesis

/-! No update reads or writes the pointer and the predicted hypothesis. -/

/-- The estimator with other values of the two fields. -/
def withPredictor (e : TrendlineEstimator F) (b : Bool) (predicted : BandwidthUsage) :
    TrendlineEstimator F :=
  { e with networkStatePredictor := b, hypothesisPredicted := predicted }

section Fields
variable (e : TrendlineEstimator F) (b : Bool) (h : BandwidthUsage)

theorem state_withPredictor :
    (e.withPredictor b h).state = if b then h else e.hypothesis := rfl

theorem withPredictor_updateThreshold (modifiedTrend : F) (nowMs : Int) :
    (e.withPredictor b h).updateThreshold modifiedTrend nowMs =
      (e.updateThreshold modifiedTrend nowMs).withPredictor b h := by
  unfold updateThreshold
  by_cases hfirst : e.lastUpdateMs = -1
  · simp only [withPredictor, hfirst, if_true]
    split <;> rfl
  · simp only [withPredictor, hfirst, if_false]
    split <;> rfl

theorem withPredictor_countOveruse (trend tsDelta : F) :
    (e.withPredictor b h).countOveruse trend tsDelta =
      (e.countOveruse trend tsDelta).withPredictor b h := by
  unfold countOveruse
  by_cases htimer : eqv e.timeOverUsing (ofInt (-1))
  · simp only [withPredictor, htimer, if_true]
    split_ifs <;> rfl
  · simp only [withPredictor, htimer, if_false]
    split_ifs <;> rfl

/-- Detect before the last trend is stored and the threshold adapted. -/
def judge (e : TrendlineEstimator F) (trend tsDelta : F) : TrendlineEstimator F :=
  if e.threshold < e.modifiedTrend trend then e.countOveruse trend tsDelta
  else if e.modifiedTrend trend < -e.threshold then
    { e with timeOverUsing := ofInt (-1), overuseCounter := 0, hypothesis := .kBwUnderusing }
  else { e with timeOverUsing := ofInt (-1), overuseCounter := 0, hypothesis := .kBwNormal }

theorem detect_eq (trend tsDelta : F) (nowMs : Int) :
    e.detect trend tsDelta nowMs =
      if e.numOfDeltas < 2 then { e with hypothesis := .kBwNormal }
      else { e.judge trend tsDelta with prevTrend := trend }.updateThreshold (e.modifiedTrend trend)
        nowMs := rfl

/-! The members that Detect and its parts write. -/

theorem updateThreshold_writes (modifiedTrend : F) (nowMs : Int) :
    ∃ threshold lastUpdateMs, e.updateThreshold modifiedTrend nowMs =
      { e with threshold := threshold, lastUpdateMs := lastUpdateMs } := by
  unfold updateThreshold
  by_cases hfirst : e.lastUpdateMs = -1
  · simp only [hfirst, if_true]
    split <;> exact ⟨_, _, rfl⟩
  · simp only [hfirst, if_false]
    split <;> exact ⟨_, _, rfl⟩

theorem judge_writes (trend tsDelta : F) :
    ∃ timeOverUsing overuseCounter hypothesis, e.judge trend tsDelta =
      { e with
        timeOverUsing := timeOverUsing
        overuseCounter := overuseCounter
        hypothesis := hypothesis } := by
  unfold judge countOveruse
  dsimp only
  split_ifs <;> exact ⟨_, _, _, rfl⟩

theorem detect_writes (trend tsDelta : F) (nowMs : Int) :
    ∃ timeOverUsing overuseCounter hypothesis prevTrend threshold lastUpdateMs,
      e.detect trend tsDelta nowMs =
        { e with
          timeOverUsing := timeOverUsing
          overuseCounter := overuseCounter
          hypothesis := hypothesis
          prevTrend := prevTrend
          threshold := threshold
          lastUpdateMs := lastUpdateMs } := by
  rw [detect_eq]
  by_cases hfew : e.numOfDeltas < 2
  · rw [if_pos hfew]
    exact ⟨_, _, _, _, _, _, rfl⟩
  · obtain ⟨timer, counter, hypothesis, hjudge⟩ := e.judge_writes trend tsDelta
    obtain ⟨threshold, lastUpdateMs, hthreshold⟩ := updateThreshold_writes
      { e.judge trend tsDelta with prevTrend := trend } (e.modifiedTrend trend) nowMs
    rw [if_neg hfew, hthreshold, hjudge]
    exact ⟨_, _, _, _, _, _, rfl⟩

theorem withPredictor_judge (trend tsDelta : F) :
    (e.withPredictor b h).judge trend tsDelta = (e.judge trend tsDelta).withPredictor b h := by
  have htrend : (e.withPredictor b h).modifiedTrend trend = e.modifiedTrend trend := rfl
  have hthreshold : (e.withPredictor b h).threshold = e.threshold := rfl
  unfold judge
  rw [htrend, hthreshold, withPredictor_countOveruse]
  split_ifs <;> rfl

theorem withPredictor_detect (trend tsDelta : F) (nowMs : Int) :
    (e.withPredictor b h).detect trend tsDelta nowMs =
      (e.detect trend tsDelta nowMs).withPredictor b h := by
  have hcount : (e.withPredictor b h).numOfDeltas = e.numOfDeltas := rfl
  rw [detect_eq, detect_eq, hcount, withPredictor_judge]
  split_ifs with hfew
  · rfl
  · exact withPredictor_updateThreshold { e.judge trend tsDelta with prevTrend := trend } b h _ _

/-- UpdateTrendline up to its call of Detect. -/
def smooth (e : TrendlineEstimator F) (recvDeltaMs sendDeltaMs : F) (arrivalTimeMs : Int) :
    TrendlineEstimator F :=
  let e := { e with numOfDeltas := min (e.numOfDeltas + 1) kDeltaCounterMax }
  let e := if e.firstArrivalTimeMs = -1 then { e with firstArrivalTimeMs := arrivalTimeMs } else e
  let e := { e with accumulatedDelay := e.accumulatedDelay + (recvDeltaMs - sendDeltaMs) }
  let e := { e with
    smoothedDelay := e.smoothingCoef * e.smoothedDelay +
      (lit 1 - e.smoothingCoef) * e.accumulatedDelay }
  let hist := e.extendHist
    { arrivalTimeMs := ofInt (arrivalTimeMs - e.firstArrivalTimeMs)
      smoothedDelayMs := e.smoothedDelay
      rawDelayMs := e.accumulatedDelay }
  { e with delayHist := if hist.length > e.settings.windowSize then hist.tail else hist }

theorem updateTrendline_eq (recvDeltaMs sendDeltaMs : F) (arrivalTimeMs : Int) :
    e.updateTrendline recvDeltaMs sendDeltaMs arrivalTimeMs =
      (e.smooth recvDeltaMs sendDeltaMs arrivalTimeMs).detect
        (e.smooth recvDeltaMs sendDeltaMs arrivalTimeMs).windowTrend sendDeltaMs arrivalTimeMs := rfl

theorem withPredictor_smooth (recvDeltaMs sendDeltaMs : F) (arrivalTimeMs : Int) :
    (e.withPredictor b h).smooth recvDeltaMs sendDeltaMs arrivalTimeMs =
      (e.smooth recvDeltaMs sendDeltaMs arrivalTimeMs).withPredictor b h := by
  unfold smooth
  by_cases hfirst : e.firstArrivalTimeMs = -1
  · simp only [withPredictor, hfirst, if_true]
    rfl
  · simp only [withPredictor, hfirst, if_false]
    rfl

theorem withPredictor_update (recvDeltaMs sendDeltaMs : F) (arrivalTimeMs : Int)
    (calculatedDeltas : Bool) :
    (e.withPredictor b h).update recvDeltaMs sendDeltaMs arrivalTimeMs calculatedDeltas =
      (e.update recvDeltaMs sendDeltaMs arrivalTimeMs calculatedDeltas).withPredictor b h := by
  cases calculatedDeltas with
  | false => rfl
  | true =>
      change (e.withPredictor b h).updateTrendline _ _ _ = (e.updateTrendline _ _ _).withPredictor b h
      rw [updateTrendline_eq, updateTrendline_eq, withPredictor_smooth]
      exact withPredictor_detect _ b h _ _ _

theorem withPredictor_afterUpdates (updates : List (TrendlineUpdate F)) :
    (e.withPredictor b h).afterUpdates updates = (e.afterUpdates updates).withPredictor b h := by
  induction updates generalizing e with
  | nil => rfl
  | cons u updates ih =>
      have hstep := withPredictor_update e b h u.recvDeltaMs u.sendDeltaMs u.arrivalTimeMs
        u.calculatedDeltas
      unfold afterUpdates at ih ⊢
      rw [List.foldl_cons, List.foldl_cons, hstep]
      exact ih _

end Fields

/-- Over null memory the state is the hypothesis; over any other word it never leaves
kBwNormal. -/
theorem state_afterUpdates (memoryWord : Nat) (updates : List (TrendlineUpdate F)) :
    ((construct F memoryWord).afterUpdates updates).state =
      if memoryWord = 0 then ((construct F 0).afterUpdates updates).hypothesis else .kBwNormal := by
  have hbuild : construct F memoryWord =
      (construct F 0).withPredictor (decide (memoryWord ≠ 0)) .kBwNormal := rfl
  rw [hbuild, withPredictor_afterUpdates, state_withPredictor]
  by_cases hnull : memoryWord = 0
  · rw [if_pos hnull, if_neg (by simp [hnull])]
  · rw [if_neg hnull, if_pos (by simp [hnull])]

/-- The hypothesis does not depend on the memory. -/
theorem hypothesis_afterUpdates (memoryWord : Nat) (updates : List (TrendlineUpdate F)) :
    ((construct F memoryWord).afterUpdates updates).hypothesis =
      ((construct F 0).afterUpdates updates).hypothesis := by
  have hbuild : construct F memoryWord =
      (construct F 0).withPredictor (decide (memoryWord ≠ 0)) .kBwNormal := rfl
  rw [hbuild, withPredictor_afterUpdates]
  rfl

theorem statesAgree_of_null (updates : List (TrendlineUpdate F)) : StatesAgree 0 0 updates := by
  have hstate : ((construct F 0).afterUpdates updates).state =
      ((construct F 0).afterUpdates updates).hypothesis := by
    rw [state_afterUpdates, if_pos rfl]
  exact ⟨rfl, hstate, hstate⟩

/-- Over a word that is not null the states agree only while the hypothesis is kBwNormal. -/
theorem StatesAgree.null_or_normal {memoryWord memoryWord' : Nat} {updates : List (TrendlineUpdate F)}
    (h : StatesAgree memoryWord memoryWord' updates) :
    (memoryWord = 0 ∧ memoryWord' = 0) ∨
      ((construct F 0).afterUpdates updates).hypothesis = .kBwNormal := by
  have hfirst := h.first
  have hsecond := h.second
  rw [state_afterUpdates, hypothesis_afterUpdates memoryWord] at hfirst
  rw [state_afterUpdates, hypothesis_afterUpdates memoryWord'] at hsecond
  by_cases hnull : memoryWord = 0
  · by_cases hnull' : memoryWord' = 0
    · exact .inl ⟨hnull, hnull'⟩
    · rw [if_neg hnull'] at hsecond
      exact .inr hsecond.symm
  · rw [if_neg hnull] at hfirst
    exact .inr hfirst.symm

end Doubles

/-- Groups that arrive ten milliseconds apart and were sent five milliseconds apart. -/
def overusedLink (n : Nat) : List (TrendlineUpdate Rational) :=
  (List.range n).map fun i => ⟨ofInt 10, ofInt 5, 10 * (i + 1), true⟩

theorem overusedLink_hypothesis :
    ((construct Rational 0).afterUpdates (overusedLink 22)).hypothesis = .kBwOverusing := by
  decide +kernel

/-- The state is a function of the updates, in any arithmetic, if both memories hold null in
the place of the pointer; and in exact arithmetic only then. -/
theorem states_agree_iff_null (memoryWord memoryWord' : Nat) :
    (memoryWord = 0 ∧ memoryWord' = 0 →
      ∀ (F : Type) [FloatArith F] (updates : List (TrendlineUpdate F)),
        StatesAgree memoryWord memoryWord' updates) ∧
    ((∀ updates : List (TrendlineUpdate Rational), StatesAgree memoryWord memoryWord' updates) →
      memoryWord = 0 ∧ memoryWord' = 0) := by
  constructor
  · rintro ⟨rfl, rfl⟩ F _ updates
    exact statesAgree_of_null updates
  · intro hall
    refine (hall (overusedLink 22)).null_or_normal.resolve_right ?_
    rw [overusedLink_hypothesis]
    decide

/-- Over memory that is not null the same updates leave an overused link unnoticed. -/
theorem overuse_masked_by_memory :
    ((construct Rational 0).afterUpdates (overusedLink 22)).state = .kBwOverusing ∧
      ((construct Rational 1).afterUpdates (overusedLink 22)).state = .kBwNormal ∧
      ¬ StatesAgree 0 1 (overusedLink 22) := by
  have hnull : ((construct Rational 0).afterUpdates (overusedLink 22)).state = .kBwOverusing := by
    rw [state_afterUpdates, if_pos rfl, overusedLink_hypothesis]
  have hother : ((construct Rational 1).afterUpdates (overusedLink 22)).state = .kBwNormal := by
    rw [state_afterUpdates, if_neg (by decide)]
  refine ⟨hnull, hother, ?_⟩
  intro h
  have hsame := h.same
  rw [hnull, hother] at hsame
  cases hsame

end TrendlineEstimator
end ChromeGcc
