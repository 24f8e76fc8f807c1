import ChromeGcc.DelayBased.InterArrival

/-! The deltas between packet groups telescope: as long as the groups are not reset, their
sum is the difference between the latest completed group and the first. -/
namespace ChromeGcc
open UnitBase

theorem Timestamp.us_sub {a b : Timestamp} (ha : a.isFinite = true) (hb : b.isFinite = true) :
    (a - b : TimeDelta).us = a.us - b.us := by
  cases a with
  | minusInfinity => cases ha
  | plusInfinity => cases ha
  | finite a =>
      cases b with
      | minusInfinity => cases hb
      | plusInfinity => cases hb
      | finite b => rfl

theorem Timestamp.isFinite_max {a b : Timestamp} (ha : a.isFinite = true) (hb : b.isFinite = true) :
    (max a b).isFinite = true := by
  rcases le_total a b with h | h
  · rwa [max_eq_right h]
  · rwa [max_eq_left h]

/-- Both times of a group that its deltas are taken from. -/
structure SendTimeGroup.Stamped (g : SendTimeGroup) : Prop where
  sendTime : g.sendTime.isFinite = true
  completeTime : g.completeTime.isFinite = true

namespace InterArrivalDelta
variable {s : InterArrivalDelta} {sendTime arrivalTime systemTime : Timestamp} {packetSize : Nat}

/-- The packet makes ComputeDeltas call Reset. -/
def Resets (s : InterArrivalDelta) (sendTime arrivalTime : Timestamp) : Prop :=
  s.CompletesGroup arrivalTime sendTime ∧
    (s.ArrivalOffset ∨ s.groupDeltas.arrivalTimeDelta < .zero ∧
      s.numConsecutiveReorderedPackets + 1 ≥ kReorderedResetThreshold)

instance (arrivalTime sendTime : Timestamp) : Decidable (s.CompletesGroup arrivalTime sendTime) :=
  decidable_of_iff
    (¬ s.currentTimestampGroup.isFirstPacket = true ∧ ¬ s.currentTimestampGroup.firstSendTime > sendTime ∧
      s.newTimestampGroup arrivalTime sendTime = true ∧ s.prevTimestampGroup.completeTime.isFinite = true)
    ⟨fun h => ⟨h.1, h.2.1, h.2.2.1, h.2.2.2⟩,
      fun h => ⟨h.notFirst, h.notLate, h.newGroup, h.prevComplete⟩⟩

instance : Decidable s.ArrivalOffset := inferInstanceAs (Decidable (_ ≥ _))

instance (sendTime arrivalTime : Timestamp) : Decidable (s.Resets sendTime arrivalTime) :=
  inferInstanceAs (Decidable (_ ∧ _))

/-- The latest completed group, once there is one. -/
def completed (s : InterArrivalDelta) : Option SendTimeGroup :=
  if s.prevTimestampGroup.completeTime.isFinite then some s.prevTimestampGroup else none

/-- A packet that completes no group: the previous one stays, and there are no deltas. -/
structure Stays (s : InterArrivalDelta) (step : InterArrivalDelta × Option GroupDeltas) : Prop where
  prev : step.1.prevTimestampGroup = s.prevTimestampGroup
  deltas : step.2 = none

/-- A packet that completes the current group: the deltas are those from the previous group,
if there was one. -/
structure Completes (s : InterArrivalDelta) (step : InterArrivalDelta × Option GroupDeltas) :
    Prop where
  notFirst : ¬ s.currentTimestampGroup.isFirstPacket = true
  prev : step.1.prevTimestampGroup = s.currentTimestampGroup
  deltas : step.2 = s.completed.map fun _ => s.groupDeltas

/-- What a packet does to the current group. -/
structure Joins (s : InterArrivalDelta) (sendTime arrivalTime : Timestamp) (s' : InterArrivalDelta) :
    Prop where
  sendTime : s'.currentTimestampGroup.sendTime = sendTime ∨
    (¬ s.currentTimestampGroup.isFirstPacket = true ∧
      s'.currentTimestampGroup.sendTime = max s.currentTimestampGroup.sendTime sendTime)
  completeTime : s'.currentTimestampGroup.completeTime = arrivalTime

/-- Without Reset, ComputeDeltas completes a group or does not, and the packet joins a group
or is ignored as reordered. -/
theorem computeDeltas_cases (h : ¬ s.Resets sendTime arrivalTime) (systemTime : Timestamp)
    (packetSize : Nat) :
    (s.Stays (s.computeDeltas sendTime arrivalTime systemTime packetSize) ∧
        ((s.computeDeltas sendTime arrivalTime systemTime packetSize).1.currentTimestampGroup =
            s.currentTimestampGroup ∨
          s.Joins sendTime arrivalTime (s.computeDeltas sendTime arrivalTime systemTime packetSize).1)) ∨
      (s.Completes (s.computeDeltas sendTime arrivalTime systemTime packetSize) ∧
        s.Joins sendTime arrivalTime (s.computeDeltas sendTime arrivalTime systemTime packetSize).1) := by
  by_cases hfirst : s.currentTimestampGroup.isFirstPacket = true
  · rw [computeDeltas_first hfirst]
    exact .inl ⟨⟨rfl, rfl⟩, .inr ⟨.inl rfl, rfl⟩⟩
  by_cases hlate : s.currentTimestampGroup.firstSendTime > sendTime
  · rw [computeDeltas_late hfirst hlate]
    exact .inl ⟨⟨rfl, rfl⟩, .inl rfl⟩
  by_cases hnew : s.newTimestampGroup arrivalTime sendTime = true
  · by_cases hprev : s.prevTimestampGroup.completeTime.isFinite = true
    · have hgroup : s.CompletesGroup arrivalTime sendTime := ⟨hfirst, hlate, hnew, hprev⟩
      have hoff : ¬ s.ArrivalOffset := fun hoff => h ⟨hgroup, .inl hoff⟩
      by_cases hback : s.groupDeltas.arrivalTimeDelta < .zero
      · have hfew : ¬ s.numConsecutiveReorderedPackets + 1 ≥ kReorderedResetThreshold :=
          fun hmany => h ⟨hgroup, .inr ⟨hback, hmany⟩⟩
        rw [computeDeltas_reordered hgroup hoff hback, if_neg hfew]
        exact .inl ⟨⟨rfl, rfl⟩, .inl rfl⟩
      · rw [computeDeltas_deltas hgroup hoff hback]
        refine .inr ⟨⟨hfirst, rfl, ?_⟩, ⟨.inl rfl, rfl⟩⟩
        rw [completed, if_pos hprev]
        rfl
    · rw [computeDeltas_second hfirst hlate hnew hprev]
      refine .inr ⟨⟨hfirst, rfl, ?_⟩, ⟨.inl rfl, rfl⟩⟩
      rw [completed, if_neg hprev]
      rfl
  · rw [computeDeltas_same hfirst hlate hnew]
    exact .inl ⟨⟨rfl, rfl⟩, .inr ⟨.inr ⟨hfirst, rfl⟩, rfl⟩⟩

/-- The deltas so far lead from the first completed group to the latest one. -/
structure Telescopes (first : Option SendTimeGroup) (deltas : List GroupDeltas)
    (s : InterArrivalDelta) : Prop where
  current : s.currentTimestampGroup.isFirstPacket = true ∨ s.currentTimestampGroup.Stamped
  prev : ∀ g ∈ s.completed, g.Stamped
  none_iff : first = none ↔ s.completed = none
  start : first = none → deltas = []
  sendTime : ∀ g ∈ first, ∀ last ∈ s.completed,
    (deltas.map fun d => d.sendTimeDelta.us).sum = last.sendTime.us - g.sendTime.us
  arrivalTime : ∀ g ∈ first, ∀ last ∈ s.completed,
    (deltas.map fun d => d.arrivalTimeDelta.us).sum = last.completeTime.us - g.completeTime.us

theorem telescopes_fresh (length : TimeDelta) : Telescopes none [] { sendTimeGroupLength := length } where
  current := .inl rfl
  prev g hg := by cases hg
  none_iff := ⟨fun _ => rfl, fun _ => rfl⟩
  start _ := rfl
  sendTime g hg := by cases hg
  arrivalTime g hg := by cases hg

theorem completed_eq_some {g : SendTimeGroup} :
    s.completed = some g ↔
      s.prevTimestampGroup.completeTime.isFinite = true ∧ s.prevTimestampGroup = g := by
  unfold completed
  split_ifs with h
  · simp [h]
  · simp [h]

theorem Joins.stamped {s' : InterArrivalDelta} (h : s.Joins sendTime arrivalTime s')
    (hcurrent : s.currentTimestampGroup.isFirstPacket = true ∨ s.currentTimestampGroup.Stamped)
    (hs : sendTime.isFinite = true) (ha : arrivalTime.isFinite = true) :
    s'.currentTimestampGroup.Stamped := by
  constructor
  case completeTime =>
    rw [h.completeTime]
    exact ha
  case sendTime =>
    rcases h.sendTime with hsend | ⟨hnot, hsend⟩
    · rw [hsend]
      exact hs
    · rw [hsend]
      exact Timestamp.isFinite_max (hcurrent.resolve_left hnot).sendTime hs

theorem Stays.completed_eq {step : InterArrivalDelta × Option GroupDeltas} (h : s.Stays step) :
    step.1.completed = s.completed := by
  rw [completed, h.prev]
  rfl

theorem Completes.completed_eq {step : InterArrivalDelta × Option GroupDeltas} (h : s.Completes step)
    (hstamped : s.currentTimestampGroup.Stamped) :
    step.1.completed = some s.currentTimestampGroup :=
  completed_eq_some.mpr ⟨by rw [h.prev]; exact hstamped.completeTime, h.prev⟩

theorem Telescopes.first_or {first : Option SendTimeGroup} {deltas : List GroupDeltas}
    (h : Telescopes first deltas s) : first.or s.completed = first := by
  cases hf : first with
  | none => rw [h.none_iff.mp hf, Option.or_none]
  | some g => rfl

/-- A packet that completes no group leaves the sums as they are. -/
theorem Telescopes.stays {first : Option SendTimeGroup} {deltas : List GroupDeltas}
    (h : Telescopes first deltas s) {step : InterArrivalDelta × Option GroupDeltas}
    (hstays : s.Stays step)
    (hcurrent : step.1.currentTimestampGroup.isFirstPacket = true ∨
      step.1.currentTimestampGroup.Stamped) :
    Telescopes (first.or step.1.completed) (deltas ++ step.2.toList) step.1 := by
  have hcompleted := hstays.completed_eq
  rw [hcompleted, h.first_or, hstays.deltas, Option.toList_none, List.append_nil]
  constructor
  case current => exact hcurrent
  case start => exact h.start
  case prev =>
    rw [hcompleted]
    exact h.prev
  case none_iff =>
    rw [hcompleted]
    exact h.none_iff
  case sendTime =>
    rw [hcompleted]
    exact h.sendTime
  case arrivalTime =>
    rw [hcompleted]
    exact h.arrivalTime

/-- A sum of deltas that leads to the previous group leads to the completed one, whatever
number of a group the deltas are the differences of. -/
theorem Telescopes.sum_completes {first : Option SendTimeGroup} {deltas : List GroupDeltas}
    (h : Telescopes first deltas s) {step : InterArrivalDelta × Option GroupDeltas}
    (hcompletes : s.Completes step) (value : SendTimeGroup → Int) (delta : GroupDeltas → Int)
    (hdelta : ∀ last ∈ s.completed, delta s.groupDeltas = value s.currentTimestampGroup - value last)
    (hsum : ∀ g ∈ first, ∀ last ∈ s.completed, (deltas.map delta).sum = value last - value g) :
    ∀ g ∈ first.or (some s.currentTimestampGroup),
      ((deltas ++ step.2.toList).map delta).sum = value s.currentTimestampGroup - value g := by
  intro g hg
  cases hfirst : first with
  | none =>
      -- the first group of all: no deltas yet, and none from this packet
      rw [hfirst, Option.none_or] at hg
      cases hg
      rw [h.start hfirst, hcompletes.deltas, h.none_iff.mp hfirst]
      simp
  | some first =>
      rw [hfirst, Option.some_or] at hg
      cases hg
      obtain ⟨last, hlast⟩ : ∃ last, s.completed = some last := by
        cases hc : s.completed with
        | none =>
            rw [h.none_iff.mpr hc] at hfirst
            cases hfirst
        | some last => exact ⟨last, rfl⟩
      rw [hcompletes.deltas, hlast, List.map_append, List.sum_append, hsum g hfirst last hlast]
      simp only [Option.map_some, Option.toList_some, List.map_cons, List.map_nil, List.sum_cons,
        List.sum_nil, hdelta last hlast]
      omega

/-- A packet that completes a group adds the step from the previous group to it. -/
theorem Telescopes.completes {first : Option SendTimeGroup} {deltas : List GroupDeltas}
    (h : Telescopes first deltas s) {step : InterArrivalDelta × Option GroupDeltas}
    (hcompletes : s.Completes step) (hcurrent : step.1.currentTimestampGroup.Stamped) :
    Telescopes (first.or step.1.completed) (deltas ++ step.2.toList) step.1 := by
  have hstamped := h.current.resolve_left hcompletes.notFirst
  have hcompleted := hcompletes.completed_eq hstamped
  have hsome : first.or (some s.currentTimestampGroup) ≠ none := by
    cases first <;> simp
  rw [hcompleted]
  constructor
  case current => exact .inr hcurrent
  case none_iff => simp [hcompleted]
  case start => exact fun hnone => absurd hnone hsome
  case prev =>
    intro g hg
    rw [hcompleted] at hg
    cases hg
    exact hstamped
  case sendTime =>
    intro g hg last hlast
    rw [hcompleted] at hlast
    cases hlast
    refine h.sum_completes hcompletes (fun g => g.sendTime.us) _ ?_ h.sendTime g hg
    intro last hlast
    have hbefore := h.prev last hlast
    obtain ⟨-, rfl⟩ := completed_eq_some.mp hlast
    exact Timestamp.us_sub hstamped.sendTime hbefore.sendTime
  case arrivalTime =>
    intro g hg last hlast
    rw [hcompleted] at hlast
    cases hlast
    refine h.sum_completes hcompletes (fun g => g.completeTime.us) _ ?_ h.arrivalTime g hg
    intro last hlast
    have hbefore := h.prev last hlast
    obtain ⟨-, rfl⟩ := completed_eq_some.mp hlast
    exact Timestamp.us_sub hstamped.completeTime hbefore.completeTime

/-- Every packet with finite times keeps the sums, unless it makes ComputeDeltas reset. -/
theorem Telescopes.step {first : Option SendTimeGroup} {deltas : List GroupDeltas}
    (h : Telescopes first deltas s) (hr : ¬ s.Resets sendTime arrivalTime)
    (hs : sendTime.isFinite = true) (ha : arrivalTime.isFinite = true) (systemTime : Timestamp)
    (packetSize : Nat) :
    Telescopes (first.or (s.computeDeltas sendTime arrivalTime systemTime packetSize).1.completed)
      (deltas ++ (s.computeDeltas sendTime arrivalTime systemTime packetSize).2.toList)
      (s.computeDeltas sendTime arrivalTime systemTime packetSize).1 := by
  rcases computeDeltas_cases hr systemTime packetSize with ⟨hstays, hsame | hjoins⟩ | ⟨hcompletes, hjoins⟩
  · refine h.stays hstays ?_
    rw [hsame]
    exact h.current
  · exact h.stays hstays (.inr (hjoins.stamped h.current hs ha))
  · exact h.completes hcompletes (hjoins.stamped h.current hs ha)

end InterArrivalDelta
end ChromeGcc
