import ChromeGcc.DelayBased.Telescope

/-! Runs of ComputeDeltas, and what one call can do. -/
namespace ChromeGcc

/-- The arguments of one call of ComputeDeltas. -/
structure TimedPacket where
  sendTime : Timestamp
  arrivalTime : Timestamp
  systemTime : Timestamp
  size : Nat := 0
  deriving DecidableEq, Repr

/-- A packet whose times are all known. -/
structure TimedPacket.Finite (p : TimedPacket) : Prop where
  sendTime : p.sendTime.isFinite = true
  arrivalTime : p.arrivalTime.isFinite = true
  systemTime : p.systemTime.isFinite = true

instance (p : TimedPacket) : Decidable p.Finite :=
  decidable_of_iff
    (p.sendTime.isFinite = true ∧ p.arrivalTime.isFinite = true ∧ p.systemTime.isFinite = true)
    ⟨fun h => ⟨h.1, h.2.1, h.2.2⟩, fun h => ⟨h.sendTime, h.arrivalTime, h.systemTime⟩⟩

theorem SendTimeGroup.isFirstPacket_eq_false_iff {g : SendTimeGroup} :
    g.isFirstPacket = false ↔ g.completeTime.isFinite = true := by
  unfold SendTimeGroup.isFirstPacket UnitBase.isInfinite
  rw [Bool.not_eq_false']

namespace InterArrivalDelta
variable {s : InterArrivalDelta} {p : TimedPacket}

/-- A new object with the group length that DelayBasedBwe passes. -/
def fresh : InterArrivalDelta where
  sendTimeGroupLength := .millis 5

def see (s : InterArrivalDelta) (p : TimedPacket) : InterArrivalDelta × Option GroupDeltas :=
  s.computeDeltas p.sendTime p.arrivalTime p.systemTime p.size

def afterPackets (s : InterArrivalDelta) (ps : List TimedPacket) : InterArrivalDelta :=
  ps.foldl (fun s p => (s.see p).1) s

theorem afterPackets_snoc (s : InterArrivalDelta) (ps : List TimedPacket) (p : TimedPacket) :
    s.afterPackets (ps ++ [p]) = ((s.afterPackets ps).see p).1 :=
  List.foldl_concat _ _ _ _

/-- The packet is the first of all in a group that nothing was known of. -/
def started (s : InterArrivalDelta) (p : TimedPacket) : InterArrivalDelta :=
  { s with
    currentTimestampGroup := { s.currentTimestampGroup with
      sendTime := p.sendTime
      firstSendTime := p.sendTime
      firstArrival := p.arrivalTime } }.accumulate p.arrivalTime p.systemTime p.size

/-- The packet joins the current group. -/
def joined (s : InterArrivalDelta) (p : TimedPacket) : InterArrivalDelta :=
  { s with
    currentTimestampGroup := { s.currentTimestampGroup with
      sendTime := max s.currentTimestampGroup.sendTime p.sendTime } }.accumulate
        p.arrivalTime p.systemTime p.size

/-- The packet opens a group, and the current one becomes the previous. -/
def opened (s : InterArrivalDelta) (p : TimedPacket) : InterArrivalDelta :=
  (s.openGroup p.sendTime p.arrivalTime).accumulate p.arrivalTime p.systemTime p.size

/-- The packet was sent before the current group. -/
def Late (s : InterArrivalDelta) (p : TimedPacket) : Prop :=
  s.currentTimestampGroup.isFirstPacket = false ∧ s.currentTimestampGroup.firstSendTime > p.sendTime

instance : Decidable (s.Late p) := inferInstanceAs (Decidable (_ ∧ _))

/-- The packet is the first of a later group than the current one. -/
def Opens (s : InterArrivalDelta) (p : TimedPacket) : Prop :=
  s.currentTimestampGroup.isFirstPacket = false ∧ ¬ s.Late p ∧
    s.newTimestampGroup p.arrivalTime p.sendTime = true

instance : Decidable (s.Opens p) := inferInstanceAs (Decidable (_ ∧ _))

/-- The ways of ComputeDeltas. -/
inductive Way (s : InterArrivalDelta) (p : TimedPacket) : InterArrivalDelta × Option GroupDeltas → Prop
  | starts : s.currentTimestampGroup.isFirstPacket = true → Way s p (s.started p, none)
  | late : s.Late p → Way s p (s, none)
  | joins : s.currentTimestampGroup.isFirstPacket = false → ¬ s.Late p → ¬ s.Opens p →
      Way s p (s.joined p, none)
  | second : s.Opens p → s.prevTimestampGroup.completeTime.isFinite = false →
      Way s p (s.opened p, none)
  | resets : s.Opens p → s.prevTimestampGroup.completeTime.isFinite = true →
      s.Resets p.sendTime p.arrivalTime → Way s p (s.reset, none)
  | counts : s.Opens p → s.prevTimestampGroup.completeTime.isFinite = true → ¬ s.ArrivalOffset →
      s.groupDeltas.arrivalTimeDelta < .zero →
      s.numConsecutiveReorderedPackets + 1 < kReorderedResetThreshold →
      Way s p ({ s with numConsecutiveReorderedPackets := s.numConsecutiveReorderedPackets + 1 }, none)
  | deltas : s.Opens p → s.prevTimestampGroup.completeTime.isFinite = true → ¬ s.ArrivalOffset →
      ¬ s.groupDeltas.arrivalTimeDelta < .zero →
      Way s p ({ s with numConsecutiveReorderedPackets := 0 }.opened p, some s.groupDeltas)

theorem completesGroup_iff :
    s.CompletesGroup p.arrivalTime p.sendTime ↔
      s.Opens p ∧ s.prevTimestampGroup.completeTime.isFinite = true := by
  unfold Opens Late
  constructor
  · intro h
    have hnot := Bool.eq_false_iff.mpr h.notFirst
    exact ⟨⟨hnot, fun hlate => h.notLate hlate.2, h.newGroup⟩, h.prevComplete⟩
  · rintro ⟨⟨hnot, hlate, hnew⟩, hprev⟩
    exact ⟨Bool.eq_false_iff.mp hnot, fun h => hlate ⟨hnot, h⟩, hnew, hprev⟩

/-- Every call takes one of the ways. -/
theorem way_see (s : InterArrivalDelta) (p : TimedPacket) : s.Way p (s.see p) := by
  unfold see
  by_cases hfirst : s.currentTimestampGroup.isFirstPacket = true
  · rw [computeDeltas_first hfirst]
    exact .starts hfirst
  have hnot := Bool.eq_false_iff.mpr hfirst
  by_cases hlate : s.currentTimestampGroup.firstSendTime > p.sendTime
  · rw [computeDeltas_late hfirst hlate]
    exact .late ⟨hnot, hlate⟩
  have hlate' : ¬ s.Late p := fun h => hlate h.2
  by_cases hnew : s.newTimestampGroup p.arrivalTime p.sendTime = true
  · have hopens : s.Opens p := ⟨hnot, hlate', hnew⟩
    by_cases hprev : s.prevTimestampGroup.completeTime.isFinite = true
    · have hgroup : s.CompletesGroup p.arrivalTime p.sendTime := completesGroup_iff.mpr ⟨hopens, hprev⟩
      by_cases hoff : s.ArrivalOffset
      · rw [computeDeltas_offset hgroup hoff]
        exact .resets hopens hprev ⟨hgroup, .inl hoff⟩
      by_cases hback : s.groupDeltas.arrivalTimeDelta < .zero
      · rw [computeDeltas_reordered hgroup hoff hback]
        split_ifs with hmany
        · exact .resets hopens hprev ⟨hgroup, .inr ⟨hback, hmany⟩⟩
        · exact .counts hopens hprev hoff hback (not_le.mp hmany)
      · rw [computeDeltas_deltas hgroup hoff hback]
        exact .deltas hopens hprev hoff hback
    · rw [computeDeltas_second hfirst hlate hnew hprev]
      exact .second hopens (Bool.eq_false_iff.mpr hprev)
  · rw [computeDeltas_same hfirst hlate hnew]
    exact .joins hnot hlate' fun h => hnew h.2.2

end InterArrivalDelta
end ChromeGcc
