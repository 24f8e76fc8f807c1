import ChromeGcc.Base.Trace
import ChromeGcc.DelayBased.Packets

/-! Recovery from clock jumps. Each way of giving up on a packet, but one, brings the object
nearer to a report of deltas; a packet sent before the current group brings it no nearer. -/
namespace ChromeGcc

/-- A packet whose arrival time is read from the system clock, in microseconds. -/
structure ClockedPacket where
  sendUs : Int
  arrivalUs : Int
  size : Nat := 0

namespace ClockedPacket

def timed (p : ClockedPacket) : TimedPacket where
  sendTime := .finite p.sendUs
  arrivalTime := .finite p.arrivalUs
  systemTime := .finite p.arrivalUs
  size := p.size

/-- Both clocks move on by 6 ms to 1 s from one packet to the next. -/
def Steady (p q : ClockedPacket) : Prop :=
  (p.sendUs + 6000 ≤ q.sendUs ∧ q.sendUs ≤ p.sendUs + 1000000) ∧
    p.arrivalUs + 6000 ≤ q.arrivalUs ∧ q.arrivalUs ≤ p.arrivalUs + 1000000

instance (p q : ClockedPacket) : Decidable (p.Steady q) := inferInstanceAs (Decidable (_ ∧ _))

/-- The packets of a steady list are beyond its first one. -/
theorem beyond_of_steady {p : ClockedPacket} {ps : List ClockedPacket} (h : (p :: ps).IsChain Steady) :
    ∀ q ∈ ps, p.sendUs + 6000 ≤ q.sendUs ∧ p.arrivalUs + 6000 ≤ q.arrivalUs := by
  induction ps generalizing p with
  | nil =>
      intro q hq
      cases hq
  | cons r ps ih =>
      obtain ⟨⟨hsend, harrival⟩, hrest⟩ := List.isChain_cons_cons.mp h
      intro q hq
      rcases List.mem_cons.mp hq with rfl | hq
      · exact ⟨hsend.1, harrival.1⟩
      · have hbeyond := ih hrest q hq
        have hfirst := hsend.1
        have hsecond := harrival.1
        omega

end ClockedPacket

namespace InterArrivalDelta
open ClockedPacket

variable {s : InterArrivalDelta} {p q : ClockedPacket} {ps : List ClockedPacket}

/-- A call with a packet of a steady list. -/
def seeClocked (s : InterArrivalDelta) (p : ClockedPacket) : InterArrivalDelta × Option GroupDeltas :=
  s.see p.timed

/-- Some call on the list returns true. -/
def Recovers (s : InterArrivalDelta) (ps : List ClockedPacket) : Prop :=
  Machine.reported seeClocked s ps ≠ []

/-- The packets that were not sent before the current group. -/
def accepted (s : InterArrivalDelta) (ps : List ClockedPacket) : List ClockedPacket :=
  ps.filter fun p => decide (¬ s.Late p.timed)

/-- A packet that arrives later than a burst, and was not sent with the latest packet of the
group, is in no burst. -/
theorem not_burst {a : Int} (hcomplete : s.currentTimestampGroup.completeTime = .finite a)
    (ha : a + 6000 ≤ q.arrivalUs) (hsend : s.currentTimestampGroup.sendTime ≠ .finite q.sendUs) :
    s.belongsToBurst (.finite q.arrivalUs) (.finite q.sendUs) = false := by
  have hzero : ((.finite q.sendUs : Timestamp) - s.currentTimestampGroup.sendTime : TimeDelta).isZero =
      false := by
    cases hu : s.currentTimestampGroup.sendTime with
    | minusInfinity => rfl
    | plusInfinity => rfl
    | finite u =>
        rw [hu] at hsend
        have hne : q.sendUs - u ≠ 0 := fun h => hsend (by rw [Int.sub_eq_zero.mp h])
        exact beq_false_of_ne hne
  have hlate : ¬ ((.finite q.arrivalUs : Timestamp) - s.currentTimestampGroup.completeTime : TimeDelta) ≤
      kBurstDeltaThreshold := by
    rw [hcomplete, Timestamp.finite_sub]
    change ¬ (UnitBase.finite (q.arrivalUs - a) : TimeDelta) ≤ .finite 5000
    rw [UnitBase.finite_le_finite]
    omega
  unfold belongsToBurst
  dsimp only
  rw [hzero]
  exact decide_eq_false fun h => hlate h.2.1

/-- A packet sent 6 ms after the group began was sent more than a group length after it. -/
theorem lt_sub_firstSendTime {f : Timestamp} {x : Int} (hf : f ≤ .finite x) (hx : x + 6000 ≤ q.sendUs) :
    TimeDelta.millis 5 < ((.finite q.sendUs : Timestamp) - f : TimeDelta) := by
  cases f with
  | minusInfinity => exact UnitBase.finite_lt_plusInfinity _
  | plusInfinity => exact absurd (UnitBase.plusInfinity_le.mp hf) (by simp)
  | finite f =>
      rw [UnitBase.finite_le_finite] at hf
      rw [Timestamp.finite_sub]
      change (UnitBase.finite 5000 : TimeDelta) < .finite (q.sendUs - f)
      rw [UnitBase.finite_lt_finite]
      omega

/-- After a packet that joined or opened the current group, a later one joins it only when it
was sent with the latest packet of the group. -/
theorem opens_of_beyond (hlength : s.sendTimeGroupLength = .millis 5) {x a : Int}
    (hcomplete : s.currentTimestampGroup.completeTime = .finite a)
    (hsend : s.currentTimestampGroup.firstSendTime ≤ .finite x) (hx : x + 6000 ≤ q.sendUs)
    (ha : a + 6000 ≤ q.arrivalUs) :
    ¬ s.Late q.timed ∧ (s.currentTimestampGroup.sendTime ≠ .finite q.sendUs → s.Opens q.timed) := by
  have hfirst : s.currentTimestampGroup.isFirstPacket = false := by
    unfold SendTimeGroup.isFirstPacket
    rw [hcomplete]
    rfl
  have hnot : ¬ s.Late q.timed := by
    rintro ⟨-, hlate⟩
    have hx' : (UnitBase.finite x : Timestamp) ≤ .finite q.sendUs :=
      UnitBase.finite_le_finite.mpr (by omega)
    exact absurd (hsend.trans hx') (not_le.mpr hlate)
  refine ⟨hnot, fun hne => ⟨hfirst, hnot, ?_⟩⟩
  have hburst := not_burst hcomplete ha hne
  have hlong := lt_sub_firstSendTime hsend hx
  rw [← hlength] at hlong
  change s.newTimestampGroup (.finite q.arrivalUs) (.finite q.sendUs) = true
  unfold newTimestampGroup
  rw [hfirst, hburst]
  exact decide_eq_true hlong

/-- At most j packets of the list, j up to two, join the current group: first one for any
reason, then one sent with the latest packet of the group. -/
def JoinAtMost (s : InterArrivalDelta) (ps : List ClockedPacket) : Nat → Prop
  | 0 => ∀ p ∈ ps, s.Opens p.timed
  | 1 => ∀ p ∈ ps, ¬ s.Late p.timed ∧
      (s.currentTimestampGroup.sendTime ≠ .finite p.sendUs → s.Opens p.timed)
  | _ => ∀ p ∈ ps, ¬ s.Late p.timed

theorem JoinAtMost.tail {j : Nat} (h : s.JoinAtMost (p :: ps) j) : s.JoinAtMost ps j := by
  match j with
  | 0 => exact fun q hq => h q (List.mem_cons_of_mem p hq)
  | 1 => exact fun q hq => h q (List.mem_cons_of_mem p hq)
  | _ + 2 => exact fun q hq => h q (List.mem_cons_of_mem p hq)

theorem JoinAtMost.not_late {j : Nat} (h : s.JoinAtMost (p :: ps) j) : ¬ s.Late p.timed := by
  match j with
  | 0 => exact (h p List.mem_cons_self).2.1
  | 1 => exact (h p List.mem_cons_self).1
  | _ + 2 => exact h p List.mem_cons_self

theorem joinAtMost_zero_of_beyond (hlength : s.sendTimeGroupLength = .millis 5)
    (hcomplete : s.currentTimestampGroup.completeTime = .finite p.arrivalUs)
    (hfirst : s.currentTimestampGroup.firstSendTime ≤ .finite p.sendUs)
    (hsend : s.currentTimestampGroup.sendTime ≤ .finite p.sendUs)
    (hsteady : (p :: ps).IsChain Steady) : s.JoinAtMost ps 0 := by
  intro q hq
  obtain ⟨hx, ha⟩ := beyond_of_steady hsteady q hq
  refine (opens_of_beyond hlength hcomplete hfirst hx ha).2 ?_
  intro heq
  rw [heq, UnitBase.finite_le_finite] at hsend
  omega

/-- A packet that joins uses up one of the packets that may. -/
theorem JoinAtMost.joined {j : Nat} (hlength : s.sendTimeGroupLength = .millis 5)
    (hsteady : (p :: ps).IsChain Steady) (h : s.JoinAtMost (p :: ps) j) (hj : j ≤ 2)
    (hnotFirst : s.currentTimestampGroup.isFirstPacket = false) (hnot : ¬ s.Opens p.timed) :
    ∃ i, j = i + 1 ∧ (s.joined p.timed).JoinAtMost ps i := by
  have hfirst : s.currentTimestampGroup.firstSendTime ≤ .finite p.sendUs :=
    not_lt.mp fun hlate => h.not_late ⟨hnotFirst, hlate⟩
  match j with
  | 0 => exact absurd (h p List.mem_cons_self) hnot
  | 1 =>
      have hsend : s.currentTimestampGroup.sendTime = .finite p.sendUs := by
        by_contra hne
        exact hnot ((h p List.mem_cons_self).2 hne)
      refine ⟨0, rfl, joinAtMost_zero_of_beyond hlength rfl hfirst ?_ hsteady⟩
      exact max_le hsend.le (le_refl _)
  | 2 =>
      refine ⟨1, rfl, ?_⟩
      intro q hq
      obtain ⟨hx, ha⟩ := beyond_of_steady hsteady q hq
      exact opens_of_beyond hlength rfl hfirst hx ha

/-- What every call keeps. -/
structure Regular (s : InterArrivalDelta) : Prop where
  groupLength : s.sendTimeGroupLength = .millis 5
  count : 0 ≤ s.numConsecutiveReorderedPackets

theorem Regular.step (h : s.Regular) (p : TimedPacket) : (s.see p).1.Regular := by
  have hway := s.way_see p
  generalize s.see p = step at hway
  cases hway with
  | starts => exact ⟨h.groupLength, h.count⟩
  | late => exact h
  | joins => exact ⟨h.groupLength, h.count⟩
  | second => exact ⟨h.groupLength, h.count⟩
  | resets => exact ⟨h.groupLength, le_refl _⟩
  | counts => exact ⟨h.groupLength, Int.add_nonneg h.count (by decide)⟩
  | deltas => exact ⟨h.groupLength, le_refl _⟩

/-- How many packets of the list may still report nothing, in each phase of the recovery. -/
inductive Slack (s : InterArrivalDelta) (ps : List ClockedPacket) (n : Nat) : Prop
  /-- No group is open. -/
  | starting (first : s.currentTimestampGroup.isFirstPacket = true) (bound : 7 ≤ n)
  /-- Nothing is known of any group. -/
  | blank (first : s.currentTimestampGroup.isFirstPacket = true)
      (prev : s.prevTimestampGroup.completeTime.isFinite = false) (bound : 3 ≤ n)
  /-- One group is open, of packets before the list. -/
  | alone (notFirst : s.currentTimestampGroup.isFirstPacket = false)
      (prev : s.prevTimestampGroup.completeTime.isFinite = false)
      (accepted : ∀ p ∈ ps, ¬ s.Late p.timed) (bound : 7 ≤ n)
  /-- One group is open, and its last packet is of the list. -/
  | linked (notFirst : s.currentTimestampGroup.isFirstPacket = false)
      (prev : s.prevTimestampGroup.completeTime.isFinite = false) (a : Int)
      (complete : s.currentTimestampGroup.completeTime = .finite a)
      (system : s.currentTimestampGroup.lastSystemTime = .finite a)
      (arrival : ∀ p ∈ ps, a + 6000 ≤ p.arrivalUs) (j : Nat) (few : j ≤ 2)
      (joins : s.JoinAtMost ps j) (bound : j + 2 ≤ n)
  /-- Two groups are known, and k calls on reordered groups reset the object. -/
  | between (notFirst : s.currentTimestampGroup.isFirstPacket = false)
      (prev : s.prevTimestampGroup.completeTime.isFinite = true) (j k : Nat) (few : j ≤ 2)
      (joins : s.JoinAtMost ps j) (pos : 0 < k)
      (count : kReorderedResetThreshold ≤ s.numConsecutiveReorderedPackets + k)
      (bound : j + k + 3 ≤ n)
  /-- The next packet brings the deltas. -/
  | due (prev : s.prevTimestampGroup.completeTime.isFinite = true)
      (opens : ∀ p ∈ ps.head?, s.Opens p.timed) (offset : ¬ s.ArrivalOffset)
      (order : ¬ s.groupDeltas.arrivalTimeDelta < .zero) (bound : 1 ≤ n)

theorem Slack.pos {n : Nat} (h : Slack s ps n) : 0 < n := by
  cases h <;> omega

/-- The state after a packet that opened a group, as the first one or not. -/
theorem joinAtMost_opened (hs : s.Regular) (hsteady : (p :: ps).IsChain Steady) :
    (s.started p.timed).JoinAtMost ps 0 ∧ (s.opened p.timed).JoinAtMost ps 0 :=
  ⟨joinAtMost_zero_of_beyond hs.groupLength rfl (le_refl _) (le_refl _) hsteady,
    joinAtMost_zero_of_beyond hs.groupLength rfl (le_refl _) (le_refl _) hsteady⟩

theorem Slack.starts {n : Nat} (hs : s.Regular) (hsteady : (p :: ps).IsChain Steady)
    (hfirst : s.currentTimestampGroup.isFirstPacket = true)
    (hbound : 6 ≤ n ∨ s.prevTimestampGroup.completeTime.isFinite = false ∧ 2 ≤ n) :
    Slack (s.seeClocked p).1 ps n := by
  have hsee : (s.see p.timed).1 = s.started p.timed := by
    unfold see
    rw [computeDeltas_first hfirst]
    rfl
  have hjoins := (joinAtMost_opened hs hsteady).1
  have hcount := hs.count
  unfold seeClocked
  rw [hsee]
  by_cases hprev : s.prevTimestampGroup.completeTime.isFinite = true
  · refine .between rfl hprev 0 3 (by omega) hjoins (by omega) ?_ ?_
    · change (3 : Int) ≤ s.numConsecutiveReorderedPackets + 3
      omega
    · rcases hbound with hbound | ⟨hnone, -⟩
      · exact hbound
      · rw [hprev] at hnone
        cases hnone
  · refine .linked rfl (Bool.eq_false_iff.mpr hprev) p.arrivalUs rfl rfl ?_ 0 (by omega) hjoins
      (by omega)
    exact fun q hq => (beyond_of_steady hsteady q hq).2

/-- The only open group was left before the list. -/
theorem Slack.alone_step {n : Nat} (hs : s.Regular) (hsteady : (p :: ps).IsChain Steady)
    (notFirst : s.currentTimestampGroup.isFirstPacket = false)
    (prev : s.prevTimestampGroup.completeTime.isFinite = false)
    (accepted : ∀ q ∈ p :: ps, ¬ s.Late q.timed) (bound : 6 ≤ n) :
    Slack (s.seeClocked p).1 ps n := by
  have hcount := hs.count
  have hway := s.way_see p.timed
  unfold seeClocked
  generalize s.see p.timed = step at hway
  cases hway with
  | starts hfirst => exact absurd hfirst (Bool.eq_false_iff.mp notFirst)
  | late hlate => exact absurd hlate (accepted p List.mem_cons_self)
  | joins _ _ hnot =>
      have haccepted : s.JoinAtMost (p :: ps) 2 := accepted
      obtain ⟨i, hi, hjoins⟩ := haccepted.joined hs.groupLength hsteady (le_refl _) notFirst hnot
      refine .linked rfl prev p.arrivalUs rfl rfl ?_ i (by omega) hjoins (by omega)
      exact fun q hq => (beyond_of_steady hsteady q hq).2
  | second =>
      refine .between rfl (SendTimeGroup.isFirstPacket_eq_false_iff.mp notFirst) 0 3 (by omega)
        (joinAtMost_opened hs hsteady).2 (by omega) ?_ bound
      change (3 : Int) ≤ s.numConsecutiveReorderedPackets + 3
      omega
  | resets _ hprev => exact absurd hprev (Bool.eq_false_iff.mp prev)
  | counts _ hprev => exact absurd hprev (Bool.eq_false_iff.mp prev)
  | deltas _ hprev => exact absurd hprev (Bool.eq_false_iff.mp prev)

/-- The deltas between two groups of the list: the clocks agree, and none goes back. -/
theorem linked_opened {a : Int} (complete : s.currentTimestampGroup.completeTime = .finite a)
    (system : s.currentTimestampGroup.lastSystemTime = .finite a) (harrival : a ≤ p.arrivalUs) :
    ¬ (s.opened p.timed).ArrivalOffset ∧
      ¬ (s.opened p.timed).groupDeltas.arrivalTimeDelta < .zero := by
  have hdelta : (s.opened p.timed).groupDeltas.arrivalTimeDelta = .finite (p.arrivalUs - a) := by
    change ((.finite p.arrivalUs : Timestamp) - s.currentTimestampGroup.completeTime : TimeDelta) = _
    rw [complete, Timestamp.finite_sub]
  have hsystem : ((s.opened p.timed).currentTimestampGroup.lastSystemTime -
      (s.opened p.timed).prevTimestampGroup.lastSystemTime : TimeDelta) = .finite (p.arrivalUs - a) := by
    change ((.finite p.arrivalUs : Timestamp) - s.currentTimestampGroup.lastSystemTime : TimeDelta) = _
    rw [system, Timestamp.finite_sub]
  constructor
  · unfold ArrivalOffset
    rw [hdelta, hsystem, TimeDelta.finite_sub, Int.sub_self]
    decide
  · rw [hdelta, not_lt]
    exact UnitBase.finite_le_finite.mpr (Int.sub_nonneg.mpr harrival)

/-- The last packet of the only open group is of the list. -/
theorem Slack.linked_step {n j : Nat} {a : Int} (hs : s.Regular) (hsteady : (p :: ps).IsChain Steady)
    (notFirst : s.currentTimestampGroup.isFirstPacket = false)
    (prev : s.prevTimestampGroup.completeTime.isFinite = false)
    (complete : s.currentTimestampGroup.completeTime = .finite a)
    (system : s.currentTimestampGroup.lastSystemTime = .finite a)
    (arrival : ∀ q ∈ p :: ps, a + 6000 ≤ q.arrivalUs) (few : j ≤ 2)
    (joins : s.JoinAtMost (p :: ps) j) (bound : j + 1 ≤ n) :
    Slack (s.seeClocked p).1 ps n := by
  have hway := s.way_see p.timed
  unfold seeClocked
  generalize s.see p.timed = step at hway
  cases hway with
  | starts hfirst => exact absurd hfirst (Bool.eq_false_iff.mp notFirst)
  | late hlate => exact absurd hlate joins.not_late
  | joins _ _ hnot =>
      obtain ⟨i, rfl, hjoins⟩ := joins.joined hs.groupLength hsteady few notFirst hnot
      refine .linked rfl prev p.arrivalUs rfl rfl ?_ i (by omega) hjoins bound
      exact fun q hq => (beyond_of_steady hsteady q hq).2
  | second =>
      have hearlier := arrival p List.mem_cons_self
      obtain ⟨hoffset, horder⟩ := linked_opened complete system (p := p) (by omega)
      refine .due (SendTimeGroup.isFirstPacket_eq_false_iff.mp notFirst) ?_ hoffset horder (by omega)
      exact fun q hq => (joinAtMost_opened hs hsteady).2 q (List.mem_of_mem_head? hq)
  | resets _ hprev => exact absurd hprev (Bool.eq_false_iff.mp prev)
  | counts _ hprev => exact absurd hprev (Bool.eq_false_iff.mp prev)
  | deltas _ hprev => exact absurd hprev (Bool.eq_false_iff.mp prev)

/-- Two groups are known: a packet joins, is counted, resets the object or reports. -/
theorem Slack.between_step {n j k : Nat} (hs : s.Regular) (hsteady : (p :: ps).IsChain Steady)
    (notFirst : s.currentTimestampGroup.isFirstPacket = false)
    (prev : s.prevTimestampGroup.completeTime.isFinite = true) (few : j ≤ 2)
    (joins : s.JoinAtMost (p :: ps) j) (pos : 0 < k)
    (count : kReorderedResetThreshold ≤ s.numConsecutiveReorderedPackets + k)
    (bound : j + k + 2 ≤ n) (silent : (s.seeClocked p).2 = none) :
    Slack (s.seeClocked p).1 ps n := by
  have hway := s.way_see p.timed
  unfold seeClocked at silent ⊢
  generalize s.see p.timed = step at hway silent
  cases hway with
  | starts hfirst => exact absurd hfirst (Bool.eq_false_iff.mp notFirst)
  | late hlate => exact absurd hlate joins.not_late
  | joins _ _ hnot =>
      obtain ⟨i, rfl, hjoins⟩ := joins.joined hs.groupLength hsteady few notFirst hnot
      exact .between rfl prev i k (by omega) hjoins pos count (by omega)
  | second _ hprev => exact absurd prev (Bool.eq_false_iff.mp hprev)
  | resets => exact .blank rfl rfl (by omega)
  | counts _ _ _ _ hfew =>
      -- one count less is needed, and the same packets may join
      have htwo : 2 ≤ k := by
        unfold kReorderedResetThreshold at count hfew
        omega
      refine .between notFirst prev j (k - 1) few joins.tail (by omega) ?_ (by omega)
      dsimp only
      omega
  | deltas => cases silent

/-- With two ordered groups known and a packet of a third, there are deltas. -/
theorem reports_of_due (prev : s.prevTimestampGroup.completeTime.isFinite = true)
    (opens : s.Opens p.timed) (offset : ¬ s.ArrivalOffset)
    (order : ¬ s.groupDeltas.arrivalTimeDelta < .zero) : (s.seeClocked p).2 ≠ none := by
  have hgroup := completesGroup_iff.mpr ⟨opens, prev⟩
  unfold seeClocked see
  rw [computeDeltas_deltas hgroup offset order]
  exact Option.some_ne_none _

/-- Every packet that reports nothing leaves less slack. -/
theorem Slack.step {n : Nat} (hs : s.Regular) (hsteady : (p :: ps).IsChain Steady)
    (h : Slack s (p :: ps) (n + 1)) (silent : (s.seeClocked p).2 = none) :
    Slack (s.seeClocked p).1 ps n := by
  cases h with
  | starting first bound => exact .starts hs hsteady first (.inl (by omega))
  | blank first prev bound => exact .starts hs hsteady first (.inr ⟨prev, by omega⟩)
  | alone notFirst prev accepted bound =>
      exact .alone_step hs hsteady notFirst prev accepted (by omega)
  | linked notFirst prev a complete system arrival j few joins bound =>
      exact .linked_step hs hsteady notFirst prev complete system arrival few joins (by omega)
  | between notFirst prev j k few joins pos count bound =>
      exact .between_step hs hsteady notFirst prev few joins pos count (by omega) silent
  | due prev opens offset order bound =>
      exact absurd silent (reports_of_due prev (opens p rfl) offset order)

/-- As many packets as the slack bring deltas. -/
theorem Slack.recovers {n : Nat} (hs : s.Regular) (hsteady : ps.IsChain Steady) (h : Slack s ps n)
    (hlength : n ≤ ps.length) : s.Recovers ps := by
  refine Machine.reported_ne_nil_of_rank
    (R := fun n s ps => s.Regular ∧ ps.IsChain Steady ∧ Slack s ps n) ?_ ?_ ⟨hs, hsteady, h⟩ hlength
  · rintro s ps ⟨-, -, h⟩
    exact absurd h.pos (by omega)
  · rintro n s p ps ⟨hs, hsteady, h⟩ silent
    exact ⟨n, le_refl _, hs.step p.timed, hsteady.tail, h.step hs hsteady silent⟩

/-- Eight packets suffice when none of them was sent before the current group. -/
theorem recovers_of_not_late (hs : s.Regular) (hsteady : ps.IsChain Steady)
    (accepted : ∀ p ∈ ps, ¬ s.Late p.timed) (hlength : 8 ≤ ps.length) : s.Recovers ps := by
  have hcount := hs.count
  by_cases hfirst : s.currentTimestampGroup.isFirstPacket = true
  · exact (Slack.starting hfirst (by omega)).recovers hs hsteady hlength
  have hnot := Bool.eq_false_iff.mpr hfirst
  by_cases hprev : s.prevTimestampGroup.completeTime.isFinite = true
  · refine (Slack.between hnot hprev 2 3 (le_refl _) accepted (by omega) ?_ (le_refl _)).recovers
      hs hsteady hlength
    change (3 : Int) ≤ s.numConsecutiveReorderedPackets + 3
    omega
  · have halone : Slack s ps 8 := .alone hnot (Bool.eq_false_iff.mpr hprev) accepted (by omega)
    exact halone.recovers hs hsteady hlength

theorem seeClocked_of_late (h : s.Late p.timed) : s.seeClocked p = (s, none) :=
  computeDeltas_late (Bool.eq_false_iff.mp h.1) h.2

/-- Late packets leave no trace, and the packets behind the first one accepted are accepted. -/
theorem recovers_of_accepted (hs : s.Regular) (hsteady : ps.IsChain Steady)
    (henough : 8 ≤ (s.accepted ps).length) : s.Recovers ps := by
  induction ps with
  | nil => exact absurd henough (by simp [accepted])
  | cons p ps ih =>
      by_cases hlate : s.Late p.timed
      · have hdrop : s.accepted (p :: ps) = s.accepted ps := by simp [accepted, hlate]
        have hsee := seeClocked_of_late hlate
        rw [hdrop] at henough
        have hrest := ih hsteady.tail henough
        unfold Recovers at hrest ⊢
        rw [Machine.reported_cons_none (by rw [hsee]), hsee]
        exact hrest
      · have hall : ∀ q ∈ p :: ps, ¬ s.Late q.timed := by
          intro q hq
          rcases List.mem_cons.mp hq with rfl | hq
          · exact hlate
          · rintro ⟨hnot, hlater⟩
            have hbeyond := (beyond_of_steady hsteady q hq).1
            have hsent : (UnitBase.finite p.sendUs : Timestamp) < .finite q.sendUs :=
              UnitBase.finite_lt_finite.mpr (by omega)
            exact hlate ⟨hnot, hsent.trans hlater⟩
        have hkeep : s.accepted (p :: ps) = p :: ps := by
          refine List.filter_eq_self.mpr ?_
          intro q hq
          exact decide_eq_true (hall q hq)
        rw [hkeep] at henough
        exact recovers_of_not_late hs hsteady hall henough

/-- The states that calls of ComputeDeltas lead to. -/
def Reachable (s : InterArrivalDelta) : Prop := ∃ history, s = fresh.afterPackets history

theorem Reachable.regular (h : s.Reachable) : s.Regular := by
  obtain ⟨history, rfl⟩ := h
  induction history using List.reverseRecOn with
  | nil => exact ⟨rfl, le_refl _⟩
  | append_singleton history p ih =>
      rw [afterPackets_snoc]
      exact ih.step p

/-- Two groups, received 100 s after the time that they were sent at. -/
def beforeJump : InterArrivalDelta :=
  fresh.afterPackets ([⟨900000, 100000000, 0⟩, ⟨1000000, 100200000, 0⟩, ⟨1006000, 100201000, 0⟩].map
    ClockedPacket.timed)

/-- Twelve packets, the last k of them not sent before the second group. -/
def twelveAfterJump (k : Nat) : List ClockedPacket :=
  (List.range 12).map fun i =>
    { sendUs := 1000000 + 6000 * (i + k) - 72000, arrivalUs := 1000000 + 6000 * i }

/-- Two packets join, three are counted as reordered, and two come before the first deltas. -/
theorem silent_after_jump : ∀ k < 8, (twelveAfterJump k).IsChain Steady ∧
    12 ≤ (twelveAfterJump k).length ∧ (beforeJump.accepted (twelveAfterJump k)).length = k ∧
    (Machine.reported seeClocked beforeJump (twelveAfterJump k)).length = 0 := by
  decide +kernel

/-- Twelve steady packets bring deltas from every reachable state exactly when at least eight
of them are not sent before the current group. -/
theorem recovers_iff_eight_accepted (k : Nat) :
    (∀ s : InterArrivalDelta, s.Reachable → ∀ ps : List ClockedPacket, ps.IsChain Steady →
      12 ≤ ps.length → (s.accepted ps).length = k → s.Recovers ps) ↔ 8 ≤ k := by
  constructor
  · intro h
    by_contra hfew
    obtain ⟨hsteady, hlength, haccepted, hsilent⟩ := silent_after_jump k (not_le.mp hfew)
    exact h beforeJump ⟨_, rfl⟩ (twelveAfterJump k) hsteady hlength haccepted
      (List.length_eq_zero_iff.mp hsilent)
  · intro henough s hs ps hsteady _ haccepted
    exact recovers_of_accepted hs.regular hsteady (haccepted ▸ henough)

/-- The send clock has jumped back: all twelve packets are dropped as reordered. -/
theorem clock_jump_unrecovered :
    beforeJump.Reachable ∧ (twelveAfterJump 0).IsChain Steady ∧ 12 ≤ (twelveAfterJump 0).length ∧
      ¬ beforeJump.Recovers (twelveAfterJump 0) := by
  refine ⟨⟨_, rfl⟩, by decide, by decide, ?_⟩
  unfold Recovers
  decide +kernel

end InterArrivalDelta
end ChromeGcc
