import ChromeGcc.Base.Trace
import ChromeGcc.DelayBased.SendOrder

/-! The groups as lists of packets. Of each group InterArrivalDelta keeps only the times and the
size that its deltas need: the deltas are the differences between neighbouring groups. -/
namespace ChromeGcc
open Machine UnitBase

theorem toUint64_add (n m : Nat) : toUint64 ((toUint64 n : Nat) + m) = toUint64 ((n + m : Nat)) := by
  unfold toUint64
  omega

/-- What is kept of a group of packets. -/
def SendTimeGroup.ofPackets (group : List TimedPacket) : SendTimeGroup where
  size := toUint64 (group.map TimedPacket.size).sum
  firstSendTime := (group.head?.map TimedPacket.sendTime).getD .minusInfinity
  sendTime := group.foldl (fun latest p => max latest p.sendTime) .minusInfinity
  firstArrival := (group.head?.map TimedPacket.arrivalTime).getD .minusInfinity
  completeTime := (group.getLast?.map TimedPacket.arrivalTime).getD .minusInfinity
  lastSystemTime := (group.getLast?.map TimedPacket.systemTime).getD .minusInfinity

namespace SendTimeGroup
variable {group : List TimedPacket} {p : TimedPacket}

theorem ofPackets_singleton (p : TimedPacket) : ofPackets [p] =
    { size := toUint64 p.size
      firstSendTime := p.sendTime
      sendTime := p.sendTime
      firstArrival := p.arrivalTime
      completeTime := p.arrivalTime
      lastSystemTime := p.systemTime } := rfl

theorem ofPackets_concat (h : group ≠ []) (p : TimedPacket) : ofPackets (group ++ [p]) =
    { ofPackets group with
      size := toUint64 ((ofPackets group).size + p.size)
      sendTime := max (ofPackets group).sendTime p.sendTime
      completeTime := p.arrivalTime
      lastSystemTime := p.systemTime } := by
  unfold ofPackets
  dsimp only
  rw [List.head?_append_of_ne_nil _ h, List.getLast?_concat, List.foldl_concat, List.map_append,
    List.sum_append, toUint64_add]
  rfl

theorem completeTime_of_last (h : group.getLast? = some p) :
    (ofPackets group).completeTime = p.arrivalTime := by
  rw [ofPackets, h]
  rfl

theorem lastSystemTime_of_last (h : group.getLast? = some p) :
    (ofPackets group).lastSystemTime = p.systemTime := by
  rw [ofPackets, h]
  rfl

theorem isFinite_completeTime_iff (h : ∀ q ∈ group, q.Finite) :
    (ofPackets group).completeTime.isFinite = true ↔ group ≠ [] := by
  cases hlast : group.getLast? with
  | none =>
      rw [List.getLast?_eq_none_iff.mp hlast]
      exact iff_of_false Bool.false_ne_true (not_not.mpr rfl)
  | some last =>
      have hmem := List.mem_of_getLast? hlast
      rw [completeTime_of_last hlast]
      exact iff_of_true (h last hmem).arrivalTime (List.ne_nil_of_mem hmem)

end SendTimeGroup

/-- A packet goes on with the burst of a group: it was sent with the latest of its packets, or it
comes within 5 ms of the last one, nearer to it than it was sent, and within 100 ms of the first. -/
def InBurst (group : List TimedPacket) (p : TimedPacket) : Prop :=
  (p.sendTime - (SendTimeGroup.ofPackets group).sendTime : TimeDelta).isZero = true ∨
    (((p.arrivalTime - (SendTimeGroup.ofPackets group).completeTime : TimeDelta) -
          (p.sendTime - (SendTimeGroup.ofPackets group).sendTime : TimeDelta) : TimeDelta) < .zero ∧
      (p.arrivalTime - (SendTimeGroup.ofPackets group).completeTime : TimeDelta) ≤
        InterArrivalDelta.kBurstDeltaThreshold ∧
      (p.arrivalTime - (SendTimeGroup.ofPackets group).firstArrival : TimeDelta) <
        InterArrivalDelta.kMaxBurstDuration)

instance (group : List TimedPacket) (p : TimedPacket) : Decidable (InBurst group p) :=
  inferInstanceAs (Decidable (_ ∨ _))

/-- A packet opens a new group: it is not in the burst, and sent over 5 ms after the first packet. -/
def Breaks (group : List TimedPacket) (p : TimedPacket) : Prop :=
  ¬ InBurst group p ∧
    (p.sendTime - (SendTimeGroup.ofPackets group).firstSendTime : TimeDelta) > .millis 5

instance (group : List TimedPacket) (p : TimedPacket) : Decidable (Breaks group p) :=
  inferInstanceAs (Decidable (_ ∧ _))

/-- The groups that are complete, and the current one. -/
structure SendGroups where
  complete : List (List TimedPacket) := []
  current : List TimedPacket := []
  deriving DecidableEq

namespace SendGroups

/-- A packet sent before the current group is ignored; any other joins it, or opens the next. -/
def add (g : SendGroups) (p : TimedPacket) : SendGroups :=
  if g.current = [] then { g with current := [p] }
  else if (SendTimeGroup.ofPackets g.current).firstSendTime > p.sendTime then g
  else if Breaks g.current p then { complete := g.complete ++ [g.current], current := [p] }
  else { g with current := g.current ++ [p] }

def ofPackets (ps : List TimedPacket) : SendGroups := ps.foldl add {}

theorem ofPackets_concat (ps : List TimedPacket) (p : TimedPacket) :
    ofPackets (ps ++ [p]) = (ofPackets ps).add p := List.foldl_concat _ _ _ _

variable {g : SendGroups} {p : TimedPacket} {ps : List TimedPacket}

/-- The groups hold packets of a sequence, in its order, and each begins where the one before breaks. -/
structure Cuts (g : SendGroups) (ps : List TimedPacket) : Prop where
  sublist : (g.complete.flatten ++ g.current).Sublist ps
  nonempty : ∀ group ∈ g.complete, group ≠ []
  opened : g.complete ≠ [] → g.current ≠ []
  breaks : (g.complete ++ [g.current]).IsChain fun group next => ∀ p ∈ next.head?, Breaks group p

theorem cuts_empty : Cuts {} [] := ⟨List.Sublist.refl _, by simp, by simp, List.isChain_singleton _⟩

theorem Cuts.add (h : g.Cuts ps) : (g.add p).Cuts (ps ++ [p]) := by
  unfold SendGroups.add
  split_ifs with hempty hlate hbreaks
  · have hcomplete : g.complete = [] := by
      by_contra hne
      exact h.opened hne hempty
    constructor
    case sublist =>
      have hsublist := h.sublist.append (List.Sublist.refl [p])
      rwa [hempty, List.append_nil] at hsublist
    case nonempty => exact h.nonempty
    case opened => exact fun _ => List.cons_ne_nil p []
    case breaks =>
      rw [hcomplete]
      exact List.isChain_singleton _
  · exact ⟨h.sublist.trans (List.sublist_append_left ps [p]), h.nonempty, h.opened, h.breaks⟩
  · constructor
    case sublist =>
      rw [List.flatten_concat]
      exact h.sublist.append (List.Sublist.refl [p])
    case nonempty =>
      intro group hmem
      rcases List.mem_append.mp hmem with hmem | hmem
      · exact h.nonempty group hmem
      · rw [List.mem_singleton.mp hmem]
        exact hempty
    case opened => exact fun _ => List.cons_ne_nil p []
    case breaks =>
      refine h.breaks.append (List.isChain_singleton _) ?_
      intro last hlast next hnext q hq
      rw [List.getLast?_concat] at hlast
      cases hlast
      cases hnext
      cases hq
      exact hbreaks
  · constructor
    case sublist =>
      have hsublist := h.sublist.append (List.Sublist.refl [p])
      rwa [List.append_assoc] at hsublist
    case nonempty => exact h.nonempty
    case opened => exact fun _ => List.append_ne_nil_of_left_ne_nil hempty [p]
    case breaks =>
      obtain ⟨hbefore, -, hlast⟩ := List.isChain_append.mp h.breaks
      refine hbefore.append (List.isChain_singleton _) ?_
      intro last hl next hnext q hq
      cases hnext
      rw [List.head?_append_of_ne_nil _ hempty] at hq
      exact hlast last hl g.current rfl q hq

theorem cuts_ofPackets (ps : List TimedPacket) : (ofPackets ps).Cuts ps := by
  induction ps using List.reverseRecOn with
  | nil => exact cuts_empty
  | append_singleton ps p ih =>
      rw [ofPackets_concat]
      exact ih.add

/-- Packets that arrive in the order they were sent are all in a group. -/
theorem flatten_ofPackets (h : ps.Pairwise fun p q => p.sendTime ≤ q.sendTime) :
    (ofPackets ps).complete.flatten ++ (ofPackets ps).current = ps := by
  induction ps using List.reverseRecOn with
  | nil => rfl
  | append_singleton ps p ih =>
      obtain ⟨hbefore, -, hlast⟩ := List.pairwise_append.mp h
      have hflatten := ih hbefore
      rw [ofPackets_concat]
      generalize ofPackets ps = g at hflatten ⊢
      unfold add
      split_ifs with hempty hlate hbreaks
      · rw [hempty, List.append_nil] at hflatten
        rw [hflatten]
      · obtain ⟨first, rest, hcurrent⟩ := List.exists_cons_of_ne_nil hempty
        have hmem : first ∈ ps := by
          rw [← hflatten, hcurrent]
          simp
        rw [hcurrent] at hlate
        exact absurd (hlast first hmem p (List.mem_singleton_self p)) (not_le.mpr hlate)
      · rw [List.flatten_concat, hflatten]
      · rw [← List.append_assoc, hflatten]

end SendGroups

/-- The deltas between two groups. -/
def GroupDeltas.between (group next : List TimedPacket) : GroupDeltas where
  sendTimeDelta := (SendTimeGroup.ofPackets next).sendTime - (SendTimeGroup.ofPackets group).sendTime
  arrivalTimeDelta :=
    (SendTimeGroup.ofPackets next).completeTime - (SendTimeGroup.ofPackets group).completeTime
  packetSizeDelta :=
    toInt32 (SendTimeGroup.ofPackets next).size - toInt32 (SendTimeGroup.ofPackets group).size

/-- The packets arrive in order, and the arrival clock does not run three seconds ahead of the
system clock. -/
structure InTime (ps : List TimedPacket) : Prop where
  finite : ∀ p ∈ ps, p.Finite
  arrivals : ps.Pairwise fun p q => p.arrivalTime ≤ q.arrivalTime
  clocks : ps.Pairwise fun p q =>
    q.arrivalTime.us - p.arrivalTime.us - (q.systemTime.us - p.systemTime.us) < 3000000

theorem InTime.of_sublist {ps qs : List TimedPacket} (h : InTime ps) (hs : qs.Sublist ps) : InTime qs :=
  ⟨fun p hp => h.finite p (hs.subset hp), h.arrivals.sublist hs, h.clocks.sublist hs⟩

namespace InterArrivalDelta
variable {g : SendGroups} {p : TimedPacket} {ps : List TimedPacket}

/-- What InterArrivalDelta keeps of the groups. -/
def ofGroups (g : SendGroups) : InterArrivalDelta where
  sendTimeGroupLength := .millis 5
  currentTimestampGroup := .ofPackets g.current
  prevTimestampGroup := .ofPackets (g.complete.getLast?.getD [])

theorem newTimestampGroup_ofGroups (hfirst : (ofGroups g).currentTimestampGroup.isFirstPacket = false) :
    (ofGroups g).newTimestampGroup p.arrivalTime p.sendTime = true ↔ Breaks g.current p := by
  have hburst : (ofGroups g).belongsToBurst p.arrivalTime p.sendTime = true ↔ InBurst g.current p := by
    unfold belongsToBurst InBurst
    dsimp only
    split_ifs with hzero
    · exact iff_of_true rfl (.inl hzero)
    · rw [decide_eq_true_iff, ofGroups]
      exact (or_iff_right hzero).symm
  unfold newTimestampGroup Breaks
  rw [hfirst, if_neg Bool.false_ne_true]
  split_ifs with hin
  · exact iff_of_false not_false fun h => h.1 (hburst.mp hin)
  · rw [decide_eq_true_iff]
    exact (and_iff_right (mt hburst.mpr hin)).symm

/-- The last packets of two neighbouring groups. -/
theorem exists_last_packets (hc : g.Cuts ps) {last : List TimedPacket}
    (hlast : g.complete.getLast? = some last) : ∃ p q,
      last.getLast? = some p ∧ g.current.getLast? = some q ∧ [p, q].Sublist ps := by
  obtain ⟨before, hbefore⟩ := List.getLast?_eq_some_iff.mp hlast
  have hne : last ≠ [] := hc.nonempty last (List.mem_of_getLast? hlast)
  have hopen : g.current ≠ [] := hc.opened (by simp [hbefore])
  obtain ⟨front, p, rfl⟩ := (List.eq_nil_or_concat' last).resolve_left hne
  obtain ⟨rest, q, hq⟩ := (List.eq_nil_or_concat' g.current).resolve_left hopen
  refine ⟨p, q, List.getLast?_concat, by rw [hq, List.getLast?_concat], ?_⟩
  refine List.Sublist.trans ?_ hc.sublist
  rw [hbefore, hq, List.flatten_concat]
  have hp : [p].Sublist (before.flatten ++ (front ++ [p])) := by simp
  have hq : [q].Sublist (rest ++ [q]) := by simp
  exact hp.append hq

/-- While the packets are in time the groups neither are reset nor count as reordered. -/
theorem deltas_ofGroups (ht : InTime ps) (hc : g.Cuts ps) {last : List TimedPacket}
    (hlast : g.complete.getLast? = some last) :
    (ofGroups g).groupDeltas = .between last g.current ∧ ¬ (ofGroups g).ArrivalOffset ∧
      ¬ (ofGroups g).groupDeltas.arrivalTimeDelta < .zero := by
  obtain ⟨p, q, hp, hq, hpair⟩ := exists_last_packets hc hlast
  obtain ⟨hfinite, harrivals, hclocks⟩ := ht.of_sublist hpair
  have hprev : (ofGroups g).prevTimestampGroup = .ofPackets last := by
    rw [ofGroups, hlast, Option.getD_some]
  have hdeltas : (ofGroups g).groupDeltas = .between last g.current := by
    unfold groupDeltas
    rw [hprev]
    rfl
  obtain ⟨a, ha⟩ := isFinite_iff.mp (hfinite p (by simp)).arrivalTime
  obtain ⟨b, hb⟩ := isFinite_iff.mp (hfinite q (by simp)).arrivalTime
  obtain ⟨c, hc⟩ := isFinite_iff.mp (hfinite p (by simp)).systemTime
  obtain ⟨d, hd⟩ := isFinite_iff.mp (hfinite q (by simp)).systemTime
  have horder := List.rel_of_pairwise_cons harrivals (List.mem_singleton_self q)
  have hoffset := List.rel_of_pairwise_cons hclocks (List.mem_singleton_self q)
  rw [ha, hb, finite_le_finite] at horder
  rw [ha, hb, hc, hd] at hoffset
  have harrival : (ofGroups g).groupDeltas.arrivalTimeDelta = .finite (b - a) := by
    rw [hdeltas, GroupDeltas.between, SendTimeGroup.completeTime_of_last hp,
      SendTimeGroup.completeTime_of_last hq, ha, hb, Timestamp.finite_sub]
  have hsystem : ((ofGroups g).currentTimestampGroup.lastSystemTime -
      (ofGroups g).prevTimestampGroup.lastSystemTime : TimeDelta) = .finite (d - c) := by
    have hcurrent : (ofGroups g).currentTimestampGroup = .ofPackets g.current := rfl
    rw [hprev, hcurrent, SendTimeGroup.lastSystemTime_of_last hp,
      SendTimeGroup.lastSystemTime_of_last hq, hc, hd, Timestamp.finite_sub]
  refine ⟨hdeltas, ?_, ?_⟩
  · rw [ArrivalOffset, harrival, hsystem, TimeDelta.finite_sub]
    refine not_le.mpr (finite_lt_finite.mpr ?_)
    exact hoffset
  · rw [harrival]
    refine not_lt.mpr (finite_le_finite.mpr ?_)
    omega

/-- The differences between neighbouring groups. -/
def differences (groups : List (List TimedPacket)) : List GroupDeltas :=
  groups.zipWith GroupDeltas.between groups.tail

theorem differences_concat (groups : List (List TimedPacket)) (group : List TimedPacket) :
    differences (groups ++ [group]) =
      differences groups ++ (groups.getLast?.map (GroupDeltas.between · group)).toList := by
  unfold differences
  induction groups with
  | nil => rfl
  | cons first groups ih =>
      cases groups with
      | nil => rfl
      | cons second groups =>
          simp only [List.cons_append, List.tail_cons, List.zipWith_cons_cons] at ih ⊢
          rw [ih, List.getLast?_cons_cons]

/-- One packet: ComputeDeltas goes on with what it keeps of the groups, and returns the difference
to a group that it completes. -/
theorem see_ofGroups (ht : InTime ps) (hc : g.Cuts ps) (p : TimedPacket) :
    ((ofGroups g).see p).1 = ofGroups (g.add p) ∧
      differences (g.add p).complete =
        differences g.complete ++ ((ofGroups g).see p).2.toList := by
  have hfinite : ∀ q ∈ g.current, q.Finite := fun q hq =>
    ht.finite q (hc.sublist.subset (List.mem_append_right _ hq))
  have hfirst : (ofGroups g).currentTimestampGroup.isFirstPacket = false ↔ g.current ≠ [] :=
    SendTimeGroup.isFirstPacket_eq_false_iff.trans (SendTimeGroup.isFinite_completeTime_iff hfinite)
  unfold SendGroups.add see
  split_ifs with hempty hlate hbreaks
  · rw [computeDeltas_first (by simpa [hempty] using hfirst)]
    have hsize : (SendTimeGroup.ofPackets []).size = 0 := rfl
    refine ⟨?_, (List.append_nil _).symm⟩
    simp [ofGroups, accumulate, hempty, hsize, SendTimeGroup.ofPackets_singleton]
  · rw [computeDeltas_late (Bool.eq_false_iff.mp (hfirst.mpr hempty)) hlate]
    exact ⟨rfl, (List.append_nil _).symm⟩
  · have hnot := Bool.eq_false_iff.mp (hfirst.mpr hempty)
    have hnew := (newTimestampGroup_ofGroups (hfirst.mpr hempty)).mpr hbreaks
    have hopened : ((ofGroups g).openGroup p.sendTime p.arrivalTime).accumulate p.arrivalTime
        p.systemTime p.size = ofGroups ⟨g.complete ++ [g.current], [p]⟩ := by
      simp [ofGroups, openGroup, accumulate, SendTimeGroup.ofPackets_singleton]
    rw [differences_concat]
    cases hlast : g.complete.getLast? with
    | none =>
        have hprev : ¬ (ofGroups g).prevTimestampGroup.completeTime.isFinite = true := by
          simp [ofGroups, hlast, SendTimeGroup.ofPackets]
        rw [computeDeltas_second hnot hlate hnew hprev]
        exact ⟨hopened, rfl⟩
    | some last =>
        obtain ⟨hdeltas, hoffset, hback⟩ := deltas_ofGroups ht hc hlast
        have hprev : (ofGroups g).prevTimestampGroup.completeTime.isFinite = true := by
          rw [ofGroups, hlast]
          refine (SendTimeGroup.isFinite_completeTime_iff ?_).mpr
            (hc.nonempty last (List.mem_of_getLast? hlast))
          intro q hq
          refine ht.finite q (hc.sublist.subset (List.mem_append_left _ ?_))
          exact List.mem_flatten.mpr ⟨last, List.mem_of_getLast? hlast, hq⟩
        rw [computeDeltas_deltas ⟨hnot, hlate, hnew, hprev⟩ hoffset hback, hdeltas]
        exact ⟨hopened, rfl⟩
  · have hnew := mt (newTimestampGroup_ofGroups (hfirst.mpr hempty)).mp hbreaks
    rw [computeDeltas_same (Bool.eq_false_iff.mp (hfirst.mpr hempty)) hlate hnew]
    refine ⟨?_, (List.append_nil _).symm⟩
    unfold ofGroups accumulate
    dsimp only
    rw [SendTimeGroup.ofPackets_concat hempty]

/-- On packets in time the deltas are the differences between neighbouring groups of a cut: the
groups hold packets in their order, each begins with the first packet that breaks the one before,
and only packets sent before the group of their time are left out; none if the packets arrive in
the order they were sent. -/
theorem deltas_between_groups (h : InTime ps) :
    reported see fresh ps = differences (SendGroups.ofPackets ps).complete ∧
      (SendGroups.ofPackets ps).Cuts ps ∧
      (ps.Pairwise (fun p q => p.sendTime ≤ q.sendTime) →
        (SendGroups.ofPackets ps).complete.flatten ++ (SendGroups.ofPackets ps).current = ps) := by
  have hrun : fresh.afterPackets ps = ofGroups (.ofPackets ps) ∧
      reported see fresh ps = differences (SendGroups.ofPackets ps).complete := by
    induction ps using List.reverseRecOn with
    | nil => exact ⟨rfl, rfl⟩
    | append_singleton ps p ih =>
        have hbefore := h.of_sublist (List.sublist_append_left ps [p])
        obtain ⟨hstate, hdeltas⟩ := ih hbefore
        obtain ⟨hnext, hgrown⟩ := see_ofGroups hbefore (SendGroups.cuts_ofPackets ps) p
        rw [afterPackets_snoc, hstate, SendGroups.ofPackets_concat, hgrown, reported_concat,
          ← afterPackets, hstate, hdeltas]
        exact ⟨hnext, rfl⟩
  exact ⟨hrun.2, SendGroups.cuts_ofPackets ps, SendGroups.flatten_ofPackets⟩

/-- A packet sent 3 ms after the first, one of its own with a late one after it, and a packet sent
20 ms after another that it catches up with. -/
def burstPackets : List TimedPacket :=
  [packetSent 0 20, packetSent 3 22, packetSent 10 31, packetSent 8 32, packetSent 20 42,
    packetSent 40 43, packetSent 60 60]

theorem deltas_between_groups_burst :
    reported see fresh burstPackets = differences [[packetSent 0 20, packetSent 3 22],
      [packetSent 10 31], [packetSent 20 42, packetSent 40 43]] :=
  (deltas_between_groups ⟨by decide, by decide, by decide⟩).1

end InterArrivalDelta
end ChromeGcc
