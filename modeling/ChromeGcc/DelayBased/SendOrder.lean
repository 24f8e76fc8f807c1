import ChromeGcc.DelayBased.Packets

/-! The order of the groups by send time. A burst moves the send time of a group beyond its
first one, which alone a packet is compared with. -/
namespace ChromeGcc

theorem Timestamp.zero_lt_sub {a b : Timestamp} (ha : a.isFinite = true) (hb : b.isFinite = true) :
    (UnitBase.zero : TimeDelta) < (a - b : TimeDelta) ↔ b < a := by
  cases a with
  | minusInfinity => cases ha
  | plusInfinity => cases ha
  | finite a =>
      cases b with
      | minusInfinity => cases hb
      | plusInfinity => cases hb
      | finite b =>
          rw [Timestamp.finite_sub, UnitBase.zero, UnitBase.finite_lt_finite, UnitBase.finite_lt_finite]
          omega

namespace InterArrivalDelta
variable {s : InterArrivalDelta} {p : TimedPacket}

/-- The packet completes the current group, and neither Reset nor the count of reordered
groups keeps it from opening the next. -/
def Completing (s : InterArrivalDelta) (p : TimedPacket) : Prop :=
  s.Opens p ∧ (s.prevTimestampGroup.completeTime.isFinite = true →
    ¬ s.ArrivalOffset ∧ ¬ s.groupDeltas.arrivalTimeDelta < .zero)

/-- A packet that opens a group was sent after all packets of the current one. -/
def OpensLater (s : InterArrivalDelta) (p : TimedPacket) : Prop :=
  s.Completing p → s.currentTimestampGroup.sendTime < p.sendTime

instance : Decidable (s.Completing p) := inferInstanceAs (Decidable (_ ∧ (_ → _)))
instance : Decidable (s.OpensLater p) := inferInstanceAs (Decidable (_ → _))

/-- A group with packets has a send time. -/
def Dated (s : InterArrivalDelta) : Prop :=
  s.currentTimestampGroup.isFirstPacket = false → s.currentTimestampGroup.sendTime.isFinite = true

theorem Dated.step (h : Dated s) (hp : p.Finite) : Dated (s.see p).1 := by
  have hway := s.way_see p
  generalize s.see p = step at hway
  cases hway with
  | starts => exact fun _ => hp.sendTime
  | late => exact h
  | joins hnot => exact fun _ => Timestamp.isFinite_max (h hnot) hp.sendTime
  | second => exact fun _ => hp.sendTime
  | resets => exact fun hnot => by cases hnot
  | counts => exact h
  | deltas => exact fun _ => hp.sendTime

theorem dated_afterPackets {ps : List TimedPacket} (finite : ∀ p ∈ ps, p.Finite) :
    Dated (fresh.afterPackets ps) := by
  induction ps using List.reverseRecOn with
  | nil => exact fun hnot => by cases hnot
  | append_singleton ps p ih =>
      rw [afterPackets_snoc]
      exact (ih fun q hq => finite q (List.mem_append_left _ hq)).step (finite p (by simp))

/-- The current group is later than the previous one. -/
structure InOrder (s : InterArrivalDelta) : Prop where
  notFirst : s.currentTimestampGroup.isFirstPacket = false
  prevFinite : s.prevTimestampGroup.sendTime.isFinite = true
  later : s.prevTimestampGroup.sendTime < s.currentTimestampGroup.sendTime

/-- The groups are in order once there is a previous one. -/
def Forward (s : InterArrivalDelta) : Prop :=
  s.prevTimestampGroup.completeTime.isFinite = true → s.InOrder

/-- A group opened by a later packet, whatever was counted before. -/
theorem InOrder.opened (hs : Dated s) (hp : p.Finite) (hopens : s.Opens p)
    (hlater : s.currentTimestampGroup.sendTime < p.sendTime) (n : Int) :
    InOrder ({ s with numConsecutiveReorderedPackets := n }.opened p) :=
  ⟨SendTimeGroup.isFirstPacket_eq_false_iff.mpr hp.arrivalTime, hs hopens.1, hlater⟩

theorem InOrder.joined (h : s.InOrder) (hp : p.Finite) : (s.joined p).InOrder :=
  ⟨SendTimeGroup.isFirstPacket_eq_false_iff.mpr hp.arrivalTime, h.prevFinite,
    h.later.trans_le (le_max_left _ _)⟩

/-- A packet that opens no group before its time keeps the groups in order. -/
theorem Forward.step (hs : Dated s) (h : Forward s) (hp : p.Finite) (hlater : s.OpensLater p) :
    Forward (s.see p).1 := by
  have hway := s.way_see p
  generalize s.see p = step at hway
  cases hway with
  | starts hfirst =>
      intro hprev
      have hnot := (h hprev).notFirst
      rw [hfirst] at hnot
      cases hnot
  | late => exact h
  | joins => exact fun hprev => (h hprev).joined hp
  | second hopens hprev =>
      have hcompleting : s.Completing p := ⟨hopens, fun h => by rw [hprev] at h; cases h⟩
      exact fun _ => .opened hs hp hopens (hlater hcompleting) _
  | resets => exact fun hprev => by cases hprev
  | counts => exact fun hprev => ⟨(h hprev).notFirst, (h hprev).prevFinite, (h hprev).later⟩
  | deltas hopens _ hoff hback =>
      exact fun _ => .opened hs hp hopens (hlater ⟨hopens, fun _ => ⟨hoff, hback⟩⟩) _

/-- The deltas that a call returns are those between the groups that it finds. -/
theorem mem_see {d : GroupDeltas} (h : d ∈ (s.see p).2) :
    s.Opens p ∧ s.prevTimestampGroup.completeTime.isFinite = true ∧ d = s.groupDeltas := by
  have hway := s.way_see p
  generalize s.see p = step at hway h
  cases hway with
  | deltas hopens hprev =>
      cases h
      exact ⟨hopens, hprev, rfl⟩
  | _ => cases h

/-- A packet that opens a group makes the current group the previous one. -/
theorem see_completing (h : s.Completing p) : ∃ n,
    (s.see p).1 = { s with numConsecutiveReorderedPackets := n }.opened p := by
  have hway := s.way_see p
  generalize s.see p = step at hway
  cases hway with
  | starts hfirst =>
      have hnot := h.1.1
      rw [hfirst] at hnot
      cases hnot
  | late hlate => exact absurd hlate h.1.2.1
  | joins _ _ hnot => exact absurd h.1 hnot
  | second => exact ⟨_, rfl⟩
  | resets _ hprev hresets =>
      obtain ⟨hoff, hback⟩ := h.2 hprev
      rcases hresets.2 with hoffset | hmany
      · exact absurd hoffset hoff
      · exact absurd hmany.1 hback
  | counts _ hprev _ hback => exact absurd hback (h.2 hprev).2
  | deltas => exact ⟨_, rfl⟩

/-- Every packet of a run finds the condition met. -/
def GroupsInOrder (ps : List TimedPacket) : Prop :=
  ∀ done p, done ++ [p] <+: ps → (fresh.afterPackets done).OpensLater p

theorem groupsInOrder_nil : GroupsInOrder [] :=
  fun _ _ hd => absurd (List.prefix_nil.mp hd) (by simp)

theorem groupsInOrder_snoc {ps : List TimedPacket} :
    GroupsInOrder (ps ++ [p]) ↔ GroupsInOrder ps ∧ (fresh.afterPackets ps).OpensLater p := by
  constructor
  · intro h
    exact ⟨fun done q hd => h done q (hd.trans (List.prefix_append ps [p])), h ps p (List.prefix_refl _)⟩
  · rintro ⟨hbefore, hlater⟩ done q hd
    rcases List.prefix_concat_iff.mp hd with heq | hd
    · obtain ⟨rfl, hq⟩ := List.append_inj' heq rfl
      cases hq
      exact hlater
    · exact hbefore done q hd

theorem forward_afterPackets {ps : List TimedPacket} (finite : ∀ p ∈ ps, p.Finite)
    (h : GroupsInOrder ps) : Forward (fresh.afterPackets ps) := by
  induction ps using List.reverseRecOn with
  | nil => exact fun hprev => by cases hprev
  | append_singleton ps p ih =>
      have hfinite : ∀ q ∈ ps, q.Finite := fun q hq => finite q (List.mem_append_left _ hq)
      obtain ⟨hbefore, hlater⟩ := groupsInOrder_snoc.mp h
      rw [afterPackets_snoc]
      exact (ih hfinite hbefore).step (dated_afterPackets hfinite) (finite p (by simp)) hlater

/-- Where every packet that opens a group was sent after the group before, all send deltas are
positive; of a group of one packet they are only then. -/
theorem send_deltas_positive {ps : List TimedPacket} (finite : ∀ p ∈ ps, p.Finite) :
    (GroupsInOrder ps → ∀ done p, done ++ [p] <+: ps →
      ∀ d ∈ ((fresh.afterPackets done).see p).2, .zero < d.sendTimeDelta) ∧
    ∀ done p q, done ++ [p] ++ [q] <+: ps → (fresh.afterPackets done).Completing p →
      ∀ d ∈ ((fresh.afterPackets (done ++ [p])).see q).2,
        (.zero < d.sendTimeDelta ↔ (fresh.afterPackets done).OpensLater p) := by
  constructor
  · intro h done p hd d hmem
    have hbefore : done <+: ps := (List.prefix_append done [p]).trans hd
    have hfinite : ∀ q ∈ done, q.Finite := fun q hq => finite q (hbefore.subset hq)
    have hforward := forward_afterPackets hfinite fun first q hq => h first q (hq.trans hbefore)
    obtain ⟨hopens, hprev, rfl⟩ := mem_see hmem
    have horder := hforward hprev
    have hdated := dated_afterPackets hfinite hopens.1
    exact (Timestamp.zero_lt_sub hdated horder.prevFinite).mpr horder.later
  · intro done p q hd hcompleting d hmem
    have hbefore : done ++ [p] <+: ps := (List.prefix_append (done ++ [p]) [q]).trans hd
    have hp : p.Finite := finite p (hbefore.subset (by simp))
    have hdated : Dated (fresh.afterPackets done) :=
      dated_afterPackets fun q hq => finite q (hbefore.subset (List.mem_append_left _ hq))
    obtain ⟨n, hopened⟩ := see_completing hcompleting
    obtain ⟨-, -, rfl⟩ := mem_see hmem
    rw [afterPackets_snoc, hopened]
    have hdelta := Timestamp.zero_lt_sub hp.sendTime (hdated hcompleting.1.1)
    exact hdelta.trans ⟨fun h _ => h, fun h => h hcompleting⟩

/-- A packet whose arrival is read from the system clock, in milliseconds. -/
def packetSent (sendMs arrivalMs : Int) : TimedPacket where
  sendTime := .finite (1000 * sendMs)
  arrivalTime := .finite (1000 * arrivalMs)
  systemTime := .finite (1000 * arrivalMs)

/-- Three packets, each in a group of its own: the third brings the deltas of the first two. -/
theorem send_deltas_positive_in_order :
    GroupsInOrder [packetSent 0 0, packetSent 10 100, packetSent 20 200] ∧
      ((fresh.afterPackets [packetSent 0 0, packetSent 10 100]).see (packetSent 20 200)).2 =
        some ⟨.millis 10, .millis 100, 0⟩ ∧
      .zero < TimeDelta.millis 10 := by
  have horder : GroupsInOrder [packetSent 0 0, packetSent 10 100, packetSent 20 200] := by
    change GroupsInOrder ([] ++ [packetSent 0 0] ++ [packetSent 10 100] ++ [packetSent 20 200])
    rw [groupsInOrder_snoc, groupsInOrder_snoc, groupsInOrder_snoc]
    exact ⟨⟨⟨groupsInOrder_nil, by decide⟩, by decide⟩, by decide⟩
  have hdeltas : ((fresh.afterPackets [packetSent 0 0, packetSent 10 100]).see (packetSent 20 200)).2 =
      some ⟨.millis 10, .millis 100, 0⟩ := by
    decide +kernel
  refine ⟨horder, hdeltas, ?_⟩
  exact (send_deltas_positive (by decide)).1 horder [packetSent 0 0, packetSent 10 100]
    (packetSent 20 200) (List.prefix_refl _) _ hdeltas

/-- A first group that a burst extends to 50 ms, and a packet sent at 10 ms after it. -/
def reorderedBurst : List TimedPacket := [packetSent 0 0, packetSent 50 1, packetSent 10 100]

/-- The packet opens a group, and the next one brings the deltas from 50 back to 10 ms. -/
theorem send_delta_negative :
    (∀ p ∈ reorderedBurst ++ [packetSent 20 200], p.Finite) ∧
      ((reorderedBurst ++ [packetSent 20 200]).Pairwise fun p q =>
        p.arrivalTime ≤ q.arrivalTime ∧ p.systemTime ≤ q.systemTime) ∧
      ((fresh.afterPackets reorderedBurst).see (packetSent 20 200)).2.map GroupDeltas.sendTimeDelta =
        some (TimeDelta.millis (-40)) ∧
      ¬ .zero < TimeDelta.millis (-40) := by
  decide +kernel

end InterArrivalDelta
end ChromeGcc
