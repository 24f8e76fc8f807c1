import ChromeGcc.DelayBased.Drift
import ChromeGcc.DelayBased.Packets

/-! The sums of the group deltas over a run of ComputeDeltas that never resets: the send times,
the arrival times and the sizes all lead from the first completed group to the latest. -/
namespace ChromeGcc
open UnitBase

theorem toInt32_of_lt {n : Nat} (h : n < 2147483648) : toInt32 n = n := by
  have hmod : (n : Int) % 4294967296 = n := Int.emod_eq_of_lt (by omega) (by omega)
  rw [toInt32, hmod, if_pos (by omega)]

namespace InterArrivalDelta
open Machine DelayBasedBwe

/-- Packet groups, and the first of them that was seen complete. -/
structure WatchedGroups where
  groups : InterArrivalDelta
  first : Option SendTimeGroup := none
  deriving DecidableEq, Repr

/-- ComputeDeltas, unless it calls Reset. -/
def watchGroups (w : WatchedGroups) (p : TimedPacket) :
    Except Unit (WatchedGroups × Option GroupDeltas) :=
  if w.groups.Resets p.sendTime p.arrivalTime then .error ()
  else
    .ok ({ groups := (w.groups.see p).1, first := w.first.or (w.groups.see p).1.completed },
      (w.groups.see p).2)

theorem watchGroups_ok {w w' : WatchedGroups} {p : TimedPacket} {deltas : Option GroupDeltas}
    (h : watchGroups w p = .ok (w', deltas)) :
    ¬ w.groups.Resets p.sendTime p.arrivalTime ∧ w'.groups = (w.groups.see p).1 ∧
      w'.first = w.first.or w'.groups.completed ∧ deltas = (w.groups.see p).2 := by
  unfold watchGroups at h
  split_ifs at h with hreset
  cases h
  exact ⟨hreset, rfl, rfl, rfl⟩

section Sizes
variable {s : InterArrivalDelta} {first : Option SendTimeGroup} {deltas : List GroupDeltas}

/-- The size deltas so far lead from the first completed group to the latest, both sizes cut
to an int. -/
def SizesTelescope (first : Option SendTimeGroup) (deltas : List GroupDeltas) (s : InterArrivalDelta) :
    Prop :=
  ∀ g ∈ first, ∀ last ∈ s.completed,
    (deltas.map GroupDeltas.packetSizeDelta).sum = toInt32 last.size - toInt32 g.size

theorem SizesTelescope.step (hsizes : SizesTelescope first deltas s) (h : Telescopes first deltas s)
    {p : TimedPacket} (hr : ¬ s.Resets p.sendTime p.arrivalTime) :
    SizesTelescope (first.or (s.see p).1.completed) (deltas ++ (s.see p).2.toList) (s.see p).1 := by
  rcases computeDeltas_cases hr p.systemTime p.size with
    ⟨hstays, -⟩ | ⟨hcompletes, -⟩
  · have hcompleted : (s.see p).1.completed = s.completed := hstays.completed_eq
    have hnone : (s.see p).2 = none := hstays.deltas
    rw [hcompleted, h.first_or, hnone, Option.toList_none, List.append_nil]
    unfold SizesTelescope
    rw [hcompleted]
    exact hsizes
  · have hcompleted : (s.see p).1.completed = some s.currentTimestampGroup :=
      hcompletes.completed_eq (h.current.resolve_left hcompletes.notFirst)
    unfold SizesTelescope
    rw [hcompleted]
    intro g hg last hlast
    cases hlast
    refine h.sum_completes hcompletes (fun g => toInt32 g.size) _ ?_ hsizes g hg
    intro last hlast
    obtain ⟨-, rfl⟩ := completed_eq_some.mp hlast
    rfl

end Sizes

section Runs
variable {length : TimeDelta} {ps : List TimedPacket} {deltas : List (Option GroupDeltas)}
  {w : WatchedGroups}

/-- The run is one of ComputeDeltas. -/
theorem groups_of_trace
    (h : Trace watchGroups { groups := { sendTimeGroupLength := length } } ps deltas w) :
    w.groups = ({ sendTimeGroupLength := length } : InterArrivalDelta).afterPackets ps := by
  induction h with
  | nil => rfl
  | snoc _ hstep ih =>
      obtain ⟨-, hgroups, -, -⟩ := watchGroups_ok hstep
      rw [afterPackets_snoc, ← ih]
      exact hgroups

theorem telescopes_of_trace
    (h : Trace watchGroups { groups := { sendTimeGroupLength := length } } ps deltas w)
    (hf : ∀ p ∈ ps, p.Finite) :
    Telescopes w.first (computed deltas) w.groups ∧ SizesTelescope w.first (computed deltas) w.groups := by
  induction h with
  | nil =>
      refine ⟨telescopes_fresh length, ?_⟩
      intro g hg
      cases hg
  | snoc _ hstep ih =>
      obtain ⟨htelescopes, hsizes⟩ := ih fun p hp => hf p (List.mem_append_left _ hp)
      have hp := hf _ (List.mem_append_right _ (List.mem_singleton_self _))
      obtain ⟨hr, hgroups, hfirst, hdeltas⟩ := watchGroups_ok hstep
      rw [computed_snoc, hfirst, hdeltas, hgroups]
      exact ⟨htelescopes.step hr hp.sendTime hp.arrivalTime _ _, hsizes.step htelescopes hr⟩

/-- As long as nothing resets the groups, the deltas add up to the step from the first completed
group to the latest: its send time, its complete time, and its size as an int. -/
theorem group_deltas_telescope
    (h : Trace watchGroups { groups := { sendTimeGroupLength := length } } ps deltas w)
    (hf : ∀ p ∈ ps, p.Finite) :
    w.groups = ({ sendTimeGroupLength := length } : InterArrivalDelta).afterPackets ps ∧
    (w.groups.completed = none → computed deltas = []) ∧
    ∀ first ∈ w.first, ∀ last ∈ w.groups.completed,
      ((computed deltas).map fun d => d.sendTimeDelta.us).sum = last.sendTime.us - first.sendTime.us ∧
      ((computed deltas).map fun d => d.arrivalTimeDelta.us).sum =
        last.completeTime.us - first.completeTime.us ∧
      ((computed deltas).map fun d => d.packetSizeDelta).sum = toInt32 last.size - toInt32 first.size ∧
      (first.size < 2147483648 → last.size < 2147483648 →
        ((computed deltas).map fun d => d.packetSizeDelta).sum = last.size - first.size) := by
  obtain ⟨htelescopes, hsizes⟩ := telescopes_of_trace h hf
  refine ⟨groups_of_trace h, fun hnone => htelescopes.start (htelescopes.none_iff.mpr hnone), ?_⟩
  intro first hfirst last hlast
  have hsize := hsizes first hfirst last hlast
  refine ⟨htelescopes.sendTime first hfirst last hlast, htelescopes.arrivalTime first hfirst last hlast,
    hsize, ?_⟩
  intro hfew hfew'
  rw [toInt32_of_lt hfew, toInt32_of_lt hfew'] at hsize
  exact hsize

end Runs

section Reordered

/-- Four groups of one packet each, ten milliseconds apart, with a reordered packet among them. -/
def reorderedGroups : List TimedPacket :=
  [⟨.micros 0, .micros 20000, .micros 20000, 100⟩, ⟨.micros 10000, .micros 31000, .micros 31000, 300⟩,
   ⟨.micros 5000, .micros 33000, .micros 33000, 500⟩, ⟨.micros 20000, .micros 42000, .micros 42000, 700⟩,
   ⟨.micros 30000, .micros 53000, .micros 53000, 900⟩]

theorem reorderedGroups_run : (run watchGroups { groups := fresh } reorderedGroups).isOk = true := by
  decide +kernel

theorem group_deltas_telescope_reordered :
    ∃ deltas w first last, Trace watchGroups { groups := fresh } reorderedGroups deltas w ∧
      first ∈ w.first ∧ last ∈ w.groups.completed ∧ first.size = 100 ∧ last.size = 700 ∧
      ((computed deltas).map fun d => d.packetSizeDelta).sum = 600 := by
  have h := trace_final reorderedGroups_run
  have hfinite : ∀ p ∈ reorderedGroups, p.Finite := by decide
  refine ⟨_, _, _, _, h, rfl, rfl, rfl, rfl, ?_⟩
  exact ((group_deltas_telescope h hfinite).2.2 _ rfl _ rfl).2.2.2 (by decide) (by decide)

end Reordered
end InterArrivalDelta
end ChromeGcc
