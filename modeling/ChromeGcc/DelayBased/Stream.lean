import ChromeGcc.DelayBased.Smoothing

/-! The delay-based estimation as a function of the packets that it was fed: its groups and its
detector are those of the packets since the stream was last silent for two seconds. -/
namespace ChromeGcc
open FloatArith TrendlineEstimator

/-- The stream after one more packet: a silence of more than two seconds ends the old one. -/
def continueStream (stream : List TimedPacket) (p : TimedPacket) : List TimedPacket :=
  match stream.getLast? with
  | none => [p]
  | some last => if p.systemTime - last.systemTime > kStreamTimeOut then [p] else stream ++ [p]

/-- The packets since the last silence. -/
def currentStream (ps : List TimedPacket) : List TimedPacket := ps.foldl continueStream []

theorem currentStream_concat (ps : List TimedPacket) (p : TimedPacket) :
    currentStream (ps ++ [p]) = continueStream (currentStream ps) p := List.foldl_concat _ _ _ _

theorem getLast?_continueStream (stream : List TimedPacket) (p : TimedPacket) :
    (continueStream stream p).getLast? = some p := by
  unfold continueStream
  cases stream.getLast? with
  | none => rfl
  | some last =>
      dsimp only
      split_ifs <;> simp

theorem getLast?_currentStream (ps : List TimedPacket) : (currentStream ps).getLast? = ps.getLast? := by
  induction ps using List.reverseRecOn with
  | nil => rfl
  | append_singleton ps p _ => rw [currentStream_concat, getLast?_continueStream, List.getLast?_concat]

theorem mem_of_mem_continueStream {stream : List TimedPacket} {p q : TimedPacket}
    (h : q ∈ continueStream stream p) : q ∈ stream ∨ q = p := by
  unfold continueStream at h
  split at h
  · exact .inr (List.mem_singleton.mp h)
  · split_ifs at h
    · exact .inr (List.mem_singleton.mp h)
    · simpa using h

theorem mem_of_mem_currentStream {ps : List TimedPacket} {q : TimedPacket}
    (h : q ∈ currentStream ps) : q ∈ ps := by
  induction ps using List.reverseRecOn with
  | nil => cases h
  | append_singleton ps p ih =>
      rw [currentStream_concat] at h
      rw [List.mem_append, List.mem_singleton]
      exact (mem_of_mem_continueStream h).imp_left ih

section Calls
variable {F : Type} [FloatArith F]

/-- The groups after a packet, and the calls of UpdateTrendline so far. -/
def groupPacket (s : InterArrivalDelta × List (DelayCall F)) (p : TimedPacket) :
    InterArrivalDelta × List (DelayCall F) :=
  ((s.1.see p).1, s.2 ++ (s.1.see p).2.toList.map fun deltas =>
    ⟨ofInt deltas.arrivalTimeDelta.ms, ofInt deltas.sendTimeDelta.ms, p.arrivalTime.ms⟩)

/-- The calls of UpdateTrendline that a stream of packets leads to. -/
def groupCalls (F : Type) [FloatArith F] (stream : List TimedPacket) : List (DelayCall F) :=
  (stream.foldl groupPacket (InterArrivalDelta.fresh, [])).2

theorem foldl_groupPacket (stream : List TimedPacket) :
    stream.foldl groupPacket (InterArrivalDelta.fresh, ([] : List (DelayCall F))) =
      (InterArrivalDelta.fresh.afterPackets stream, groupCalls F stream) := by
  induction stream using List.reverseRecOn with
  | nil => rfl
  | append_singleton stream p ih =>
      unfold groupCalls
      rw [InterArrivalDelta.afterPackets_snoc, List.foldl_concat, ih]
      rfl

theorem groupCalls_concat (stream : List TimedPacket) (p : TimedPacket) :
    groupCalls F (stream ++ [p]) = groupCalls F stream ++
      ((InterArrivalDelta.fresh.afterPackets stream).see p).2.toList.map fun deltas =>
        ⟨ofInt deltas.arrivalTimeDelta.ms, ofInt deltas.sendTimeDelta.ms, p.arrivalTime.ms⟩ := by
  rw [groupCalls, List.foldl_concat, foldl_groupPacket]
  rfl

/-- Each call has the time of a packet. -/
theorem exists_of_mem_groupCalls {stream : List TimedPacket} {c : DelayCall F}
    (h : c ∈ groupCalls F stream) : ∃ p ∈ stream, c.arrivalTimeMs = p.arrivalTime.ms := by
  induction stream using List.reverseRecOn with
  | nil => cases h
  | append_singleton stream p ih =>
      rw [groupCalls_concat, List.mem_append] at h
      rcases h with h | h
      · obtain ⟨q, hq, htime⟩ := ih h
        exact ⟨q, List.mem_append_left _ hq, htime⟩
      · obtain ⟨deltas, -, rfl⟩ := List.mem_map.mp h
        exact ⟨p, by simp, rfl⟩

end Calls

namespace DelayBasedBwe
variable {F : Type} [FloatArith F] {d : DelayBasedBwe F} {stream : List TimedPacket}

/-- The estimation has the groups and the detector of a stream. -/
structure Streams (d : DelayBasedBwe F) (stream : List TimedPacket) : Prop where
  noAudio : d.separateAudio.enabled = false
  active : d.activeIsAudio = false
  lastSeen : d.lastSeenPacket = (stream.getLast?.map (·.systemTime)).getD .minusInfinity
  groups : d.audioInterArrivalDelta = InterArrivalDelta.fresh.afterPackets stream
  detector : d.videoDelayDetector = (afterDelays F (groupCalls F stream)).1

/-- The reset on a timeout, before the packet that continues the stream. -/
theorem Streams.resetIfTimedOut (h : d.Streams stream)
    (hlast : ∀ last ∈ stream.getLast?, last.systemTime.isFinite = true) (p : TimedPacket) :
    ∃ kept, continueStream stream p = kept ++ [p] ∧
      (d.resetIfTimedOut p.systemTime).separateAudio.enabled = false ∧
      (d.resetIfTimedOut p.systemTime).activeIsAudio = false ∧
      (d.resetIfTimedOut p.systemTime).audioInterArrivalDelta =
        InterArrivalDelta.fresh.afterPackets kept ∧
      (d.resetIfTimedOut p.systemTime).videoDelayDetector = (afterDelays F (groupCalls F kept)).1 := by
  unfold DelayBasedBwe.resetIfTimedOut continueStream
  rw [h.lastSeen]
  cases hseen : stream.getLast? with
  | none =>
      rw [Option.map_none, Option.getD_none, if_pos (.inl rfl)]
      exact ⟨[], rfl, h.noAudio, rfl, rfl, rfl⟩
  | some last =>
      have hfinite : ¬ last.systemTime.isInfinite = true := by
        obtain ⟨v, hv⟩ := UnitBase.isFinite_iff.mp (hlast last hseen)
        rw [hv]
        exact Bool.false_ne_true
      rw [Option.map_some, Option.getD_some]
      by_cases hsilent : p.systemTime - last.systemTime > kStreamTimeOut
      · rw [if_pos (.inr hsilent)]
        exact ⟨[], if_pos hsilent, h.noAudio, rfl, rfl, rfl⟩
      · rw [if_neg (not_or.mpr ⟨hfinite, hsilent⟩)]
        exact ⟨stream, if_neg hsilent, h.noAudio, h.active, h.groups, h.detector⟩

theorem Streams.incomingPacketFeedback (h : d.Streams stream)
    (hlast : ∀ last ∈ stream.getLast?, last.systemTime.isFinite = true) (packet : PacketResult)
    (t : Timestamp) : (d.incomingPacketFeedback packet t).Streams
      (continueStream stream (timedPacket packet t)) := by
  have hreset := h.resetIfTimedOut hlast (timedPacket packet t)
  rw [show (timedPacket packet t).systemTime = t from rfl] at hreset
  obtain ⟨kept, hkept, hno, hactive, hgroups, hdetector⟩ := hreset
  rw [incomingPacketFeedback_video h.noAudio, hkept, hgroups, hdetector]
  refine ⟨hno, hactive, ?_, ?_, ?_⟩
  · rw [List.getLast?_concat]
    rfl
  · rw [InterArrivalDelta.afterPackets_snoc]
  · rw [groupCalls_concat]
    cases ((InterArrivalDelta.fresh.afterPackets kept).see (timedPacket packet t)).2 with
    | none =>
        rw [Option.toList_none, List.map_nil, List.append_nil]
        rfl
    | some deltas =>
        rw [Option.toList_some, List.map_singleton, afterDelays_snoc]
        rfl

end DelayBasedBwe
end ChromeGcc
