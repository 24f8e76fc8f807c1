import ChromeGcc.DelayBased.Spacing
import ChromeGcc.Peers.Falling

/-! How often the Receiver asks for less: not within 200 ms of a REMB before, unless the throughput
has fallen below half of what that one asked for. -/
namespace ChromeGcc
open Machine UnitBase FloatArith

namespace GoogCcNetworkController
variable {K : Type} [Field K] [LinearOrder K] [FloorRing K] {r : Rounding K}
  {g : GoogCcNetworkController (Double r)}

/-- The throughput that an estimate needs is known. -/
structure Knows (g : GoogCcNetworkController (Double r)) : Prop where
  rtt : g.delayBasedBwe.rateControl.rtt = kDefaultRtt
  floor : g.acknowledgedBitrateEstimator.bitrateEstimator.estimateFloor = .zero
  measured : g.delayBasedBwe.rateControl.bitrateIsInitialized = true →
    g.acknowledgedBitrateEstimator.bitrate.isSome = true

theorem knows_new (config : NetworkControllerConfig (Double r)) : Knows (new config) where
  rtt := rfl
  floor := rfl
  measured h := by cases h

theorem Knows.onTransportPacketsFeedback (h : g.Knows) (hall : g.packetFeedbackOnly = false)
    (packet : GCCDataPacket) {env : ReceiverEnv} (hfinite : env.receiveTime.isFinite = true) :
    (g.onTransportPacketsFeedback (Receiver.feedbackOf packet env)).Knows ∧
      DelayBasedBwe.Spaces g.delayBasedBwe.rateControl
        (g.onTransportPacketsFeedback (Receiver.feedbackOf packet env)).delayBasedBwe.activeState
        (g.onTransportPacketsFeedback
          (Receiver.feedbackOf packet env)).acknowledgedBitrateEstimator.bitrate env.feedbackTime
        (g.onTransportPacketsFeedback (Receiver.feedbackOf packet env)).delayBasedBwe.rateControl := by
  have hmsg : ¬ (Receiver.feedbackOf packet env).packetFeedbacks.isEmpty = true := Bool.false_ne_true
  obtain ⟨-, hack, hbwe, -⟩ := onTransportPacketsFeedback_fields hall hmsg
  have hsorted : ¬ (Receiver.feedbackOf packet env).sortedByReceiveTime.isEmpty = true := by
    rw [Receiver.sortedByReceiveTime_feedbackOf hfinite]
    exact Bool.false_ne_true
  have hspaces := g.delayBasedBwe.spaces_incomingPacketFeedbackVector
    (g.acknowledgedAfter (Receiver.feedbackOf packet env)).bitrate hsorted
  obtain ⟨hfloor, hknown⟩ := AcknowledgedBitrateEstimator.known_incomingPackets h.floor
    (Receiver.feedbackOf packet env).sortedByReceiveTime
  rw [← hbwe, ← hack] at hspaces
  refine ⟨⟨hspaces.stamps.rtt.trans h.rtt, ?_, ?_⟩, hspaces⟩
  · rw [hack]
    exact hfloor
  · intro hinit
    rcases hspaces.known hinit with hbefore | hnow
    · rw [hack]
      exact hknown (h.measured hbefore)
    · exact hnow

end GoogCcNetworkController

/-- What is long past at a time was longer past before it. -/
theorem waited_since {t : Int} {u v : Timestamp}
    (h : .millis 200 ≤ ((.finite t : Timestamp) - v : TimeDelta)) (hu : u.isFinite = true)
    (huv : u ≤ v) : .millis 200 ≤ ((.finite t : Timestamp) - u : TimeDelta) := by
  obtain ⟨u, rfl⟩ := isFinite_iff.mp hu
  cases v with
  | minusInfinity => simp at huv
  | plusInfinity => exact absurd h (not_le.mpr (minusInfinity_lt_finite _))
  | finite v =>
      rw [finite_le_finite] at huv
      rw [Timestamp.finite_sub] at h ⊢
      exact h.trans (finite_le_finite.mpr (by omega))

namespace Link

/-- The REMBs that were sent, each with the time of the feedback that it answers. -/
def timedRembs (os : List LinkView) : List (Timestamp × DataRate) :=
  os.flatMap fun o =>
    match o.event with
    | some (.receive env _) => (rembs o.traffic.sent).map fun rate => (env.feedbackTime, rate)
    | _ => []

section Loop
variable {K : Type} [Field K] [LinearOrder K] [FloorRing K] {r : Rounding K}
  {events : List LinkEvent} {os : List LinkView} {s s' : Link (Double r)}
  {o : LinkView} {senderConfig receiverConfig : NetworkControllerConfig (Double r)}

theorem timedRembs_concat (os : List LinkView) (o : LinkView) :
    timedRembs (os ++ [o]) = timedRembs os ++ timedRembs [o] := List.flatMap_append

theorem timedRembs_received {env : ReceiverEnv} {text : List Char}
    (h : o.event = some (.receive env text)) :
    timedRembs [o] = (rembs o.traffic.sent).map fun rate => (env.feedbackTime, rate) := by
  unfold timedRembs
  rw [List.flatMap_singleton, h]

theorem Does.sends_timedRembs {event : LinkEvent} (h : s.Does event s' o) :
    rembs s'.reports.sent = rembs s.reports.sent ++ (timedRembs [o]).map Prod.snd := by
  cases h with
  | poll step => exact (List.append_nil _).symm
  | deliverData delivers received =>
      rw [Channel.send_sent, rembs_append, timedRembs_received rfl, List.map_map]
      simp
  | dropData drops => exact (List.append_nil _).symm
  | deliverReport delivers received =>
      rw [delivers.sent]
      exact (List.append_nil _).symm
  | dropReport drops =>
      rw [drops.sent]
      exact (List.append_nil _).symm

theorem Idles.timedRembs {event : LinkEvent} (h : s.Idles event s' o) : timedRembs [o] = [] := by
  unfold Link.timedRembs
  rw [List.flatMap_singleton]
  split
  · next env text hevent => exact absurd hevent (h.unread env text)
  · rfl

/-- They are the REMBs sent. -/
theorem timedRembs_of_trace (h : Trace step (new senderConfig receiverConfig) events os s) :
    (timedRembs os).map Prod.snd = rembs s.reports.sent := by
  induction h with
  | nil => rfl
  | snoc h hs ih => rw [timedRembs_concat, List.map_append, ih, (does_of_step hs).sends_timedRembs]

/-- Each was sent while a packet was handled. -/
theorem exists_timing_of_mem {p : Timestamp × DataRate} (h : p ∈ timedRembs os) :
    ∃ q ∈ timings os, q.systemTime = p.1 := by
  obtain ⟨o, ho, hp⟩ := List.mem_flatMap.mp h
  cases he : o.event with
  | none => simp [he] at hp
  | some event =>
      cases event with
      | receive env text =>
          rw [he] at hp
          obtain ⟨rate, -, rfl⟩ := List.mem_map.mp hp
          have hdelivery : ((GCCDataPacketParser.unSerialize text {}).2, env) ∈ deliveries os :=
            List.mem_filterMap.mpr ⟨o, ho, by rw [he]⟩
          exact ⟨_, List.mem_map_of_mem hdelivery, rfl⟩
      | deliver index now => simp [he] at hp
      | drop index => simp [he] at hp

/-- The changes of the estimate after the first REMB are stamped, and the throughput is known. -/
structure Spaced (os : List LinkView) (s : Link (Double r)) : Prop where
  knows : s.receiver.gccControler.Knows
  stamped : ∀ p ∈ (timedRembs os).tail,
    p.1 ≤ s.receiver.gccControler.delayBasedBwe.rateControl.timeLastBitrateChange

theorem Spaced.silent (h : Spaced os s) (ho : timedRembs [o] = []) (hr : s'.receiver = s.receiver) :
    Spaced (os ++ [o]) s' := by
  constructor
  · rw [hr]
    exact h.knows
  · rw [timedRembs_concat, ho, List.append_nil, hr]
    exact h.stamped

/-- A REMB after others changes the estimate. -/
theorem Judged.changed (h : Judged os s) (h' : Judged (os ++ [o]) s') {before rate : DataRate}
    (hlast : (reportedRates os).getLast? = some before) (hreported : o.reported = some rate)
    (hne : rate ≠ before) :
    s.receiver.gccControler.delayBasedBwe.rateControl.bitrateIsInitialized = true ∧
      s.receiver.gccControler.delayBasedBwe.rateControl.currentBitrate = before ∧
      s'.receiver.gccControler.delayBasedBwe.rateControl.currentBitrate ≠
        s.receiver.gccControler.delayBasedBwe.rateControl.currentBitrate := by
  obtain ⟨hinit, hstanding⟩ := h.standing before hlast
  have hrate : (reportedRates (os ++ [o])).getLast? = some rate := by
    rw [reportedRates_concat, hreported, Option.toList_some, List.getLast?_concat]
  refine ⟨hinit, hstanding, ?_⟩
  rw [(h'.standing rate hrate).2, hstanding]
  exact hne

/-- What a handled packet does to the estimate in time, and when. -/
theorem Does.spaces {event : LinkEvent} (h : s.Does event s' o) (htexts : s.TextsData)
    (hclocked : Clocked (os ++ [o])) (hj : Judged os s) (hknows : s.receiver.gccControler.Knows) :
    (timedRembs [o] = [] ∧ s'.receiver = s.receiver) ∨
      ∃ now : Int, (∀ p ∈ timedRembs [o], p.1 = .finite now) ∧
        (∀ p ∈ timedRembs os, p.1 ≤ .finite now) ∧
        s.receiver.gccControler.delayBasedBwe.rateControl.Settled now ∧
        s'.receiver.gccControler.Knows ∧
        DelayBasedBwe.Spaces s.receiver.gccControler.delayBasedBwe.rateControl
          s'.receiver.gccControler.delayBasedBwe.activeState
          s'.receiver.gccControler.acknowledgedBitrateEstimator.bitrate (.finite now)
          s'.receiver.gccControler.delayBasedBwe.rateControl := by
  rcases h.idles_or_hears_data htexts with hidle | ⟨env, packet, hhears⟩
  · exact .inl ⟨hidle.timedRembs, hidle.receiver⟩
  · right
    have htimings := timings_received os hhears.event
    obtain ⟨hfinite, hlast⟩ := hclocked.last htimings
    obtain ⟨now, hnow⟩ := isFinite_iff.mp hfinite.systemTime
    change env.feedbackTime = .finite now at hnow
    obtain ⟨hkept, hspaces⟩ := hknows.onTransportPacketsFeedback hj.rateKept.allReports
      packet.written hfinite.arrivalTime
    rw [← hhears.controller, hnow] at hspaces
    rw [← hhears.controller] at hkept
    refine ⟨now, ?_, ?_, hj.settled now (hnow ▸ hlast), hkept, hspaces⟩
    · intro p hp
      rw [timedRembs_received hhears.event] at hp
      obtain ⟨rate, -, rfl⟩ := List.mem_map.mp hp
      exact hnow
    · intro p hp
      obtain ⟨q, hq, htime⟩ := exists_timing_of_mem hp
      have hordered := hclocked.ordered
      rw [htimings] at hordered
      have hle := (List.pairwise_append.mp hordered).2.2 q hq _ (List.mem_singleton_self _)
      rw [htime] at hle
      exact hle.trans hnow.le

/-- A REMB that follows others is a change of the rate reported last. -/
theorem changed_of_sent (ha : Announced os s) (ha' : Announced (os ++ [o]) s')
    (hrembs : (timedRembs os).map Prod.snd = rembs s.reports.sent)
    (hsends : rembs s'.reports.sent = rembs s.reports.sent ++ (timedRembs [o]).map Prod.snd)
    {p last : Timestamp × DataRate} (hlast : (timedRembs os).getLast? = some last)
    (ho : timedRembs [o] = [p]) :
    (reportedRates os).getLast? = some last.2 ∧ o.reported = some p.2 ∧ p.2 ≠ last.2 := by
  refine ha.sent_change ha' ?_ ?_
  · rw [← hrembs, List.getLast?_map, hlast]
    rfl
  · rw [hsends, ho]
    rfl

theorem Announced.length_timedRembs_le (ha : Announced os s) (ha' : Announced (os ++ [o]) s')
    (hsends : rembs s'.reports.sent = rembs s.reports.sent ++ (timedRembs [o]).map Prod.snd) :
    timedRembs [o] = [] ∨ ∃ p, timedRembs [o] = [p] := by
  have hlength := congrArg List.length hsends
  rw [ha.changes, ha'.changes, reportedRates_concat, List.length_append, List.length_map] at hlength
  cases hreported : o.reported with
  | none =>
      rw [hreported, Option.toList_none, List.append_nil] at hlength
      exact .inl (List.length_eq_zero_iff.mp (by omega))
  | some rate =>
      rw [hreported, Option.toList_some, destutter_concat] at hlength
      split_ifs at hlength
      · exact .inl (List.length_eq_zero_iff.mp (by omega))
      · rw [List.length_append, List.length_singleton] at hlength
        exact .inr (List.length_eq_one_iff.mp (by omega))

theorem Does.spaced {event : LinkEvent} (h : s.Does event s' o) (htexts : s.TextsData)
    (hclocked : Clocked (os ++ [o])) (hj : Judged os s) (hj' : Judged (os ++ [o]) s')
    (ha : Announced os s) (ha' : Announced (os ++ [o]) s')
    (hrembs : (timedRembs os).map Prod.snd = rembs s.reports.sent) (hs : Spaced os s) :
    Spaced (os ++ [o]) s' := by
  rcases h.spaces htexts hclocked hj hs.knows with ⟨ho, hr⟩ |
    ⟨now, hnow, hpast, hsettled, hknows, hspaces⟩
  · exact hs.silent ho hr
  · have hsends := h.sends_timedRembs
    have hstamp := hspaces.stamps.stamp
    refine ⟨hknows, ?_⟩
    have hold : ∀ p ∈ (timedRembs os).tail,
        p.1 ≤ s'.receiver.gccControler.delayBasedBwe.rateControl.timeLastBitrateChange := by
      intro p hp
      rcases hstamp with hset | ⟨hkept, -⟩
      · rw [hset]
        exact hpast p (List.mem_of_mem_tail hp)
      · rw [hkept]
        exact hs.stamped p hp
    rw [timedRembs_concat]
    rcases ha.length_timedRembs_le ha' hsends with ho | ⟨q, ho⟩
    · rw [ho, List.append_nil]
      exact hold
    · rw [ho]
      cases hlast : (timedRembs os).getLast? with
      | none =>
          rw [List.getLast?_eq_none_iff.mp hlast]
          exact fun p hp => absurd hp List.not_mem_nil
      | some last =>
          rw [List.tail_append_of_ne_nil (List.ne_nil_of_mem (List.mem_of_getLast? hlast))]
          intro p hp
          rcases List.mem_append.mp hp with hp | hp
          · exact hold p hp
          · obtain ⟨hreported, hnew, hne⟩ := changed_of_sent ha ha' hrembs hsends hlast ho
            obtain ⟨hinit, -, hchanged⟩ := hj.changed hj' hreported hnew hne
            rcases hstamp with hset | ⟨-, hsame⟩
            · rw [hset, hnow p (ho ▸ hp)]
            · exact absurd (hsame hinit hsettled.minLe) hchanged

variable [IsStrictOrderedRing K]

theorem spaced_of_trace (hr : r.IsExact) (hclocked : Clocked os) (hc : RatesCarried os)
    (h : Trace step (new senderConfig receiverConfig) events os s) : Spaced os s := by
  induction h with
  | nil =>
      refine ⟨GoogCcNetworkController.knows_new receiverConfig, ?_⟩
      exact fun p hp => absurd hp List.not_mem_nil
  | snoc h hs ih =>
      have hc' := fun o ho => hc o (List.mem_append_left _ ho)
      exact (does_of_step hs).spaced (textsData_of_trace h) hclocked
        (judged_of_trace hr hclocked.of_append h) (judged_of_trace hr hclocked (h.snoc hs))
        (announced_of_trace h hc') (announced_of_trace (h.snoc hs) hc) (timedRembs_of_trace h)
        (ih hclocked.of_append hc')

/-- A REMB asks for less than the one before only where a throughput is known, and not within 200 ms
of that one or of any before, the first apart; unless the throughput has fallen below half of what
the one before asked for. -/
theorem rembs_fall_spaced (hr : r.IsExact)
    (senderConfig receiverConfig : NetworkControllerConfig (Double r)) (events : List LinkEvent)
    {s s' : Link (Double r)} (h : Trace step (new senderConfig receiverConfig) events os s)
    {event : LinkEvent} (hs : s.step event = .ok (s', o)) (hc : RatesCarried (os ++ [o]))
    (hclocked : Clocked (os ++ [o])) {now last : Timestamp} {before rate : DataRate}
    (hbefore : (timedRembs os).getLast? = some (last, before))
    (hsent : timedRembs [o] = [(now, rate)]) (hless : rate < before) :
    ∃ throughput, s'.receiver.gccControler.acknowledgedBitrateEstimator.bitrate = some throughput ∧
      ((∀ p ∈ (timedRembs os).tail, .millis 200 ≤ (now - p.1 : TimeDelta)) ∨
        2 * throughput.bps < before.bps) := by
  have hc' : RatesCarried os := fun o ho => hc o (List.mem_append_left _ ho)
  have hjudged := judged_of_trace hr hclocked.of_append h
  have hspaced := spaced_of_trace hr hclocked.of_append hc' h
  have hdoes := does_of_step hs
  obtain ⟨hjudged', hverdict⟩ := hdoes.judged hr (textsData_of_trace h) hclocked hjudged
  obtain ⟨hreported, hnew, hne⟩ := changed_of_sent (announced_of_trace h hc')
    (announced_of_trace (h.snoc hs) hc) (timedRembs_of_trace h) hdoes.sends_timedRembs hbefore hsent
  obtain ⟨hinit, hstanding, hchanged⟩ := hjudged.changed hjudged' hreported hnew hne
  have hover := hverdict.overuse_of_less hreported hnew hless
  rcases hdoes.spaces (textsData_of_trace h) hclocked hjudged hspaced.knows with
    ⟨hnone, -⟩ | ⟨t, hnow, -, -, hknows, hspaces⟩
  · rw [hnone] at hsent
    cases hsent
  · have htime : now = .finite t := hnow (now, rate) (by simp [hsent])
    have hknown : s'.receiver.gccControler.delayBasedBwe.rateControl.bitrateIsInitialized = true :=
      (hjudged'.standing rate (by rw [reportedRates_concat, hnew]; simp)).1
    obtain ⟨throughput, hthroughput⟩ := Option.isSome_iff_exists.mp (hknows.measured hknown)
    refine ⟨throughput, hthroughput, ?_⟩
    have hdue := (hspaces.due hover throughput hthroughput).resolve_left hchanged
    obtain ⟨x, rfl⟩ := isFinite_iff.mp (GoogCcNetworkController.acknowledged_finite _ _ hthroughput)
    obtain ⟨v, hv⟩ := isFinite_iff.mp hjudged.rateKept.rateControl.sound.rateFinite
    change s.receiver.gccControler.delayBasedBwe.rateControl.currentBitrate = .finite v at hv
    rw [hstanding] at hv
    subst hv
    refine (AimdRateControl.due_of_timeToReduceFurther hr hspaced.knows.rtt hstanding hdue).imp_left ?_
    intro hlong p hp
    obtain ⟨q, hq, hstart⟩ := exists_timing_of_mem (List.mem_of_mem_tail hp)
    have hfinite := (hclocked.of_append.finite q hq).systemTime
    rw [hstart] at hfinite
    rw [htime]
    exact waited_since hlong hfinite (hspaced.stamped p hp)

end Loop

theorem congestedTwiceRun_before :
    ∃ os s, Trace step (new (System.startedAt 300000) (System.startedAt 300000)) congestedTwiceRun os s ∧
      timedRembs os = [(.finite 5600000, .finite 70607), (.finite 5860000, .finite 59166),
        (.finite 6300000, .finite 60483), (.finite 6500000, .finite 61827),
        (.finite 6700000, .finite 63203)] :=
  ⟨_, _, trace_final (by decide +kernel), by decide +kernel⟩

theorem congestedTwiceRun_succeeds :
    (run step (new (System.startedAt 300000) (System.startedAt 300000))
      (congestedTwiceRun ++ [nextDataAt 6900])).isOk = true := by
  decide +kernel

theorem congestedTwiceRun_after :
    ∃ os s, Trace step (new (System.startedAt 300000) (System.startedAt 300000))
        (congestedTwiceRun ++ [nextDataAt 6900]) os s ∧
      timedRembs os = [(.finite 5600000, .finite 70607), (.finite 5860000, .finite 59166),
        (.finite 6300000, .finite 60483), (.finite 6500000, .finite 61827),
        (.finite 6700000, .finite 63203), (.finite 6900000, .finite 59166)] ∧
      RatesCarried os ∧ Clocked os :=
  ⟨_, _, trace_final congestedTwiceRun_succeeds, by decide +kernel, by decide +kernel,
    by decide +kernel⟩

theorem rembs_fall_spaced_congestedTwiceRun :
    ∃ os s o s', Trace step (new (System.startedAt 300000) (System.startedAt 300000))
        congestedTwiceRun os s ∧
      s.step (nextDataAt 6900) = .ok (s', o) ∧
      (timedRembs os).getLast? = some (.finite 6700000, .finite 63203) ∧
      timedRembs [o] = [(.finite 6900000, .finite 59166)] ∧
      ∃ throughput,
        s'.receiver.gccControler.acknowledgedBitrateEstimator.bitrate = some throughput ∧
        ((∀ p ∈ (timedRembs os).tail, .millis 200 ≤ ((.finite 6900000 : Timestamp) - p.1 : TimeDelta)) ∨
          2 * throughput.bps < 63203) := by
  obtain ⟨os, s, h, hsent⟩ := congestedTwiceRun_before
  obtain ⟨os', s', h', hsent', hc, hclocked⟩ := congestedTwiceRun_after
  obtain ⟨os'', o, s'', rfl, h'', hs⟩ := h'.snoc_inv
  obtain ⟨rfl, rfl⟩ := h.unique h''
  have hlast : (timedRembs os).getLast? = some (.finite 6700000, .finite 63203) := by
    rw [hsent]
    rfl
  have hnow : timedRembs [o] = [(.finite 6900000, .finite 59166)] := by
    rw [timedRembs_concat, hsent] at hsent'
    exact List.append_cancel_left hsent'
  exact ⟨os, s, o, s', h, hs, hlast, hnow, rembs_fall_spaced Rounding.exact_isExact _ _
    congestedTwiceRun h hs hc hclocked hlast hnow (by decide)⟩

end Link
end ChromeGcc
