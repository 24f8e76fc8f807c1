import ChromeGcc.Peers.DataPath
import ChromeGcc.Peers.LoopPacing

/-! How fast the closed loop sends: no faster than the REMBs delivered allow, and no slower than
the least pacing rate and the polls do. -/
namespace ChromeGcc
open Machine FloatArith UnitBase

/-- A Sender's reports leave the time of its next packet alone. -/
theorem Sender.nextSendTimestamp_receivePacket {F : Type} [FloatArith F] {s s' : Sender F}
    {arrived : Option (List Char)} {now : Timestamp}
    (hs : s.receivePacket arrived now = (.ok (), s')) :
    s'.sendControl.nextSendTimestamp = s.sendControl.nextSendTimestamp := by
  match arrived, hs with
  | none, hs =>
      cases hs
      rfl
  | some [], hs =>
      cases hs
      rfl
  | some (c :: text), hs =>
      change s.onPacketReceived (c :: text) now = (.ok (), s') at hs
      unfold onPacketReceived at hs
      split at hs
      · cases hs
      · split at hs
        · cases hs
        · next t hd =>
            cases hs
            have hkept := (dispatch_ok hd).2
            change t.sendControl.nextSendTimestamp = _
            rw [hkept]

/-- A poll of a running Sender is one of its loop. -/
theorem RunningSender.sendLoop_of_step {F : Type} [FloatArith F] {s s' : RunningSender F}
    {poll : SendPoll} {sent : Option (List Char)} (h : s.step (.poll poll) = .ok (s', sent)) :
    s.sendLoop.step F (.poll poll) =
      .ok (s'.sendLoop, sent.map fun _ => ⟨poll, s.sender.sendControl.pacingRate⟩) := by
  simp only [step] at h
  split at h
  · cases h
  · next loop text hpolled =>
      cases h
      simp only [SendLoop.step, hpolled]
      rfl

/-- A poll that sends nothing came before its time. -/
theorem SendLoop.checkTime_le_of_none {F : Type} [FloatArith F] {s s' : SendLoop} {poll : SendPoll}
    (h : s.step F (.poll poll) = .ok (s', none)) :
    poll.checkTime ≤ s.sendControl.nextSendTimestamp := by
  by_contra hlate
  simp only [step] at h
  cases hp : s.sendPacket F poll with
  | error e =>
      rw [hp] at h
      cases h
  | ok result =>
      obtain ⟨t, text⟩ := result
      rw [hp] at h
      cases text with
      | some text => cases h
      | none =>
          unfold sendPacket SendControl.isTimeToSendNextPacket SendControl.setNextSendTime at hp
          by_cases hrate : s.sendControl.pacingRate > 0
          · simp only [if_pos (not_le.mp hlate), if_pos hrate] at hp
            split at hp
            · cases hp
            · cases hp
          · simp only [if_pos (not_le.mp hlate), if_neg hrate] at hp
            cases hp

namespace Link

/-- The data packets that were sent, with the rates that paced them. -/
def scheduled (os : List LinkView) : List ScheduledSend := os.filterMap (·.scheduled)

theorem scheduled_snoc (os : List LinkView) (o : LinkView) :
    scheduled (os ++ [o]) = scheduled os ++ o.scheduled.toList := by
  rw [scheduled, List.filterMap_append, List.filterMap_cons]
  cases o.scheduled <;> rfl

section Paced
variable {K : Type} [Field K] [LinearOrder K] [IsStrictOrderedRing K] [FloorRing K] {r : Rounding K}
  {s s₀ s' : Link (Double r)} {o : LinkView} {os : List LinkView} {events : List LinkEvent}

/-- The polls read the clock in order. -/
def ClockInPolls (events : List LinkEvent) : Prop :=
  ∀ poll ∈ polls events, poll.checkTime ≤ poll.scheduleTime

theorem Does.paced {event : LinkEvent} (h : s.Does event s' o)
    (hclock : ∀ poll, event = .poll poll → poll.checkTime ≤ poll.scheduleTime)
    (hp : SendLoop.Paced (scheduled os) s.running.sendLoop) :
    SendLoop.Paced (scheduled (os ++ [o])) s'.running.sendLoop := by
  rw [scheduled_snoc]
  have same : s'.running.sendLoop.sendControl.nextSendTimestamp =
      s.running.sendLoop.sendControl.nextSendTimestamp →
      SendLoop.Paced (scheduled os ++ (none : Option ScheduledSend).toList) s'.running.sendLoop := by
    intro hnext
    rw [Option.toList_none, List.append_nil]
    exact ⟨hp.chain, hp.proper, fun send hlast => hnext.trans (hp.next send hlast)⟩
  cases h with
  | @poll poll running sent step =>
      refine hp.step ?_ (RunningSender.sendLoop_of_step step)
      intro p he
      cases he
      exact hclock poll rfl
  | deliverData delivers received => exact same rfl
  | dropData drops => exact same rfl
  | deliverReport delivers received => exact same (Sender.nextSendTimestamp_receivePacket received)
  | dropReport drops => exact same rfl

theorem paced_of_trace (hclock : ClockInPolls events) (h : Trace step s₀ events os s) :
    SendLoop.Paced (scheduled os) s.running.sendLoop := by
  refine Trace.invariant (P := ClockInPolls)
    (I := fun _ os s => SendLoop.Paced (scheduled os) s.running.sendLoop) ?_ ?_ ?_ h hclock
  · intro events event hclock poll hpoll
    refine hclock poll ?_
    rw [polls_snoc]
    exact List.mem_append_left _ hpoll
  · exact ⟨List.IsChain.nil, fun send hs => absurd hs List.not_mem_nil, fun send hs => by cases hs⟩
  · intro events os s event s' o hclock _ hp hs
    refine (does_of_step hs).paced ?_ hp
    rintro poll rfl
    refine hclock poll ?_
    rw [polls_snoc]
    exact List.mem_append_right _ (List.mem_singleton_self _)

end Paced

section Limited
variable {F : Type} [FloatArith F] {s s₁ s' : Link F} {o : LinkView} {os os₁ : List LinkView}
  {pre events : List LinkEvent} {senderConfig receiverConfig : NetworkControllerConfig F}

/-- The rates of the REMBs that were delivered. -/
def deliveredRembs (os : List LinkView) : List DataRate :=
  rembs ((os.flatMap networkTraffic).flatMap Traffic.delivered)

theorem deliveredRembs_append (os os' : List LinkView) :
    deliveredRembs (os ++ os') = deliveredRembs os ++ deliveredRembs os' := by
  rw [deliveredRembs, List.flatMap_append, List.flatMap_append, rembs_append]
  rfl

/-- The limit of the Sender obeys a rate that the last REMB obeyed before, and every one since. -/
theorem limit_le_of_trace {rate : DataRate} (h₁ : Trace step (new senderConfig receiverConfig) pre os₁ s₁)
    (h : Trace step s₁ events os s) (hc : RatesCarried (os₁ ++ os))
    (hbefore : s₁.running.sender.gccControler.getReceiverLimit ≤ rate)
    (hsince : ∀ x ∈ deliveredRembs os, x ≤ rate) :
    s.running.sender.gccControler.getReceiverLimit ≤ rate := by
  have hall := h₁.append h
  have hlimit₁ := (follows_of_trace h₁ fun o ho => hc o (List.mem_append_left _ ho)).1
  have hlimit := (follows_of_trace hall hc).1
  rw [← (recorded_of_trace h₁).delivered] at hlimit₁
  rw [← (recorded_of_trace hall).delivered] at hlimit
  change _ = (deliveredRembs os₁).getLast?.getD _ at hlimit₁
  change _ = (deliveredRembs (os₁ ++ os)).getLast?.getD _ at hlimit
  rw [deliveredRembs_append] at hlimit
  rw [hlimit]
  cases hlast : (deliveredRembs os).getLast? with
  | none =>
      rw [List.getLast?_eq_none_iff.mp hlast, List.append_nil, ← hlimit₁]
      exact hbefore
  | some last =>
      rw [List.getLast?_append, hlast]
      exact hsince last (List.mem_of_getLast? hlast)

/-- A packet is paced by the rate of the state that sends it. -/
theorem Does.scheduled_rate {event : LinkEvent} (h : s.Does event s' o) {send : ScheduledSend}
    (hsend : send ∈ o.scheduled) : send.pacingRate = s.running.sender.sendControl.pacingRate := by
  cases h with
  | @poll poll running sent step =>
      obtain ⟨text, -, rfl⟩ := Option.map_eq_some_iff.mp hsend
      rfl
  | deliverData delivers received => cases hsend
  | dropData drops => cases hsend
  | deliverReport delivers received => cases hsend
  | dropReport drops => cases hsend

/-- While every REMB delivered obeys a rate, so does every packet, down to the least rate. -/
theorem scheduled_rate_le {rate : Nat} (h₁ : Trace step (new senderConfig receiverConfig) pre os₁ s₁)
    (h : Trace step s₁ events os s) (hc : RatesCarried (os₁ ++ os))
    (hbefore : s₁.running.sender.gccControler.getReceiverLimit ≤ .finite rate)
    (hsince : ∀ x ∈ deliveredRembs os, x ≤ .finite rate) :
    ∀ send ∈ scheduled os, send.pacingRate ≤ max rate minPacingRate := by
  induction h with
  | nil => exact fun send hs => absurd hs List.not_mem_nil
  | @snoc events os s s' event o h hs ih =>
      rw [← List.append_assoc] at hc
      have hc' : RatesCarried (os₁ ++ os) := fun o ho => hc o (List.mem_append_left _ ho)
      have hsince' : ∀ x ∈ deliveredRembs os, x ≤ .finite rate := by
        intro x hx
        refine hsince x ?_
        rw [deliveredRembs_append]
        exact List.mem_append_left _ hx
      intro send hsend
      rw [scheduled_snoc] at hsend
      rcases List.mem_append.mp hsend with hsend | hsend
      · exact ih hc' hsince' send hsend
      · have hlimited := (steady_of_trace (h₁.append h)).1.limited
        have hlimit := limit_le_of_trace h₁ h hc' hbefore hsince'
        rw [(does_of_step hs).scheduled_rate (Option.mem_toList.mp hsend)]
        have hle := hlimited.trans (max_le_max_left _ hlimit)
        rw [max_finite, finite_le_finite] at hle
        omega

/-- Every datagram that entered the data channel was scheduled. -/
theorem sent_length_of_trace (h : Trace step s₁ events os s) :
    s.data.sent.length = s₁.data.sent.length + (scheduled os).length := by
  induction h with
  | nil => rfl
  | @snoc events os s s' event o h hs ih =>
      rw [scheduled_snoc, List.length_append, ← Nat.add_assoc, ← ih]
      cases does_of_step hs with
      | @poll poll running sent step =>
          rw [Channel.send_sent, List.length_append]
          cases sent <;> rfl
      | deliverData delivers received => exact congrArg List.length delivers.sent
      | dropData drops => exact congrArg List.length drops.sent
      | deliverReport delivers received => rfl
      | dropReport drops => rfl

end Limited

section Rates
variable {K : Type} [Field K] [LinearOrder K] [IsStrictOrderedRing K] [FloorRing K]
  {os os₁ : List LinkView}

/-- The packets sent while the REMBs delivered obey a rate are as far apart as it asks for. -/
theorem sends_obey_rembs {r : Rounding K} {senderConfig receiverConfig : NetworkControllerConfig (Double r)}
    {pre events : List LinkEvent} {s₁ s : Link (Double r)}
    (h₁ : Trace step (new senderConfig receiverConfig) pre os₁ s₁) (h : Trace step s₁ events os s)
    (hc : RatesCarried (os₁ ++ os)) (hclock : ClockInPolls events) {rate : Nat}
    (hbefore : (deliveredRembs os₁).getLast?.getD .plusInfinity ≤ .finite rate)
    (hsince : ∀ x ∈ deliveredRembs os, x ≤ .finite rate) {sends : List ScheduledSend}
    (hsends : sends <:+: scheduled os) {first last : ScheduledSend}
    (hfirst : sends.head? = some first) (hlast : sends.getLast? = some last)
    (hlength : 2 ≤ sends.length) :
    ((sends.length : ℚ) - 1) * (packetMicrobits / (max rate minPacingRate : ℕ)) <
      last.poll.checkTime - first.poll.scheduleTime := by
  have hpaced := paced_of_trace hclock h
  have hlimit : s₁.running.sender.gccControler.getReceiverLimit ≤ .finite rate := by
    rw [(follows_of_trace h₁ fun o ho => hc o (List.mem_append_left _ ho)).1,
      ← (recorded_of_trace h₁).delivered]
    exact hbefore
  have hrates := scheduled_rate_le h₁ h hc hlimit hsince
  have hmem : ∀ send ∈ sends, send ∈ scheduled os := fun send hs => hsends.subset hs
  obtain ⟨before, after, hparts⟩ := hsends
  have hchain : sends.IsChain SendLoop.Spaced := by
    have hall := hpaced.chain
    rw [← hparts] at hall
    exact hall.left_of_append.right_of_append
  cases sends with
  | nil => cases hfirst
  | cons _ rest =>
      cases hfirst
      obtain ⟨second, rest, rfl⟩ := List.exists_cons_of_length_pos (Nat.lt_of_succ_lt_succ hlength)
      have hgaps := SendLoop.gaps_lt hchain (fun send hs => hpaced.proper send (hmem send hs))
        (fun send hs => hrates send (hmem send (List.dropLast_subset _ hs))) (by simpa using hlast)
      rw [List.length_cons, List.length_cons]
      push_cast at hgaps ⊢
      rw [add_sub_cancel_right]
      exact hgaps

theorem packetMicrobits_eq : (packetMicrobits : ℚ) = 1472 * 8 * 10 ^ 6 := by
  norm_num [packetMicrobits, defaultPacketSize, maxdgmsize, oneSecond]

/-- While the REMBs delivered to the Sender obey a rate, its packets do too, as long as that is
not below the least pacing rate: any consecutive ones take more time than the rate allows. -/
theorem send_rate_obeys_rembs (r : Rounding K)
    (senderConfig receiverConfig : NetworkControllerConfig (Double r)) (pre events : List LinkEvent)
    {s₁ s : Link (Double r)} (h₁ : Trace step (new senderConfig receiverConfig) pre os₁ s₁)
    (h : Trace step s₁ events os s) (hc : RatesCarried (os₁ ++ os)) (hclock : ClockInPolls events)
    (rate : Nat) (hbefore : (deliveredRembs os₁).getLast?.getD .plusInfinity ≤ .finite rate)
    (hsince : ∀ x ∈ deliveredRembs os, x ≤ .finite rate) (sends : List ScheduledSend)
    (hsends : sends <:+: scheduled os) (first last : ScheduledSend)
    (hfirst : sends.head? = some first) (hlast : sends.getLast? = some last)
    (hlength : 2 ≤ sends.length) :
    ((sends.length : ℚ) - 1) * (1472 * 8 * 10 ^ 6 / (max rate minPacingRate : ℕ)) <
        last.poll.checkTime - first.poll.scheduleTime ∧
      s.data.sent.length = s₁.data.sent.length + (scheduled os).length := by
  refine ⟨?_, sent_length_of_trace h⟩
  rw [← packetMicrobits_eq]
  exact sends_obey_rembs h₁ h hc hclock hbefore hsince hsends hfirst hlast hlength

end Rates

/-- The polls follow each other closely, and each sets the next time soon after its check. -/
structure PollsRegularly (gap delay : Nat) (events : List LinkEvent) : Prop where
  started : ∀ poll ∈ (polls events).head?, 0 < poll.checkTime
  close : (polls events).IsChain fun a b : SendPoll => b.checkTime ≤ a.checkTime + (gap : Int)
  prompt : ∀ poll ∈ polls events,
    poll.checkTime ≤ poll.scheduleTime ∧ poll.scheduleTime ≤ poll.checkTime + (delay : Int)

theorem PollsRegularly.of_append {gap delay : Nat} {events more : List LinkEvent}
    (h : PollsRegularly gap delay (events ++ more)) : PollsRegularly gap delay events := by
  have hpolls : polls (events ++ more) = polls events ++ polls more := List.filterMap_append
  constructor
  · intro poll hp
    refine h.started poll ?_
    rw [hpolls, List.head?_append, Option.mem_def.mp hp]
    rfl
  · have hclose := h.close
    rw [hpolls] at hclose
    exact hclose.left_of_append
  · intro poll hp
    refine h.prompt poll ?_
    rw [hpolls]
    exact List.mem_append_left _ hp

/-- The longest that the pacing may keep a packet back. -/
def longestGap : Nat := packetMicrobits / minPacingRate

/-- The time of the next packet lies behind the last poll, and not further from the first than
the packets sent account for. -/
structure KeepsUp {F : Type} [FloatArith F] (gap delay : Nat) (events : List LinkEvent)
    (os : List LinkView) (s : Link F) : Prop where
  idle : polls events = [] → s.running.sender.sendControl.nextSendTimestamp = 0
  passed : ∀ last ∈ (polls events).getLast?,
    last.checkTime ≤ s.running.sender.sendControl.nextSendTimestamp
  bounded : ∀ first ∈ (polls events).head?, s.running.sender.sendControl.nextSendTimestamp ≤
    first.checkTime + (scheduled os).length * (longestGap + gap + delay : ℕ)

section Steps
variable {F : Type} [FloatArith F] {gap delay : Nat} {s s' : Link F} {o : LinkView}
  {os : List LinkView} {events : List LinkEvent}

/-- What is not a poll leaves the time of the next packet alone. -/
theorem KeepsUp.silent {event : LinkEvent} (h : KeepsUp gap delay events os s)
    (he : ∀ poll, event ≠ .poll poll) (ho : o.scheduled = none)
    (hn : s'.running.sender.sendControl.nextSendTimestamp =
      s.running.sender.sendControl.nextSendTimestamp) :
    KeepsUp gap delay (events ++ [event]) (os ++ [o]) s' := by
  have hpolls : polls (events ++ [event]) = polls events := by
    rw [polls_snoc]
    cases event with
    | poll poll => exact absurd rfl (he poll)
    | deliverData index env => exact List.append_nil _
    | dropData index => exact List.append_nil _
    | deliverReport index now => exact List.append_nil _
    | dropReport index => exact List.append_nil _
  have hsends : scheduled (os ++ [o]) = scheduled os := by
    rw [scheduled_snoc, ho]
    exact List.append_nil _
  constructor
  · rw [hpolls, hn]
    exact h.idle
  · rw [hpolls, hn]
    exact h.passed
  · rw [hpolls, hsends, hn]
    exact h.bounded

/-- A poll within the gap either comes too early, or sends and sets a time not far off. -/
theorem KeepsUp.poll {poll : SendPoll} {sent : Option ScheduledSend}
    (h : KeepsUp gap delay events os s) (hr : PollsRegularly gap delay (events ++ [.poll poll]))
    (ho : o.scheduled = sent)
    (hpolled : (sent = none ∧ poll.checkTime ≤ s.running.sender.sendControl.nextSendTimestamp ∧
        s'.running.sender.sendControl.nextSendTimestamp =
          s.running.sender.sendControl.nextSendTimestamp) ∨
      ((∃ send, sent = some send) ∧
        poll.scheduleTime ≤ s'.running.sender.sendControl.nextSendTimestamp ∧
        s'.running.sender.sendControl.nextSendTimestamp ≤ poll.scheduleTime + longestGap)) :
    KeepsUp gap delay (events ++ [.poll poll]) (os ++ [o]) s' := by
  have hpolls : polls (events ++ [.poll poll]) = polls events ++ [poll] := polls_snoc _ _
  obtain ⟨hstarted, hclose, hprompt⟩ := hr
  rw [hpolls] at hstarted hclose hprompt
  obtain ⟨hcheck, hschedule⟩ := hprompt poll (List.mem_append_right _ (List.mem_singleton_self _))
  constructor
  · intro hnone
    rw [hpolls] at hnone
    exact absurd hnone (List.concat_ne_nil _ _)
  · intro last hlast
    rw [hpolls, List.getLast?_concat] at hlast
    cases hlast
    rcases hpolled with ⟨-, hearly, hsame⟩ | ⟨-, hset, -⟩
    · rw [hsame]
      exact hearly
    · exact hcheck.trans hset
  · intro first hfirst
    rw [scheduled_snoc, ho]
    cases hbefore : (polls events).getLast? with
    | none =>
        have hempty := List.getLast?_eq_none_iff.mp hbefore
        rw [hpolls, hempty] at hfirst
        cases hfirst
        rw [hempty] at hstarted
        have hpos := hstarted poll rfl
        have hidle := h.idle hempty
        rcases hpolled with ⟨-, hearly, -⟩ | ⟨⟨send, rfl⟩, -, hset⟩
        · omega
        · rw [List.length_append, Option.toList_some, List.length_singleton]
          push_cast
          nlinarith [Int.natCast_nonneg gap, Int.natCast_nonneg delay, Int.natCast_nonneg longestGap]
    | some previous =>
        obtain ⟨front, hfront⟩ : ∃ front, (polls events).head? = some front := by
          cases hp : polls events with
          | nil =>
              rw [hp] at hbefore
              cases hbefore
          | cons front rest => exact ⟨front, rfl⟩
        rw [hpolls, List.head?_append, hfront] at hfirst
        cases hfirst
        have hbounded := h.bounded first hfront
        have hpassed := h.passed previous hbefore
        have hgap : poll.checkTime ≤ previous.checkTime + (gap : Int) :=
          (List.isChain_append.mp hclose).2.2 previous hbefore poll rfl
        rcases hpolled with ⟨rfl, -, hsame⟩ | ⟨⟨send, rfl⟩, -, hset⟩
        · rw [hsame, Option.toList_none, List.append_nil]
          exact hbounded
        · rw [List.length_append, Option.toList_some, List.length_singleton]
          push_cast at hbounded ⊢
          linarith

end Steps

section Liveness
variable {K : Type} [Field K] [LinearOrder K] [IsStrictOrderedRing K] [FloorRing K] {r : Rounding K}
  {gap delay : Nat} {s s' : Link (Double r)} {o : LinkView} {os : List LinkView}
  {events : List LinkEvent}

theorem longestGap_ge {pacingRate : Nat} (h : minPacingRate ≤ pacingRate) :
    packetMicrobits / pacingRate ≤ longestGap := Nat.div_le_div_left h (by decide)

theorem Does.keepsUp {event : LinkEvent} (h : s.Does event s' o) (hsteady : s.running.sender.Steady)
    (hr : PollsRegularly gap delay (events ++ [event])) (hk : KeepsUp gap delay events os s) :
    KeepsUp gap delay (events ++ [event]) (os ++ [o]) s' := by
  cases h with
  | @poll poll running sent step =>
      have hloop := RunningSender.sendLoop_of_step step
      refine hk.poll hr rfl ?_
      rcases SendLoop.step_ok hloop with ⟨hnone, hnext⟩ | ⟨p, he, hsome, -, hrate, hnext⟩
      · left
        rw [hnone] at hloop
        exact ⟨hnone, SendLoop.checkTime_le_of_none hloop, hnext⟩
      · right
        cases he
        have hgap := longestGap_ge hsteady.minimum
        rw [SendLoop.durationBetweenNextSend_eq hrate] at hnext
        change running.sender.sendControl.nextSendTimestamp =
          poll.scheduleTime + (packetMicrobits / s.running.sender.sendControl.pacingRate : ℕ) at hnext
        dsimp only
        rw [hnext]
        refine ⟨⟨_, hsome⟩, Int.le_add_of_nonneg_right (Int.natCast_nonneg _), ?_⟩
        exact Int.add_le_add_left (Int.ofNat_le.mpr hgap) _
  | deliverData delivers received => exact hk.silent (by simp) rfl rfl
  | dropData drops => exact hk.silent (by simp) rfl rfl
  | deliverReport delivers received =>
      exact hk.silent (by simp) rfl (Sender.nextSendTimestamp_receivePacket received)
  | dropReport drops => exact hk.silent (by simp) rfl rfl

/-- As long as it is polled regularly the Sender goes on sending, whatever reports it gets or
misses: a packet for every stretch of time that the least rate and the polls allow. -/
theorem sender_keeps_sending (r : Rounding K)
    (senderConfig receiverConfig : NetworkControllerConfig (Double r)) (events : List LinkEvent)
    {s : Link (Double r)} (h : Trace step (new senderConfig receiverConfig) events os s)
    (hr : PollsRegularly gap delay events) (first last : SendPoll)
    (hfirst : (polls events).head? = some first) (hlast : (polls events).getLast? = some last) :
    last.checkTime - first.checkTime ≤ s.data.sent.length * (117760 + gap + delay : ℕ) := by
  have hkeeps : KeepsUp gap delay events os s := by
    refine Trace.invariant (P := PollsRegularly gap delay) (I := fun events os s =>
      KeepsUp gap delay events os s) (fun _ _ h => h.of_append) ?_ ?_ h hr
    · refine ⟨fun _ => rfl, ?_, ?_⟩
      · intro last hlast
        cases hlast
      · intro first hfirst
        cases hfirst
    · intro events os s event s' o hr h hk hs
      exact (does_of_step hs).keepsUp (steady_of_trace h).1 hr hk
  have hsent := sent_length_of_trace h
  rw [show (new senderConfig receiverConfig).data.sent.length = 0 from rfl, Nat.zero_add] at hsent
  have hgap : longestGap = 117760 := by decide
  have hpassed := hkeeps.passed last hlast
  have hbounded := hkeeps.bounded first hfirst
  rw [hgap, ← hsent] at hbounded
  linarith

end Liveness

theorem sender_keeps_sending_lossyRun :
    ∃ os s, Trace step (new (System.startedAt 300000) (System.startedAt 300000)) lossyRun os s ∧
      s.data.sent.length = 5 ∧
      (5600000 : Int) - 1000 ≤ s.data.sent.length * (117760 + 4900000 + 0 : ℕ) := by
  have h := trace_final lossyRun_succeeds
  refine ⟨_, _, h, by decide +kernel, ?_⟩
  refine sender_keeps_sending _ _ _ lossyRun h ⟨?_, ?_, ?_⟩ ⟨1000, 1000, 1000, false⟩
    ⟨5600000, 5600000, 5600000, false⟩ rfl rfl
  · intro poll hp
    cases hp
    decide
  · decide +kernel
  · decide +kernel

/-- After the REMB of the run the packets keep to the least rate. -/
def pacedPolls : List LinkEvent := [pollAt 6000, pollAt 6100, pollAt 6200]

theorem send_rate_obeys_rembs_lossyRun :
    ∃ os₁ os s₁ s first last, Trace step (new (System.startedAt 300000) (System.startedAt 300000))
        lossyRun os₁ s₁ ∧ Trace step s₁ pacedPolls os s ∧
      (deliveredRembs os₁).getLast? = some (.finite 24552) ∧
      scheduled os = [first, last] ∧ first.poll.scheduleTime = 6000000 ∧
      last.poll.checkTime = 6200000 ∧
      (((scheduled os).length : ℚ) - 1) * (1472 * 8 * 10 ^ 6 / (max 24552 minPacingRate : ℕ)) <
        last.poll.checkTime - first.poll.scheduleTime ∧
      s.data.sent.length = s₁.data.sent.length + (scheduled os).length := by
  have h₁ := trace_final lossyRun_succeeds
  have h := trace_final (show (run step (final step (new (System.startedAt 300000)
    (System.startedAt 300000)) lossyRun) pacedPolls).isOk = true by decide +kernel)
  obtain ⟨htime, hsent⟩ := send_rate_obeys_rembs _ _ _ lossyRun pacedPolls h₁ h (by decide +kernel)
    (by unfold ClockInPolls; decide +kernel) 24552 (by decide +kernel) (by decide +kernel) _
    (List.infix_refl _) ⟨⟨6000000, 6000000, 6000000, false⟩, 100000⟩
    ⟨⟨6200000, 6200000, 6200000, false⟩, 100000⟩ (by decide +kernel) (by decide +kernel)
    (by decide +kernel)
  exact ⟨_, _, _, _, _, _, h₁, h, by decide +kernel, by decide +kernel, rfl, rfl, htime, hsent⟩

end Link
end ChromeGcc
