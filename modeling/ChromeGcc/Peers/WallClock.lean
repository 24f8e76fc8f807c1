import ChromeGcc.Peers.Pacing

/-! The clock behind the sending loop. It counts from the last multiple of a hundred
thousand seconds, so it goes back there, while the loop keeps the time it has set. -/
namespace ChromeGcc
open FloatArith

/-- What gettimeofday gives: the time since the Epoch. -/
structure Timeval where
  tvSec : Nat
  tvUsec : Nat
  usec_lt : tvUsec < 1000000 := by decide
  deriving DecidableEq, Repr

/-- The time since the Epoch in microseconds. -/
def Timeval.micros (t : Timeval) : Nat := t.tvSec * 1000000 + t.tvUsec

def TimeTicks.now (now : Timeval) : Int := ((now.tvSec % 100000) * 1000000 + now.tvUsec : Nat) + 1

/-- The difference to the zero of TimeTicks passes through an unsigned parameter. -/
def QuicChromiumClock.now (now : Timeval) : Int := toInt64 (toUint64 (TimeTicks.now now - 0))

/-- The microseconds of a hundred thousand seconds. -/
def tickPeriod : Nat := 100000000000

theorem QuicChromiumClock.now_eq (t : Timeval) :
    QuicChromiumClock.now t = ((t.micros % tickPeriod : Nat) : Int) + 1 := by
  have hlt := t.usec_lt
  have hticks : TimeTicks.now t - 0 = ((t.micros % tickPeriod + 1 : Nat) : Int) := by
    unfold TimeTicks.now Timeval.micros tickPeriod
    omega
  rw [QuicChromiumClock.now, hticks, toUint64_natCast, toInt64_natCast]
  · push_cast
    rfl
  · unfold tickPeriod
    omega
  · unfold tickPeriod
    omega

/-- A poll as the wall clock sees it. -/
structure WallPoll where
  check : Timeval
  schedule : Timeval
  stamp : Timeval
  sendFails : Bool := false
  deriving DecidableEq, Repr

def WallPoll.toPoll (p : WallPoll) : SendPoll where
  checkTime := QuicChromiumClock.now p.check
  scheduleTime := QuicChromiumClock.now p.schedule
  stampTime := QuicChromiumClock.now p.stamp
  sendFails := p.sendFails

inductive WallEvent where
  | poll (poll : WallPoll)
  | assignRate (pacingRate : Nat)
  deriving DecidableEq, Repr

def WallEvent.toEvent : WallEvent → SendEvent
  | .poll p => .poll p.toPoll
  | .assignRate pacingRate => .assignRate pacingRate

namespace SendLoop

def wallStep (F : Type) [FloatArith F] (s : SendLoop) (event : WallEvent) :
    Except Abort (SendLoop × Option ScheduledSend) := s.step F event.toEvent

/-- The wall time from which a poll should send again after a packet. -/
def dueTime (s : SendLoop) (sending : WallPoll) : Nat :=
  sending.schedule.micros + packetMicrobits / s.sendControl.pacingRate + 1

/-- The later poll is the first one at or after the due time of the sending poll, and the
rates stay above the minimum. -/
structure FirstDue (s : SendLoop) (sending : WallPoll) (between : List WallEvent)
    (later : WallPoll) : Prop where
  rate : minPacingRate ≤ s.sendControl.pacingRate
  rates : ∀ pacingRate, .assignRate pacingRate ∈ between → minPacingRate ≤ pacingRate
  advances : ∀ poll, .poll poll ∈ between → sending.schedule.micros ≤ poll.check.micros
  early : ∀ poll, .poll poll ∈ between → poll.check.micros < s.dueTime sending
  due : s.dueTime sending ≤ later.check.micros

section Runs
variable {F : Type} [FloatArith F] {s s₁ s₂ : SendLoop} {sending later : WallPoll}
  {between : List WallEvent}

open Machine

/-- A duration is shorter than the period of the clock. -/
theorem duration_lt_tickPeriod (pacingRate : Nat) : packetMicrobits / pacingRate < tickPeriod :=
  lt_of_le_of_lt (Nat.div_le_self _ _) (by decide)

/-- The time that the sending poll sets, on the clock that starts anew. -/
def setTime (s : SendLoop) (sending : WallPoll) : Int :=
  ((sending.schedule.micros % tickPeriod + packetMicrobits / s.sendControl.pacingRate : Nat) : Int) + 1

/-- Before the due time no poll sends, whether or not the clock has gone back. -/
theorem FirstDue.not_yet (h : s.FirstDue sending between later) {poll : WallPoll}
    (hp : .poll poll ∈ between) : poll.toPoll.checkTime ≤ s.setTime sending := by
  have hadv := h.advances poll hp
  have hearly := h.early poll hp
  have hd := duration_lt_tickPeriod s.sendControl.pacingRate
  change QuicChromiumClock.now poll.check ≤ _
  rw [QuicChromiumClock.now_eq, setTime]
  unfold dueTime at hearly
  unfold tickPeriod at hd ⊢
  omega

/-- The loop waits: it keeps the set time and a rate that is not below the minimum. -/
structure Waits (s : SendLoop) (time : Int) : Prop where
  next : s.sendControl.nextSendTimestamp = time
  rate : minPacingRate ≤ s.sendControl.pacingRate

theorem Waits.step {time : Int} {t t' : SendLoop} {event : WallEvent} {sent : Option ScheduledSend}
    (h : t.Waits time) (hrate : ∀ pacingRate, event = .assignRate pacingRate → minPacingRate ≤ pacingRate)
    (hearly : ∀ poll, event = .poll poll → poll.toPoll.checkTime ≤ time)
    (hs : t.wallStep F event = .ok (t', sent)) : t'.Waits time := by
  cases event with
  | assignRate pacingRate =>
      simp only [wallStep, WallEvent.toEvent, SendLoop.step] at hs
      cases hs
      exact ⟨h.next, hrate pacingRate rfl⟩
  | poll poll =>
      have hpoll : t.wallStep F (.poll poll) = .ok (t, none) := by
        refine step_early ?_
        rw [h.next]
        exact hearly poll rfl
      rw [hpoll] at hs
      cases hs
      exact h

/-- From the sending poll to the first due one the loop waits. -/
theorem FirstDue.waits (h : s.FirstDue sending between later) {os : List (Option ScheduledSend)}
    (hstart : s₁.Waits (s.setTime sending)) (ht : Trace (wallStep F) s₁ between os s₂) :
    s₂.Waits (s.setTime sending) := by
  refine Trace.invariant
    (P := fun events => ∀ event ∈ events, event ∈ between)
    (I := fun _ _ t => t.Waits (s.setTime sending)) ?_ hstart ?_ ht (fun _ he => he)
  · intro events event hall other hother
    exact hall other (List.mem_append_left _ hother)
  · intro events os t event t' sent hall _ hwaits hs
    have hmem : event ∈ between :=
      hall event (List.mem_append_right _ (List.mem_singleton_self _))
    refine hwaits.step ?_ ?_ hs
    · rintro pacingRate rfl
      exact h.rates pacingRate hmem
    · rintro poll rfl
      exact h.not_yet hmem

/-- A waiting loop sends exactly when its clock has passed the set time. -/
theorem Waits.sends_iff {time : Int} (h : s.Waits time) {poll : SendPoll}
    (hsend : poll.sendFails = false) :
    (∃ t text, s.sendPacket F poll = .ok (t, some text)) ↔ time < poll.checkTime := by
  have hrate : s.sendControl.pacingRate > 0 := lt_of_lt_of_le (by decide) h.rate
  constructor
  · rintro ⟨t, text, hsent⟩
    have hlate := (sendPacket_some hsent).1
    rwa [h.next] at hlate
  · intro hlate
    rw [← h.next] at hlate
    unfold sendPacket SendControl.isTimeToSendNextPacket SendControl.setNextSendTime
      makePacketAndSendFromBuf
    simp only [if_pos (show poll.checkTime > s.sendControl.nextSendTimestamp from hlate),
      if_pos hrate, hsend, Bool.false_eq_true, if_false]
    exact ⟨_, _, rfl⟩

/-- At the due time the clock has passed the set time, unless it has gone back since. -/
theorem FirstDue.passed_iff (h : s.FirstDue sending between later) :
    s.setTime sending < later.toPoll.checkTime ↔
      later.check.micros / tickPeriod = sending.schedule.micros / tickPeriod ∨
        sending.schedule.micros % tickPeriod + packetMicrobits / s.sendControl.pacingRate <
          later.check.micros % tickPeriod := by
  have hdue := h.due
  change _ < QuicChromiumClock.now later.check ↔ _
  rw [QuicChromiumClock.now_eq, setTime]
  unfold dueTime at hdue
  unfold tickPeriod
  omega

variable {K : Type} [Field K] [LinearOrder K] [IsStrictOrderedRing K] [FloorRing K]

theorem next_of_sent {r : Rounding K} {text : List Char} (hrate : 0 < s.sendControl.pacingRate)
    (hsent : s.sendPacket (Double r) sending.toPoll = .ok (s₁, some text)) :
    s₁.sendControl = { s.sendControl with nextSendTimestamp := s.setTime sending } := by
  obtain ⟨-, -, hset⟩ := sendPacket_some hsent
  have htime : sending.toPoll.scheduleTime + ((packetMicrobits / s.sendControl.pacingRate : ℕ) : ℤ) =
      s.setTime sending := by
    change QuicChromiumClock.now sending.schedule + _ = _
    rw [QuicChromiumClock.now_eq, setTime]
    push_cast
    ring
  rw [hset, durationBetweenNextSend_eq hrate, htime]

/-- The first poll at or after the due time sends a packet if and only if no multiple of a
hundred thousand seconds lies between the two polls, or the later one lies further from its
multiple than the set time lay from its own. -/
theorem due_poll_sends_iff (r : Rounding K) (s : SendLoop) (sending later : WallPoll)
    (between : List WallEvent) {s₁ s₂ : SendLoop} {text : List Char}
    {os : List (Option ScheduledSend)} (h : s.FirstDue sending between later)
    (hsent : s.sendPacket (Double r) sending.toPoll = .ok (s₁, some text))
    (ht : Trace (wallStep (Double r)) s₁ between os s₂) (hsend : later.sendFails = false) :
    (∃ s₃ text', s₂.sendPacket (Double r) later.toPoll = .ok (s₃, some text')) ↔
      later.check.micros / tickPeriod = sending.schedule.micros / tickPeriod ∨
        sending.schedule.micros % tickPeriod + packetMicrobits / s.sendControl.pacingRate <
          later.check.micros % tickPeriod := by
  have hpos : 0 < s.sendControl.pacingRate := lt_of_lt_of_le (by decide) h.rate
  have hset := next_of_sent hpos hsent
  have hstart : s₁.Waits (s.setTime sending) := by
    constructor
    case next => rw [hset]
    case rate =>
      rw [hset]
      exact h.rate
  rw [← h.passed_iff]
  exact (h.waits hstart ht).sends_iff hsend

end Runs

/-- A poll whose readings all give one time. -/
def wallPollAt (tvSec tvUsec : Nat) (h : tvUsec < 1000000) : WallPoll where
  check := ⟨tvSec, tvUsec, h⟩
  schedule := ⟨tvSec, tvUsec, h⟩
  stamp := ⟨tvSec, tvUsec, h⟩

/-- A new loop sends at its first poll. -/
theorem sends_fresh {F : Type} [FloatArith F] (p : SendPoll) (hlate : 0 < p.checkTime)
    (hsend : p.sendFails = false) :
    ∃ s₁ text, ({} : SendLoop).sendPacket F p = .ok (s₁, some text) := by
  have hwaits : ({} : SendLoop).Waits 0 := ⟨rfl, by decide⟩
  exact (hwaits.sends_iff hsend).mpr hlate

/-- Ten milliseconds before the boundary a packet is sent at 500 kbit/s; the poll at the due
time, after the boundary, sends nothing. -/
theorem due_poll_stalls_at_boundary :
    FirstDue {} (wallPollAt 99999 990000 (by decide)) [] (wallPollAt 100000 13553 (by decide)) ∧
      ∃ s₁ text,
        ({} : SendLoop).sendPacket FloatArith.Rational (wallPollAt 99999 990000 (by decide)).toPoll =
          .ok (s₁, some text) ∧
        s₁.sendPacket FloatArith.Rational (wallPollAt 100000 13553 (by decide)).toPoll =
          .ok (s₁, none) := by
  have hdue : FirstDue {} (wallPollAt 99999 990000 (by decide)) []
      (wallPollAt 100000 13553 (by decide)) :=
    ⟨by decide, fun _ h => absurd h List.not_mem_nil, fun _ h => absurd h List.not_mem_nil,
      fun _ h => absurd h List.not_mem_nil, by decide⟩
  obtain ⟨s₁, text, hsent⟩ := sends_fresh (F := FloatArith.Rational)
    (wallPollAt 99999 990000 (by decide)).toPoll (by decide) rfl
  refine ⟨hdue, s₁, text, hsent, sendPacket_early ?_⟩
  rw [next_of_sent (by decide) hsent]
  decide

theorem due_poll_sends_iff_within_period :
    ∃ (s₁ : SendLoop) (text : List Char),
      ({} : SendLoop).sendPacket FloatArith.Rational (wallPollAt 6 990000 (by decide)).toPoll =
        .ok (s₁, some text) ∧
      ((∃ s₃ text', s₁.sendPacket FloatArith.Rational (wallPollAt 7 13553 (by decide)).toPoll =
          .ok (s₃, some text')) ↔
        (Timeval.mk 7 13553).micros / tickPeriod = (Timeval.mk 6 990000).micros / tickPeriod ∨
          (Timeval.mk 6 990000).micros % tickPeriod +
              packetMicrobits / ({} : SendLoop).sendControl.pacingRate <
            (Timeval.mk 7 13553).micros % tickPeriod) := by
  obtain ⟨s₁, text, hsent⟩ := sends_fresh (F := FloatArith.Rational)
    (wallPollAt 6 990000 (by decide)).toPoll (by decide) rfl
  refine ⟨s₁, text, hsent, ?_⟩
  exact due_poll_sends_iff _ {} (wallPollAt 6 990000 (by decide)) (wallPollAt 7 13553 (by decide)) []
    ⟨by decide, fun _ h => absurd h List.not_mem_nil, fun _ h => absurd h List.not_mem_nil,
      fun _ h => absurd h List.not_mem_nil, by decide⟩ hsent .nil rfl

end SendLoop
end ChromeGcc
