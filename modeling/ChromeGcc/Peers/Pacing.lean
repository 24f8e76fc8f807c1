import ChromeGcc.Peers.Sender
import ChromeGcc.Base.Trace
import Mathlib.Data.List.ReduceOption

/-! The Sender's sending loop: a poll sends a packet when the clock has passed the time
set by the packet before it, and sets the time of the next one from the pacing rate. -/
namespace ChromeGcc
open FloatArith

def oneSecond : Nat := 1000000

/-- The bits of a packet times the microseconds of a second. -/
def packetMicrobits : Nat := defaultPacketSize * 8 * oneSecond

/-- The clock as the calls of one poll read it, in microseconds, and whether its sendto
fails. -/
structure SendPoll where
  checkTime : Int
  scheduleTime : Int
  stampTime : Int
  sendFails : Bool := false
  deriving DecidableEq, Repr

structure GCCDataPacketMaker where
  recentPacketNumber : Int := 0
  deriving DecidableEq, Repr

/-- The template's size is never changed, and its send time is set back to zero. -/
def GCCDataPacketMaker.makePacket (m : GCCDataPacketMaker) : GCCDataPacketMaker × GCCDataPacket :=
  let recentPacketNumber := m.recentPacketNumber + 1
  ({ recentPacketNumber := recentPacketNumber },
    { sequenceNumber := toUint64 recentPacketNumber, sendTime := .micros 0 })

/-- What the sending loop uses of the Sender. -/
structure SendLoop where
  sendControl : SendControl := {}
  dataPacketMaker : GCCDataPacketMaker := {}
  deriving DecidableEq, Repr

section Doubles
variable (F : Type) [FloatArith F]

/-- The quotient lies within uint64_t for every positive rate. -/
def durationBetweenNextSend (pacingRate : Nat) : Int :=
  trunc (ofInt packetMicrobits / ofInt pacingRate : F)

def SendControl.setNextSendTime (c : SendControl) (now : Int) : Except Abort SendControl :=
  if c.pacingRate > 0 then
    .ok { c with nextSendTimestamp := now + durationBetweenNextSend F c.pacingRate }
  else .error .pauseAtFunc

def SendControl.isTimeToSendNextPacket (c : SendControl) (poll : SendPoll) :
    Except Abort (SendControl × Bool) :=
  if poll.checkTime > c.nextSendTimestamp then
    match c.setNextSendTime F poll.scheduleTime with
    | .error e => .error e
    | .ok c => .ok (c, true)
  else .ok (c, false)

namespace SendLoop

/-- The packet carries the clock's next reading; a failed send enters pause_at_func. -/
def makePacketAndSendFromBuf (s : SendLoop) (poll : SendPoll) : Except Abort (SendLoop × List Char) :=
  let (maker, packet) := s.dataPacketMaker.makePacket
  let text := { packet with sendTime := .ofUnsigned (toUint64 poll.stampTime) }.serialize
  if poll.sendFails then .error .pauseAtFunc
  else .ok ({ s with dataPacketMaker := maker }, text)

/-- One poll, with the datagram that it sends, if any. -/
def sendPacket (s : SendLoop) (poll : SendPoll) : Except Abort (SendLoop × Option (List Char)) :=
  match s.sendControl.isTimeToSendNextPacket F poll with
  | .error e => .error e
  | .ok (control, false) => .ok ({ s with sendControl := control }, none)
  | .ok (control, true) =>
    match { s with sendControl := control }.makePacketAndSendFromBuf poll with
    | .error e => .error e
    | .ok (s, text) => .ok (s, some text)

end SendLoop
end Doubles

/-- What happens to the loop: a poll, or a new rate from the handler of datagrams. -/
inductive SendEvent where
  | poll (poll : SendPoll)
  | assignRate (pacingRate : Nat)
  deriving DecidableEq, Repr

/-- A packet that was sent: its poll, and the rate that scheduled the next one. -/
structure ScheduledSend where
  poll : SendPoll
  pacingRate : Nat
  deriving DecidableEq, Repr

namespace SendLoop

section Doubles
variable (F : Type) [FloatArith F]

/-- One event, observed with the packet that it sent. -/
def step (s : SendLoop) : SendEvent → Except Abort (SendLoop × Option ScheduledSend)
  | .assignRate pacingRate =>
    .ok ({ s with sendControl := { s.sendControl with pacingRate := pacingRate } }, none)
  | .poll poll =>
    match s.sendPacket F poll with
    | .error e => .error e
    | .ok (s', sent) => .ok (s', sent.map fun _ => ⟨poll, s.sendControl.pacingRate⟩)

variable {F} {s s' : SendLoop} {poll : SendPoll} {event : SendEvent}

theorem sendPacket_early (h : poll.checkTime ≤ s.sendControl.nextSendTimestamp) :
    s.sendPacket F poll = .ok (s, none) := by
  unfold sendPacket SendControl.isTimeToSendNextPacket
  rw [if_neg (not_lt.mpr h)]

theorem step_early (h : poll.checkTime ≤ s.sendControl.nextSendTimestamp) :
    s.step F (.poll poll) = .ok (s, none) := by
  rw [step, sendPacket_early h]
  rfl

/-- A poll that sends found the clock past the set time, and set the next one. -/
theorem sendPacket_some {text : List Char} (h : s.sendPacket F poll = .ok (s', some text)) :
    s.sendControl.nextSendTimestamp < poll.checkTime ∧ 0 < s.sendControl.pacingRate ∧
      s'.sendControl = { s.sendControl with
        nextSendTimestamp :=
          poll.scheduleTime + durationBetweenNextSend F s.sendControl.pacingRate } := by
  unfold sendPacket SendControl.isTimeToSendNextPacket SendControl.setNextSendTime
    makePacketAndSendFromBuf at h
  by_cases hlate : poll.checkTime > s.sendControl.nextSendTimestamp
  · by_cases hrate : s.sendControl.pacingRate > 0
    · simp only [if_pos hlate, if_pos hrate] at h
      split at h
      · cases h
      · next heq =>
          cases h
          split at heq
          · cases heq
          · cases heq
            exact ⟨hlate, hrate, rfl⟩
    · simp only [if_pos hlate, if_neg hrate] at h
      cases h
  · simp only [if_neg hlate] at h
    cases h

theorem sendPacket_none (h : s.sendPacket F poll = .ok (s', none)) : s' = s := by
  by_cases hlate : poll.checkTime ≤ s.sendControl.nextSendTimestamp
  · rw [sendPacket_early hlate] at h
    cases h
    rfl
  · unfold sendPacket SendControl.isTimeToSendNextPacket SendControl.setNextSendTime at h
    by_cases hrate : s.sendControl.pacingRate > 0
    · simp only [if_pos (not_le.mp hlate), if_pos hrate] at h
      split at h
      · cases h
      · cases h
    · simp only [if_pos (not_le.mp hlate), if_neg hrate] at h
      cases h

/-- An event sends a packet, or leaves the set time alone. -/
theorem step_ok {sent : Option ScheduledSend} (h : s.step F event = .ok (s', sent)) :
    (sent = none ∧ s'.sendControl.nextSendTimestamp = s.sendControl.nextSendTimestamp) ∨
      ∃ poll, event = .poll poll ∧ sent = some ⟨poll, s.sendControl.pacingRate⟩ ∧
        s.sendControl.nextSendTimestamp < poll.checkTime ∧ 0 < s.sendControl.pacingRate ∧
        s'.sendControl.nextSendTimestamp =
          poll.scheduleTime + durationBetweenNextSend F s.sendControl.pacingRate := by
  cases event with
  | assignRate pacingRate =>
      cases h
      exact .inl ⟨rfl, rfl⟩
  | poll poll =>
      simp only [step] at h
      cases hp : s.sendPacket F poll with
      | error e => rw [hp] at h; cases h
      | ok r =>
          obtain ⟨t, text⟩ := r
          rw [hp] at h
          cases text with
          | none =>
              cases h
              exact .inl ⟨rfl, by rw [sendPacket_none hp]⟩
          | some text =>
              cases h
              obtain ⟨hlate, hrate, hset⟩ := sendPacket_some hp
              exact .inr ⟨poll, rfl, rfl, hlate, hrate, by rw [hset]⟩

end Doubles

/-- The readings of the clock, in their order. -/
def clockReadings : List SendEvent → List Int
  | [] => []
  | .assignRate _ :: events => clockReadings events
  | .poll poll :: events =>
    poll.checkTime :: poll.scheduleTime :: poll.stampTime :: clockReadings events

/-- The clock never goes back. -/
def ClockAdvances (events : List SendEvent) : Prop := (clockReadings events).Pairwise (· ≤ ·)

instance (events : List SendEvent) : Decidable (ClockAdvances events) :=
  inferInstanceAs (Decidable (List.Pairwise _ _))

theorem ClockAdvances.check_le_schedule {events : List SendEvent} (h : ClockAdvances events)
    {poll : SendPoll} (hp : .poll poll ∈ events) : poll.checkTime ≤ poll.scheduleTime := by
  induction events with
  | nil => cases hp
  | cons event events ih =>
      unfold ClockAdvances at h ih
      cases event with
      | assignRate pacingRate =>
          rw [clockReadings] at h
          rcases List.mem_cons.mp hp with hp | hp
          · cases hp
          · exact ih h hp
      | poll first =>
          rw [clockReadings, List.pairwise_cons, List.pairwise_cons, List.pairwise_cons] at h
          rcases List.mem_cons.mp hp with hp | hp
          · cases hp
            exact h.1 _ List.mem_cons_self
          · exact ih h.2.2.2 hp

section Spacing
variable {first second last : ScheduledSend} {sends rest : List ScheduledSend}

/-- The second packet was sent later than the whole microseconds that the first one's rate
asks for. -/
def Spaced (first second : ScheduledSend) : Prop :=
  first.poll.scheduleTime + (packetMicrobits / first.pacingRate : ℕ) < second.poll.checkTime

/-- A packet of a run: its rate is positive, and its poll read the clock in order. -/
structure Proper (send : ScheduledSend) : Prop where
  pos : 0 < send.pacingRate
  ordered : send.poll.checkTime ≤ send.poll.scheduleTime

/-- The largest rate that scheduled a packet. -/
def largestRate (sends : List ScheduledSend) : Nat :=
  sends.foldr (fun send rate => max send.pacingRate rate) 0

theorem le_largestRate {send : ScheduledSend} (h : send ∈ sends) :
    send.pacingRate ≤ largestRate sends := by
  induction sends with
  | nil => cases h
  | cons other sends ih =>
      rcases List.mem_cons.mp h with rfl | h
      · exact le_max_left _ _
      · exact (ih h).trans (le_max_right _ _)

/-- The floor loses less than a microsecond, and the comparison is strict in whole ones. -/
theorem Spaced.gap_lt (h : Spaced first second) (hf : 0 < first.pacingRate) {rate : Nat}
    (hle : first.pacingRate ≤ rate) :
    (packetMicrobits : ℚ) / rate < second.poll.checkTime - first.poll.scheduleTime := by
  have hpos : (0 : ℚ) < first.pacingRate := by exact_mod_cast hf
  have hwhole : ((packetMicrobits / first.pacingRate : ℕ) : ℤ) + 1 ≤
      second.poll.checkTime - first.poll.scheduleTime := by
    unfold Spaced at h
    omega
  calc (packetMicrobits : ℚ) / rate ≤ packetMicrobits / first.pacingRate :=
        div_le_div_of_nonneg_left (Nat.cast_nonneg _) hpos (by exact_mod_cast hle)
    _ < ((packetMicrobits / first.pacingRate : ℕ) : ℤ) + 1 := by
        rw [div_lt_iff₀ hpos]
        exact_mod_cast Nat.lt_mul_of_div_lt (Nat.lt_succ_self _) hf
    _ ≤ second.poll.checkTime - first.poll.scheduleTime := by exact_mod_cast hwhole

/-- Gaps add up along a chain of packets; the rate of the last one only schedules the next. -/
theorem gaps_lt {rate : Nat} (hchain : (first :: second :: rest).IsChain Spaced)
    (hproper : ∀ send ∈ first :: second :: rest, Proper send)
    (hrate : ∀ send ∈ (first :: second :: rest).dropLast, send.pacingRate ≤ rate)
    (hlast : (second :: rest).getLast? = some last) :
    ((rest.length + 1 : ℕ) : ℚ) * (packetMicrobits / rate) <
      last.poll.checkTime - first.poll.scheduleTime := by
  induction rest generalizing first second with
  | nil =>
      cases hlast
      have hgap := (List.isChain_cons_cons.mp hchain).1.gap_lt
        (hproper first List.mem_cons_self).pos (hrate first (by simp))
      simpa using hgap
  | cons third rest ih =>
      obtain ⟨hspaced, htail⟩ := List.isChain_cons_cons.mp hchain
      have hgap := hspaced.gap_lt (hproper first List.mem_cons_self).pos
        (hrate first (by simp))
      have hrest := ih htail (fun send hs => hproper send (List.mem_cons_of_mem _ hs))
        (fun send hs => hrate send (by simpa using Or.inr hs)) (by simpa using hlast)
      have hordered : (second.poll.checkTime : ℚ) ≤ second.poll.scheduleTime := by
        exact_mod_cast (hproper second (by simp)).ordered
      rw [List.length_cons]
      push_cast at hrest ⊢
      linarith

end Spacing

section Runs
variable {K : Type} [Field K] [LinearOrder K] {r : Rounding K}

theorem rnd_packetMicrobits : r.rnd ((packetMicrobits : ℕ) : K) = (packetMicrobits : ℕ) := by
  exact_mod_cast r.rnd_int packetMicrobits (by decide)

variable [IsStrictOrderedRing K] [FloorRing K]

theorem duration_of_small {pacingRate : Nat} (h : 0 < pacingRate) (hsmall : pacingRate ≤ 2 ^ 50) :
    durationBetweenNextSend (Double r) pacingRate = (packetMicrobits / pacingRate : ℕ) := by
  have hrate : r.rnd (pacingRate : K) = pacingRate := by
    have habs : |(pacingRate : ℤ)| ≤ 2 ^ 53 := by
      rw [Nat.abs_cast]
      exact_mod_cast hsmall.trans (by decide)
    exact_mod_cast r.rnd_int pacingRate habs
  have hne : (ofInt pacingRate : Double r).val ≠ 0 := by
    rw [val_ofInt, Int.cast_natCast, hrate]
    exact_mod_cast h.ne'
  have hbound : packetMicrobits ≤ 2 ^ 50 := by decide
  rw [durationBetweenNextSend, trunc_eq, val_div _ _ hne, val_ofInt, val_ofInt, Int.cast_natCast,
    Int.cast_natCast, rnd_packetMicrobits, hrate]
  exact r.truncField_rnd_div h (by omega)

/-- A rate beyond 2^50 gives less than half a microsecond. -/
theorem duration_of_large {pacingRate : Nat} (hlarge : 2 ^ 50 < pacingRate) :
    durationBetweenNextSend (Double r) pacingRate = 0 := by
  have hrate : (2 : K) ^ 50 ≤ (ofInt pacingRate : Double r).val := by
    have hle : (((2 ^ 50 : ℕ) : ℤ) : K) ≤ ((pacingRate : ℤ) : K) := by exact_mod_cast hlarge.le
    rw [val_ofInt]
    exact_mod_cast r.le_rnd (by decide) hle
  have hpos : (0 : K) < (ofInt pacingRate : Double r).val := lt_of_lt_of_le (by norm_num) hrate
  have hlow : (0 : K) ≤ r.rnd (((packetMicrobits : ℕ) : K) / (ofInt pacingRate : Double r).val) := by
    have hq : ((0 : ℤ) : K) ≤ ((packetMicrobits : ℕ) : K) / (ofInt pacingRate : Double r).val := by
      rw [Int.cast_zero]
      positivity
    exact_mod_cast r.le_rnd (by decide) hq
  have hhigh : r.rnd (((packetMicrobits : ℕ) : K) / (ofInt pacingRate : Double r).val) ≤ 1 / 2 := by
    have hdyadic := r.rnd_dyadic 1 1 (by decide) (by decide)
    rw [Int.cast_one, pow_one] at hdyadic
    rw [← hdyadic]
    refine r.rnd_mono ?_
    rw [div_le_div_iff₀ hpos two_pos, one_mul]
    have hbits : ((packetMicrobits : ℕ) : K) * 2 ≤ 2 ^ 50 := by
      exact_mod_cast (by decide : packetMicrobits * 2 ≤ 2 ^ 50)
    exact hbits.trans hrate
  rw [durationBetweenNextSend, trunc_eq, val_div _ _ hpos.ne', val_ofInt, Int.cast_natCast,
    rnd_packetMicrobits]
  refine truncField_eq (le_refl _) (by simpa using hlow) ?_
  rw [Int.cast_zero, zero_add]
  exact hhigh.trans_lt (by norm_num)

/-- Under every rounding the duration is the whole part of the exact quotient. -/
theorem durationBetweenNextSend_eq {pacingRate : Nat} (h : 0 < pacingRate) :
    durationBetweenNextSend (Double r) pacingRate = (packetMicrobits / pacingRate : ℕ) := by
  by_cases hsmall : pacingRate ≤ 2 ^ 50
  · exact duration_of_small h hsmall
  · have hbound : packetMicrobits < 2 ^ 50 := by decide
    rw [duration_of_large (not_le.mp hsmall), Nat.div_eq_of_lt (by omega), Nat.cast_zero]

open Machine

/-- What a run has sent: a chain of properly polled packets, whose last one set the time. -/
structure Paced (sends : List ScheduledSend) (s : SendLoop) : Prop where
  chain : sends.IsChain Spaced
  proper : ∀ send ∈ sends, Proper send
  next : ∀ send, sends.getLast? = some send → s.sendControl.nextSendTimestamp =
    send.poll.scheduleTime + (packetMicrobits / send.pacingRate : ℕ)

theorem Paced.step {sends : List ScheduledSend} {s s' : SendLoop} {event : SendEvent}
    {sent : Option ScheduledSend} (h : Paced sends s)
    (hclock : ∀ poll, event = .poll poll → poll.checkTime ≤ poll.scheduleTime)
    (hs : s.step (Double r) event = .ok (s', sent)) : Paced (sends ++ sent.toList) s' := by
  rcases step_ok hs with ⟨rfl, hnext⟩ | ⟨poll, rfl, rfl, hlate, hrate, hnext⟩
  · rw [Option.toList_none, List.append_nil]
    exact ⟨h.chain, h.proper, fun send hlast => hnext.trans (h.next send hlast)⟩
  · rw [durationBetweenNextSend_eq hrate] at hnext
    constructor
    case chain =>
      refine List.isChain_append.mpr ⟨h.chain, List.isChain_singleton _, ?_⟩
      intro last hlast send hsend
      cases hsend
      unfold Spaced
      rw [← h.next last hlast]
      exact hlate
    case proper =>
      intro send hsend
      rcases List.mem_append.mp hsend with hsend | hsend
      · exact h.proper send hsend
      · rw [Option.toList_some, List.mem_singleton] at hsend
        rw [hsend]
        exact ⟨hrate, hclock poll rfl⟩
    case next =>
      intro send hlast
      rw [Option.toList_some, List.getLast?_concat] at hlast
      cases hlast
      exact hnext

theorem paced_of_trace {s₀ s : SendLoop} {events : List SendEvent} {os : List (Option ScheduledSend)}
    (hclock : ClockAdvances events) (ht : Trace (step (Double r)) s₀ events os s) :
    Paced os.reduceOption s := by
  have hpolls : ∀ poll, .poll poll ∈ events → poll.checkTime ≤ poll.scheduleTime :=
    fun poll hp => hclock.check_le_schedule hp
  refine Trace.invariant
    (P := fun events => ∀ poll, .poll poll ∈ events → poll.checkTime ≤ poll.scheduleTime)
    (I := fun _ os s => Paced os.reduceOption s) ?_ ?_ ?_ ht hpolls
  · intro events event h poll hp
    exact h poll (List.mem_append_left _ hp)
  · exact ⟨List.IsChain.nil, fun send hs => (List.not_mem_nil hs).elim, fun send hs => by cases hs⟩
  · intro events os s event s' sent h _ hpaced hs
    rw [List.reduceOption_append, List.reduceOption_singleton]
    refine hpaced.step (fun poll hp => h poll ?_) hs
    rw [hp]
    exact List.mem_append_right _ (List.mem_singleton_self _)

/-- Consecutive packets take more time than the largest of their rates allows, the last one's left
out, which only schedules the packet after; this is measured from the last reading of the clock by
the first poll, and so holds from its first one too. -/
theorem paced_sends_keep_rate (r : Rounding K) (s₀ : SendLoop) (events : List SendEvent)
    (sends : List ScheduledSend) (first last : ScheduledSend) {os : List (Option ScheduledSend)}
    {s : SendLoop} (hclock : ClockAdvances events) (ht : Trace (step (Double r)) s₀ events os s)
    (hsends : sends <:+: os.reduceOption) (hlength : 2 ≤ sends.length)
    (hfirst : sends.head? = some first) (hlast : sends.getLast? = some last) :
    ((sends.length : ℚ) - 1) * (1472 * 8 * 10 ^ 6 / largestRate sends.dropLast) <
        last.poll.checkTime - first.poll.scheduleTime ∧
      ((sends.length : ℚ) - 1) * (1472 * 8 * 10 ^ 6 / largestRate sends.dropLast) <
        last.poll.checkTime - first.poll.checkTime := by
  have hpaced := paced_of_trace hclock ht
  obtain ⟨before, after, hparts⟩ := hsends
  have hchain : sends.IsChain Spaced := by
    have h := hpaced.chain
    rw [← hparts] at h
    exact h.left_of_append.right_of_append
  have hproper : ∀ send ∈ sends, Proper send := by
    intro send hs
    refine hpaced.proper send ?_
    rw [← hparts]
    exact List.mem_append_left _ (List.mem_append_right _ hs)
  have hbits : (packetMicrobits : ℚ) = 1472 * 8 * 10 ^ 6 := by
    norm_num [packetMicrobits, defaultPacketSize, maxdgmsize, oneSecond]
  cases sends with
  | nil => cases hfirst
  | cons send sends =>
      cases hfirst
      cases sends with
      | nil => exact absurd hlength (by simp)
      | cons second rest =>
          have hgaps := gaps_lt hchain hproper (fun send hs => le_largestRate hs)
            (by simpa using hlast)
          have hordered : (first.poll.checkTime : ℚ) ≤ first.poll.scheduleTime := by
            exact_mod_cast (hproper first List.mem_cons_self).ordered
          rw [hbits] at hgaps
          rw [List.length_cons, List.length_cons]
          push_cast at hgaps ⊢
          rw [add_sub_cancel_right]
          exact ⟨hgaps, hgaps.trans_le (by linarith)⟩

end Runs

/-- The rate doubles after the first packet was scheduled, one poll comes too early, and a much
higher rate before the last packet is too late for it. -/
def pacedEvents : List SendEvent :=
  [.poll ⟨1, 2, 3, false⟩, .assignRate 1000000, .poll ⟨23554, 23554, 23554, false⟩,
    .poll ⟨23555, 23556, 23557, false⟩, .assignRate 9000000, .poll ⟨35333, 35334, 35335, false⟩]

def pacedSends : List ScheduledSend :=
  [⟨⟨1, 2, 3, false⟩, 500000⟩, ⟨⟨23555, 23556, 23557, false⟩, 1000000⟩,
    ⟨⟨35333, 35334, 35335, false⟩, 9000000⟩]

theorem paced_sends_keep_rate_doubled :
    ((pacedSends.length : ℚ) - 1) * (1472 * 8 * 10 ^ 6 / largestRate pacedSends.dropLast) <
        ((35333 : Int) : ℚ) - ((2 : Int) : ℚ) ∧
      ((pacedSends.length : ℚ) - 1) * (1472 * 8 * 10 ^ 6 / largestRate pacedSends.dropLast) <
        ((35333 : Int) : ℚ) - ((1 : Int) : ℚ) :=
  paced_sends_keep_rate (.exact id (fun x _ => x) id : Rounding ℚ) {} pacedEvents pacedSends
    ⟨⟨1, 2, 3, false⟩, 500000⟩ ⟨⟨35333, 35334, 35335, false⟩, 9000000⟩ (by decide)
    (Machine.trace_final (by decide +kernel)) ⟨[], [], by decide +kernel⟩ (by decide) rfl rfl
end SendLoop
end ChromeGcc
