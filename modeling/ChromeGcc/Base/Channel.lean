import Mathlib.Tactic

/-! A channel that may delay, reorder and drop what is put in it, with the history of what
became of every message. -/

/-- Every message sent was delivered, was dropped, or is in flight. -/
structure Channel (α : Type) where
  sent : List α := []
  delivered : List α := []
  dropped : List α := []
  inFlight : List α := []
  conserved : sent.Perm (delivered ++ dropped ++ inFlight) := by exact List.Perm.refl _

namespace Channel
variable {α β : Type}

theorem perm_eraseIdx {l : List α} {index : Nat} {a : α} (h : l[index]? = some a) :
    l.Perm (a :: l.eraseIdx index) := by
  obtain ⟨hi, rfl⟩ := List.getElem?_eq_some_iff.mp h
  exact (List.getElem_cons_eraseIdx_perm hi).symm

def send (c : Channel α) (messages : List α) : Channel α where
  sent := c.sent ++ messages
  delivered := c.delivered
  dropped := c.dropped
  inFlight := c.inFlight ++ messages
  conserved := by
    rw [← List.append_assoc]
    exact c.conserved.append_right messages

/-- The message at an index of those in flight is delivered. -/
def deliver (c : Channel α) (index : Nat) : Option (α × Channel α) :=
  match h : c.inFlight[index]? with
  | none => none
  | some message =>
    some (message, {
      sent := c.sent
      delivered := c.delivered ++ [message]
      dropped := c.dropped
      inFlight := c.inFlight.eraseIdx index
      conserved := by
        refine c.conserved.trans (((perm_eraseIdx h).append_left _).trans ?_)
        simp only [List.append_assoc, List.singleton_append]
        exact List.perm_middle.append_left _ })

/-- The message at an index of those in flight is lost. -/
def drop (c : Channel α) (index : Nat) : Option (α × Channel α) :=
  match h : c.inFlight[index]? with
  | none => none
  | some message =>
    some (message, {
      sent := c.sent
      delivered := c.delivered
      dropped := c.dropped ++ [message]
      inFlight := c.inFlight.eraseIdx index
      conserved := by
        refine c.conserved.trans (((perm_eraseIdx h).append_left _).trans ?_)
        simp only [List.append_assoc, List.singleton_append]
        exact List.Perm.refl _ })

variable {c c' : Channel α} {index : Nat} {message : α}

@[simp] theorem send_sent (c : Channel α) (messages : List α) :
    (c.send messages).sent = c.sent ++ messages := rfl

@[simp] theorem send_delivered (c : Channel α) (messages : List α) :
    (c.send messages).delivered = c.delivered := rfl

@[simp] theorem send_dropped (c : Channel α) (messages : List α) :
    (c.send messages).dropped = c.dropped := rfl

@[simp] theorem send_inFlight (c : Channel α) (messages : List α) :
    (c.send messages).inFlight = c.inFlight ++ messages := rfl

/-- What a delivery does, if there is something to deliver. -/
structure Delivers (c : Channel α) (index : Nat) (message : α) (c' : Channel α) : Prop where
  found : c.inFlight[index]? = some message
  sent : c'.sent = c.sent
  delivered : c'.delivered = c.delivered ++ [message]
  dropped : c'.dropped = c.dropped
  inFlight : c'.inFlight = c.inFlight.eraseIdx index

/-- What a loss does. -/
structure Drops (c : Channel α) (index : Nat) (message : α) (c' : Channel α) : Prop where
  found : c.inFlight[index]? = some message
  sent : c'.sent = c.sent
  delivered : c'.delivered = c.delivered
  dropped : c'.dropped = c.dropped ++ [message]
  inFlight : c'.inFlight = c.inFlight.eraseIdx index

theorem delivers_of_deliver (h : c.deliver index = some (message, c')) :
    c.Delivers index message c' := by
  unfold deliver at h
  split at h
  · cases h
  · next hi =>
      cases h
      exact ⟨hi, rfl, rfl, rfl, rfl⟩

theorem drops_of_drop (h : c.drop index = some (message, c')) : c.Drops index message c' := by
  unfold drop at h
  split at h
  · cases h
  · next hi =>
      cases h
      exact ⟨hi, rfl, rfl, rfl, rfl⟩

theorem mem_sent_of_mem_inFlight (h : message ∈ c.inFlight) : message ∈ c.sent :=
  c.conserved.mem_iff.mpr (List.mem_append_right _ h)

theorem mem_sent_of_mem_delivered (h : message ∈ c.delivered) : message ∈ c.sent :=
  c.conserved.mem_iff.mpr (List.mem_append_left _ (List.mem_append_left _ h))

theorem Delivers.mem_sent (h : c.Delivers index message c') : message ∈ c.sent :=
  mem_sent_of_mem_inFlight (List.mem_of_getElem? h.found)

/-- Adding up what some of the messages say, those delivered say no more than those sent. -/
theorem sum_delivered_le (c : Channel α) (read : α → Option β) (measure : β → Nat) :
    ((c.delivered.filterMap read).map measure).sum ≤ ((c.sent.filterMap read).map measure).sum := by
  have hsum := ((c.conserved.filterMap read).map measure).sum_eq
  simp only [List.filterMap_append, List.map_append, List.sum_append] at hsum
  omega

/-! A channel that keeps the order. -/

/-- What was delivered, and then what is in flight, stands in the order of sending. -/
def InOrder (c : Channel α) : Prop := (c.delivered ++ c.inFlight).Sublist c.sent

theorem inOrder_empty : ({} : Channel α).InOrder := List.Sublist.refl _

theorem InOrder.send (h : c.InOrder) (messages : List α) : (c.send messages).InOrder := by
  unfold InOrder at h ⊢
  rw [send_delivered, send_inFlight, send_sent, ← List.append_assoc]
  exact h.append (List.Sublist.refl messages)

/-- The oldest message in flight may be delivered. -/
theorem InOrder.deliver (h : c.InOrder) (hd : c.Delivers 0 message c') : c'.InOrder := by
  unfold InOrder at h ⊢
  rw [hd.delivered, hd.inFlight, hd.sent]
  cases hl : c.inFlight with
  | nil =>
      have hfound := hd.found
      rw [hl] at hfound
      cases hfound
  | cons first rest =>
      have hfound := hd.found
      rw [hl] at hfound h
      cases hfound
      rw [List.eraseIdx_zero, List.tail_cons, List.append_assoc, List.singleton_append]
      exact h

/-- Any message in flight may be lost. -/
theorem InOrder.drop (h : c.InOrder) (hd : c.Drops index message c') : c'.InOrder := by
  unfold InOrder at h ⊢
  rw [hd.delivered, hd.inFlight, hd.sent]
  exact ((List.eraseIdx_sublist _ _).append_left _).trans h

/-- A sent message with a key below that of a delivered one was delivered or lost, where the
keys increase in the order of sending. -/
theorem InOrder.overtaken (h : c.InOrder) {key : α → Nat}
    (hkeys : (c.sent.map key).Pairwise (· < ·)) {later : α} (hm : message ∈ c.sent)
    (hl : later ∈ c.delivered) (hlt : key message < key later)
    (hnot : message ∉ c.delivered) : message ∈ c.dropped := by
  have hparts := c.conserved.mem_iff.mp hm
  rw [List.mem_append, List.mem_append] at hparts
  rcases hparts with (hd | hd) | hf
  · exact absurd hd hnot
  · exact hd
  · have hsorted := hkeys.sublist (h.map key)
    rw [List.map_append, List.pairwise_append] at hsorted
    have habove := hsorted.2.2 (key later) (List.mem_map_of_mem hl) (key message)
      (List.mem_map_of_mem hf)
    omega

end Channel
