import Mathlib.Data.List.DropRight
import Mathlib.Tactic

/-! The queue of a sliding-window minimum: entries leave at the front when they expire,
and at the back when the new value is at most theirs. -/

namespace MinQueue
variable {τ α : Type} {expired : τ → Bool} {q : List (τ × α)} {t : τ} {x : α}

theorem mem_or_expired_of_mem (expired : τ → Bool) {h : τ × α} (hh : h ∈ q) :
    h ∈ (q.dropWhile fun h => expired h.1) ∨ expired h.1 = true := by
  rw [← List.takeWhile_append_dropWhile (p := fun h => expired h.1) (l := q)] at hh
  rcases List.mem_append.mp hh with hh | hh
  · exact .inr (List.mem_takeWhile_imp (p := fun h : τ × α => expired h.1) hh)
  · exact .inl hh

variable [LinearOrder α]

/-- One update of the queue: expiry, removal of dominated entries, and the new entry. -/
def push (expired : τ → Bool) (q : List (τ × α)) (t : τ) (x : α) : List (τ × α) :=
  ((q.dropWhile fun h => expired h.1).rdropWhile fun h => decide (x ≤ h.2)) ++ [(t, x)]

/-- Values strictly increase from front to back. -/
def Increasing (q : List (τ × α)) : Prop := q.Pairwise fun a b => a.2 < b.2

/-- The front of an increasing queue holds its smallest value. -/
theorem Increasing.front_le {h : τ × α} {rest : List (τ × α)} (hq : Increasing (h :: rest)) :
    ∀ e ∈ h :: rest, h.2 ≤ e.2 := by
  intro e he
  rcases List.mem_cons.mp he with rfl | he
  · exact le_refl _
  · exact ((List.pairwise_cons.mp hq).1 e he).le

/-- What survives the removal at the back lies below the new value. -/
theorem lt_of_mem_rdropWhile (hq : Increasing q) {h : τ × α}
    (hh : h ∈ q.rdropWhile fun h => decide (x ≤ h.2)) : h.2 < x := by
  induction q using List.reverseRecOn with
  | nil => simp at hh
  | append_singleton q e ih =>
      have hq' := List.pairwise_append.mp hq
      rw [List.rdropWhile_concat] at hh
      split_ifs at hh with hx
      · exact ih hq'.1 hh
      · have he : e.2 < x := by simpa using hx
        rcases List.mem_append.mp hh with hh | hh
        · exact (hq'.2.2 h hh e (List.mem_singleton_self e)).trans he
        · rw [List.mem_singleton.mp hh]
          exact he

theorem mem_or_le_of_mem {h : τ × α} (hh : h ∈ q) :
    h ∈ (q.rdropWhile fun h => decide (x ≤ h.2)) ∨ x ≤ h.2 := by
  have hsplit := List.rdropWhile_append_rtakeWhile (p := fun h : τ × α => decide (x ≤ h.2)) (l := q)
  rw [← hsplit] at hh
  rcases List.mem_append.mp hh with hh | hh
  · exact .inl hh
  · right
    simpa using List.mem_rtakeWhile_imp hh

theorem kept_sublist :
    ((q.dropWhile fun h => expired h.1).rdropWhile fun h => decide (x ≤ h.2)).Sublist q :=
  (List.rdropWhile_prefix _ _).sublist.trans (List.dropWhile_sublist _)

theorem Increasing.push (hq : Increasing q) : Increasing (push expired q t x) := by
  have hdrop : Increasing (q.dropWhile fun h => expired h.1) := hq.sublist (List.dropWhile_sublist _)
  refine List.pairwise_append.mpr ⟨hq.sublist kept_sublist, List.pairwise_singleton _ _, ?_⟩
  intro h hh e he
  rw [List.mem_singleton.mp he]
  exact lt_of_mem_rdropWhile hdrop hh

/-- An entry of the updated queue is the new one or was there before. -/
theorem mem_push {h : τ × α} (hh : h ∈ push expired q t x) : h ∈ q ∨ h = (t, x) := by
  rcases List.mem_append.mp hh with hh | hh
  · exact .inl (kept_sublist.subset hh)
  · exact .inr (List.mem_singleton.mp hh)

theorem new_mem_push : (t, x) ∈ push expired q t x :=
  List.mem_append_right _ (List.mem_singleton_self _)

theorem push_ne_nil : push expired q t x ≠ [] := List.ne_nil_of_mem new_mem_push

/-- An entry that leaves has expired or is dominated by the new value. -/
theorem mem_push_or (expired : τ → Bool) (t : τ) (x : α) {h : τ × α} (hh : h ∈ q) :
    h ∈ push expired q t x ∨ expired h.1 = true ∨ x ≤ h.2 := by
  rcases mem_or_expired_of_mem expired hh with hh | hh
  · rcases mem_or_le_of_mem (x := x) hh with hh | hh
    · exact .inl (List.mem_append_left _ hh)
    · exact .inr (.inr hh)
  · exact .inr (.inl hh)

/-- An entry that is live and within a bound stays, or the new one dominates it. -/
theorem exists_le_push {p : τ → Prop} {bound : α} {h : τ × α} (hh : h ∈ q)
    (hlive : ∀ t', p t' → expired t' = false) (htime : p h.1) (hle : h.2 ≤ bound) (hnew : p t) :
    ∃ e ∈ push expired q t x, p e.1 ∧ e.2 ≤ bound := by
  rcases mem_push_or expired t x hh with hmem | hgone | hdominated
  · exact ⟨h, hmem, htime, hle⟩
  · rw [hlive _ htime] at hgone
    cases hgone
  · exact ⟨(t, x), new_mem_push, hnew, hdominated.trans hle⟩

/-- The front of the updated queue is the new entry or an old one that has not expired. -/
theorem front_push {h : τ × α} {rest : List (τ × α)} (hh : push expired q t x = h :: rest) :
    h = (t, x) ∨ h ∈ q ∧ expired h.1 = false := by
  unfold push at hh
  cases hk : (q.dropWhile fun h => expired h.1).rdropWhile fun h => decide (x ≤ h.2) with
  | nil =>
      rw [hk, List.nil_append] at hh
      exact .inl (List.cons.inj hh).1.symm
  | cons e es =>
      rw [hk, List.cons_append] at hh
      obtain ⟨rfl, -⟩ := List.cons.inj hh
      right
      have hmem : e ∈ q := kept_sublist.subset (hk ▸ List.mem_cons_self)
      refine ⟨hmem, ?_⟩
      -- the kept entries are a prefix of what dropWhile leaves, whose head has not expired
      obtain ⟨tail, htail⟩ := List.rdropWhile_prefix (fun h : τ × α => decide (x ≤ h.2))
        (q.dropWhile fun h => expired h.1)
      rw [hk, List.cons_append] at htail
      have hhead := List.head?_dropWhile_not (fun h : τ × α => expired h.1) q
      rw [← htail] at hhead
      simpa using hhead

/-! Runs from the empty queue: its front is the minimum of what has not expired. -/

section Runs
variable {expired : τ → τ → Bool} {cs q : List (τ × α)} {c : τ × α}

/-- The queue after entries that were pushed in turn, each at its own time. -/
def pushAll (expired : τ → τ → Bool) (cs : List (τ × α)) : List (τ × α) :=
  cs.foldl (fun q c => push (expired c.1) q c.1 c.2) []

theorem pushAll_snoc (expired : τ → τ → Bool) (cs : List (τ × α)) (c : τ × α) :
    pushAll expired (cs ++ [c]) = push (expired c.1) (pushAll expired cs) c.1 c.2 :=
  List.foldl_concat _ _ _ _

variable [Preorder τ]

/-- As time passes an expired entry stays expired, and older entries expire before it. -/
structure Expiry (expired : τ → τ → Bool) : Prop where
  later : ∀ {t t' s : τ}, t ≤ t' → expired t s = true → expired t' s = true
  older : ∀ {t s s' : τ}, s ≤ s' → expired t s' = true → expired t s = true

/-- A queue holds entries in the order of their times and values, and until an entry expires
the queue has one of a later time with a value that is no larger. -/
structure Represents (expired : τ → τ → Bool) (cs q : List (τ × α)) : Prop where
  increasing : Increasing q
  ordered : q.Pairwise fun a b => a.1 ≤ b.1
  subset : ∀ e ∈ q, e ∈ cs
  covers : ∀ now, (∀ e ∈ cs, e.1 ≤ now) → ∀ e ∈ cs, expired now e.1 = false →
    ∃ f ∈ q, e.1 ≤ f.1 ∧ f.2 ≤ e.2

theorem represents_nil : Represents expired ([] : List (τ × α)) [] where
  increasing := List.Pairwise.nil
  ordered := List.Pairwise.nil
  subset _ he := he
  covers _ _ e he := by cases he

theorem Represents.push (hx : Expiry expired) (h : Represents expired cs q)
    (hc : ∀ e ∈ cs, e.1 ≤ c.1) :
    Represents expired (cs ++ [c]) (push (expired c.1) q c.1 c.2) := by
  constructor
  case increasing => exact h.increasing.push
  case ordered =>
    refine List.pairwise_append.mpr ⟨h.ordered.sublist kept_sublist, List.pairwise_singleton _ _, ?_⟩
    intro e he f hf
    rw [List.mem_singleton.mp hf]
    exact hc e (h.subset e (kept_sublist.subset he))
  case subset =>
    intro e he
    rcases mem_push he with he | rfl
    · exact List.mem_append_left _ (h.subset e he)
    · exact List.mem_append_right _ (List.mem_singleton_self _)
  case covers =>
    intro now hnow e he hlive
    rcases List.mem_append.mp he with he | he
    · have hlater : c.1 ≤ now := hnow c (List.mem_append_right _ (List.mem_singleton_self _))
      have hliveAt : expired c.1 e.1 = false :=
        Bool.eq_false_iff.mpr (mt (hx.later hlater) (Bool.eq_false_iff.mp hlive))
      obtain ⟨f, hf, htime, hvalue⟩ := h.covers c.1 hc e he hliveAt
      refine exists_le_push (p := (e.1 ≤ ·)) hf ?_ htime hvalue (hc e he)
      exact fun s hs => Bool.eq_false_iff.mpr (mt (hx.older hs) (Bool.eq_false_iff.mp hliveAt))
    · rw [List.mem_singleton.mp he]
      exact ⟨c, new_mem_push, le_refl _, le_refl _⟩

theorem represents_pushAll (hx : Expiry expired) (hcs : cs.Pairwise fun a b => a.1 ≤ b.1) :
    Represents expired cs (pushAll expired cs) := by
  induction cs using List.reverseRecOn with
  | nil => exact represents_nil
  | append_singleton cs c ih =>
      obtain ⟨hbefore, -, hlast⟩ := List.pairwise_append.mp hcs
      rw [pushAll_snoc]
      exact (ih hbefore).push hx fun e he => hlast e he c (List.mem_singleton_self _)

/-- The front of the queue is the minimum of the values that have not expired. -/
theorem front_isLeast (hx : Expiry expired) (hcs : (cs ++ [c]).Pairwise fun a b => a.1 ≤ b.1)
    (hlive : expired c.1 c.1 = false) {h : τ × α} {rest : List (τ × α)}
    (hq : pushAll expired (cs ++ [c]) = h :: rest) :
    IsLeast {x | ∃ e ∈ cs ++ [c], expired c.1 e.1 = false ∧ e.2 = x} h.2 := by
  have hrep := represents_pushAll hx hcs
  rw [hq] at hrep
  constructor
  · refine ⟨h, hrep.subset h List.mem_cons_self, ?_, rfl⟩
    rw [pushAll_snoc] at hq
    rcases front_push hq with rfl | ⟨-, hfresh⟩
    · exact hlive
    · exact hfresh
  · rintro x ⟨e, he, hfresh, rfl⟩
    have hnow : ∀ e ∈ cs ++ [c], e.1 ≤ c.1 := by
      intro e he
      rcases List.mem_append.mp he with he | he
      · exact (List.pairwise_append.mp hcs).2.2 e he c (List.mem_singleton_self _)
      · rw [List.mem_singleton.mp he]
    obtain ⟨f, hf, -, hle⟩ := hrep.covers c.1 hnow e he hfresh
    exact (hrep.increasing.front_le f hf).trans hle

end Runs

end MinQueue
