import Mathlib.Tactic

/-! A sequence cut into batches: each batch ends at the first element that makes it full,
and what is left over is not full yet. -/

namespace Batches
variable {α : Type} {full : List α → Prop}

/-- A full sequence of which no shorter prefix is full. -/
structure Batch (full : List α → Prop) (b : List α) : Prop where
  isFull : full b
  first : ∀ pre, pre <+: b → pre ≠ b → ¬ full pre

/-- The batches of a sequence, in their order, and the rest after the last one. -/
structure Split (full : List α → Prop) (xs : List α) (batches : List (List α)) (rest : List α) :
    Prop where
  eq : batches.flatten ++ rest = xs
  batch : ∀ b ∈ batches, Batch full b
  waiting : ∀ pre, pre <+: rest → ¬ full pre

theorem split_nil (h : ¬ full []) : Split full [] [] [] where
  eq := rfl
  batch b hb := by cases hb
  waiting pre hpre := by rwa [List.prefix_nil.mp hpre]

variable {xs rest rest' : List α} {batches batches' : List (List α)} {x : α}

theorem Split.wait (h : Split full xs batches rest) (hx : ¬ full (rest ++ [x])) :
    Split full (xs ++ [x]) batches (rest ++ [x]) where
  eq := by rw [← h.eq, List.append_assoc]
  batch := h.batch
  waiting pre hpre := by
    rcases List.prefix_concat_iff.mp hpre with rfl | hpre
    · exact hx
    · exact h.waiting pre hpre

theorem Split.close (h : Split full xs batches rest) (hx : full (rest ++ [x])) :
    Split full (xs ++ [x]) (batches ++ [rest ++ [x]]) [] where
  eq := by rw [← h.eq, List.flatten_concat, List.append_nil, List.append_assoc]
  batch b hb := by
    rcases List.mem_append.mp hb with hb | hb
    · exact h.batch b hb
    · rw [List.mem_singleton.mp hb]
      refine ⟨hx, ?_⟩
      intro pre hpre hne
      exact h.waiting pre ((List.prefix_concat_iff.mp hpre).resolve_left hne)
  waiting pre hpre := by
    rw [List.prefix_nil.mp hpre]
    exact h.waiting [] List.nil_prefix

theorem exists_split (hnil : ¬ full []) (xs : List α) : ∃ batches rest, Split full xs batches rest := by
  induction xs using List.reverseRecOn with
  | nil => exact ⟨[], [], split_nil hnil⟩
  | append_singleton xs x ih =>
      obtain ⟨batches, rest, h⟩ := ih
      by_cases hx : full (rest ++ [x])
      · exact ⟨_, _, h.close hx⟩
      · exact ⟨_, _, h.wait hx⟩

/-- Two batches that begin one sequence are the same. -/
theorem Batch.unique {b b' : List α} (h : Batch full b) (h' : Batch full b') (hb : b <+: xs)
    (hb' : b' <+: xs) : b = b' := by
  by_contra hne
  rcases List.prefix_or_prefix_of_prefix hb hb' with hpre | hpre
  · exact h'.first b hpre hne h.isFull
  · exact h.first b' hpre (Ne.symm hne) h'.isFull

/-- There is one way to cut a sequence. -/
theorem Split.unique (h : Split full xs batches rest) (h' : Split full xs batches' rest') :
    batches = batches' ∧ rest = rest' := by
  induction batches generalizing xs batches' with
  | nil =>
      have hrest : rest = xs := h.eq
      cases batches' with
      | nil => exact ⟨rfl, hrest.trans (h'.eq.symm)⟩
      | cons b' batches' =>
          have hpre : b' <+: rest := by
            rw [hrest, ← h'.eq, List.flatten_cons, List.append_assoc]
            exact List.prefix_append _ _
          exact absurd (h'.batch b' List.mem_cons_self).isFull (h.waiting b' hpre)
  | cons b batches ih =>
      have hpre : b <+: xs := by
        rw [← h.eq, List.flatten_cons, List.append_assoc]
        exact List.prefix_append _ _
      cases batches' with
      | nil =>
          have hrest : rest' = xs := h'.eq
          rw [← hrest] at hpre
          exact absurd (h.batch b List.mem_cons_self).isFull (h'.waiting b hpre)
      | cons b' batches' =>
          have hpre' : b' <+: xs := by
            rw [← h'.eq, List.flatten_cons, List.append_assoc]
            exact List.prefix_append _ _
          have hb := (h.batch b List.mem_cons_self).unique (h'.batch b' List.mem_cons_self) hpre hpre'
          subst hb
          have htail : batches.flatten ++ rest = batches'.flatten ++ rest' := by
            have heq := h.eq.trans h'.eq.symm
            rwa [List.flatten_cons, List.flatten_cons, List.append_assoc, List.append_assoc,
              List.append_cancel_left_eq] at heq
          obtain ⟨hbatches, hrest⟩ := ih
            ⟨htail, fun c hc => h.batch c (List.mem_cons_of_mem b hc), h.waiting⟩
            ⟨rfl, fun c hc => h'.batch c (List.mem_cons_of_mem b hc), h'.waiting⟩
          exact ⟨by rw [hbatches], hrest⟩

end Batches
