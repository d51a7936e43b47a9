import Mathlib.Algebra.Order.BigOperators.Group.Finset

/-! # Bounded exposure

A limit on what the elements exposed at the same time are worth together. The
exposed elements are given by a predicate, so the limit is a bound for every
finite set of them. An element may be admitted when it fits beside the others;
it may be settled by taking its worth off the limit. Entries that have been read
one by one bound what is exposed.
-/

/-- The exposed elements are together worth at most the limit. -/
def Exposure.Bounded {α K : Type*} [AddCommMonoid K] [LE K] (worth : α → K) (limit : K)
    (P : α → Prop) : Prop :=
  ∀ S : Finset α, (∀ a ∈ S, P a) → ∑ a ∈ S, worth a ≤ limit

namespace Exposure

section Group

variable {α K : Type*} [AddCommGroup K] [PartialOrder K]
  {worth : α → K} {limit limit' : K} {P Q : α → Prop} {a : α}

theorem Bounded.mono (h : Bounded worth limit P) (hQP : ∀ a, Q a → P a)
    (hl : limit ≤ limit') : Bounded worth limit' Q :=
  fun S hS => (h S fun a ha => hQP a (hS a ha)).trans hl

theorem bounded_of_forall_not (h : ∀ a, ¬ P a) (hl : 0 ≤ limit) : Bounded worth limit P := by
  intro S hS
  obtain rfl : S = ∅ := Finset.eq_empty_of_forall_notMem fun a ha => h a (hS a ha)
  simpa using hl

theorem Bounded.nonneg (h : Bounded worth limit P) : 0 ≤ limit := by
  have := h ∅ (by simp)
  simpa using this

variable [IsOrderedAddMonoid K] [DecidableEq α]

/-- An element is admitted when it fits beside a set that holds all other exposed elements. -/
theorem bounded_of_fits (others : Finset α) (hnn : ∀ a, 0 ≤ worth a)
    (hP : ∀ b, P b → b = a ∨ b ∈ others) (hsum : ∑ b ∈ others, worth b + worth a ≤ limit) :
    Bounded worth limit P := by
  intro S hS
  have hsub : S ⊆ insert a others := by
    intro b hb
    rcases hP b (hS b hb) with rfl | hb'
    · exact Finset.mem_insert_self b others
    · exact Finset.mem_insert_of_mem hb'
  calc ∑ b ∈ S, worth b
      ≤ ∑ b ∈ insert a others, worth b :=
        Finset.sum_le_sum_of_subset_of_nonneg hsub fun b _ _ => hnn b
    _ ≤ ∑ b ∈ others, worth b + worth a := by
        by_cases ha : a ∈ others
        · rw [Finset.insert_eq_self.mpr ha]
          exact le_add_of_nonneg_right (hnn a)
        · rw [Finset.sum_insert ha, add_comm]
    _ ≤ limit := hsum

/-- An exposed element that is settled no longer counts, and the limit is lowered by its worth. -/
theorem Bounded.settle (h : Bounded worth limit P) (ha : P a) :
    Bounded worth (limit - worth a) fun b => P b ∧ b ≠ a := by
  intro S hS
  have hS' : a ∉ S := fun has => (hS a has).2 rfl
  have hsum := h (insert a S) (by
    intro b hb
    rcases Finset.mem_insert.mp hb with rfl | hb
    · exact ha
    · exact (hS b hb).1)
  rw [Finset.sum_insert hS', add_comm] at hsum
  exact le_sub_iff_add_le.mpr hsum

/-- Each element has an entry that is not below its worth. -/
theorem sum_le_sum_entries {entries : List (α × K)} (h0 : ∀ entry ∈ entries, 0 ≤ entry.2)
    {S : Finset α} (h : ∀ a ∈ S, ∃ v, (a, v) ∈ entries ∧ worth a ≤ v) :
    ∑ a ∈ S, worth a ≤ (entries.map Prod.snd).sum := by
  induction entries generalizing S with
  | nil =>
    have hempty : S = ∅ := by
      apply Finset.eq_empty_of_forall_notMem
      intro a ha
      obtain ⟨v, hv, -⟩ := h a ha
      cases hv
    simp [hempty]
  | cons entry entries ih =>
    obtain ⟨b, w⟩ := entry
    have hw : 0 ≤ w := h0 (b, w) (by simp)
    have h0' : ∀ entry ∈ entries, 0 ≤ entry.2 := fun entry he => h0 entry (by simp [he])
    rw [List.map_cons, List.sum_cons]
    by_cases hb : b ∈ S ∧ worth b ≤ w
    · -- the entry counts for its element, and the other entries for the other elements
      rw [← Finset.add_sum_erase S worth hb.1]
      apply add_le_add hb.2
      apply ih h0'
      intro a ha
      obtain ⟨hne, ha⟩ := Finset.mem_erase.mp ha
      obtain ⟨v, hv, hle⟩ := h a ha
      rcases List.mem_cons.mp hv with he | hv
      · exact absurd (congrArg Prod.fst he) hne
      · exact ⟨v, hv, hle⟩
    · apply le_add_of_nonneg_of_le hw
      apply ih h0'
      intro a ha
      obtain ⟨v, hv, hle⟩ := h a ha
      rcases List.mem_cons.mp hv with he | hv
      · cases he
        exact absurd ⟨ha, hle⟩ hb
      · exact ⟨v, hv, hle⟩

end Group

end Exposure
