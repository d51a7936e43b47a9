import Mathlib.Data.List.Nodup

/-! # Insertion-ordered sets

A set that remembers the order in which its elements were added, as the `Set` of
ECMAScript does: adding a present element changes nothing, a deleted element
that is added again goes to the end.
-/

/-- The elements in insertion order, each once. -/
structure InsertionSet (α : Type*) where
  toList : List α
  nodup : toList.Nodup

namespace InsertionSet

variable {α : Type*}

@[ext] theorem ext {s t : InsertionSet α} (h : s.toList = t.toList) : s = t := by
  cases s; cases t; cases h; rfl

def empty : InsertionSet α := ⟨[], .nil⟩

instance : Membership α (InsertionSet α) := ⟨fun s a => a ∈ s.toList⟩

theorem mem_def {s : InsertionSet α} {a : α} : a ∈ s ↔ a ∈ s.toList := Iff.rfl

@[simp] theorem not_mem_empty (a : α) : a ∉ (empty : InsertionSet α) := List.not_mem_nil

/-- The element added first, `values().next().value`. -/
def first? (s : InsertionSet α) : Option α := s.toList.head?

theorem mem_of_first?_eq_some {s : InsertionSet α} {a : α} (h : s.first? = some a) : a ∈ s :=
  List.mem_of_mem_head? h

theorem first?_eq_none {s : InsertionSet α} : s.first? = none ↔ ∀ a, a ∉ s := by
  simp [first?, mem_def, List.eq_nil_iff_forall_not_mem]

def size (s : InsertionSet α) : ℕ := s.toList.length

@[simp] theorem size_empty : (empty : InsertionSet α).size = 0 := rfl

variable [DecidableEq α]

instance (a : α) (s : InsertionSet α) : Decidable (a ∈ s) :=
  inferInstanceAs (Decidable (a ∈ s.toList))

def add (s : InsertionSet α) (a : α) : InsertionSet α where
  toList := if a ∈ s.toList then s.toList else s.toList ++ [a]
  nodup := by
    split
    · exact s.nodup
    · rename_i h
      exact s.nodup.append (List.nodup_singleton a) (by simpa using h)

def delete (s : InsertionSet α) (a : α) : InsertionSet α where
  toList := s.toList.filter (· ≠ a)
  nodup := s.nodup.filter _

@[simp] theorem mem_add {s : InsertionSet α} {a b : α} : b ∈ s.add a ↔ b = a ∨ b ∈ s := by
  simp only [mem_def, add]
  split
  · rename_i h
    constructor
    · exact Or.inr
    · rintro (rfl | hb)
      · exact h
      · exact hb
  · rw [List.mem_append, List.mem_singleton, or_comm]

@[simp] theorem mem_delete {s : InsertionSet α} {a b : α} : b ∈ s.delete a ↔ b ≠ a ∧ b ∈ s := by
  simp [mem_def, delete, and_comm]

theorem size_delete_le {s : InsertionSet α} {a : α} : (s.delete a).size ≤ s.size :=
  List.length_filter_le _ _

/-- Delete the elements of a list one after the other. -/
def deleteAll (s : InsertionSet α) (as : List α) : InsertionSet α := as.foldl delete s

@[simp] theorem mem_deleteAll {s : InsertionSet α} {as : List α} {b : α} :
    b ∈ s.deleteAll as ↔ b ∉ as ∧ b ∈ s := by
  induction as generalizing s with
  | nil => simp [deleteAll]
  | cons a as ih =>
    change b ∈ (s.delete a).deleteAll as ↔ _
    rw [ih, mem_delete, List.mem_cons]
    tauto

section Rank

variable {s : InsertionSet α} {a b : α}

/-- How many elements were added before the given one. -/
def rank (s : InsertionSet α) (a : α) : ℕ := s.toList.idxOf a

/-- An element added later does not overtake. -/
theorem rank_add (h : a ∈ s) : (s.add b).rank a = s.rank a := by
  rw [rank, rank, add]
  split
  · rfl
  · exact List.idxOf_append_of_mem h

theorem idxOf_filter_le {l : List α} {p : α → Bool} (h : p a = true) :
    (l.filter p).idxOf a ≤ l.idxOf a := by
  induction l with
  | nil => exact Nat.le_refl _
  | cons c l ih =>
    by_cases hc : c = a
    · rw [hc, List.filter_cons_of_pos h, List.idxOf_cons_self]
      exact Nat.zero_le _
    · rw [List.idxOf_cons_ne _ hc]
      cases hp : p c with
      | true =>
        rw [List.filter_cons_of_pos hp, List.idxOf_cons_ne _ hc]
        exact Nat.succ_le_succ ih
      | false =>
        rw [List.filter_cons_of_neg (by simp [hp])]
        exact Nat.le_succ_of_le ih

theorem rank_delete_le (h : a ≠ b) : (s.delete b).rank a ≤ s.rank a :=
  idxOf_filter_le (by simpa using h)

/-- Every element moves up when the first one is deleted. -/
theorem rank_delete_first (h : a ≠ b) (hb : s.first? = some b) :
    (s.delete b).rank a < s.rank a := by
  obtain ⟨l, hl⟩ := List.head?_eq_some_iff.mp hb
  have hle : (l.filter (· ≠ b)).idxOf a ≤ l.idxOf a := idxOf_filter_le (by simpa using h)
  change (s.toList.filter (· ≠ b)).idxOf a < s.toList.idxOf a
  rw [hl, List.filter_cons_of_neg (by simp), List.idxOf_cons_ne _ h.symm]
  exact Nat.lt_succ_of_le hle

end Rank

end InsertionSet
