import Mathlib.Logic.Function.Basic
import DlnTaker.Library.InsertionSet

/-! # Insertion-ordered maps

A map that lists its entries in the order in which their keys were added, as the
`Map` of ECMAScript does: setting a present key changes its value in place.
-/

/-- The keys in insertion order, and the value of each. -/
structure InsertionMap (κ α : Type*) where
  keys : InsertionSet κ
  get? : κ → Option α
  mem_keys : ∀ k, k ∈ keys ↔ (get? k).isSome = true

namespace InsertionMap

variable {κ α : Type*} {k k' : κ} {a : α}

def empty : InsertionMap κ α := ⟨.empty, fun _ => none, by simp⟩

@[simp] theorem get?_empty : (empty : InsertionMap κ α).get? k = none := rfl

def entries (m : InsertionMap κ α) : List (κ × α) :=
  m.keys.toList.filterMap fun k => (m.get? k).map (k, ·)

theorem mem_entries {m : InsertionMap κ α} : (k, a) ∈ m.entries ↔ m.get? k = some a := by
  simp only [entries, List.mem_filterMap, Option.map_eq_some_iff, Prod.mk.injEq]
  constructor
  · rintro ⟨_, _, _, h, rfl, rfl⟩
    exact h
  · intro h
    exact ⟨k, (m.mem_keys k).mpr (by rw [h]; rfl), a, h, rfl, rfl⟩

variable [DecidableEq κ]

def set (m : InsertionMap κ α) (k : κ) (a : α) : InsertionMap κ α where
  keys := m.keys.add k
  get? := Function.update m.get? k (some a)
  mem_keys k' := by
    by_cases h : k' = k
    · subst h; simp
    · simp [h, m.mem_keys]

theorem get?_set {m : InsertionMap κ α} :
    (m.set k a).get? k' = if k' = k then some a else m.get? k' := by
  simp [set, Function.update_apply]

end InsertionMap
