import DlnTaker.Library.Machine
import Mathlib.Logic.Function.Basic

/-! # Machines side by side

Every input of a family of machines is for one of its members and changes only
the state of that member. A run of the family is an interleaving of runs of its
members: the inputs for a member lead it to its part of the state.
-/

namespace Machine

variable {κ σ ι : Type*} [DecidableEq κ] {M : κ → Machine σ ι} {t : List (κ × ι)} {s : κ → σ}
  {k : κ} {i : ι}

/-- The members with their states and inputs. -/
def family (M : κ → Machine σ ι) : Machine (κ → σ) (κ × ι) where
  init k := (M k).init
  step s i := ((M i.1).step (s i.1) i.2).map (Function.update s i.1)

/-- The inputs of a member, in order. -/
def inputsOf (k : κ) (t : List (κ × ι)) : List ι :=
  t.filterMap fun i => if i.1 = k then some i.2 else none

@[simp] theorem inputsOf_concat_self : inputsOf k (t ++ [(k, i)]) = inputsOf k t ++ [i] := by
  simp [inputsOf, List.filterMap_append]

theorem inputsOf_concat_of_ne {l : κ} (h : l ≠ k) :
    inputsOf k (t ++ [(l, i)]) = inputsOf k t := by
  simp [inputsOf, List.filterMap_append, h]

theorem mem_inputsOf : i ∈ inputsOf k t ↔ (k, i) ∈ t := by
  simp only [inputsOf, List.mem_filterMap, Option.ite_none_right_eq_some, Option.some.injEq,
    Prod.exists]
  constructor
  · rintro ⟨l, j, hm, rfl, rfl⟩
    exact hm
  · intro hm
    exact ⟨k, i, hm, rfl, rfl⟩

theorem Run.member (h : (family M).Run t s) (k : κ) : (M k).Run (inputsOf k t) (s k) := by
  induction h with
  | nil => exact .nil
  | @snoc t s i s' _ hs ih =>
    obtain ⟨l, i⟩ := i
    obtain ⟨u, hu, rfl⟩ := Option.map_eq_some_iff.mp hs
    by_cases hl : l = k
    · subst hl
      rw [inputsOf_concat_self, Function.update_self]
      exact ih.snoc hu
    · rw [inputsOf_concat_of_ne hl, Function.update_of_ne (Ne.symm hl)]
      exact ih

end Machine
