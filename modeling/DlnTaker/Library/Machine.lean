import Mathlib.Data.List.Induction
import Mathlib.Data.Option.Basic

/-! # Machines and their runs

A machine reads inputs one at a time and refuses those it cannot read in its
present state. All nondeterminism of an environment is in the inputs, so a run
is determined by them and can be executed. Guarding a machine keeps only the
runs whose steps meet a condition on the state before the step and the input.
-/

/-- An initial state and a partial transition function. -/
structure Machine (σ ι : Type*) where
  init : σ
  step : σ → ι → Option σ

namespace Machine

variable {σ ι : Type*} (M : Machine σ ι)

/-- Reading the inputs in order leads from the initial state to the given one. -/
inductive Run : List ι → σ → Prop
  | nil : Run [] M.init
  | snoc {t : List ι} {s : σ} {i : ι} {s' : σ} :
      Run t s → M.step s i = some s' → Run (t ++ [i]) s'

/-- Execute a list of inputs. -/
def exec : σ → List ι → Option σ
  | s, [] => some s
  | s, i :: t => (M.step s i).bind fun s' => exec s' t

variable {M} {t t₁ t₂ : List ι} {s s' : σ} {i : ι}

@[simp] theorem exec_nil : M.exec s [] = some s := rfl

@[simp] theorem exec_singleton : M.exec s [i] = M.step s i := by
  cases h : M.step s i <;> simp [exec, h]

theorem exec_append :
    M.exec s (t₁ ++ t₂) = (M.exec s t₁).bind fun s' => M.exec s' t₂ := by
  induction t₁ generalizing s with
  | nil => rfl
  | cons i t₁ ih =>
    simp only [List.cons_append, exec]
    cases M.step s i with
    | none => rfl
    | some s' => simpa using ih

theorem exec_concat : M.exec s (t ++ [i]) = (M.exec s t).bind fun s' => M.step s' i := by
  rw [exec_append]
  congr 1
  funext s'
  simp [exec]

theorem run_iff_exec : M.Run t s ↔ M.exec M.init t = some s := by
  constructor
  · intro h
    induction h with
    | nil => rfl
    | snoc _ hs ih => rw [exec_concat, ih]; exact hs
  · intro h
    induction t using List.reverseRecOn generalizing s with
    | nil => cases h; exact .nil
    | append_singleton t i ih =>
      rw [exec_concat] at h
      obtain ⟨u, hu, hs⟩ := Option.bind_eq_some_iff.mp h
      exact .snoc (ih hu) hs

theorem Run.unique (h : M.Run t s) (h' : M.Run t s') : s = s' :=
  Option.some.inj ((run_iff_exec.mp h).symm.trans (run_iff_exec.mp h'))

/-- What holds initially and is kept by every step holds of every reachable state. -/
theorem Run.invariant {P : σ → Prop} (h : M.Run t s) (init : P M.init)
    (step : ∀ s i s', P s → M.step s i = some s' → P s') : P s := by
  induction h with
  | nil => exact init
  | snoc _ hs ih => exact step _ _ _ ih hs

/-- The same for the execution of a list of inputs from any state. -/
theorem exec_invariant {P : σ → Prop} (h : M.exec s t = some s') (hp : P s)
    (step : ∀ s i s', P s → M.step s i = some s' → P s') : P s' := by
  induction t generalizing s with
  | nil =>
    obtain rfl := Option.some.inj h
    exact hp
  | cons i t ih =>
    obtain ⟨u, hu, h⟩ := Option.bind_eq_some_iff.mp h
    exact ih h (step s i u hp hu)

/-- The same for a relation between the inputs read so far and the state. -/
theorem Run.history {P : List ι → σ → Prop} (h : M.Run t s) (init : P [] M.init)
    (step : ∀ t s i s', M.Run t s → P t s → M.step s i = some s' → P (t ++ [i]) s') : P t s := by
  induction h with
  | nil => exact init
  | snoc hr hs ih => exact step _ _ _ _ hr ih hs

/-- The same where all the inputs have a property. -/
theorem Run.invariant_of_inputs {P : σ → Prop} {A : ι → Prop} (h : M.Run t s)
    (ha : ∀ i ∈ t, A i) (init : P M.init)
    (step : ∀ s i s', A i → P s → M.step s i = some s' → P s') : P s := by
  induction h with
  | nil => exact init
  | snoc _ hs ih =>
    refine step _ _ _ (ha _ (List.mem_append_right _ (List.mem_singleton_self _))) ?_ hs
    exact ih fun i hi => ha i (List.mem_append_left _ hi)

/-- A run is no longer than the rank of its initial state, if every step lowers the rank. -/
theorem Run.length_add_rank_le {rank : σ → ℕ} (h : M.Run t s)
    (step : ∀ s i s', M.step s i = some s' → rank s' < rank s) :
    t.length + rank s ≤ rank M.init := by
  induction h with
  | nil => simp
  | snoc _ hs ih =>
    have hlt := step _ _ _ hs
    rw [List.length_append, List.length_singleton]
    omega

/-- A machine whose every step another one follows, in the image of the state and on the inputs it
translates to, has only runs that the other one has. -/
theorem Run.simulated {τ κ : Type*} {N : Machine τ κ} (f : σ → τ) (g : ι → List κ) (h : M.Run t s)
    (init : f M.init = N.init)
    (step : ∀ s i s', M.step s i = some s' → N.exec (f s) (g i) = some (f s')) :
    N.Run (t.flatMap g) (f s) := by
  induction h with
  | nil =>
    rw [List.flatMap_nil, init]
    exact .nil
  | snoc _ hs ih =>
    rw [run_iff_exec] at ih ⊢
    rw [List.flatMap_append, exec_append, ih, List.flatMap_singleton]
    exact step _ _ _ hs

/-- A machine whose every step another one follows, with inputs of its own that have a property, has
only runs that end in states related to ones the other machine reaches on such inputs. -/
theorem Run.refines {τ κ : Type*} {N : Machine τ κ} {R : σ → τ → Prop} {A : ι → Prop}
    {B : κ → Prop} (h : M.Run t s) (ha : ∀ i ∈ t, A i) (init : R M.init N.init)
    (step : ∀ s i s' u, A i → R s u → M.step s i = some s' →
      ∃ js u', (∀ j ∈ js, B j) ∧ N.exec u js = some u' ∧ R s' u') :
    ∃ js u, (∀ j ∈ js, B j) ∧ N.Run js u ∧ R s u := by
  induction h with
  | nil => exact ⟨[], N.init, by simp, .nil, init⟩
  | @snoc t s i s' _ hs ih =>
    obtain ⟨js, u, hb, hr, hu⟩ := ih fun j hj => ha j (List.mem_append_left _ hj)
    have hi : A i := ha i (List.mem_append_right _ (List.mem_singleton_self _))
    obtain ⟨js', u', hb', hexec, hu'⟩ := step _ _ _ _ hi hu hs
    refine ⟨js ++ js', u', fun j hj => ?_, run_iff_exec.mpr ?_, hu'⟩
    · exact (List.mem_append.mp hj).elim (hb j) (hb' j)
    · rw [exec_append, run_iff_exec.mp hr]
      exact hexec

/-- A run on given inputs, found by execution. -/
theorem exists_run_of_any {p : σ → Bool} (h : (M.exec M.init t).any p = true) :
    ∃ s, M.Run t s ∧ p s = true := by
  cases hs : M.exec M.init t with
  | none => simp [hs] at h
  | some s => exact ⟨s, run_iff_exec.mpr hs, by simpa [hs] using h⟩

/-- A run on given inputs has what all such runs have. -/
theorem exists_run_and {Q : σ → Prop} (h : (M.exec M.init t).isSome = true)
    (hQ : ∀ s, M.Run t s → Q s) : ∃ s, M.Run t s ∧ Q s := by
  obtain ⟨s, hs⟩ := Option.isSome_iff_exists.mp h
  have hr : M.Run t s := run_iff_exec.mpr hs
  exact ⟨s, hr, hQ s hr⟩

section Guard

variable (M) (C : σ → ι → Prop) [∀ s i, Decidable (C s i)]

/-- The machine that takes only the steps meeting the condition. -/
def guard : Machine σ ι where
  init := M.init
  step s i := if C s i then M.step s i else none

variable {M C}

theorem guard_step : (M.guard C).step s i = some s' ↔ C s i ∧ M.step s i = some s' := by
  simp [guard]

/-- An invariant of the guarded machine may use the condition at every step. -/
theorem Run.guarded_invariant {P : σ → Prop} (h : (M.guard C).Run t s) (init : P M.init)
    (step : ∀ s i s', P s → C s i → M.step s i = some s' → P s') : P s :=
  h.invariant init fun s i s' hp hs =>
    step s i s' hp (guard_step.mp hs).1 (guard_step.mp hs).2

end Guard

end Machine
