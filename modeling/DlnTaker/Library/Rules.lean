import DlnTaker.Library.Dialogue

/-! # Rules of a dialogue

Rules say for every phase of a dialogue what may be asked and to which phase an
answer leads. A dialogue that follows them from a phase on does so whatever it is
answered, as long as the answers are among those that the rules expect.
-/

universe u v w x y

structure Rules (Q : Type u) (A : Q → Type v) (φ : Type y) where
  Allowed : φ → Q → Prop
  Expected : (query : Q) → A query → Prop
  next : φ → (query : Q) → A query → φ

namespace Rules

open Dialogue

variable {Q : Type u} {A : Q → Type v} {σ : Type w} {α β : Type x} {φ : Type y}
  (R : Rules Q A φ) {D : φ → α → Prop} {E : φ → β → Prop} {S : φ → σ → Prop} {phase : φ}
  {p : Dialogue Q A σ α} {f : α → Dialogue Q A σ β} {query : Q}
  {next : A query → Dialogue Q A σ α}

/-- From the phase on, only what is allowed is asked, and the dialogue is done or stops as the one
and the other property say of the phase it has come to. -/
def Follows (D : φ → α → Prop) (S : φ → σ → Prop) : φ → Dialogue Q A σ α → Prop
  | phase, .done value => D phase value
  | phase, .stop reason => S phase reason
  | phase, .ask query next => R.Allowed phase query ∧
      ∀ answer, R.Expected query answer → Follows D S (R.next phase query answer) (next answer)

variable {R}

@[simp] theorem follows_done {value : α} : R.Follows D S phase (.done value) ↔ D phase value :=
  Iff.rfl

@[simp] theorem follows_stop {reason : σ} :
    R.Follows D S phase (.stop reason) ↔ S phase reason := Iff.rfl

@[simp] theorem follows_ask : R.Follows D S phase (.ask query next) ↔ R.Allowed phase query ∧
    ∀ answer, R.Expected query answer → R.Follows D S (R.next phase query answer) (next answer) :=
  Iff.rfl

/-- The second part starts in the phase that the first one has come to. -/
theorem Follows.bind (h : R.Follows D S phase p)
    (hf : ∀ phase value, D phase value → R.Follows E S phase (f value)) :
    R.Follows E S phase (p >>= f) := by
  induction p generalizing phase with
  | done value => exact hf _ _ h
  | stop reason => exact h
  | ask query next ih => exact ⟨h.1, fun answer ha => ih answer (h.2 answer ha)⟩

end Rules

namespace Dialogue

variable {Q : Type u} {A : Q → Type v} {σ : Type w} {α : Type x} {φ : Type y} {P : Q → Prop}
  {T : σ → Prop} {query : Q} {next : A query → Dialogue Q A σ α} {p : Dialogue Q A σ α}

theorem Within.now (h : Within P T (ask query next)) : P query := h.asked [] query next (.refl _)

theorem Within.later (h : Within P T (ask query next)) (answer : A query) :
    Within P T (next answer) where
  asked _ query' next' hr := h.asked _ query' next' (.answer query answer hr)
  stopped _ reason hr := h.stopped _ reason (.answer query answer hr)

/-- A part whose queries are allowed in a phase and do not leave it. -/
theorem Within.follows {R : Rules Q A φ} {S : φ → σ → Prop} {phase : φ} (h : Within P T p)
    (hP : ∀ query, P query → R.Allowed phase query ∧ ∀ answer, R.next phase query answer = phase)
    (hT : ∀ reason, T reason → S phase reason) :
    R.Follows (fun phase' _ => phase' = phase) S phase p := by
  induction p with
  | done value => rfl
  | stop reason => exact hT reason (h.stopped [] reason (.refl _))
  | ask query next ih =>
    obtain ⟨hallowed, hstay⟩ := hP query h.now
    refine ⟨hallowed, fun answer _ => ?_⟩
    rw [hstay]
    exact ih answer (h.later answer)

end Dialogue
