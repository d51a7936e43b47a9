import Mathlib.Data.List.Forall2

/-! # Fallible computations

What is known of the parts of a computation that has come to a result.
-/

namespace Fallible

variable {ε ε' α β : Type} {x : Except ε α} {f : α → Except ε β}

theorem bind_eq_ok {b : β} : x >>= f = .ok b ↔ ∃ a, x = .ok a ∧ f a = .ok b := by
  cases x with
  | error e =>
    constructor
    · intro h
      cases h
    · rintro ⟨a, h, -⟩
      cases h
  | ok a =>
    constructor
    · intro h
      exact ⟨a, rfl, h⟩
    · rintro ⟨a', h, hf⟩
      obtain rfl := Except.ok.inj h
      exact hf

theorem bind_isOk : (∃ b, x >>= f = .ok b) ↔ ∃ a, x = .ok a ∧ ∃ b, f a = .ok b := by
  constructor
  · rintro ⟨b, h⟩
    obtain ⟨a, ha, hf⟩ := bind_eq_ok.mp h
    exact ⟨a, ha, b, hf⟩
  · rintro ⟨a, ha, b, hf⟩
    exact ⟨b, bind_eq_ok.mpr ⟨a, ha, hf⟩⟩

theorem pure_isOk {a : α} : (∃ b, (pure a : Except ε α) = .ok b) ↔ True :=
  iff_true_intro ⟨a, rfl⟩

theorem map_isOk {g : α → β} : (∃ b, g <$> x = .ok b) ↔ ∃ a, x = .ok a := by
  cases x with
  | error e =>
    constructor
    · rintro ⟨b, h⟩
      cases h
    · rintro ⟨a, h⟩
      cases h
  | ok a => exact iff_of_true ⟨g a, rfl⟩ ⟨a, rfl⟩

theorem mapM_eq_ok {as : List α} {bs : List β}
    (h : as.mapM f = .ok bs) : List.Forall₂ (fun a b => f a = .ok b) as bs := by
  induction as generalizing bs with
  | nil =>
    obtain rfl := Except.ok.inj h
    exact .nil
  | cons a as ih =>
    rw [List.mapM_cons] at h
    obtain ⟨b, hb, h⟩ := bind_eq_ok.mp h
    obtain ⟨bs', hbs, h⟩ := bind_eq_ok.mp h
    obtain rfl := Except.ok.inj h
    exact .cons hb (ih hbs)

theorem mem_of_mapM_eq_ok {as : List α} {bs : List β} {b : β} (h : as.mapM f = .ok bs) :
    b ∈ bs ↔ ∃ a ∈ as, f a = .ok b := by
  have hall := mapM_eq_ok h
  clear h
  induction hall with
  | nil => simp
  | @cons a b' as bs hab _ ih =>
    simp only [List.mem_cons, ih, exists_eq_or_imp, hab, Except.ok.injEq]
    exact or_congr_left eq_comm

theorem mapError_eq_ok {f : ε → ε'} {a : α} (h : x.mapError f = .ok a) : x = .ok a := by
  cases x with
  | error e => cases h
  | ok a' => exact congrArg _ (Except.ok.inj h)

end Fallible
