import DlnTaker.Library.Dialogue

/-! # Dialogues in an environment with a state

The environment answers as its state allows, and an answer may lead it to another
state. What a dialogue does in every such environment is shown along its text: of
a sequence from its parts, and of a loop from an invariant of its rounds.
-/

universe u v w x y

namespace Dialogue

variable {Q : Type u} {A : Q → Type v} {σ : Type w} {ω : Type y} {α β : Type x} {γ : Type*}

/-- The answers that an environment may give in a state, and the states they lead to. -/
abbrev Environment (A : Q → Type v) (ω : Type y) := ω → (query : Q) → A query → ω → Prop

/-- The environment answers a dialogue up to some point. -/
inductive Proceeds (E : Environment A ω) :
    ω → Dialogue Q A σ α → ω → Dialogue Q A σ α → Prop
  | refl (s : ω) (p : Dialogue Q A σ α) : Proceeds E s p s p
  | answer {s s' s'' : ω} {query : Q} {answer : A query} {next : A query → Dialogue Q A σ α}
      {r : Dialogue Q A σ α} : E s query answer s' → Proceeds E s' (next answer) s'' r →
      Proceeds E s (ask query next) s'' r

/-- From the state on, the dialogue asks only what is allowed in the state it is asked in, and it
stops and is done as the other two properties say. -/
def Meets (E : Environment A ω) (K : ω → Q → Prop) (S : ω → σ → Prop) (D : ω → α → Prop) :
    ω → Dialogue Q A σ α → Prop
  | s, done value => D s value
  | s, stop reason => S s reason
  | s, ask query next => K s query ∧
      ∀ answer s', E s query answer s' → Meets E K S D s' (next answer)

variable {E : Environment A ω} {K : ω → Q → Prop} {S : ω → σ → Prop} {D : ω → α → Prop}
  {F : ω → β → Prop} {s s' : ω} {p r : Dialogue Q A σ α} {f : α → Dialogue Q A σ β}

@[simp] theorem meets_done {value : α} :
    Meets E K S D s (done value : Dialogue Q A σ α) ↔ D s value := Iff.rfl

@[simp] theorem meets_stop {reason : σ} :
    Meets E K S D s (stop reason : Dialogue Q A σ α) ↔ S s reason := Iff.rfl

@[simp] theorem meets_ask {query : Q} {next : A query → Dialogue Q A σ α} :
    Meets E K S D s (ask query next) ↔ K s query ∧
      ∀ answer s', E s query answer s' → Meets E K S D s' (next answer) := Iff.rfl

theorem Meets.imp {K' : ω → Q → Prop} {S' : ω → σ → Prop} {D' : ω → α → Prop}
    (h : Meets E K S D s p) (hK : ∀ s query, K s query → K' s query)
    (hS : ∀ s reason, S s reason → S' s reason) (hD : ∀ s value, D s value → D' s value) :
    Meets E K' S' D' s p := by
  induction p generalizing s with
  | done value => exact hD _ _ h
  | stop reason => exact hS _ _ h
  | ask query next ih => exact ⟨hK _ _ h.1, fun answer s' hs => ih answer (h.2 answer s' hs)⟩

/-- The second part goes on from where the first one is done. -/
theorem Meets.bind (h : Meets E K S D s p)
    (hf : ∀ s value, D s value → Meets E K S F s (f value)) : Meets E K S F s (p >>= f) := by
  induction p generalizing s with
  | done value => exact hf _ _ h
  | stop reason => exact h
  | ask query next ih => exact ⟨h.1, fun answer s' hs => ih answer (h.2 answer s' hs)⟩

/-- An invariant of the rounds of a loop, which knows those that are over. -/
theorem Meets.foldlM {g : α → γ → Dialogue Q A σ α} {l : List γ} {value : α}
    {J : List γ → ω → α → Prop} (hvalue : J [] s value)
    (hround : ∀ pre x s value, pre ++ [x] <+: l → J pre s value →
      Meets E K S (J (pre ++ [x])) s (g value x)) :
    Meets E K S (J l) s (l.foldlM g value) := by
  suffices hfrom : ∀ post pre s value, pre ++ post = l → J pre s value →
      Meets E K S (J l) s (post.foldlM g value) from hfrom l [] s value rfl hvalue
  intro post
  induction post with
  | nil =>
    intro pre s value hl hj
    rw [List.append_nil] at hl
    subst hl
    exact hj
  | cons x post ih =>
    intro pre s value hl hj
    rw [List.foldlM_cons]
    have hpre : pre ++ [x] <+: l := ⟨post, by simpa using hl⟩
    refine (hround pre x s value hpre hj).bind fun s' value' hj' => ?_
    exact ih (pre ++ [x]) s' value' (by simpa using hl) hj'

theorem Meets.forM {g : γ → Dialogue Q A σ PUnit.{x + 1}} {l : List γ} {J : List γ → ω → Prop}
    (hstart : J [] s) (hround : ∀ pre x s, pre ++ [x] <+: l → J pre s →
      Meets E K S (fun s _ => J (pre ++ [x]) s) s (g x)) :
    Meets E K S (fun s _ => J l s) s (l.forM g) := by
  have hloop : l.forM g = l.foldlM (fun _ x => g x) PUnit.unit := by
    clear hround
    induction l with
    | nil => rfl
    | cons x l ih =>
      change (g x >>= fun _ => l.forM g) =
        g x >>= fun _ => l.foldlM (fun _ x => g x) PUnit.unit
      rw [ih]
  rw [hloop]
  exact Meets.foldlM (J := fun pre s _ => J pre s) hstart fun pre x s _ => hround pre x s

/-- What a dialogue meets at its start it meets from wherever it gets to. -/
theorem Meets.proceeds (h : Meets E K S D s p) (hp : Proceeds E s p s' r) : Meets E K S D s' r := by
  induction hp with
  | refl => exact h
  | answer hs _ ih => exact ih (h.2 _ _ hs)

/-- What holds wherever something is asked or the dialogue stops or is done holds. -/
theorem Meets.here {P : Prop} (h : Meets E K S D s p) (hK : ∀ query, K s query → P)
    (hS : ∀ reason, S s reason → P) (hD : ∀ value, D s value → P) : P := by
  cases p with
  | done value => exact hD value h
  | stop reason => exact hS reason h
  | ask query next => exact hK query h.1

end Dialogue
