import Mathlib.Init

/-! # Dialogues

A dialogue asks its environment one query at a time and goes on with the answer,
until it is done or stops for a reason. The environment may answer anything, so
a fact about every run of a dialogue is a fact about every environment.
-/

universe u v w x

/-- A program that is done, stops, or asks a query and goes on with its answer. -/
inductive Dialogue (Q : Type u) (A : Q → Type v) (σ : Type w) (α : Type x)
  | done (value : α)
  | stop (reason : σ)
  | ask (query : Q) (next : A query → Dialogue Q A σ α)

namespace Dialogue

variable {Q : Type u} {A : Q → Type v} {σ : Type w}

/-- A query and the answer to it. -/
abbrev Exchange (A : Q → Type v) := (query : Q) × A query

section Basic

variable {α β γ : Type x}

def bind : Dialogue Q A σ α → (α → Dialogue Q A σ β) → Dialogue Q A σ β
  | done value, f => f value
  | stop reason, _ => stop reason
  | ask query next, f => ask query fun answer => (next answer).bind f

instance : Monad (Dialogue Q A σ) where
  pure := done
  bind := bind

variable {p p' r : Dialogue Q A σ α} {f : α → Dialogue Q A σ β} {g : β → Dialogue Q A σ γ}
  {value : α} {reason : σ} {query : Q} {next : A query → Dialogue Q A σ α}

theorem pure_eq : (pure value : Dialogue Q A σ α) = done value := rfl

@[simp] theorem done_bind : (done value : Dialogue Q A σ α) >>= f = f value := rfl

@[simp] theorem stop_bind : (stop reason : Dialogue Q A σ α) >>= f = stop reason := rfl

@[simp] theorem ask_bind : ask query next >>= f = ask query fun answer => next answer >>= f := rfl

theorem bind_done : p >>= done = p := by
  induction p with
  | done value => rfl
  | stop reason => rfl
  | ask query next ih =>
    rw [ask_bind]
    congr 1
    funext answer
    exact ih answer

theorem bind_assoc : p >>= f >>= g = p >>= fun value => f value >>= g := by
  induction p with
  | done value => rfl
  | stop reason => rfl
  | ask query next ih =>
    rw [ask_bind, ask_bind, ask_bind]
    congr 1
    funext answer
    exact ih answer

instance : LawfulMonad (Dialogue Q A σ) :=
  .mk' _ (fun _ => bind_done) (fun _ _ => rfl) fun _ _ _ => bind_assoc

/-- The answers in the log lead from one dialogue to the other. -/
inductive Reaches : Dialogue Q A σ α → List (Exchange A) → Dialogue Q A σ α → Prop
  | refl (p : Dialogue Q A σ α) : Reaches p [] p
  | answer (query : Q) (answer : A query) {next : A query → Dialogue Q A σ α}
      {log : List (Exchange A)} {r : Dialogue Q A σ α} :
      Reaches (next answer) log r → Reaches (ask query next) (⟨query, answer⟩ :: log) r

variable {log log' : List (Exchange A)} {answer : A query}

@[simp] theorem reaches_done : Reaches (done value) log r ↔ log = [] ∧ r = done value := by
  constructor
  · rintro ⟨⟩
    exact ⟨rfl, rfl⟩
  · rintro ⟨rfl, rfl⟩
    exact .refl _

@[simp] theorem reaches_stop : Reaches (stop reason) log r ↔ log = [] ∧ r = stop reason := by
  constructor
  · rintro ⟨⟩
    exact ⟨rfl, rfl⟩
  · rintro ⟨rfl, rfl⟩
    exact .refl _

@[simp] theorem reaches_ask : Reaches (ask query next) log r ↔
    log = [] ∧ r = ask query next ∨
      ∃ answer log', log = ⟨query, answer⟩ :: log' ∧ Reaches (next answer) log' r := by
  constructor
  · intro h
    cases h with
    | refl => exact .inl ⟨rfl, rfl⟩
    | answer _ answer h => exact .inr ⟨answer, _, rfl, h⟩
  · rintro (⟨rfl, rfl⟩ | ⟨answer, log', rfl, h⟩)
    · exact .refl _
    · exact .answer query answer h

/-- The query of an exchange in the log was asked when the exchanges before it were over. -/
theorem Reaches.split (h : Reaches p (log ++ ⟨query, answer⟩ :: log') r) :
    ∃ next, Reaches p log (ask query next) ∧ Reaches (next answer) log' r := by
  induction log generalizing p with
  | nil =>
    cases h with
    | answer _ _ h => exact ⟨_, .refl _, h⟩
  | cons e log ih =>
    cases h with
    | answer query' answer' h =>
      obtain ⟨next, h₁, h₂⟩ := ih h
      exact ⟨next, .answer query' answer' h₁, h₂⟩

/-- A run of a sequence is a run of its first part, or a whole one followed by a run of the
second part. -/
theorem Reaches.of_bind {r : Dialogue Q A σ β} (h : Reaches (p >>= f) log r) :
    (∃ p', Reaches p log p' ∧ r = p' >>= f) ∨
      ∃ log₁ log₂ value, log = log₁ ++ log₂ ∧ Reaches p log₁ (done value) ∧
        Reaches (f value) log₂ r := by
  induction p generalizing log with
  | done value => exact .inr ⟨[], log, value, rfl, .refl _, h⟩
  | stop reason =>
    obtain ⟨rfl, rfl⟩ := reaches_stop.mp h
    exact .inl ⟨_, .refl _, rfl⟩
  | ask query next ih =>
    rcases reaches_ask.mp h with ⟨rfl, rfl⟩ | ⟨answer, log', rfl, hn⟩
    · exact .inl ⟨_, .refl _, rfl⟩
    · rcases ih answer hn with ⟨p', hp, rfl⟩ | ⟨log₁, log₂, value, rfl, h₁, h₂⟩
      · exact .inl ⟨p', .answer query answer hp, rfl⟩
      · exact .inr ⟨⟨query, answer⟩ :: log₁, log₂, value, rfl, .answer query answer h₁, h₂⟩

/-- A run of the first part is one of the sequence. -/
theorem Reaches.first (hp : Reaches p log p') : Reaches (p >>= f) log (p' >>= f) := by
  induction hp with
  | refl p => exact .refl _
  | answer query answer _ ih => exact .answer query answer ih

/-- A run of the second part continues a whole run of the first. -/
theorem Reaches.seq {r : Dialogue Q A σ β} (hp : Reaches p log (done value))
    (hf : Reaches (f value) log' r) : Reaches (p >>= f) (log ++ log') r := by
  induction log generalizing p with
  | nil =>
    cases hp
    exact hf
  | cons e log ih =>
    cases hp with
    | answer query answer hp => exact .answer query answer (ih hp)

/-- What follows a whole run of the first part is a run of the second. -/
theorem Reaches.after {r : Dialogue Q A σ β} (hp : Reaches p log (done value))
    (h : Reaches (p >>= f) (log ++ log') r) : Reaches (f value) log' r := by
  induction log generalizing p with
  | nil =>
    cases hp
    exact h
  | cons e log ih =>
    cases hp with
    | answer query answer hp =>
      cases h with
      | answer _ _ h => exact ih hp h

theorem bind_eq_done {value : β} (h : p >>= f = done value) :
    ∃ value', p = done value' ∧ f value' = done value := by
  cases p with
  | done value' => exact ⟨value', rfl, h⟩
  | stop reason => cases h
  | ask query next => cases h

theorem bind_eq_stop (h : p >>= f = stop reason) :
    p = stop reason ∨ ∃ value, p = done value ∧ f value = stop reason := by
  cases p with
  | done value => exact .inr ⟨value, rfl, h⟩
  | stop reason' =>
    cases h
    exact .inl rfl
  | ask query next => cases h

theorem bind_eq_ask {next : A query → Dialogue Q A σ β} (h : p >>= f = ask query next) :
    (∃ next', p = ask query next' ∧ next = fun answer => next' answer >>= f) ∨
      ∃ value, p = done value ∧ f value = ask query next := by
  cases p with
  | done value => exact .inr ⟨value, rfl, h⟩
  | stop reason => cases h
  | ask query' next' =>
    cases h
    exact .inl ⟨next', rfl, rfl⟩

theorem Reaches.bind_done {value : β} (h : Reaches (p >>= f) log (done value)) :
    ∃ log₁ log₂ value', log = log₁ ++ log₂ ∧ Reaches p log₁ (done value') ∧
      Reaches (f value') log₂ (done value) := by
  rcases h.of_bind with ⟨p', hp, hr⟩ | h
  · obtain ⟨value', rfl, hf⟩ := bind_eq_done hr.symm
    exact ⟨log, [], value', by simp, hp, by rw [hf]; exact .refl _⟩
  · exact h

theorem Reaches.bind_stop (h : Reaches (p >>= f) log (stop reason)) :
    Reaches p log (stop reason) ∨ ∃ log₁ log₂ value, log = log₁ ++ log₂ ∧
      Reaches p log₁ (done value) ∧ Reaches (f value) log₂ (stop reason) := by
  rcases h.of_bind with ⟨p', hp, hr⟩ | h
  · rcases bind_eq_stop hr.symm with rfl | ⟨value, rfl, hf⟩
    · exact .inl hp
    · exact .inr ⟨log, [], value, by simp, hp, by rw [hf]; exact .refl _⟩
  · exact .inr h

theorem Reaches.bind_ask {next : A query → Dialogue Q A σ β}
    (h : Reaches (p >>= f) log (ask query next)) :
    (∃ next', Reaches p log (ask query next') ∧ next = fun answer => next' answer >>= f) ∨
      ∃ log₁ log₂ value, log = log₁ ++ log₂ ∧ Reaches p log₁ (done value) ∧
        Reaches (f value) log₂ (ask query next) := by
  rcases h.of_bind with ⟨p', hp, hr⟩ | h
  · rcases bind_eq_ask hr.symm with ⟨next', rfl, hn⟩ | ⟨value, rfl, hf⟩
    · exact .inl ⟨next', hp, hn⟩
    · exact .inr ⟨log, [], value, by simp, hp, by rw [hf]; exact .refl _⟩
  · exact .inr h

/-- No answers let the dialogue be done. -/
def Fails (p : Dialogue Q A σ α) : Prop := ∀ log value, ¬ Reaches p log (done value)

theorem fails_stop : Fails (stop reason : Dialogue Q A σ α) := by
  intro log value h
  cases (reaches_stop.mp h).2

theorem fails_bind (hf : ∀ value, Fails (f value)) : Fails (p >>= f) := by
  intro log value h
  obtain ⟨_, log₂, value', -, -, h⟩ := h.bind_done
  exact hf value' log₂ value h

/-- Every query that is asked satisfies the one property, and every reason to stop the other. -/
structure Within (P : Q → Prop) (S : σ → Prop) (p : Dialogue Q A σ α) : Prop where
  asked : ∀ log query next, Reaches p log (ask query next) → P query
  stopped : ∀ log reason, Reaches p log (stop reason) → S reason

variable {P : Q → Prop} {S : σ → Prop}

theorem Within.of_mem (h : Within P S p) (hr : Reaches p log r) {e : Exchange A} (he : e ∈ log) :
    P e.1 := by
  obtain ⟨log₁, log₂, rfl⟩ := List.append_of_mem he
  obtain ⟨next, hn, -⟩ := hr.split
  exact h.asked log₁ e.1 next hn

theorem Within.mono {P' : Q → Prop} {S' : σ → Prop} (h : Within P S p)
    (hP : ∀ query, P query → P' query) (hS : ∀ reason, S reason → S' reason) : Within P' S' p where
  asked log query next hr := hP query (h.asked log query next hr)
  stopped log reason hr := hS reason (h.stopped log reason hr)

/-- If nothing may be asked, nothing is said. -/
theorem Within.eq_nil (h : Within (fun _ => False) S p) (hr : Reaches p log r) : log = [] :=
  List.eq_nil_iff_forall_not_mem.mpr fun _ he => h.of_mem hr he

theorem within_done : Within P S (done value : Dialogue Q A σ α) where
  asked log query next h := by cases (reaches_done.mp h).2
  stopped log reason h := by cases (reaches_done.mp h).2

theorem within_stop (hs : S reason) : Within P S (stop reason : Dialogue Q A σ α) where
  asked log query next h := by cases (reaches_stop.mp h).2
  stopped log reason' h := by
    cases (reaches_stop.mp h).2
    exact hs

theorem within_ask (hq : P query) (hn : ∀ answer, Within P S (next answer)) :
    Within P S (ask query next) := by
  constructor
  · intro log query' next' h
    rcases reaches_ask.mp h with ⟨-, heq⟩ | ⟨answer, log', -, hr⟩
    · cases heq
      exact hq
    · exact (hn answer).asked log' query' next' hr
  · intro log reason h
    rcases reaches_ask.mp h with ⟨-, heq⟩ | ⟨answer, log', -, hr⟩
    · cases heq
    · exact (hn answer).stopped log' reason hr

/-- What follows need only be looked at for the values that the first part may have. -/
theorem Within.bind (hp : Within P S p)
    (hf : ∀ log value, Reaches p log (done value) → Within P S (f value)) :
    Within P S (p >>= f) := by
  constructor
  · intro log query next h
    rcases h.bind_ask with ⟨next', h, -⟩ | ⟨log₁, log₂, value, -, hd, h⟩
    · exact hp.asked log query next' h
    · exact (hf log₁ value hd).asked log₂ query next h
  · intro log reason h
    rcases h.bind_stop with h | ⟨log₁, log₂, value, -, hd, h⟩
    · exact hp.stopped log reason h
    · exact (hf log₁ value hd).stopped log₂ reason h

theorem Within.seq (hp : Within P S p) (hf : ∀ value, Within P S (f value)) :
    Within P S (p >>= f) :=
  hp.bind fun _ value _ => hf value

end Basic

/-- Ask a query and be done with its answer. -/
def request (query : Q) : Dialogue Q A σ (A query) := ask query done

section Play

variable {α : Type x} {p : Dialogue Q A σ α}

/-- The end of a dialogue. -/
def ended : σ ⊕ α → Dialogue Q A σ α
  | .inl reason => stop reason
  | .inr value => done value

/-- Run a dialogue in an environment that answers from what was said before. -/
def play (env : List (Exchange A) → (query : Q) → A query) :
    List (Exchange A) → Dialogue Q A σ α → List (Exchange A) × (σ ⊕ α)
  | _, done value => ([], .inr value)
  | _, stop reason => ([], .inl reason)
  | said, ask query next =>
    let e : Exchange A := ⟨query, env said query⟩
    let r := play env (said ++ [e]) (next (env said query))
    (e :: r.1, r.2)

theorem reaches_play (env : List (Exchange A) → (query : Q) → A query) (said : List (Exchange A)) :
    Reaches p (p.play env said).1 (ended (p.play env said).2) := by
  induction p generalizing said with
  | done value => exact .refl _
  | stop reason => exact .refl _
  | ask query next ih => exact .answer _ _ (ih _ _)

theorem reaches_of_play {env : List (Exchange A) → (query : Q) → A query}
    {said : List (Exchange A)} {r : σ ⊕ α} (h : (p.play env said).2 = r) :
    Reaches p (p.play env said).1 (ended r) := by
  rw [← h]
  exact reaches_play env said

/-- When the first part of a sequence is done, the second part is played. -/
theorem play_bind {β : Type x} {f : α → Dialogue Q A σ β} {value : α}
    {env : List (Exchange A) → (query : Q) → A query} {said : List (Exchange A)}
    (h : (p.play env said).2 = .inr value) :
    ((p >>= f).play env said).2 = ((f value).play env (said ++ (p.play env said).1)).2 := by
  induction p generalizing said with
  | done value' =>
    obtain rfl := Sum.inr.inj h
    rw [done_bind, play, List.append_nil]
  | stop reason => cases h
  | ask query next ih =>
    rw [ask_bind]
    simp only [play]
    rw [ih _ h, List.append_assoc, List.singleton_append]

end Play

end Dialogue
