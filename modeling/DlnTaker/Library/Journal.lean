import Mathlib.Data.List.Forall2
import Mathlib.Data.List.DropRight
import Mathlib.Data.List.Induction

/-! # Journals

A journal is the list of what a system did, in order. A property of a run is
often a property of every entry relative to the entries before it, or of the
order in which entries of given kinds occur.
-/

namespace Journal

variable {ε : Type*}

/-- Every entry satisfies the property relative to the entries before it. -/
def EachEntry (P : List ε → ε → Prop) (log : List ε) : Prop :=
  ∀ pre e post, log = pre ++ e :: post → P pre e

variable {P : List ε → ε → Prop} {log : List ε}

@[simp] theorem eachEntry_nil : EachEntry P [] := by
  intro pre e post h
  simp at h

/-- An entry of an extended journal is one of the old entries or the new one. -/
theorem split_concat {pre post : List ε} {e a : ε} (h : log ++ [a] = pre ++ e :: post) :
    (∃ post', log = pre ++ e :: post') ∨ (log = pre ∧ a = e) := by
  rcases List.eq_nil_or_concat post with rfl | ⟨post', b, rfl⟩
  · exact .inr (List.append_singleton_inj.mp h)
  · rw [List.concat_eq_append, ← List.cons_append, ← List.append_assoc] at h
    exact .inl ⟨post', (List.append_singleton_inj.mp h).1⟩

@[simp] theorem eachEntry_concat {a : ε} :
    EachEntry P (log ++ [a]) ↔ EachEntry P log ∧ P log a := by
  constructor
  · intro h
    refine ⟨fun pre e post hl => h pre e (post ++ [a]) ?_, h log a [] rfl⟩
    simp [hl]
  · rintro ⟨h, ha⟩ pre e post hl
    rcases split_concat hl with ⟨post', hl'⟩ | ⟨rfl, rfl⟩
    · exact h pre e post' hl'
    · exact ha

/-- Entries that satisfy the property wherever they stand add nothing to check. -/
theorem EachEntry.append {es : List ε} (h : EachEntry P log)
    (hes : ∀ e ∈ es, ∀ pre, P pre e) : EachEntry P (log ++ es) := by
  induction es using List.reverseRecOn with
  | nil => simpa using h
  | append_singleton es e ih =>
    rw [← List.append_assoc, eachEntry_concat]
    exact ⟨ih fun a ha => hes a (by simp [ha]), hes e (by simp) _⟩

theorem EachEntry.get {n : ℕ} {e : ε} (h : EachEntry P log) (he : log[n]? = some e) :
    P (log.take n) e := by
  obtain ⟨hn, rfl⟩ := List.getElem?_eq_some_iff.mp he
  exact h (log.take n) log[n] (log.drop (n + 1)) (by simp)

/-- Entries of the given kinds occur in this order, with any others in between. -/
def InOrder (kinds : List (ε → Prop)) (log : List ε) : Prop :=
  List.SublistForall₂ (fun k e => k e) kinds log

variable {kinds : List (ε → Prop)} {k : ε → Prop} {a : ε}

@[simp] theorem inOrder_nil_kinds : InOrder [] log := .nil

theorem not_inOrder_nil : ¬ InOrder (k :: kinds) ([] : List ε) := nofun

theorem InOrder.exists_mem (h : InOrder kinds log) (hk : k ∈ kinds) : ∃ e ∈ log, k e := by
  unfold InOrder at h
  induction h with
  | nil => simp at hk
  | @cons k' e kinds log he _ ih =>
    rcases List.mem_cons.mp hk with rfl | hk
    · exact ⟨e, by simp, he⟩
    · obtain ⟨e', hm, he'⟩ := ih hk
      exact ⟨e', List.mem_cons_of_mem _ hm, he'⟩
  | cons_right _ ih =>
    obtain ⟨e', hm, he'⟩ := ih hk
    exact ⟨e', List.mem_cons_of_mem _ hm, he'⟩

theorem inOrder_concat :
    InOrder (kinds ++ [k]) (log ++ [a]) ↔
      InOrder (kinds ++ [k]) log ∨ k a ∧ InOrder kinds log := by
  simp only [InOrder, List.sublistForall₂_iff]
  constructor
  · rintro ⟨l, hf, hl⟩
    obtain ⟨l₁, l₂, rfl, h₁, h₂⟩ := List.sublist_append_iff.mp hl
    rcases List.sublist_singleton.mp h₂ with rfl | rfl
    · exact .inl ⟨l₁, by simpa using hf, h₁⟩
    · rw [← List.forall₂_reverse_iff] at hf
      simp only [List.reverse_append, List.reverse_cons, List.reverse_nil, List.nil_append,
        List.singleton_append, List.forall₂_cons, List.forall₂_reverse_iff] at hf
      exact .inr ⟨hf.1, l₁, hf.2, h₁⟩
  · rintro (⟨l, hf, hl⟩ | ⟨ha, l, hf, hl⟩)
    · exact ⟨l, hf, hl.trans (List.sublist_append_left log [a])⟩
    · exact ⟨l ++ [a], List.rel_append hf (.cons ha .nil), hl.append (List.Sublist.refl _)⟩

theorem inOrder_append_of_not {es : List ε} (h : ∀ e ∈ es, ∀ k ∈ kinds, ¬ k e) :
    InOrder kinds (log ++ es) ↔ InOrder kinds log := by
  induction es using List.reverseRecOn with
  | nil => simp
  | append_singleton es e ih =>
    have ih := ih fun a ha => h a (by simp [ha])
    rw [← List.append_assoc]
    rcases List.eq_nil_or_concat kinds with rfl | ⟨kinds', k, rfl⟩
    · simp
    · rw [List.concat_eq_append] at h ih ⊢
      rw [inOrder_concat, ih]
      have hk := h e (by simp) k (by simp)
      tauto

/-- The last entry of the kinds, with the others in order before it. -/
theorem inOrder_iff_exists_last :
    InOrder (kinds ++ [k]) log ↔
      ∃ pre e post, log = pre ++ e :: post ∧ k e ∧ InOrder kinds pre := by
  induction log using List.reverseRecOn with
  | nil =>
    constructor
    · intro h
      cases kinds <;> exact absurd h not_inOrder_nil
    · rintro ⟨pre, e, post, h, -⟩
      simp at h
  | append_singleton log a ih =>
    rw [inOrder_concat, ih]
    constructor
    · rintro (⟨pre, e, post, rfl, hk, hp⟩ | ⟨hk, hp⟩)
      · exact ⟨pre, e, post ++ [a], by simp, hk, hp⟩
      · exact ⟨log, a, [], rfl, hk, hp⟩
    · rintro ⟨pre, e, post, hl, hk, hp⟩
      rcases split_concat hl with ⟨post', rfl⟩ | ⟨rfl, rfl⟩
      · exact .inl ⟨pre, e, post', rfl, hk, hp⟩
      · exact .inr ⟨hk, hp⟩

theorem inOrder_singleton : InOrder [k] log ↔ ∃ e ∈ log, k e := by
  change InOrder ([] ++ [k]) log ↔ _
  rw [inOrder_iff_exists_last]
  constructor
  · rintro ⟨pre, e, post, rfl, hk, -⟩
    exact ⟨e, by simp, hk⟩
  · rintro ⟨e, he, hk⟩
    obtain ⟨pre, post, rfl⟩ := List.append_of_mem he
    exact ⟨pre, e, post, rfl, hk, inOrder_nil_kinds⟩

theorem inOrder_pair_concat {k₁ k₂ : ε → Prop} :
    InOrder [k₁, k₂] (log ++ [a]) ↔ InOrder [k₁, k₂] log ∨ k₂ a ∧ ∃ e ∈ log, k₁ e := by
  rw [← inOrder_singleton]
  exact @inOrder_concat ε log [k₁] k₂ a

theorem inOrder_triple_concat {k₁ k₂ k₃ : ε → Prop} :
    InOrder [k₁, k₂, k₃] (log ++ [a]) ↔
      InOrder [k₁, k₂, k₃] log ∨ k₃ a ∧ InOrder [k₁, k₂] log :=
  @inOrder_concat ε log [k₁, k₂] k₃ a

section Since

variable {p : ε → Prop} [DecidablePred p] {e : ε}

/-- The entries after the last one of a kind. -/
def since (p : ε → Prop) [DecidablePred p] (log : List ε) : List ε :=
  log.rtakeWhile fun e => ¬ p e

@[simp] theorem since_nil : since p [] = [] := rfl

theorem since_concat_of_pos (h : p a) : since p (log ++ [a]) = [] := by
  rw [since, List.rtakeWhile_concat_neg _ _ _ (by simpa using h)]

theorem since_concat_of_neg (h : ¬ p a) : since p (log ++ [a]) = since p log ++ [a] := by
  rw [since, List.rtakeWhile_concat_pos _ _ _ (by simpa using h), since]

theorem mem_of_mem_since (h : e ∈ since p log) : e ∈ log :=
  (List.rtakeWhile_suffix _ log).mem h

end Since

section Latest

variable {α : Type*} {f : ε → Option α} {es : List ε}

/-- What the last entry that has a value under `f` says. -/
def latest (f : ε → Option α) (log : List ε) : Option α := (log.filterMap f).getLast?

@[simp] theorem latest_nil : latest f [] = none := rfl

theorem latest_concat : latest f (log ++ [a]) = (f a).or (latest f log) := by
  cases h : f a <;> simp [latest, List.filterMap_append, h]

theorem latest_append_of_none (h : ∀ e ∈ es, f e = none) :
    latest f (log ++ es) = latest f log := by
  have hes : es.filterMap f = [] := List.filterMap_eq_nil_iff.mpr h
  rw [latest, List.filterMap_append, hes, List.append_nil, latest]

end Latest

end Journal
