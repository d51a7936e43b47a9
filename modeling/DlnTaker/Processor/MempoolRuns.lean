import DlnTaker.Library.Journal
import DlnTaker.Library.Machine
import DlnTaker.Processor.Mempool

/-! # Runs of the mempool

Additions, deletions and elapsing delays in any order. The journal numbers the
additions, and says when the delay of each has elapsed and when the consumer has
been called: once for an addition whose delay elapses before another addition or
a deletion of its order. Every input has its entry in the journal.
-/

namespace DlnTaker

inductive MempoolEvent
  | added (n : ℕ) (orderId : OrderId)
  | deleted (orderId : OrderId)
  | elapsed (n : ℕ)
  | consumed (n : ℕ) (orderId : OrderId)
  deriving DecidableEq

/-- The calls that others make, also the consumer. -/
inductive MempoolCall
  | addOrder (orderId : OrderId) (delay : ℚ)
  | delayOrder (orderId : OrderId) (attempt : ℕ)
  | delayArchivalOrder (orderId : OrderId) (attempt : ℕ)
  | delete (orderId : OrderId)

inductive MempoolInput
  | call (call : MempoolCall)
  | elapse (n : ℕ) (consumerCalls : List MempoolCall)

/-- A mempool with the journal of what has happened to it. -/
structure MempoolRecord where
  mempool : MempoolService
  journal : List MempoolEvent

namespace MempoolRecord

def initial : MempoolRecord := ⟨.empty, []⟩

/-- Note what a call to `addOrder` makes of the mempool. -/
def noteAdded (s : MempoolRecord) (orderId : OrderId) (mempool : MempoolService) : MempoolRecord :=
  ⟨mempool, s.journal ++ [.added s.mempool.nextTimer orderId]⟩

def call (s : MempoolRecord) : MempoolCall → MempoolRecord
  | .addOrder orderId delay => s.noteAdded orderId (s.mempool.addOrder orderId delay)
  | .delayOrder orderId attempt => s.noteAdded orderId (s.mempool.delayOrder orderId attempt)
  | .delayArchivalOrder orderId attempt =>
    s.noteAdded orderId (s.mempool.delayArchivalOrder orderId attempt)
  | .delete orderId => ⟨s.mempool.delete orderId, s.journal ++ [.deleted orderId]⟩

/-- The delay of the `n`-th addition elapses. A timer that is still armed fires, and the consumer
that is called may call the mempool in turn. -/
def elapse (s : MempoolRecord) (n : ℕ) (consumerCalls : List MempoolCall) : MempoolRecord :=
  match s.mempool.fire n with
  | none => { s with journal := s.journal ++ [.elapsed n] }
  | some (mempool, none) => ⟨mempool, s.journal ++ [.elapsed n]⟩
  | some (mempool, some orderId) =>
    consumerCalls.foldl call ⟨mempool, s.journal ++ [.elapsed n] ++ [.consumed n orderId]⟩

/-- The delay of an addition elapses once. -/
def step (s : MempoolRecord) : MempoolInput → Option MempoolRecord
  | .call c => some (s.call c)
  | .elapse n consumerCalls =>
    if n < s.mempool.nextTimer ∧ .elapsed n ∉ s.journal then some (s.elapse n consumerCalls)
    else none

end MempoolRecord

/-- The mempool under calls and elapsing delays in any order. -/
def mempoolRuns : Machine MempoolRecord MempoolInput := ⟨.initial, MempoolRecord.step⟩

/-! ### What the journal says of an addition -/

namespace MempoolEvent

/-- The event ends what an earlier addition of the order has begun. -/
def Replaces (orderId : OrderId) : MempoolEvent → Prop
  | added _ orderId' | deleted orderId' => orderId' = orderId
  | _ => False

def additionNumber : MempoolEvent → Option ℕ
  | added n _ => some n
  | _ => none

def elapsedNumber : MempoolEvent → Option ℕ
  | elapsed n => some n
  | _ => none

end MempoolEvent

/-- The event that a call is noted as. -/
def MempoolCall.Notes : MempoolCall → MempoolEvent → Prop
  | addOrder orderId _, e | delayOrder orderId _, e | delayArchivalOrder orderId _, e =>
    ∃ n, e = .added n orderId
  | delete orderId, e => e = .deleted orderId

def MempoolInput.elapsing : MempoolInput → Option ℕ
  | call _ => none
  | elapse n _ => some n

/-- The journal is that of the inputs in their order: every call and every delay that elapses has
its entry, and where the consumer is called its own calls follow. -/
inductive Noted : List MempoolInput → List MempoolEvent → Prop
  | nil : Noted [] []
  | call {t : List MempoolInput} {journal : List MempoolEvent} {c : MempoolCall}
      {e : MempoolEvent} : Noted t journal → c.Notes e → Noted (t ++ [.call c]) (journal ++ [e])
  | unconsumed {t : List MempoolInput} {journal : List MempoolEvent} {n : ℕ}
      {calls : List MempoolCall} : Noted t journal →
      Noted (t ++ [.elapse n calls]) (journal ++ [.elapsed n])
  | consumed {t : List MempoolInput} {journal es : List MempoolEvent} {n : ℕ}
      {calls : List MempoolCall} {orderId : OrderId} : Noted t journal →
      List.Forall₂ MempoolCall.Notes calls es →
      Noted (t ++ [.elapse n calls]) (journal ++ [.elapsed n] ++ [.consumed n orderId] ++ es)

open MempoolEvent

/-- Since the `n`-th addition its order has neither been added again nor deleted. -/
def Stands (journal : List MempoolEvent) (n : ℕ) (orderId : OrderId) : Prop :=
  ∃ pre post, journal = pre ++ .added n orderId :: post ∧ ∀ e ∈ post, ¬ e.Replaces orderId

/-- The delay of the `n`-th addition has elapsed, and it stood until then. -/
def Lapsed (journal : List MempoolEvent) (n : ℕ) (orderId : OrderId) : Prop :=
  ∃ pre post, journal = pre ++ .elapsed n :: post ∧ Stands pre n orderId

variable {journal : List MempoolEvent} {e : MempoolEvent} {n k : ℕ} {orderId o : OrderId}

theorem stands_concat : Stands (journal ++ [e]) n orderId ↔
    Stands journal n orderId ∧ ¬ e.Replaces orderId ∨ e = .added n orderId := by
  constructor
  · rintro ⟨pre, post, h, hpost⟩
    rcases List.eq_nil_or_concat post with rfl | ⟨post', e', rfl⟩
    · exact .inr (List.append_singleton_inj.mp h).2
    · rw [List.concat_eq_append] at h hpost
      rw [← List.cons_append, ← List.append_assoc] at h
      obtain ⟨rfl, rfl⟩ := List.append_singleton_inj.mp h
      exact .inl ⟨⟨pre, post', rfl, fun e' he => hpost e' (List.mem_append_left _ he)⟩,
        hpost e (List.mem_append_right _ (List.mem_singleton_self e))⟩
  · rintro (⟨⟨pre, post, rfl, hpost⟩, he⟩ | rfl)
    · refine ⟨pre, post ++ [e], by simp, fun e' he' => ?_⟩
      rcases List.mem_append.mp he' with he' | he'
      · exact hpost e' he'
      · rwa [List.mem_singleton.mp he']
    · exact ⟨journal, [], rfl, by simp⟩

theorem stands_concat_elapsed :
    Stands (journal ++ [.elapsed k]) n orderId ↔ Stands journal n orderId := by
  rw [stands_concat, or_iff_left (by rintro ⟨⟩)]
  exact and_iff_left id

theorem stands_concat_consumed :
    Stands (journal ++ [.consumed k o]) n orderId ↔ Stands journal n orderId := by
  rw [stands_concat, or_iff_left (by rintro ⟨⟩)]
  exact and_iff_left id

theorem lapsed_concat : Lapsed (journal ++ [e]) n orderId ↔
    Lapsed journal n orderId ∨ e = .elapsed n ∧ Stands journal n orderId := by
  constructor
  · rintro ⟨pre, post, h, hs⟩
    rcases Journal.split_concat h with ⟨post', rfl⟩ | ⟨rfl, rfl⟩
    · exact .inl ⟨pre, post', rfl, hs⟩
    · exact .inr ⟨rfl, hs⟩
  · rintro (⟨pre, post, rfl, hs⟩ | ⟨rfl, hs⟩)
    · exact ⟨pre, post ++ [e], by simp, hs⟩
    · exact ⟨journal, [], rfl, hs⟩

theorem elapsedNumber_of_notes {c : MempoolCall} (h : c.Notes e) : e.elapsedNumber = none := by
  cases c with
  | delete orderId =>
    obtain rfl := h
    rfl
  | _ =>
    obtain ⟨n, rfl⟩ := h
    rfl

/-- The consumer's own calls are no delays. -/
theorem elapsedNumbers_of_notes {calls : List MempoolCall} {es : List MempoolEvent}
    (h : List.Forall₂ MempoolCall.Notes calls es) : es.filterMap elapsedNumber = [] := by
  induction h with
  | nil => rfl
  | cons he _ ih => rw [List.filterMap_cons_none (elapsedNumber_of_notes he), ih]

theorem Noted.elapsed {t : List MempoolInput} (h : Noted t journal) :
    journal.filterMap elapsedNumber = t.filterMap MempoolInput.elapsing := by
  induction h with
  | nil => rfl
  | call _ he ih =>
    rw [List.filterMap_append, List.filterMap_append, ih,
      List.filterMap_cons_none (elapsedNumber_of_notes he)]
    rfl
  | unconsumed _ ih =>
    rw [List.filterMap_append, List.filterMap_append, ih]
    rfl
  | consumed _ hes ih =>
    rw [List.filterMap_append, List.filterMap_append, List.filterMap_append,
      List.filterMap_append, ih, elapsedNumbers_of_notes hes]
    simp [elapsedNumber, MempoolInput.elapsing]

theorem Lapsed.elapsed_mem (h : Lapsed journal n orderId) : .elapsed n ∈ journal := by
  obtain ⟨pre, post, rfl, -⟩ := h
  exact List.mem_append_right _ List.mem_cons_self

/-! ### The invariant -/

namespace MempoolRecord

variable {s s' : MempoolRecord} {t : List MempoolInput}

/-- The tracked timer of an order is that of its standing addition whose delay has not elapsed,
and the consumer has been called for each addition that has lapsed. -/
structure Accounted (s : MempoolRecord) : Prop where
  numbered : s.journal.filterMap additionNumber = List.range s.mempool.nextTimer
  elapsed_lt : ∀ n, .elapsed n ∈ s.journal → n < s.mempool.nextTimer
  tracked_iff : ∀ orderId n, s.mempool.trackedOrders orderId = some n ↔
    Stands s.journal n orderId ∧ .elapsed n ∉ s.journal
  consumed : ∀ n orderId, Lapsed s.journal n orderId →
    s.journal.count (.consumed n orderId) = 1
  unconsumed : ∀ n orderId, ¬ Lapsed s.journal n orderId →
    s.journal.count (.consumed n orderId) = 0

theorem accounted_initial : Accounted .initial where
  numbered := rfl
  elapsed_lt n h := absurd h List.not_mem_nil
  tracked_iff orderId n := by
    refine iff_of_false (fun h => by cases h) ?_
    rintro ⟨⟨pre, post, h, -⟩, -⟩
    simp [initial] at h
  consumed n orderId h := absurd h.elapsed_mem List.not_mem_nil
  unconsumed n orderId _ := rfl

theorem additionNumbers_concat (he : additionNumber e = none) :
    (journal ++ [e]).filterMap additionNumber = journal.filterMap additionNumber := by
  rw [List.filterMap_append, List.filterMap_cons_none he]
  exact List.append_nil _

/-- An event that is neither an elapsed delay nor a call of the consumer. -/
theorem Accounted.counts (h : Accounted s) (he : e ≠ .elapsed n)
    (hc : e ≠ .consumed n orderId) :
    (Lapsed (s.journal ++ [e]) n orderId → (s.journal ++ [e]).count (.consumed n orderId) = 1) ∧
    (¬ Lapsed (s.journal ++ [e]) n orderId →
      (s.journal ++ [e]).count (.consumed n orderId) = 0) := by
  rw [lapsed_concat, or_iff_left fun hl => he hl.1, List.count_append, List.count_singleton,
    if_neg (by simpa using hc), Nat.add_zero]
  exact ⟨h.consumed n orderId, h.unconsumed n orderId⟩

/-- An addition stands in place of the earlier ones of its order. -/
theorem Accounted.addOrder (h : Accounted s) {delay : ℚ} :
    Accounted (s.noteAdded orderId (s.mempool.addOrder orderId delay)) where
  numbered := by
    change (s.journal ++ [_]).filterMap additionNumber = List.range (s.mempool.nextTimer + 1)
    rw [List.filterMap_append, h.numbered, List.range_succ]
    rfl
  elapsed_lt n hn := by
    rcases List.mem_append.mp hn with hn | hn
    · exact Nat.lt_succ_of_lt (h.elapsed_lt n hn)
    · cases List.mem_singleton.mp hn
  tracked_iff o n := by
    have hnew : .elapsed s.mempool.nextTimer ∉ s.journal := fun hm =>
      absurd (h.elapsed_lt _ hm) (lt_irrefl _)
    have helapsed : .elapsed n ∉ s.journal ++ [.added s.mempool.nextTimer orderId] ↔
        .elapsed n ∉ s.journal := by simp
    change Function.update s.mempool.trackedOrders orderId (some s.mempool.nextTimer) o = some n ↔
      Stands (s.journal ++ [_]) n o ∧ .elapsed n ∉ s.journal ++ [_]
    rw [stands_concat, helapsed]
    by_cases ho : o = orderId
    · subst o
      rw [Function.update_self, Option.some.injEq]
      constructor
      · rintro rfl
        exact ⟨.inr rfl, hnew⟩
      · rintro ⟨⟨-, hr⟩ | heq, -⟩
        · exact absurd rfl hr
        · cases heq
          rfl
    · rw [Function.update_of_ne ho, h.tracked_iff]
      refine and_congr_left fun _ => ⟨fun hs => .inl ⟨hs, fun hr => ho hr.symm⟩, ?_⟩
      rintro (⟨hs, -⟩ | heq)
      · exact hs
      · cases heq
        exact absurd rfl ho
  consumed n o := (h.counts (by simp) (by simp)).1
  unconsumed n o := (h.counts (by simp) (by simp)).2

theorem Accounted.delete (h : Accounted s) :
    Accounted ⟨s.mempool.delete orderId, s.journal ++ [.deleted orderId]⟩ where
  numbered := (additionNumbers_concat rfl).trans h.numbered
  elapsed_lt n hn := by
    rcases List.mem_append.mp hn with hn | hn
    · exact h.elapsed_lt n hn
    · cases List.mem_singleton.mp hn
  tracked_iff o n := by
    have helapsed : .elapsed n ∉ s.journal ++ [.deleted orderId] ↔ .elapsed n ∉ s.journal := by
      simp
    change Function.update s.mempool.trackedOrders orderId none o = some n ↔
      Stands (s.journal ++ [_]) n o ∧ .elapsed n ∉ s.journal ++ [_]
    rw [stands_concat, helapsed, or_iff_left (by rintro ⟨⟩)]
    by_cases ho : o = orderId
    · subst o
      rw [Function.update_self]
      exact iff_of_false (fun hn => by cases hn) fun hs => hs.1.2 rfl
    · have hr : ¬ (MempoolEvent.deleted orderId).Replaces o := fun hr => ho hr.symm
      rw [Function.update_of_ne ho, h.tracked_iff, and_iff_left hr]
  consumed n o := (h.counts (by simp) (by simp)).1
  unconsumed n o := (h.counts (by simp) (by simp)).2

theorem Accounted.call (h : Accounted s) (c : MempoolCall) : Accounted (s.call c) := by
  cases c with
  | addOrder orderId delay => exact h.addOrder
  | delayOrder orderId attempt => exact h.addOrder
  | delayArchivalOrder orderId attempt => exact h.addOrder
  | delete orderId => exact h.delete

theorem Accounted.calls (h : Accounted s) (calls : List MempoolCall) :
    Accounted (calls.foldl MempoolRecord.call s) := by
  induction calls generalizing s with
  | nil => exact h
  | cons c calls ih => exact ih (h.call c)

/-- A delay of an addition that does not stand any more elapses. -/
theorem Accounted.elapsed (h : Accounted s) (hlt : n < s.mempool.nextTimer)
    (hnot : ∀ o, s.mempool.trackedOrders o ≠ some n) (hfirst : .elapsed n ∉ s.journal) :
    Accounted { s with journal := s.journal ++ [.elapsed n] } := by
  have hstands : ∀ o, ¬ Stands s.journal n o := fun o hs =>
    hnot o ((h.tracked_iff o n).mpr ⟨hs, hfirst⟩)
  have hlapsed : ∀ m o, Lapsed (s.journal ++ [.elapsed n]) m o ↔ Lapsed s.journal m o := by
    intro m o
    rw [lapsed_concat, or_iff_left]
    rintro ⟨heq, hs⟩
    cases heq
    exact hstands o hs
  have hcount : ∀ m o, (s.journal ++ [MempoolEvent.elapsed n]).count (.consumed m o) =
      s.journal.count (.consumed m o) := by
    intro m o
    simp
  constructor
  · exact (additionNumbers_concat rfl).trans h.numbered
  · intro m hm
    rcases List.mem_append.mp hm with hm | hm
    · exact h.elapsed_lt m hm
    · cases List.mem_singleton.mp hm
      exact hlt
  · intro o m
    have hold : .elapsed m ∉ s.journal ++ [.elapsed n] ↔ .elapsed m ∉ s.journal ∧ m ≠ n := by simp
    change s.mempool.trackedOrders o = some m ↔
      Stands (s.journal ++ [_]) m o ∧ .elapsed m ∉ s.journal ++ [_]
    rw [stands_concat_elapsed, hold, h.tracked_iff, ← and_assoc]
    refine (and_iff_left_of_imp ?_).symm
    rintro ⟨hs, -⟩ rfl
    exact hstands o hs
  · intro m o hl
    rw [hcount]
    exact h.consumed m o ((hlapsed m o).mp hl)
  · intro m o hl
    rw [hcount]
    exact h.unconsumed m o (mt (hlapsed m o).mpr hl)

/-- An armed timer is for the only order that its addition stands for. -/
theorem Accounted.stands_iff (h : Accounted s) {timer : Timer} (ht : timer ∈ s.mempool.timers) :
    Stands s.journal timer.id o ↔ o = timer.orderId := by
  obtain ⟨hstands, hfirst⟩ := (h.tracked_iff _ _).mp (MempoolService.tracked_of_mem ht)
  constructor
  · intro hs
    have htracked := (h.tracked_iff o timer.id).mpr ⟨hs, hfirst⟩
    obtain ⟨timer', ht', rfl, hid⟩ := (s.mempool.tracked_iff _ _).mp htracked
    rw [MempoolService.eq_of_id_eq ht' ht hid]
  · rintro rfl
    exact hstands

/-- A timer fires, and the consumer is called: the addition of the timer has lapsed. -/
theorem Accounted.lapsed_fired (h : Accounted s) {timer : Timer} (ht : timer ∈ s.mempool.timers) :
    Lapsed (s.journal ++ [.elapsed timer.id] ++ [.consumed timer.id timer.orderId]) n o ↔
      Lapsed s.journal n o ∨ timer.id = n ∧ timer.orderId = o := by
  rw [lapsed_concat, or_iff_left (by rintro ⟨⟨⟩, -⟩), lapsed_concat]
  refine or_congr_right ⟨?_, ?_⟩
  · rintro ⟨heq, hs⟩
    cases heq
    exact ⟨rfl, ((h.stands_iff ht).mp hs).symm⟩
  · rintro ⟨rfl, rfl⟩
    exact ⟨rfl, (h.stands_iff ht).mpr rfl⟩

/-- Its order is not tracked any more, and every other addition stands as before. -/
theorem Accounted.tracked_fired (h : Accounted s) {timer : Timer}
    (ht : timer ∈ s.mempool.timers) : (s.mempool.expire timer ht).trackedOrders o = some n ↔
      Stands (s.journal ++ [.elapsed timer.id] ++ [.consumed timer.id timer.orderId]) n o ∧
        .elapsed n ∉ s.journal ++ [.elapsed timer.id] ++ [.consumed timer.id timer.orderId] := by
  have hold : .elapsed n ∉ s.journal ++ [.elapsed timer.id] ++
      [.consumed timer.id timer.orderId] ↔ .elapsed n ∉ s.journal ∧ n ≠ timer.id := by simp
  change Function.update s.mempool.trackedOrders timer.orderId none o = some n ↔ _
  rw [stands_concat_consumed, stands_concat_elapsed, hold, ← and_assoc, ← h.tracked_iff]
  by_cases ho : o = timer.orderId
  · subst o
    rw [Function.update_self, MempoolService.tracked_of_mem ht]
    refine iff_of_false (fun hn => by cases hn) ?_
    rintro ⟨⟨⟩, hne⟩
    exact hne rfl
  · rw [Function.update_of_ne ho]
    refine (and_iff_left_of_imp ?_).symm
    rintro hm rfl
    exact ho ((h.stands_iff ht).mp ((h.tracked_iff _ _).mp hm).1)

theorem Accounted.fired (h : Accounted s) {timer : Timer} (ht : timer ∈ s.mempool.timers) :
    Accounted ⟨s.mempool.expire timer ht,
      s.journal ++ [.elapsed timer.id] ++ [.consumed timer.id timer.orderId]⟩ := by
  obtain ⟨-, hfirst⟩ := (h.tracked_iff _ _).mp (MempoolService.tracked_of_mem ht)
  have hcount : ∀ m o, (s.journal ++ [MempoolEvent.elapsed timer.id] ++
      [MempoolEvent.consumed timer.id timer.orderId]).count (.consumed m o) =
        s.journal.count (.consumed m o) + if timer.id = m ∧ timer.orderId = o then 1 else 0 := by
    intro m o
    simp [List.count_singleton]
  constructor
  · rw [additionNumbers_concat rfl, additionNumbers_concat rfl]
    exact h.numbered
  · intro m hm
    simp only [List.mem_append, List.mem_singleton, reduceCtorEq, or_false] at hm
    rcases hm with hm | hm
    · exact h.elapsed_lt m hm
    · cases hm
      exact s.mempool.fresh timer ht
  · exact fun o m => h.tracked_fired ht
  · intro m o hl
    rw [hcount]
    rcases (h.lapsed_fired ht).mp hl with hl | ⟨rfl, rfl⟩
    · rw [if_neg, h.consumed m o hl]
      rintro ⟨rfl, -⟩
      exact hfirst hl.elapsed_mem
    · rw [if_pos ⟨rfl, rfl⟩, h.unconsumed _ _ fun hl => hfirst hl.elapsed_mem]
  · intro m o hl
    rw [h.lapsed_fired ht, not_or] at hl
    rw [hcount, if_neg hl.2, h.unconsumed m o hl.1]

theorem Accounted.elapse (h : Accounted s) (calls : List MempoolCall)
    (hlt : n < s.mempool.nextTimer) (hfirst : .elapsed n ∉ s.journal) :
    Accounted (s.elapse n calls) := by
  unfold MempoolRecord.elapse
  cases hk : s.mempool.fire n with
  | none =>
    exact h.elapsed hlt (fun o => MempoolService.tracked_ne_of_fire_eq_none hk) hfirst
  | some fired =>
    obtain ⟨mempool, consumed⟩ := fired
    obtain ⟨timer, ht, rfl, rfl, rfl⟩ := MempoolService.fire_eq_some hk
    exact (h.fired ht).calls calls

theorem accounted_of_run (h : mempoolRuns.Run t s) : Accounted s := by
  refine h.invariant accounted_initial fun s input s' ha hs => ?_
  cases input with
  | call c =>
    obtain rfl := Option.some.inj hs
    exact ha.call c
  | elapse n calls =>
    simp only [mempoolRuns, step] at hs
    split at hs
    · rename_i hfirst
      obtain rfl := Option.some.inj hs
      exact ha.elapse calls hfirst.1 hfirst.2
    · cases hs

/-! ### The journal of a run -/

theorem call_journal (s : MempoolRecord) (c : MempoolCall) :
    ∃ e, c.Notes e ∧ (s.call c).journal = s.journal ++ [e] := by
  cases c with
  | delete orderId => exact ⟨.deleted orderId, rfl, rfl⟩
  | addOrder orderId _ | delayOrder orderId _ | delayArchivalOrder orderId _ =>
    exact ⟨.added s.mempool.nextTimer orderId, ⟨_, rfl⟩, rfl⟩

theorem calls_journal (s : MempoolRecord) (calls : List MempoolCall) :
    ∃ es, List.Forall₂ MempoolCall.Notes calls es ∧
      (calls.foldl MempoolRecord.call s).journal = s.journal ++ es := by
  induction calls generalizing s with
  | nil => exact ⟨[], .nil, (List.append_nil _).symm⟩
  | cons c calls ih =>
    obtain ⟨e, he, hj⟩ := s.call_journal c
    obtain ⟨es, hes, hjs⟩ := ih (s.call c)
    refine ⟨e :: es, .cons he hes, ?_⟩
    rw [List.foldl_cons, hjs, hj, List.append_assoc]
    rfl

theorem noted_of_run (h : mempoolRuns.Run t s) : Noted t s.journal := by
  refine h.history (P := fun t s => Noted t s.journal) .nil fun t s input s' _ hn hs => ?_
  cases input with
  | call c =>
    obtain rfl := Option.some.inj hs
    obtain ⟨e, he, hj⟩ := s.call_journal c
    rw [hj]
    exact hn.call he
  | elapse n calls =>
    simp only [mempoolRuns, step] at hs
    split at hs
    · obtain rfl := Option.some.inj hs
      unfold MempoolRecord.elapse
      split
      · exact hn.unconsumed
      · exact hn.unconsumed
      · obtain ⟨es, hes, hj⟩ := calls_journal _ calls
        rw [hj]
        exact hn.consumed hes
    · cases hs

/-- In every run an order is tracked exactly when one timer is armed for it, the journal is that of
the inputs, and the consumer is called once for each addition whose delay elapses while it stands,
and for no other. -/
theorem armed_and_consumed (h : mempoolRuns.Run t s) :
    (∀ orderId, (s.mempool.timers.map Timer.orderId).count orderId =
      if (s.mempool.trackedOrders orderId).isSome then 1 else 0) ∧
    s.journal.filterMap additionNumber = List.range s.mempool.nextTimer ∧
    Noted t s.journal ∧ s.journal.filterMap elapsedNumber = t.filterMap MempoolInput.elapsing ∧
    ∀ n orderId,
      (Lapsed s.journal n orderId → s.journal.count (.consumed n orderId) = 1) ∧
      (¬ Lapsed s.journal n orderId → .consumed n orderId ∉ s.journal) := by
  have ha := accounted_of_run h
  have hn := noted_of_run h
  refine ⟨fun orderId => MempoolService.count_timers, ha.numbered, hn, hn.elapsed,
    fun n orderId => ?_⟩
  refine ⟨ha.consumed n orderId, fun hl => ?_⟩
  exact List.count_eq_zero.mp (ha.unconsumed n orderId hl)

/-- The consumer adds the order again; that addition is superseded, and the last one is deleted. -/
def againAndDelete : List MempoolInput :=
  [.call (.addOrder "0xa" 0), .elapse 0 [.delayOrder "0xa" 1], .call (.delayArchivalOrder "0xa" 2),
    .elapse 1 [], .call (.delete "0xa"), .elapse 2 []]

theorem armed_and_consumed_again : ∃ s, mempoolRuns.Run againAndDelete s ∧
    (∀ orderId, (s.mempool.timers.map Timer.orderId).count orderId =
      if (s.mempool.trackedOrders orderId).isSome then 1 else 0) ∧
    s.journal.filterMap additionNumber = List.range s.mempool.nextTimer ∧
    Noted againAndDelete s.journal ∧ s.journal.filterMap elapsedNumber =
      againAndDelete.filterMap MempoolInput.elapsing ∧
    ∀ n orderId,
      (Lapsed s.journal n orderId → s.journal.count (.consumed n orderId) = 1) ∧
      (¬ Lapsed s.journal n orderId → .consumed n orderId ∉ s.journal) := by
  apply Machine.exists_run_and
  · decide
  · intro s h
    exact armed_and_consumed h

end MempoolRecord

end DlnTaker
