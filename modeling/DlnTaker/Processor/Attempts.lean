import DlnTaker.Library.Journal
import DlnTaker.Processor.Step

/-! # The attempts at an order

An attempt is handed to a taker and reported to the hooks under its number: how
many attempts at the order started since the processor last forgot it. An
attempt is reported once or succeeds, and no other attempt starts before that.
-/

namespace DlnTaker

open OrderProcessor Journal

namespace Effect

/-- The order whose attempt starts here. -/
def started? : Effect → Option OrderId
  | takeOrder orderId _ => some orderId
  | _ => none

/-- The order and the number of an attempt that is handed to a taker or reported to the hooks. -/
def attempt? : Effect → Option (OrderId × ℕ)
  | take order => some (order.orderId, order.attempt)
  | orderRejected params => some (params.orderId, params.attempts)
  | orderPostponed params => some (params.orderId, params.attempts)
  | _ => none

def isReport : Effect → Bool
  | orderRejected _ | orderPostponed _ => true
  | _ => false

/-- How many attempts at the order started since it was last forgotten. -/
def countAttempts (id : OrderId) (n : ℕ) : Effect → ℕ
  | takeOrder orderId _ => if orderId = id then n + 1 else n
  | processing context => if context.status.isTerminal ∧ id = context.orderId then 0 else n
  | _ => n

end Effect

def Input.isSuccess : Input → Bool
  | settled _ .success => true
  | _ => false

/-- The number of the latest attempt at the order, zero if there was none. -/
def attempts (id : OrderId) (log : List Effect) : ℕ := log.foldl (Effect.countAttempts id) 0

/-- What is said of an attempt is said of the one that started last, under its number. -/
def Numbered (pre : List Effect) (e : Effect) : Prop :=
  ∀ id n, e.attempt? = some (id, n) →
    latest Effect.started? pre = some id ∧ n = attempts id pre ∧ 0 < n

variable {network : Network} {t : List Input} {s : Except Crash OrderProcessor}
  {p p' : OrderProcessor} {i : Input} {context : IncomingOrderContext} {id x : OrderId}
  {metadata : CreatedOrderMetadata id} {finalization : Finalization} {log es : List Effect}
  {e : Effect} {take : PendingTake} {outcome : TakeOutcome}

section Log

@[simp] theorem attempts_concat :
    attempts id (log ++ [e]) = e.countAttempts id (attempts id log) := by
  simp [attempts, List.foldl_append]

/-- An effect of the processing of an event: no attempt is started or mentioned. -/
def Effect.IsAside (e : Effect) : Prop :=
  e.started? = none ∧ e.attempt? = none ∧ e.isReport = false ∧ ∀ id n, e.countAttempts id n = n

theorem isAside_received : (Effect.received context).IsAside := ⟨rfl, rfl, rfl, fun _ _ => rfl⟩

theorem isAside_of_isOutput (h : e.isOutput = true) : e.IsAside := by
  cases e with
  | unlockOrder orderId order => exact ⟨rfl, rfl, rfl, fun _ _ => rfl⟩
  | removeUnlock takeChain orderId => exact ⟨rfl, rfl, rfl, fun _ _ => rfl⟩
  | flushCache chain => exact ⟨rfl, rfl, rfl, fun _ _ => rfl⟩
  | _ => cases h

theorem isAside_processing (hc : context.status.isCreation = true) :
    (Effect.processing context).IsAside := by
  refine ⟨rfl, rfl, rfl, fun id n => ?_⟩
  have ht : ¬ context.status.isTerminal = true := by
    intro ht
    rw [OrderInfoStatus.not_creation_of_terminal ht] at hc
    cases hc
  simp [Effect.countAttempts, ht]

theorem attempts_append (h : ∀ e ∈ es, e.IsAside) : attempts id (log ++ es) = attempts id log := by
  induction es using List.reverseRecOn with
  | nil => rw [List.append_nil]
  | append_singleton es e ih =>
    rw [← List.append_assoc, attempts_concat, (h e (by simp)).2.2.2,
      ih fun e he => h e (by simp [he])]

theorem numbered_of_isAside (h : e.IsAside) {pre : List Effect} : Numbered pre e := by
  intro id n ha
  rw [h.2.1] at ha
  cases ha

end Log

section Answers

/-- The effect says of the order's attempt that it has the given number, and starts none. -/
structure Effect.Mentions (e : Effect) (id : OrderId) (n : ℕ) : Prop where
  attempt : e.attempt? = some (id, n)
  started : e.started? = none
  counts : ∀ id n, e.countAttempts id n = n

/-- An attempt starts under the next number, and is rejected or handed to a taker with it. -/
theorem begun_attempt : ∃ last : Effect,
    (p.begun context metadata finalization).effects =
      p.effects ++ [.processing context, .takeOrder id finalization, last] ∧
    last.Mentions id (metadata.attempts + 1) ∧ last.isReport = (finalization == .revoked) := by
  cases finalization with
  | revoked =>
    exact ⟨_, by simp [begun, startTake, emit, setMetadata, rejectOrder, clearInternalQueues]; rfl,
      ⟨rfl, rfl, fun _ _ => rfl⟩, rfl⟩
  | reached finality =>
    exact ⟨_, by simp [begun, startTake, emit, setMetadata]; rfl, ⟨rfl, rfl, fun _ _ => rfl⟩, rfl⟩

theorem begun_take : ∃ take : PendingTake, take.orderId = id ∧
    take.metadata.attempts = metadata.attempts + 1 ∧
    take.ended = (finalization == .revoked) ∧
    (p.begun context metadata finalization).takes = p.takes ++ [take] := by
  cases finalization <;> exact ⟨_, rfl, rfl, rfl, rfl⟩

theorem postponeOrder_attempt {order : OrderData} {isLive : Bool} {attempt : ℕ} {message : String}
    {reason : PostponingReason} {remainingDelay : Option ℚ} : ∃ last : Effect,
    (p.postponeOrder id order isLive attempt message reason remainingDelay).effects =
      p.effects ++ [last] ∧ last.Mentions id attempt ∧ last.isReport = true := by
  refine ⟨.orderPostponed ⟨id, order, message, reason, isLive, attempt⟩, ?_,
    ⟨rfl, rfl, fun _ _ => rfl⟩, rfl⟩
  unfold postponeOrder
  repeat' split
  all_goals rfl

/-- A settled attempt succeeds, or is reported under its number. -/
theorem ended_attempt :
    (outcome = .success ∧ (p.ended network take outcome).effects = p.effects) ∨
    outcome ≠ .success ∧ ∃ last : Effect,
      (p.ended network take outcome).effects = p.effects ++ [last] ∧
      last.Mentions take.orderId take.metadata.attempts ∧ last.isReport = true := by
  have hid : take.metadata.context.orderInfo.orderId = take.orderId := take.metadata.context_orderId
  cases outcome with
  | success => exact .inl ⟨rfl, rfl⟩
  | reject rejection message =>
    refine .inr ⟨by simp, _, rfl, ⟨?_, rfl, fun _ _ => rfl⟩, rfl⟩
    simp only [Effect.attempt?, hid]
  | postpone postpone message delay =>
    right
    simp only [ended, settleTake, hid]
    exact ⟨by simp, postponeOrder_attempt⟩
  | thrown error =>
    right
    simp only [ended, settleTake, hid]
    exact ⟨by simp, postponeOrder_attempt⟩

end Answers

section Count

def starts (log : List Effect) : ℕ := log.countP (·.started?.isSome)

def reports (log : List Effect) : ℕ := log.countP Effect.isReport

def successes (t : List Input) : ℕ := t.countP Input.isSuccess

/-- The attempts that are with a taker. -/
def OrderProcessor.inProgress (p : OrderProcessor) : ℕ := p.takes.countP (!·.ended)

theorem starts_append : starts (log ++ es) = starts log + starts es := List.countP_append

theorem reports_append : reports (log ++ es) = reports log + reports es := List.countP_append

theorem successes_concat : successes (t ++ [i]) = successes t + if i.isSuccess then 1 else 0 := by
  rw [successes, List.countP_append, List.countP_singleton, successes]

theorem starts_of_isAside (h : ∀ e ∈ es, e.IsAside) : starts es = 0 :=
  List.countP_eq_zero.mpr fun e he => by simp [(h e he).1]

theorem reports_of_isAside (h : ∀ e ∈ es, e.IsAside) : reports es = 0 :=
  List.countP_eq_zero.mpr fun e he => by simp [(h e he).2.2.1]

/-- Holds between the rounds of a section as well as between sections. -/
structure Counted (t : List Input) (p : OrderProcessor) : Prop where
  store : ∀ id, attempts id p.effects = (p.createdOrdersMetadata id).elim 0 (·.attempts)
  taking : ∀ take ∈ p.takes, 0 < take.metadata.attempts ∧
    take.metadata.attempts = attempts take.orderId p.effects ∧
    latest Effect.started? p.effects = some take.orderId
  log : EachEntry Numbered p.effects
  answered : starts p.effects = reports p.effects + successes t + p.inProgress

namespace Counted

theorem initial : Counted [] .initial where
  store _ := rfl
  taking _ h := absurd h List.not_mem_nil
  log := eachEntry_nil
  answered := rfl

/-- Effects aside of any attempt change no number. -/
theorem congr (h : Counted t p) (hes : ∀ e ∈ es, e.IsAside) (he : p'.effects = p.effects ++ es)
    (hm : ∀ id, (p'.createdOrdersMetadata id).elim 0 (·.attempts) =
      (p.createdOrdersMetadata id).elim 0 (·.attempts))
    (ht : p'.takes = p.takes) : Counted t p' where
  store id := by rw [he, attempts_append hes, hm, h.store]
  taking take htake := by
    rw [ht] at htake
    rw [he, attempts_append hes, latest_append_of_none fun e he => (hes e he).1]
    exact h.taking take htake
  log := by
    rw [he]
    exact h.log.append fun e he _ => numbered_of_isAside (hes e he)
  answered := by
    rw [he, starts_append, reports_append, starts_of_isAside hes, reports_of_isAside hes,
      inProgress, ht]
    exact h.answered

/-- Only a success changes what an input says of the attempts. -/
theorem pass (h : Counted t p) (hi : i.isSuccess = false) : Counted (t ++ [i]) p where
  store := h.store
  taking := h.taking
  log := h.log
  answered := by
    rw [successes_concat, hi]
    exact h.answered

theorem receive (h : Counted t p) : Counted t (p.receive context) := by
  refine h.congr (by simp [isAside_received]) receive_effects ?_ receive_takes
  intro id
  by_cases hid : id = context.orderId
  · subst hid
    simp only [OrderProcessor.receive, trackCreation]
    split
    · split
      · rename_i hnone
        have hnone : p.createdOrdersMetadata context.orderId = none := hnone
        simp [setMetadata, hnone]
      · rename_i known hknown
        have hknown : p.createdOrdersMetadata context.orderId = some known := hknown
        split
        · simp [setMetadata, hknown, CreatedOrderMetadata.patchFinalization]
        · rfl
    · rfl
  · simp only [OrderProcessor.receive, trackCreation]
    repeat' split
    all_goals simp [setMetadata, hid, emit]

theorem park (h : Counted t p) : Counted t (p.park context) := by
  have hnone : (p.park context).effects = p.effects ++ [] := by simp
  exact h.congr (by simp) hnone (by simp) park_takes

theorem expire (h : Counted t p) {timer : Timer} (ht : timer ∈ p.mempoolService.timers) :
    Counted t (p.expire timer ht) :=
  ⟨h.store, h.taking, h.log, h.answered⟩

/-- A terminal event makes the next attempt the first one again. -/
theorem processed (h : Counted t p) (hf : p.takes = []) : Counted t (p.processed context) := by
  have hes : ∀ e ∈ context.outputs, e.IsAside := fun e he =>
    isAside_of_isOutput (isOutput_of_mem_outputs he)
  have hlog : (p.processed context).effects =
      p.effects ++ [.processing context] ++ context.outputs := by simp
  refine ⟨fun id => ?_, fun take htake => ?_, ?_, ?_⟩
  · rw [hlog, attempts_append hes, attempts_concat, processed_createdOrdersMetadata]
    simp only [Effect.countAttempts]
    split
    · rfl
    · exact h.store id
  · rw [processed_takes, hf] at htake
    cases htake
  · rw [hlog]
    refine (eachEntry_concat.mpr ⟨h.log, ?_⟩).append fun e he _ => numbered_of_isAside (hes e he)
    rintro _ _ ⟨⟩
  · rw [hlog, starts_append, starts_append, reports_append, reports_append, starts_of_isAside hes,
      reports_of_isAside hes, inProgress, processed_takes]
    exact h.answered

/-- An attempt starts where no other is in progress. -/
theorem begun (h : Counted t p) (hf : p.takes = [])
    (hm : p.createdOrdersMetadata id = some metadata) (hc : context.status.isCreation = true) :
    Counted t (p.begun context metadata finalization) := by
  obtain ⟨last, he, hlast, hreport⟩ := @begun_attempt p context id metadata finalization
  obtain ⟨take, rfl, hattempts, hended, htakes⟩ := @begun_take p context id metadata finalization
  rw [hf, List.nil_append] at htakes
  have hn : attempts take.orderId p.effects = metadata.attempts := by rw [h.store, hm]; rfl
  have haside : (Effect.processing context).IsAside := isAside_processing hc
  have hlog : (p.begun context metadata finalization).effects =
      p.effects ++ [.processing context] ++ [.takeOrder take.orderId finalization] ++ [last] := by
    simp [he]
  have hcount : ∀ x, attempts x (p.begun context metadata finalization).effects =
      (Effect.takeOrder take.orderId finalization).countAttempts x (attempts x p.effects) := by
    intro x
    rw [hlog, attempts_concat, attempts_concat, attempts_concat, hlast.counts, haside.2.2.2]
  have hself : attempts take.orderId (p.begun context metadata finalization).effects =
      metadata.attempts + 1 := by
    rw [hcount, hn]
    simp [Effect.countAttempts]
  have hstarted : latest Effect.started? (p.begun context metadata finalization).effects =
      some take.orderId := by
    rw [hlog, latest_concat, hlast.started, latest_concat]
    rfl
  refine ⟨fun x => ?_, fun u hu => ?_, ?_, ?_⟩
  · rw [begun_createdOrdersMetadata]
    by_cases hx : x = take.orderId
    · subst hx
      rw [hself, Function.update_self]
      rfl
    · rw [hcount, Function.update_of_ne hx, ← h.store]
      simp [Effect.countAttempts, Ne.symm hx]
  · rw [htakes, List.mem_singleton] at hu
    subst hu
    exact ⟨by omega, by rw [hself, hattempts], hstarted⟩
  · rw [hlog]
    refine eachEntry_concat.mpr ⟨eachEntry_concat.mpr ⟨eachEntry_concat.mpr ⟨h.log, ?_⟩, ?_⟩, ?_⟩
    · exact numbered_of_isAside haside
    · rintro _ _ ⟨⟩
    · intro x n hmention
      rw [hlast.attempt] at hmention
      obtain ⟨rfl, rfl⟩ := Prod.mk.inj (Option.some.inj hmention)
      rw [hlog, attempts_concat, hlast.counts] at hself
      rw [hlog, latest_concat, hlast.started] at hstarted
      exact ⟨hstarted, hself.symm, Nat.succ_pos _⟩
  · have ha := h.answered
    have hlaststart : starts [last] = 0 := by simp [starts, hlast.started]
    have haside : ∀ e ∈ [Effect.processing context], e.IsAside := by simp [haside]
    have hone : starts [Effect.takeOrder take.orderId finalization] = 1 := rfl
    have hnone : reports [Effect.takeOrder take.orderId finalization] = 0 := rfl
    rw [inProgress, hf] at ha
    rw [hlog, starts_append, starts_append, starts_append, reports_append, reports_append,
      reports_append, starts_of_isAside haside, reports_of_isAside haside, inProgress, htakes,
      hlaststart, hone, hnone]
    -- a revoked order is reported at once, any other is with a taker
    cases hrevoked : finalization == .revoked <;> rw [hrevoked] at hreport hended <;>
      simp [reports, hreport, hended] at ha ⊢ <;> omega

/-- The end of an attempt is reported, or it is a success. -/
theorem ended (h : Counted t p) (ht : p.takes = [take]) (he : take.ended = false) :
    Counted (t ++ [.settled 0 outcome]) (p.ended network take outcome) := by
  obtain ⟨hpos, hn, hstarted⟩ := h.taking take (by simp [ht])
  have ha := h.answered
  rw [inProgress, ht] at ha
  rcases @ended_attempt network p take outcome with
    ⟨rfl, hlog⟩ | ⟨hfail, last, hlog, hlast, hreport⟩
  · refine ⟨fun x => ?_, fun u hu => ?_, ?_, ?_⟩
    · rw [hlog, ended_createdOrdersMetadata, h.store]
    · rw [ended_takes, List.mem_singleton] at hu
      subst hu
      rw [hlog]
      exact ⟨hpos, hn, hstarted⟩
    · rw [hlog]
      exact h.log
    · rw [hlog, successes_concat, inProgress, ended_takes]
      simp [he, Input.isSuccess] at ha ⊢
      omega
  · have hcount : ∀ x, attempts x (p.ended network take outcome).effects =
        attempts x p.effects := by
      intro x
      rw [hlog, attempts_concat, hlast.counts]
    refine ⟨fun x => ?_, fun u hu => ?_, ?_, ?_⟩
    · rw [hcount, ended_createdOrdersMetadata, h.store]
    · rw [ended_takes, List.mem_singleton] at hu
      subst hu
      rw [hcount, hlog, latest_concat, hlast.started]
      exact ⟨hpos, hn, hstarted⟩
    · rw [hlog, eachEntry_concat]
      refine ⟨h.log, fun x n hmention => ?_⟩
      rw [hlast.attempt] at hmention
      obtain ⟨rfl, rfl⟩ := Prod.mk.inj (Option.some.inj hmention)
      exact ⟨hstarted, hn, hpos⟩
    · have hsuccess : (Input.settled 0 outcome).isSuccess = false := by
        cases outcome with
        | success => exact absurd rfl hfail
        | _ => rfl
      rw [hlog, successes_concat, inProgress, ended_takes, starts_append, reports_append, hsuccess]
      simp [he, starts, reports, hlast.started, hreport] at ha ⊢
      omega

theorem enter (h : Counted t p) (hs : Sound p) (he : Enter network p i p') :
    Counted (t ++ [i]) p' := by
  cases he with
  | park context hl => exact (h.pass rfl).receive.park
  | process context hf hc => exact (h.pass rfl).receive.processed (by simp [hs.takes_nil hf])
  | begin context metadata finalization hf hc hm hi =>
    exact (h.pass rfl).receive.begun (by simp [hs.takes_nil hf]) hm hc
  | parkOrder timer ht metadata hl hm => exact ((h.pass rfl).expire ht).park
  | beginOrder timer ht metadata finalization hf hm hi =>
    exact ((h.pass rfl).expire ht).begun (hs.takes_nil hf) hm metadata.creation
  | settle take outcome ht he => exact h.ended ht he
  | release take ht he =>
    have hp : Counted (t ++ [.returned 0]) p := h.pass rfl
    have ha := hp.answered
    rw [inProgress, ht] at ha
    refine ⟨hp.store, ?_, hp.log, by simpa [he, inProgress, released] using ha⟩
    simp [released]
  | tick ms =>
    have hp : Counted (t ++ [.tick ms]) p := h.pass rfl
    exact ⟨hp.store, hp.taking, hp.log, hp.answered⟩

theorem round (h : Counted t p) (hs : Sound p) (hr : Round p p') : Counted t p' := by
  cases hr with
  | process context events hf he hc =>
    exact processed (p := { p with eventsQueue := events })
      ⟨h.store, h.taking, h.log, h.answered⟩ (hs.takes_nil hf)
  | begin id metadata finalization hf he hq hm hi =>
    exact begun (p := p.picked id) ⟨h.store, h.taking, h.log, h.answered⟩ (hs.takes_nil hf) hm
      metadata.creation

end Counted

/-- Every order handed to a taker and every report of the hooks is about the attempt that started
last, under the number of attempts since the order was last forgotten; and the attempts are those
reported, those that succeeded and those in progress. -/
theorem attempts_reported (h : (processor network).Run t s) : ∃ p, s = .ok p ∧
    EachEntry Numbered p.effects ∧
    starts p.effects = reports p.effects + successes t + p.inProgress := by
  obtain ⟨p, rfl, -, -, hc⟩ := run_induct (J := Counted) .initial
    (fun _ _ _ _ _ hs _ hj he => hj.enter hs he) (fun _ _ _ hs hj hr => hj.round hs hr) h
  exact ⟨p, rfl, hc.log, hc.answered⟩

/-- An attempt fails, and the order is taken again when its timer fires. -/
theorem attempts_reported_again :
    ∃ s, (processor Sample.network).Run [.event (Sample.created "a" (.finalized "")),
      .settled 0 (.thrown "timeout"), .returned 0, .timer 0, .settled 0 .success] s ∧
    ∃ p, s = .ok p ∧ EachEntry Numbered p.effects ∧ starts p.effects = reports p.effects +
      successes [.event (Sample.created "a" (.finalized "")), .settled 0 (.thrown "timeout"),
        .returned 0, .timer 0, .settled 0 .success] + p.inProgress := by
  apply Machine.exists_run_and
  · decide +kernel
  · intro s hr
    exact attempts_reported hr

end Count

end DlnTaker
