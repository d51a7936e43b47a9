import DlnTaker.Library.Journal
import DlnTaker.Library.Machine
import DlnTaker.Limits.Fleet

/-! # The shared promise of the TVL

All callers share the promise that the cache holds, whether its calculation is
in progress, resolved or failed. Every call is given the calculation started
since the last flush that has not expired, and there is never more than one.
-/

namespace DlnTaker

open Journal

/-- The reads of a calculation meet the give chain in any state. Between the two reads of the
cache by one call `elapsed` milliseconds pass. -/
inductive TVLCacheInput
  | getCurrentTVL (chain : GiveChainState) (elapsed : ℕ)
  | flushCache
  | calculate (n : ℕ) (chain : GiveChainState) (input : CalculationInput)
  | receive (caller : ℕ)
  | elapse (ms : ℕ)

inductive TVLCacheEvent
  | started (n now : ℕ)
  | called (caller : ℕ) (promise : Option ℕ) (first second : ℕ)
  | flushed
  | resolved (n : ℕ) (tvl : ℚ)
  | failed (n : ℕ)
  | received (caller : ℕ) (tvl : ℚ)
  deriving DecidableEq

/-- The controller with its callers, each with the promise it was given. -/
structure TVLCallers where
  controller : TVLBudgetController
  promises : List (Option ℕ)
  now : ℕ
  log : List TVLCacheEvent

namespace TVLCallers

def initial : TVLCallers := ⟨⟨none, []⟩, [], 0, []⟩

/-- What is noted when the first read of the cache finds nothing. -/
def starting (s : TVLCallers) : List TVLCacheEvent :=
  match s.controller.cached s.now with
  | some _ => []
  | none => [.started s.controller.calculations.length s.now]

def stageOf (controller : TVLBudgetController) (n : ℕ) : Option CalculationStage :=
  controller.calculations[n]?.map Calculation.stage

/-- What is noted when a calculation has reached a stage. -/
def settling (n : ℕ) : Option CalculationStage → List TVLCacheEvent
  | some (.resolved tvl) => [.resolved n tvl]
  | some .rejected => [.failed n]
  | _ => []

def step (config : TVLBudgetConfig) (s : TVLCallers) : TVLCacheInput → Option TVLCallers
  | .getCurrentTVL chain elapsed =>
    let controller := (s.controller.getCurrentTVL config chain s.now).2
    let promise := controller.cached (s.now + elapsed)
    some
      { controller
        promises := s.promises ++ [promise]
        now := s.now + elapsed
        log := s.log ++ s.starting ++ [.called s.promises.length promise s.now (s.now + elapsed)] }
  | .flushCache =>
    some { s with controller := s.controller.flushCache, log := s.log ++ [.flushed] }
  | .calculate n chain input =>
    (s.controller.calculate config chain n input).map fun controller =>
      { s with controller, log := s.log ++ settling n (stageOf controller n) }
  | .receive caller =>
    match s.promises[caller]?.join.bind (stageOf s.controller) with
    | some (.resolved tvl) => some { s with log := s.log ++ [.received caller tvl] }
    | _ => none
  | .elapse ms => some { s with now := s.now + ms }

end TVLCallers

def tvlCallers (config : TVLBudgetConfig) : Machine TVLCallers TVLCacheInput where
  init := .initial
  step := TVLCallers.step config

namespace TVLCacheEvent

def IsFlush (e : TVLCacheEvent) : Prop := e = .flushed

instance : DecidablePred IsFlush := fun e => decEq e .flushed

/-- The calculation was started since the last flush and has not expired. -/
def Live (log : List TVLCacheEvent) (now n : ℕ) : Prop :=
  ∃ t, .started n t ∈ since IsFlush log ∧ now ≤ t + TVLBudgetController.cacheTTL

/-- At the first read there is a live calculation, found or just started, and the promise given is
that of the calculation that is live at the second read. -/
def SharesLive (log : List TVLCacheEvent) : TVLCacheEvent → Prop
  | .called _ promise first second =>
    (∃ n, Live log first n) ∧ ∀ n, promise = some n ↔ Live log second n
  | _ => True

/-- All calculations started since the last flush have expired. -/
def StartsAlone (log : List TVLCacheEvent) : TVLCacheEvent → Prop
  | .started _ now => ∀ n, ¬ Live log now n
  | _ => True

/-- The value is that of a calculation started after the last flush that preceded the call. -/
def ReceivesFresh (log : List TVLCacheEvent) : TVLCacheEvent → Prop
  | .received caller tvl =>
    ∃ n first second before after, log = before ++ .called caller (some n) first second :: after ∧
      (∃ t, .started n t ∈ since IsFlush before) ∧ .resolved n tvl ∈ log
  | _ => True

/-- There is only one calculation that the first read can find. -/
def FindsOne (log : List TVLCacheEvent) : TVLCacheEvent → Prop
  | .called _ _ first second =>
    first ≤ second ∧ ∀ n m, Live log first n → Live log first m → n = m
  | _ => True

/-- The call starts or finds a calculation that has not failed, and shares it unless it expires
between the two reads. -/
def FailureForgotten (log : List TVLCacheEvent) : TVLCacheEvent → Prop
  | .called _ promise first second =>
    ∃ n, Live log first n ∧ .failed n ∉ log ∧
      (promise = some n ∨ promise = none ∧ ¬ Live log second n)
  | _ => True

/-- At the first read every calculation that has failed was flushed after its start or is older
than the time to live. -/
def FailureDropped (log : List TVLCacheEvent) : TVLCacheEvent → Prop
  | .called _ _ first _ =>
    ∀ n t, .failed n ∈ log → .started n t ∈ since IsFlush log →
      t + TVLBudgetController.cacheTTL < first
  | _ => True

variable {log : List TVLCacheEvent} {now later n : ℕ}

/-- What is live at a later time was live before. -/
theorem Live.earlier (h : Live log later n) (hl : now ≤ later) : Live log now n := by
  obtain ⟨t, hs, ht⟩ := h
  exact ⟨t, hs, hl.trans ht⟩

end TVLCacheEvent

/-! ### What the cache holds -/

namespace TVLCallers

open TVLBudgetController TVLCacheEvent

variable {config : TVLBudgetConfig} {s s' : TVLCallers} {log : List TVLCacheEvent}
  {n m t now : ℕ}

theorem cached_eq_some_iff {c : TVLBudgetController} :
    c.cached now = some n ↔ ∃ t, c.cache = some (n, t) ∧ now ≤ t + cacheTTL := by
  simp [cached, Option.filter_eq_some_iff]

/-- The cache holds the last calculation started since the last flush, and the earlier ones had
expired when it was started. -/
structure Caches (cache : Option (ℕ × ℕ)) (now : ℕ) (log : List TVLCacheEvent) : Prop where
  held : ∀ n t, cache = some (n, t) → .started n t ∈ since IsFlush log ∧ t ≤ now
  others : ∀ n t, .started n t ∈ since IsFlush log →
    ∃ m u, cache = some (m, u) ∧ ((n, t) = (m, u) ∨ t + cacheTTL < u)

variable {cache : Option (ℕ × ℕ)}

/-- The live calculation is the one a read of the cache finds. -/
theorem Caches.live_iff (h : Caches cache now log) {later : ℕ} (hl : now ≤ later) :
    Live log later n ↔ ∃ t, cache = some (n, t) ∧ later ≤ t + cacheTTL := by
  constructor
  · rintro ⟨t, hs, ht⟩
    obtain ⟨m, u, hc, he | hlt⟩ := h.others n t hs
    · cases he
      exact ⟨t, hc, ht⟩
    · have hu := (h.held m u hc).2
      omega
  · rintro ⟨t, hc, ht⟩
    exact ⟨t, (h.held n t hc).1, ht⟩

theorem Caches.elapse (h : Caches cache now log) {later : ℕ} (hl : now ≤ later) :
    Caches cache later log where
  held n t hc := ⟨(h.held n t hc).1, (h.held n t hc).2.trans hl⟩
  others := h.others

theorem caches_flush : Caches none now (log ++ [.flushed]) where
  held n t hc := nomatch hc
  others n t hs := by
    rw [since_concat_of_pos (show IsFlush .flushed from rfl)] at hs
    cases hs

/-- An entry that is neither a start nor a flush. -/
def Quiet (e : TVLCacheEvent) : Prop := ¬ IsFlush e ∧ ∀ n t, e ≠ .started n t

theorem started_mem_since_concat {e : TVLCacheEvent} (he : Quiet e) :
    .started n t ∈ since IsFlush (log ++ [e]) ↔ .started n t ∈ since IsFlush log := by
  rw [since_concat_of_neg he.1, List.mem_append, List.mem_singleton]
  exact or_iff_left (he.2 n t).symm

theorem Caches.concat (h : Caches cache now log) {e : TVLCacheEvent} (he : Quiet e) :
    Caches cache now (log ++ [e]) where
  held n t hc := ⟨(started_mem_since_concat he).mpr (h.held n t hc).1, (h.held n t hc).2⟩
  others n t hs := h.others n t ((started_mem_since_concat he).mp hs)

/-- A calculation is started when no calculation is live. -/
theorem caches_start (hn : ∀ m, ¬ Live log now m) :
    Caches (some (n, now)) now (log ++ [.started n now]) := by
  constructor
  · intro m t hc
    cases hc
    rw [since_concat_of_neg (by simp [IsFlush])]
    exact ⟨by simp, le_rfl⟩
  · intro m t hs
    rw [since_concat_of_neg (by simp [IsFlush]), List.mem_append, List.mem_singleton] at hs
    rcases hs with hs | hs
    · refine ⟨n, now, rfl, .inr ?_⟩
      by_contra hlt
      exact hn m ⟨t, hs, by omega⟩
    · cases hs
      exact ⟨n, now, rfl, .inl rfl⟩

/-! ### The invariant -/

/-- The callers share one live calculation, and the log agrees with the calculations. -/
structure Shared (s : TVLCallers) : Prop where
  caches : Caches s.controller.cache s.now s.log
  promises : ∀ caller promise, s.promises[caller]? = some promise →
    ∃ first second, .called caller promise first second ∈ s.log
  resolved : ∀ n tvl, .resolved n tvl ∈ s.log ↔ stageOf s.controller n = some (.resolved tvl)
  shares : EachEntry SharesLive s.log
  finds : EachEntry FindsOne s.log
  alone : EachEntry StartsAlone s.log
  fresh : EachEntry ReceivesFresh s.log

theorem shared_initial : Shared .initial where
  caches :=
    { held := fun _ _ hc => nomatch hc
      others := fun _ _ hs => nomatch hs }
  promises _ _ h := nomatch h
  resolved n tvl := by simp [initial, stageOf]
  shares := eachEntry_nil
  finds := eachEntry_nil
  alone := eachEntry_nil
  fresh := eachEntry_nil

namespace Shared

/-- What the first read and the start that may follow leave: a live calculation. -/
theorem first_read (h : Shared s) (config : TVLBudgetConfig) (chain : GiveChainState) :
    Caches (s.controller.getCurrentTVL config chain s.now).2.cache s.now (s.log ++ s.starting) ∧
      (∃ n, Live (s.log ++ s.starting) s.now n) ∧
      EachEntry StartsAlone (s.log ++ s.starting) := by
  unfold getCurrentTVL starting
  cases hc : s.controller.cached s.now with
  | some n =>
    rw [List.append_nil]
    exact ⟨h.caches, ⟨n, (h.caches.live_iff le_rfl).mpr (cached_eq_some_iff.mp hc)⟩, h.alone⟩
  | none =>
    have hn : ∀ m, ¬ Live s.log s.now m := by
      intro m hm
      rw [h.caches.live_iff le_rfl, ← cached_eq_some_iff, hc] at hm
      cases hm
    have hcaches := caches_start (n := s.controller.calculations.length) hn
    refine ⟨hcaches, ⟨s.controller.calculations.length, ?_⟩, ?_⟩
    · rw [hcaches.live_iff le_rfl]
      exact ⟨s.now, rfl, by omega⟩
    · rw [eachEntry_concat]
      exact ⟨h.alone, hn⟩

theorem stageOf_getCurrentTVL {c : TVLBudgetController} {chain : GiveChainState} {tvl : ℚ} :
    stageOf (c.getCurrentTVL config chain now).2 n = some (.resolved tvl) ↔
      stageOf c n = some (.resolved tvl) := by
  unfold getCurrentTVL
  cases c.cached now with
  | some _ => rfl
  | none =>
    simp only [stageOf]
    rcases lt_trichotomy n c.calculations.length with hn | rfl | hn
    · rw [List.getElem?_append_left hn]
    · simp [TVLBudgetConfig.calculateCurrentTVL]
    · rw [List.getElem?_eq_none (by simpa using Nat.succ_le_of_lt hn),
        List.getElem?_eq_none hn.le]

theorem mem_starting {e : TVLCacheEvent} (he : e ∈ s.starting) : ∃ n t, e = .started n t := by
  unfold starting at he
  cases hc : s.controller.cached s.now with
  | some n => simp [hc] at he
  | none =>
    rw [hc, List.mem_singleton] at he
    exact ⟨_, _, he⟩

/-- A property of the entries that does not concern the starts. -/
theorem eachEntry_starting {P : List TVLCacheEvent → TVLCacheEvent → Prop}
    (h : EachEntry P s.log) (hstarted : ∀ n t pre, P pre (.started n t)) :
    EachEntry P (s.log ++ s.starting) := by
  apply h.append
  intro e he pre
  obtain ⟨n, t, rfl⟩ := mem_starting he
  exact hstarted n t pre

theorem getCurrentTVL (h : Shared s) {chain : GiveChainState} {elapsed : ℕ}
    (hs : step config s (.getCurrentTVL chain elapsed) = some s') : Shared s' := by
  obtain rfl := Option.some.inj hs
  obtain ⟨hcaches, hlive, halone⟩ := h.first_read config chain
  have hlater := hcaches.elapse (Nat.le_add_right s.now elapsed)
  constructor
  · exact hlater.concat (by simp [Quiet, IsFlush])
  · intro caller promise hp
    rcases lt_trichotomy caller s.promises.length with hlt | rfl | hgt
    · rw [List.getElem?_append_left hlt] at hp
      obtain ⟨first, second, hc⟩ := h.promises caller promise hp
      exact ⟨first, second, by simp [hc]⟩
    · simp only [List.getElem?_concat_length, Option.some.injEq] at hp
      subst hp
      exact ⟨s.now, s.now + elapsed, by simp⟩
    · rw [List.getElem?_eq_none (by simpa using Nat.succ_le_of_lt hgt)] at hp
      cases hp
  · intro n tvl
    rw [stageOf_getCurrentTVL, ← h.resolved]
    simp only [List.mem_append, List.mem_singleton, reduceCtorEq, or_false]
    refine or_iff_left fun hm => ?_
    obtain ⟨_, _, he⟩ := mem_starting hm
    cases he
  · rw [eachEntry_concat]
    constructor
    · exact eachEntry_starting h.shares fun _ _ _ => trivial
    · refine ⟨hlive, fun n => ?_⟩
      rw [hcaches.live_iff (Nat.le_add_right s.now elapsed), cached_eq_some_iff]
  · rw [eachEntry_concat]
    constructor
    · exact eachEntry_starting h.finds fun _ _ _ => trivial
    · refine ⟨Nat.le_add_right s.now elapsed, fun n m hn hm => ?_⟩
      obtain ⟨t, hc, -⟩ := (hcaches.live_iff le_rfl).mp hn
      obtain ⟨u, hc', -⟩ := (hcaches.live_iff le_rfl).mp hm
      rw [hc, Option.some.injEq, Prod.mk.injEq] at hc'
      exact hc'.1
  · rw [eachEntry_concat]
    exact ⟨halone, trivial⟩
  · rw [eachEntry_concat]
    constructor
    · exact eachEntry_starting h.fresh fun _ _ _ => trivial
    · trivial

theorem flushCache (h : Shared s) (hs : step config s .flushCache = some s') : Shared s' := by
  obtain rfl := Option.some.inj hs
  constructor
  · exact caches_flush
  · intro caller promise hp
    obtain ⟨first, second, hc⟩ := h.promises caller promise hp
    exact ⟨first, second, by simp [hc]⟩
  · intro n tvl
    simpa [stageOf, TVLBudgetController.flushCache] using h.resolved n tvl
  · exact eachEntry_concat.mpr ⟨h.shares, trivial⟩
  · exact eachEntry_concat.mpr ⟨h.finds, trivial⟩
  · exact eachEntry_concat.mpr ⟨h.alone, trivial⟩
  · exact eachEntry_concat.mpr ⟨h.fresh, trivial⟩

theorem resolved_mem_settling {stage : Option CalculationStage} {tvl : ℚ} :
    .resolved m tvl ∈ settling n stage ↔ m = n ∧ stage = some (.resolved tvl) := by
  cases stage with
  | none => simp [settling]
  | some stage => cases stage <;> simp [settling, eq_comm]

theorem quiet_of_mem_settling {stage : Option CalculationStage} {e : TVLCacheEvent}
    (he : e ∈ settling n stage) : Quiet e := by
  cases stage with
  | none => simp [settling] at he
  | some stage =>
    cases stage <;> simp only [settling, List.not_mem_nil, List.mem_singleton] at he
    all_goals subst he; simp [Quiet, IsFlush]

theorem quiet_append {es : List TVLCacheEvent} (h : Caches cache now log)
    (hes : ∀ e ∈ es, Quiet e) : Caches cache now (log ++ es) := by
  induction es using List.reverseRecOn with
  | nil => simpa using h
  | append_singleton es e ih =>
    rw [← List.append_assoc]
    exact (ih fun a ha => hes a (by simp [ha])).concat (hes e (by simp))

/-- A calculation that takes a step has not been resolved. -/
theorem not_resolved_of_calculationStep {chain : GiveChainState}
    {calculation calculation' : Calculation} {input : CalculationInput} {tvl : ℚ}
    (hs : config.calculationStep chain calculation input = some calculation') :
    calculation.stage ≠ .resolved tvl := by
  intro hst
  cases input <;> simp [TVLBudgetConfig.calculationStep, hst] at hs

theorem calculate (h : Shared s) {chain : GiveChainState} {input : CalculationInput}
    (hs : step config s (.calculate n chain input) = some s') : Shared s' := by
  obtain ⟨controller, hc, rfl⟩ := Option.map_eq_some_iff.mp hs
  obtain ⟨calculation', hb, rfl⟩ := Option.map_eq_some_iff.mp hc
  obtain ⟨calculation, hn, hstep⟩ := Option.bind_eq_some_iff.mp hb
  have hlog : ∀ {P : List TVLCacheEvent → TVLCacheEvent → Prop} {stage},
      EachEntry P s.log → (∀ k tvl pre, P pre (.resolved k tvl)) → (∀ k pre, P pre (.failed k)) →
      EachEntry P (s.log ++ settling n stage) := by
    intro P stage hP hres hfail
    apply hP.append
    intro e he pre
    rcases stage with _ | _ | _ | _ | _ <;> simp only [settling, List.not_mem_nil,
      List.mem_singleton] at he
    · exact he ▸ hres _ _ _
    · exact he ▸ hfail _ _
  constructor
  · exact quiet_append h.caches fun e he => quiet_of_mem_settling he
  · intro caller promise hp
    obtain ⟨first, second, hc⟩ := h.promises caller promise hp
    exact ⟨first, second, by simp [hc]⟩
  · intro m tvl
    rw [List.mem_append, h.resolved, resolved_mem_settling]
    by_cases hm : m = n
    · subst hm
      have hnot : stageOf s.controller m ≠ some (.resolved tvl) := by
        simpa [stageOf, hn] using not_resolved_of_calculationStep hstep
      rw [or_iff_right hnot, and_iff_right rfl]
    · simp [stageOf, hm, List.getElem?_set_ne (Ne.symm hm)]
  · exact hlog h.shares (fun _ _ _ => trivial) fun _ _ => trivial
  · exact hlog h.finds (fun _ _ _ => trivial) fun _ _ => trivial
  · exact hlog h.alone (fun _ _ _ => trivial) fun _ _ => trivial
  · exact hlog h.fresh (fun _ _ _ => trivial) fun _ _ => trivial

theorem receive (h : Shared s) {caller : ℕ} (hs : step config s (.receive caller) = some s') :
    Shared s' := by
  simp only [step] at hs
  split at hs
  · rename_i tvl hb
    obtain rfl := Option.some.inj hs
    obtain ⟨n, hj, hst⟩ := Option.bind_eq_some_iff.mp hb
    obtain ⟨first, second, hc⟩ := h.promises caller (some n) (Option.join_eq_some_iff.mp hj)
    obtain ⟨before, after, hlog⟩ := List.append_of_mem hc
    obtain ⟨t, hstarted, -⟩ := ((h.shares _ _ _ hlog).2 n).mp rfl
    constructor
    · exact h.caches.concat (by simp [Quiet, IsFlush])
    · intro caller promise hp
      obtain ⟨first, second, hc⟩ := h.promises caller promise hp
      exact ⟨first, second, by simp [hc]⟩
    · intro m tvl
      simpa using h.resolved m tvl
    · exact eachEntry_concat.mpr ⟨h.shares, trivial⟩
    · exact eachEntry_concat.mpr ⟨h.finds, trivial⟩
    · exact eachEntry_concat.mpr ⟨h.alone, trivial⟩
    · exact eachEntry_concat.mpr ⟨h.fresh, n, first, second, before, after, hlog,
        ⟨t, hstarted⟩, (h.resolved n tvl).mpr hst⟩
  · cases hs

theorem step (h : Shared s) {i : TVLCacheInput} (hs : TVLCallers.step config s i = some s') :
    Shared s' := by
  cases i with
  | getCurrentTVL chain elapsed => exact h.getCurrentTVL hs
  | flushCache => exact h.flushCache hs
  | calculate n chain input => exact h.calculate hs
  | receive caller => exact h.receive hs
  | elapse ms =>
    obtain rfl := Option.some.inj hs
    exact ⟨h.caches.elapse (Nat.le_add_right _ _), h.promises, h.resolved, h.shares, h.finds,
      h.alone, h.fresh⟩

theorem run {t : List TVLCacheInput} (h : (tvlCallers config).Run t s) : Shared s :=
  h.invariant shared_initial fun _ _ _ hi hs => hi.step hs

end Shared

end TVLCallers

namespace TVLCacheEvent.Sample

def call : List TVLCacheInput := [.getCurrentTVL Fleet.Sample.emptyChain 0]

def failure : List TVLCacheInput := [.calculate 0 Fleet.Sample.emptyChain .failed]

/-- The n-th calculation from its start to its end. -/
def calculation (n : ℕ) : List TVLCacheInput :=
  [CalculationInput.balance Fleet.Sample.token, .balances, .pendingOrders].map
    (.calculate n Fleet.Sample.emptyChain)

end TVLCacheEvent.Sample

/-! ### What callers receive -/

section Callers

variable {config : TVLBudgetConfig} {t : List TVLCacheInput} {s : TVLCallers}

open TVLCacheEvent

/-- Every value received is that of a calculation started after the last flush that preceded the
call, a calculation is started only when all those started since the last flush have expired, and
every call is given the live calculation unless it expires between its two reads. -/
theorem getCurrentTVL_fresh (h : (tvlCallers config).Run t s) :
    EachEntry ReceivesFresh s.log ∧ EachEntry StartsAlone s.log ∧ EachEntry SharesLive s.log ∧
      ∀ n tvl, .resolved n tvl ∈ s.log →
        TVLCallers.stageOf s.controller n = some (.resolved tvl) := by
  have hshared := TVLCallers.Shared.run h
  exact ⟨hshared.fresh, hshared.alone, hshared.shares, fun n tvl => (hshared.resolved n tvl).mp⟩

/-- A call before a flush and one after it, each with its own calculation. -/
theorem getCurrentTVL_fresh_sample :
    ∃ s, (tvlCallers (Fleet.Sample.config 0 0).toTVLBudgetConfig).Run
      (Sample.call ++ Sample.calculation 0 ++ [.receive 0, .flushCache] ++ Sample.call ++
        Sample.calculation 1 ++ [.receive 1]) s ∧
      EachEntry ReceivesFresh s.log ∧ EachEntry StartsAlone s.log ∧ EachEntry SharesLive s.log ∧
      ∀ n tvl, .resolved n tvl ∈ s.log →
        TVLCallers.stageOf s.controller n = some (.resolved tvl) :=
  Machine.exists_run_and (by decide +kernel) fun _ h => getCurrentTVL_fresh h

/-- Every call starts or shares a calculation that has not failed exactly when, at its first read,
each failed one has been flushed or has expired. -/
theorem failureForgotten_iff (h : (tvlCallers config).Run t s) :
    EachEntry FailureForgotten s.log ↔ EachEntry FailureDropped s.log := by
  have hshared := TVLCallers.Shared.run h
  constructor
  · intro hf pre e post hlog
    cases e with
    | called caller promise first second =>
      intro m u hfailed hstarted
      obtain ⟨n, hn, hnot, -⟩ := hf _ _ _ hlog
      obtain ⟨-, hone⟩ := hshared.finds _ _ _ hlog
      by_contra hle
      -- the failed calculation would be the live one
      obtain rfl := hone n m hn ⟨u, hstarted, by omega⟩
      exact hnot hfailed
    | _ => trivial
  · intro hd pre e post hlog
    cases e with
    | called caller promise first second =>
      obtain ⟨⟨n, hn⟩, hgiven⟩ := hshared.shares _ _ _ hlog
      obtain ⟨hle, hone⟩ := hshared.finds _ _ _ hlog
      refine ⟨n, hn, fun hfailed => ?_, ?_⟩
      · obtain ⟨u, hstarted, hu⟩ := hn
        have hlt := hd _ _ _ hlog n u hfailed hstarted
        omega
      · cases promise with
        | none => exact .inr ⟨rfl, fun hs => by cases (hgiven n).mpr hs⟩
        | some m =>
          have hm : Live pre second m := (hgiven m).mp rfl
          rw [hone n m hn (hm.earlier hle)]
          exact .inl rfl
    | _ => trivial

/-- The calculation fails, the cache is flushed, and the next call starts another one. -/
theorem failureForgotten_iff_flushed :
    ∃ s, (tvlCallers (Fleet.Sample.config 0 0).toTVLBudgetConfig).Run
      (Sample.call ++ Sample.failure ++ [.flushCache] ++ Sample.call) s ∧
      (EachEntry FailureForgotten s.log ↔ EachEntry FailureDropped s.log) :=
  Machine.exists_run_and (by decide +kernel) fun _ h => failureForgotten_iff h

/-- The calculation fails, and a call a second later is given the failed promise. -/
theorem failed_promise_shared :
    ∃ s, (tvlCallers (Fleet.Sample.config 0 0).toTVLBudgetConfig).Run
      (Sample.call ++ Sample.failure ++ [.elapse 1000] ++ Sample.call) s ∧
      ¬ EachEntry FailureForgotten s.log := by
  refine ⟨_, Machine.run_iff_exec.mpr rfl, fun h => ?_⟩
  obtain ⟨n, ⟨t, hstarted, -⟩, hnot, -⟩ :=
    h [.started 0 0, .called 0 (some 0) 0 0, .failed 0] (.called 1 (some 0) 1000 1000) [] rfl
  obtain ⟨rfl, -⟩ : n = 0 ∧ t = 0 := by simpa using mem_of_mem_since hstarted
  exact hnot (by decide)

end Callers

end DlnTaker
