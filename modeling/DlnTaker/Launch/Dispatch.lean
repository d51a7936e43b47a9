import DlnTaker.Library.Family
import DlnTaker.Launch.Inheritance
import DlnTaker.Unlocker.Announcements

/-! # The dispatch of orders to the chains

The executor hands an event to the processor of its take chain if both chains of
its order are configured, and drops it otherwise. The processors run side by
side, each with its unlocker, until one of them ends the process: the history of
a chain is a run of its own on the events dispatched to it, and its takes are of
its own orders, one at a time.
-/

namespace DlnTaker

open OrderProcessor Machine

/-! ### What a processor keeps of its events -/

section Kept

/-- The chains of the event and its order. -/
def IncomingOrderContext.Routed (A : OrderData → ChainId → ChainId → Prop)
    (context : IncomingOrderContext) : Prop :=
  A context.orderInfo.order context.giveChain context.takeChain

def Effect.Routed (A : OrderData → ChainId → ChainId → Prop) : Effect → Prop
  | take order => A order.orderData order.giveChain order.takeChain
  | unlockOrder _ order => ∃ giveChain takeChain, A order giveChain takeChain
  | _ => True

/-- What holds of the orders of all events holds of the orders that are stored or handed out. -/
structure AllRouted (A : OrderData → ChainId → ChainId → Prop) (p : OrderProcessor) : Prop where
  stored : ∀ id metadata, p.createdOrdersMetadata id = some metadata → metadata.context.Routed A
  events : ∀ context ∈ p.eventsQueue, context.Routed A
  takes : ∀ take ∈ p.takes, take.metadata.context.Routed A
  effects : ∀ e ∈ p.effects, e.Routed A

variable {A : OrderData → ChainId → ChainId → Prop} {network : Network} {t : List Input}
  {s : Except Crash OrderProcessor} {p p' : OrderProcessor} {i : Input}
  {context : IncomingOrderContext} {id : OrderId} {metadata : CreatedOrderMetadata id}
  {finalization : Finalization} {take : PendingTake} {outcome : TakeOutcome}

namespace AllRouted

theorem initial : AllRouted A .initial where
  stored _ _ h := nomatch h
  events := by simp [OrderProcessor.initial]
  takes := by simp [OrderProcessor.initial]
  effects := by simp [OrderProcessor.initial]

theorem receive (h : AllRouted A p) (hc : context.Routed A) : AllRouted A (p.receive context) where
  stored id metadata hm := by
    by_cases hid : id = context.orderId
    · subst hid
      simp only [OrderProcessor.receive, trackCreation] at hm
      split at hm
      · split at hm
        · simp only [setMetadata, Function.update_self, Option.some.injEq] at hm
          rw [← hm]
          exact hc
        · rename_i known hknown
          split at hm
          · simp only [setMetadata, Function.update_self, Option.some.injEq] at hm
            rw [← hm]
            exact h.stored _ known hknown
          · exact h.stored _ _ hm
      · exact h.stored _ _ hm
    · refine h.stored id metadata ?_
      simp only [OrderProcessor.receive, trackCreation] at hm
      repeat' split at hm
      all_goals simpa [setMetadata, hid, emit] using hm
  events := by simpa using h.events
  takes := by simpa using h.takes
  effects e he := by
    rw [receive_effects, List.mem_append, List.mem_singleton] at he
    rcases he with he | rfl
    · exact h.effects e he
    · trivial

theorem park (h : AllRouted A p) (hc : context.Routed A) : AllRouted A (p.park context) where
  stored := by simpa using h.stored
  events c hm := by
    rw [park_eventsQueue] at hm
    split at hm
    · exact h.events c hm
    · rcases List.mem_append.mp hm with hm | hm
      · exact h.events c hm
      · rw [List.mem_singleton.mp hm]
        exact hc
  takes := by simpa using h.takes
  effects := by simpa using h.effects

theorem processed (h : AllRouted A p) (hc : context.Routed A) :
    AllRouted A (p.processed context) where
  stored id metadata hm := by
    rw [processed_createdOrdersMetadata] at hm
    split at hm
    · cases hm
    · exact h.stored id metadata hm
  events := by simpa using h.events
  takes := by simpa using h.takes
  effects e he := by
    rw [processed_effects, List.mem_append, List.mem_cons] at he
    rcases he with he | rfl | he
    · exact h.effects e he
    · trivial
    · have hout := isOutput_of_mem_outputs he
      cases e with
      | unlockOrder orderId order =>
        refine ⟨context.giveChain, context.takeChain, ?_⟩
        unfold IncomingOrderContext.outputs at he
        split at he <;> simp at he
        all_goals
          obtain ⟨-, rfl⟩ := he
          exact hc
      | take order => cases hout
      | _ => trivial

theorem begun (h : AllRouted A p) (hm : p.createdOrdersMetadata id = some metadata) :
    AllRouted A (p.begun context metadata finalization) where
  stored x known hknown := by
    rw [begun_createdOrdersMetadata] at hknown
    by_cases hx : x = id
    · subst hx
      rw [Function.update_self, Option.some.injEq] at hknown
      rw [← hknown]
      exact h.stored x metadata hm
    · rw [Function.update_of_ne hx] at hknown
      exact h.stored x known hknown
  events := by simpa using h.events
  takes take htake := by
    have hstored := h.stored id metadata hm
    cases finalization <;>
    · rcases List.mem_append.mp htake with htake | htake
      · exact h.takes take htake
      · rw [List.mem_singleton.mp htake]
        exact hstored
  effects e he := by
    have hstored := h.stored id metadata hm
    cases finalization with
    | revoked =>
      simp only [OrderProcessor.begun, startTake, emit, setMetadata, rejectOrder,
        clearInternalQueues, List.append_assoc, List.mem_append, List.mem_singleton] at he
      rcases he with he | rfl | rfl | rfl
      · exact h.effects e he
      all_goals trivial
    | reached finality =>
      simp only [OrderProcessor.begun, startTake, emit, setMetadata, List.append_assoc,
        List.mem_append, List.mem_singleton] at he
      rcases he with he | rfl | rfl | rfl
      · exact h.effects e he
      · trivial
      · trivial
      · exact hstored

theorem ended (h : AllRouted A p) (ht : p.takes = [take]) :
    AllRouted A (p.ended network take outcome) where
  stored := by simpa using h.stored
  events := by simpa using h.events
  takes u hu := by
    rw [ended_takes, List.mem_singleton] at hu
    subst hu
    exact h.takes take (by simp [ht])
  effects e he := by
    rcases @ended_effects p network take outcome with hp | ⟨params, hp⟩ | ⟨params, -, hp⟩
    · exact h.effects e (hp ▸ he)
    all_goals
      rw [hp, List.mem_append, List.mem_singleton] at he
      rcases he with he | rfl
      · exact h.effects e he
      · trivial

theorem enter (h : AllRouted A p) (hi : ∀ context, i = .event context → context.Routed A)
    (he : Enter network p i p') : AllRouted A p' := by
  cases he with
  | park context hl => exact (h.receive (hi context rfl)).park (hi context rfl)
  | process context hf hc => exact (h.receive (hi context rfl)).processed (hi context rfl)
  | begin context metadata finalization hf hc hm => exact (h.receive (hi context rfl)).begun hm
  | parkOrder timer ht metadata hl hm =>
    exact park (p := p.expire timer ht) ⟨h.stored, h.events, h.takes, h.effects⟩
      (h.stored timer.orderId metadata hm)
  | beginOrder timer ht metadata finalization hf hm =>
    exact begun (p := p.expire timer ht) ⟨h.stored, h.events, h.takes, h.effects⟩ hm
  | settle take outcome ht => exact h.ended ht
  | release take ht => exact ⟨h.stored, h.events, by simp [released], h.effects⟩
  | tick ms => exact ⟨h.stored, h.events, h.takes, h.effects⟩

theorem round (h : AllRouted A p) (hr : Round p p') : AllRouted A p' := by
  cases hr with
  | process context events hf he =>
    have hevents : ∀ c ∈ context :: events, c.Routed A := he ▸ h.events
    exact processed (p := { p with eventsQueue := events })
      ⟨h.stored, fun c hm => hevents c (List.mem_cons_of_mem _ hm), h.takes, h.effects⟩
      (hevents context List.mem_cons_self)
  | begin id metadata finalization hf he hq hm =>
    exact begun (p := p.picked id) ⟨h.stored, h.events, h.takes, h.effects⟩ hm

end AllRouted

theorem allRouted_of_run (h : (processor network).Run t s)
    (ha : ∀ context, Input.event context ∈ t → context.Routed A) :
    ∃ p, s = .ok p ∧ Sound p ∧ Settled p ∧ AllRouted A p := by
  obtain ⟨p, rfl, hs, hset, hp⟩ := run_induct
    (J := fun t p => (∀ context, Input.event context ∈ t → context.Routed A) → AllRouted A p)
    (fun _ => .initial)
    (fun t p i p' _ _ _ hj he ha => (hj fun c hc => ha c (List.mem_append_left _ hc)).enter
      (fun c hc => ha c (by simp [hc])) he)
    (fun _ _ _ _ hj hr ha => (hj ha).round hr) h
  exact ⟨p, rfl, hs, hset, hp ha⟩

end Kept

/-! ### The executor -/

/-- The processors of the chains; the end of one of them ends the process. -/
structure RunningExecutor where
  processors : ChainId → UnlockingProcessor
  exited : Bool

/-- An event of the feed, or a section of the processor of a chain or of its unlocker. -/
inductive ExecutorInput
  | order (nextOrderInfo : IncomingOrder)
  | run (chain : ChainId) (i : UnlockingInput)
  deriving DecidableEq

def UnlockingInput.isEvent : UnlockingInput → Bool
  | processor (.event _) => true
  | _ => false

/-- The assertion failed, or an empty batch was handed over. -/
def UnlockingProcessor.halted (s : UnlockingProcessor) : Bool :=
  match s.processor with
  | .error _ => true
  | .ok _ => s.batchUnlocker.exited

section Executor

variable {supportedChain : ChainId → Option SupportedChain} {config : ExecutorLaunchConfig}
  {executor : Executor} {l : LaunchedExecutor}

/-- What the processor of the take chain is handed; nothing if a chain is not configured. -/
def LaunchedExecutor.execute (l : LaunchedExecutor) (nextOrderInfo : IncomingOrder) :
    Option IncomingOrderContext :=
  match l.chains nextOrderInfo.order.take.chainId with
  | none => none
  | some _ =>
    match l.chains nextOrderInfo.order.give.chainId with
    | none => none
    | some _ =>
      some
        { orderInfo := nextOrderInfo
          giveChain := nextOrderInfo.order.give.chainId
          takeChain := nextOrderInfo.order.take.chainId }

/-- The chain that an input is for, and what it is for the processor of the chain. -/
def LaunchedExecutor.route (l : LaunchedExecutor) :
    ExecutorInput → Option (ChainId × UnlockingInput)
  | .order nextOrderInfo => (l.execute nextOrderInfo).map fun context =>
      (context.takeChain, .processor (.event context))
  | .run chain i => some (chain, i)

/-- The processor of a chain and its unlocker. -/
def chainMachine (h : Executor.init supportedChain config executor = .ok l) (chain : ChainId) :
    Machine UnlockingProcessor UnlockingInput :=
  unlocking (l.executor.chains chain).network
    (unlocker (unlockerConfig h chain (l.executor.chains chain).unlockAuthority.bytesAddress))

def executorStep (h : Executor.init supportedChain config executor = .ok l) (s : RunningExecutor)
    (i : ExecutorInput) : Option RunningExecutor :=
  let advance (chain : ChainId) (i : UnlockingInput) :=
    ((chainMachine h chain).step (s.processors chain) i).map fun next =>
      { processors := Function.update s.processors chain next, exited := next.halted }
  if s.exited then none
  else
    match i with
    | .order nextOrderInfo =>
      match l.execute nextOrderInfo with
      | none => some s
      | some context => advance context.takeChain (.processor (.event context))
    | .run chain i =>
      -- an event comes through `execute`, and only a configured chain has a processor
      if i.isEvent ∨ (l.chains chain).isNone then none else advance chain i

def running (h : Executor.init supportedChain config executor = .ok l) :
    Machine RunningExecutor ExecutorInput where
  init := ⟨fun chain => (chainMachine h chain).init, false⟩
  step := executorStep h

/-- The chains of an order that `execute` lets through to a take chain. -/
def LaunchedExecutor.Accepted (l : LaunchedExecutor) (chain : ChainId) (order : OrderData)
    (giveChain takeChain : ChainId) : Prop :=
  takeChain = chain ∧ order.take.chainId = chain ∧ order.give.chainId = giveChain ∧
    (l.chains giveChain).isSome

/-- The processor of a chain stores, queues, takes and hands out orders of its chain only, each from
a configured chain, and takes them one at a time. -/
structure OwnOrders (l : LaunchedExecutor) (chain : ChainId) (p : OrderProcessor) : Prop where
  stored : ∀ id metadata, p.createdOrdersMetadata id = some metadata →
    metadata.context.Routed (l.Accepted chain)
  queued : ∀ context ∈ p.eventsQueue, context.Routed (l.Accepted chain)
  single : p.takes.length ≤ 1
  taking : ∀ take ∈ p.takes, take.metadata.context.Routed (l.Accepted chain)
  handed : ∀ order, Effect.take order ∈ p.effects →
    order.takeChain = chain ∧ order.orderData.take.chainId = chain ∧
    order.orderData.give.chainId = order.giveChain ∧ (l.chains order.giveChain).isSome
  unlocked : ∀ orderId order, Effect.unlockOrder orderId order ∈ p.effects →
    order.take.chainId = chain ∧ (l.chains order.give.chainId).isSome

variable {h : Executor.init supportedChain config executor = .ok l} {t : List ExecutorInput}
  {s s' : RunningExecutor} {i : ExecutorInput} {chain : ChainId} {nextOrderInfo : IncomingOrder}
  {context : IncomingOrderContext} {u : UnlockingProcessor} {ts : List UnlockingInput}
  {A : OrderData → ChainId → ChainId → Prop}

theorem execute_eq_some (he : l.execute nextOrderInfo = some context) :
    context.orderInfo = nextOrderInfo ∧
      context.Routed (l.Accepted context.takeChain) := by
  unfold LaunchedExecutor.execute at he
  split at he
  · cases he
  · split at he
    · cases he
    · rename_i hgive
      obtain rfl := Option.some.inj he
      exact ⟨rfl, rfl, rfl, rfl, by rw [hgive]; rfl⟩

/-- An input of the executor is one of the family of its chains, or nothing at all. -/
theorem executorStep_follows (hs : (running h).step s i = some s') :
    (family (chainMachine h)).exec s.processors (l.route i).toList = some s'.processors := by
  change executorStep h s i = some s' at hs
  unfold executorStep at hs
  simp only at hs
  split at hs
  · cases hs
  cases i with
  | order nextOrderInfo =>
    simp only at hs
    split at hs
    · rename_i hnone
      obtain rfl := Option.some.inj hs
      simp [LaunchedExecutor.route, hnone]
    · rename_i context hsome
      obtain ⟨next, hnext, rfl⟩ := Option.map_eq_some_iff.mp hs
      simp [LaunchedExecutor.route, hsome, family, hnext]
  | run chain i =>
    simp only at hs
    split at hs
    · cases hs
    · obtain ⟨next, hnext, rfl⟩ := Option.map_eq_some_iff.mp hs
      simp [LaunchedExecutor.route, family, hnext]

/-- The history of a chain is a run of its own, on the inputs for the chain. -/
theorem chain_run (hr : (running h).Run t s) (chain : ChainId) :
    (chainMachine h chain).Run (inputsOf chain (t.filterMap l.route)) (s.processors chain) := by
  have hsim := hr.simulated RunningExecutor.processors (fun i => (l.route i).toList) rfl
    fun _ _ _ => executorStep_follows
  rw [← List.filterMap_eq_flatMap_toList] at hsim
  exact hsim.member chain

/-- The processor of a chain alone. -/
theorem processor_run (hr : (chainMachine h chain).Run ts u) :
    (processor (l.executor.chains chain).network).Run
      (ts.flatMap fun | .processor i => [i] | .unlocker _ => []) u.processor := by
  refine hr.simulated (N := processor (l.executor.chains chain).network)
    UnlockingProcessor.processor _ rfl ?_
  intro v i v' hs
  change unlockingStep _ _ v i = some v' at hs
  cases i with
  | processor i =>
    rw [exec_singleton]
    change processorStep _ v.processor i = _
    simp only [unlockingStep] at hs
    split at hs
    · cases hs
    split at hs
    · cases hs
    · rename_i crash hcrash
      obtain rfl := Option.some.inj hs
      exact hcrash
    · rename_i p hp
      obtain ⟨_, -, rfl⟩ := Option.map_eq_some_iff.mp hs
      exact hp
  | unlocker i =>
    simp only [unlockingStep] at hs
    split at hs
    · cases hs
    · split at hs
      · cases hs
      · obtain ⟨_, -, rfl⟩ := Option.map_eq_some_iff.mp hs
        rfl

/-- What a chain is handed was let through to it. -/
theorem exists_order_of_mem (hr : (running h).Run t s)
    (hm : UnlockingInput.processor (.event context) ∈ inputsOf chain (t.filterMap l.route)) :
    context.takeChain = chain ∧
      ∃ nextOrderInfo, .order nextOrderInfo ∈ t ∧ l.execute nextOrderInfo = some context := by
  obtain ⟨i, hi, hroute⟩ := List.mem_filterMap.mp (mem_inputsOf.mp hm)
  cases i with
  | order nextOrderInfo =>
    obtain ⟨context', hexecute, hpair⟩ := Option.map_eq_some_iff.mp hroute
    obtain ⟨rfl, hevent⟩ := Prod.mk.inj hpair
    obtain rfl := Input.event.inj (UnlockingInput.processor.inj hevent)
    exact ⟨rfl, nextOrderInfo, hi, hexecute⟩
  | run chain' i =>
    -- the executor never reads an event this way
    exfalso
    obtain ⟨rfl, rfl⟩ := Prod.mk.inj (Option.some.inj hroute)
    obtain ⟨pre, post, rfl⟩ := List.append_of_mem hi
    rw [run_iff_exec, exec_append] at hr
    obtain ⟨s', -, hr⟩ := Option.bind_eq_some_iff.mp hr
    obtain ⟨s'', hs, -⟩ := Option.bind_eq_some_iff.mp hr
    have hs : executorStep h s' (.run chain' (.processor (.event context))) = some s'' := hs
    simp [executorStep, UnlockingInput.isEvent] at hs

/-- What holds of all orders that are let through to a chain holds of those its processor has. -/
theorem routed_of_run (hr : (running h).Run t s) (chain : ChainId)
    (ha : ∀ nextOrderInfo context, .order nextOrderInfo ∈ t →
      l.execute nextOrderInfo = some context → context.takeChain = chain → context.Routed A) :
    ∃ p, (s.processors chain).processor = .ok p ∧ Sound p ∧ Settled p ∧ AllRouted A p := by
  refine allRouted_of_run (processor_run (chain_run hr chain)) fun context hm => ?_
  obtain ⟨i, hi, hc⟩ := List.mem_flatMap.mp hm
  cases i with
  | processor i =>
    obtain rfl := List.mem_singleton.mp hc
    obtain ⟨htake, nextOrderInfo, hin, hexecute⟩ := exists_order_of_mem hr hi
    exact ha nextOrderInfo context hin hexecute htake
  | unlocker i => cases hc

/-- However the events and the sections of the chains interleave, the history of a chain is a run
of its processor and unlocker on exactly the events dispatched to it, and its processor has orders
of its chain only, from configured chains, and takes them one at a time. -/
theorem orders_dispatched (hr : (running h).Run t s) (chain : ChainId) :
    (chainMachine h chain).Run (inputsOf chain (t.filterMap l.route)) (s.processors chain) ∧
      ∃ p, (s.processors chain).processor = .ok p ∧ OwnOrders l chain p := by
  obtain ⟨p, hp, hs, -, ha⟩ := routed_of_run (A := l.Accepted chain) hr chain (by
    rintro nextOrderInfo context - hexecute rfl
    exact (execute_eq_some hexecute).2)
  have hlength := hs.takes_length
  have hsingle : p.takes.length ≤ 1 := by split at hlength <;> omega
  refine ⟨chain_run hr chain, p, hp, ha.stored, ha.events, hsingle, ha.takes, ?_, ?_⟩
  · intro order hm
    obtain ⟨htake, htakeId, hgive, hconfigured⟩ := ha.effects _ hm
    exact ⟨htake, htakeId, hgive, hconfigured⟩
  · intro orderId order hm
    obtain ⟨giveChain, takeChain, -, htakeId, rfl, hconfigured⟩ := ha.effects _ hm
    exact ⟨htakeId, hconfigured⟩

end Executor

namespace Sample

theorem launches : (launch unbounded).toOption.isSome = true := by decide +kernel

def launched : LaunchedExecutor := (launch unbounded).toOption.get launches

theorem launch_eq : launch unbounded = .ok launched := by
  obtain ⟨l, h⟩ := exists_ok_of_isSome launches
  simp only [launched, h]
  rfl

/-- An order from a chain that is not configured. -/
def foreign : IncomingOrder :=
  ⟨"b", .archivalCreated, orderData ⟨3, [], 100⟩ ⟨2, [], 99⟩, none, by simp⟩

def dispatch : List ExecutorInput :=
  [.order (created "a" (.finalized "")).orderInfo, .order foreign,
    .run 2 (.processor (.settled 0 .success))]

end Sample

theorem orders_dispatched_sample : ∃ s, (running Sample.launch_eq).Run Sample.dispatch s ∧
    ∀ chain, (chainMachine Sample.launch_eq chain).Run
        (inputsOf chain (Sample.dispatch.filterMap Sample.launched.route)) (s.processors chain) ∧
      ∃ p, (s.processors chain).processor = .ok p ∧ OwnOrders Sample.launched chain p := by
  apply exists_run_and
  · decide +kernel
  · intro s hr
    exact orders_dispatched hr

end DlnTaker
