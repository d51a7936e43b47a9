import DlnTaker.Daemon.Linked
import DlnTaker.Taking.Overshoot

/-! # Runs of the daemon

Every step of the daemon is a section of the executor with the orders and the
flushes that it hands to the takers, or a step of the takers of a give chain.
The takers of each give chain are in a state that their own machine reaches, and
the link between the processors and the attempts is never broken.
-/

namespace DlnTaker

open OrderProcessor Taking Machine

section

variable {supportedChain : ChainId → Option SupportedChain} {config : ExecutorLaunchConfig}
  {executor : Executor} {l : LaunchedExecutor}
  {h : Executor.init supportedChain config executor = .ok l} {market : TokenMarket}
  {orderOf : OrderId → OrderData} {e e' : RunningExecutor} {s s' : Daemon}
  {chain giveChain : ChainId} {i : ExecutorInput} {j : UnlockingInput} {order : CreatedOrder}
  {u u' u'' : ChainId → Takers} {P : OrderData → Prop}

/-- What a processor waits for when it goes on with an input of its chain. -/
def UnlockingInput.leaves : UnlockingInput → Option OrderId → Option OrderId
  | processor i, awaited => i.leaves awaited
  | unlocker _, awaited => awaited

/-- The order whose attempt the processor of a chain waits for. -/
def RunningExecutor.awaited (e : RunningExecutor) (chain : ChainId) : Option OrderId :=
  match (e.processors chain).processor with
  | .ok p => p.awaited
  | .error _ => none

/-- An order that passes the check of its id is the one the id stands for. -/
def Toolkit.Identifies (toolkit : Toolkit) (orderOf : OrderId → OrderData) (order : OrderData) :
    Prop :=
  ∀ calculatedId orderId, toolkit.calculateId order = .ok calculatedId →
    toolkit.hexToBuffer calculatedId = toolkit.hexToBuffer orderId → order = orderOf orderId

/-- What the processors wait for when one of them goes on with its input. -/
def RunningExecutor.leaves (e : RunningExecutor) :
    Option (ChainId × UnlockingInput) → ChainId → Option OrderId
  | none => e.awaited
  | some (chain, i) => Function.update e.awaited chain (i.leaves (e.awaited chain))

/-- The executor has been fed with such orders only. -/
def Fed (h : Executor.init supportedChain config executor = .ok l) (P : OrderData → Prop)
    (e : RunningExecutor) : Prop :=
  ∃ t, (∀ nextOrderInfo, .order nextOrderInfo ∈ t → P nextOrderInfo.order) ∧ (running h).Run t e

/-- The orders of the processor of a chain. -/
def LaunchedExecutor.Handed (l : LaunchedExecutor) (P : OrderData → Prop) (chain : ChainId)
    (order : OrderData) (giveChain takeChain : ChainId) : Prop :=
  l.Accepted chain order giveChain takeChain ∧ (l.chains chain).isSome = true ∧ P order

/-- What the takers take. -/
structure LaunchedExecutor.Takes (l : LaunchedExecutor) (P : OrderData → Prop)
    (order : CreatedOrder) : Prop where
  fed : P order.orderData
  takeChain : order.orderData.take.chainId = order.takeChain
  configured : (l.chains order.takeChain).isSome = true

theorem isSome_of_execute {nextOrderInfo : IncomingOrder} {context : IncomingOrderContext}
    (he : l.execute nextOrderInfo = some context) :
    (l.chains context.takeChain).isSome = true := by
  unfold LaunchedExecutor.execute at he
  split at he
  · cases he
  · rename_i htake
    split at he
    · cases he
    · obtain rfl := Option.some.inj he
      change (l.chains nextOrderInfo.order.take.chainId).isSome = true
      rw [htake]
      rfl

namespace Fed

theorem processor (hf : Fed h P e) (chain : ChainId) :
    ∃ p, (e.processors chain).processor = .ok p ∧ Sound p ∧ Settled p ∧
      AllRouted (l.Handed P chain) p := by
  obtain ⟨t, ht, hr⟩ := hf
  refine routed_of_run hr chain ?_
  rintro nextOrderInfo context hin hexecute rfl
  obtain ⟨rfl, haccepted⟩ := execute_eq_some hexecute
  exact ⟨haccepted, isSome_of_execute hexecute, ht _ hin⟩

theorem step (hf : Fed h P e) (hs : (running h).step e i = some e')
    (hi : ∀ nextOrderInfo, i = .order nextOrderInfo → P nextOrderInfo.order) : Fed h P e' := by
  obtain ⟨t, ht, hr⟩ := hf
  refine ⟨t ++ [i], fun nextOrderInfo hm => ?_, hr.snoc hs⟩
  rcases List.mem_append.mp hm with hm | hm
  · exact ht nextOrderInfo hm
  · exact hi nextOrderInfo (List.mem_singleton.mp hm).symm

end Fed

/-- What a section of a chain hands over. -/
theorem hands_of_route (hf : Fed h P e) (hs : (running h).step e i = some e')
    (hf' : Fed h P e') (hr : l.route i = some (chain, j)) :
    ∃ p p', (e.processors chain).processor = .ok p ∧ (e'.processors chain).processor = .ok p' ∧
      AllRouted (l.Handed P chain) p' ∧
      (∃ es, p'.effects = p.effects ++ es ∧ Hands (j.leaves p.awaited) p' es) ∧
      ∀ other, other ≠ chain → e'.processors other = e.processors other := by
  obtain ⟨p, hp, hsound, hset, -⟩ := hf.processor chain
  obtain ⟨p', hp', -, -, hrouted⟩ := hf'.processor chain
  have hstep := executorStep_follows hs
  rw [hr, Option.toList_some, exec_singleton] at hstep
  obtain ⟨next, hnext, hupdate⟩ := Option.map_eq_some_iff.mp hstep
  have hchain : e'.processors chain = next := by rw [← hupdate, Function.update_self]
  refine ⟨p, p', hp, hp', hrouted, ?_, fun other hother => ?_⟩
  · rw [hchain] at hp'
    change unlockingStep _ _ (e.processors chain) j = some next at hnext
    cases j with
    | processor j =>
      simp only [unlockingStep, hp] at hnext
      split at hnext
      · cases hnext
      split at hnext
      · cases hnext
      · obtain rfl := Option.some.inj hnext
        cases hp'
      · rename_i q hq
        obtain ⟨_, -, rfl⟩ := Option.map_eq_some_iff.mp hnext
        obtain rfl := Except.ok.inj hp'
        exact hands_step hsound hset hq
    | unlocker j =>
      simp only [unlockingStep, hp] at hnext
      split at hnext
      · cases hnext
      · obtain ⟨_, -, rfl⟩ := Option.map_eq_some_iff.mp hnext
        obtain rfl : p = p' := Except.ok.inj hp'
        exact ⟨[], by simp, .nothing _ (by simp) rfl⟩
  · rw [← hupdate, Function.update_of_ne hother]

/-! ### The takers side by side -/

/-- The takers go on, each give chain by itself, with such orders only. -/
def Proceed (l : LaunchedExecutor) (market : TokenMarket) (orderOf : OrderId → OrderData)
    (P : OrderData → Prop) (u u' : ChainId → Takers) : Prop :=
  ∃ js, (∀ j ∈ js, ∀ order, j.2 = .take order → l.Takes P order) ∧
    ∀ chains : ChainId → GiveChainState, (family fun giveChain =>
      takers (l.takersConfig market orderOf giveChain) (chains giveChain)).exec u js = some u'

namespace Proceed

theorem refl (u : ChainId → Takers) : Proceed l market orderOf P u u :=
  ⟨[], by simp, fun _ => rfl⟩

theorem trans (h : Proceed l market orderOf P u u') (h' : Proceed l market orderOf P u' u'') :
    Proceed l market orderOf P u u'' := by
  obtain ⟨js, hp, hexec⟩ := h
  obtain ⟨js', hp', hexec'⟩ := h'
  refine ⟨js ++ js', fun j hm => ?_, fun chains => ?_⟩
  · exact (List.mem_append.mp hm).elim (hp j) (hp' j)
  · rw [exec_append, hexec]
    exact hexec' chains

theorem of_step {next : Takers} (i : TakersInput) (hi : ∀ order, i = .take order → l.Takes P order)
    (hs : (u giveChain).step (l.takersConfig market orderOf giveChain) i = some next) :
    Proceed l market orderOf P u (Function.update u giveChain next) := by
  refine ⟨[(giveChain, i)], fun j hm order hj => ?_, fun chains => ?_⟩
  · rw [List.mem_singleton.mp hm] at hj
    exact hi order hj
  · rw [exec_singleton]
    exact Option.map_eq_some_iff.mpr ⟨next, hs, rfl⟩

end Proceed

/-! ### Steps -/

namespace Daemon

/-- The orders that are being attempted, by give chain. -/
def orders (s : Daemon) (giveChain : ChainId) : List CreatedOrder := (s.takers giveChain).orders

/-- The processors and the takers have gone on, and the link between them is not broken. -/
structure Advances (h : Executor.init supportedChain config executor = .ok l)
    (market : TokenMarket) (orderOf : OrderId → OrderData) (P : OrderData → Prop) (s s' : Daemon) :
    Prop where
  fed : Fed h P s'.executor
  linked : Linked s'.executor.awaited s'.orders s'.outcomes
  proceed : Proceed l market orderOf P s.takers s'.takers

theorem orders_setTakers {next : Takers} : (s.setTakers giveChain next).orders =
    Function.update s.orders giveChain next.orders := by
  funext other
  by_cases hother : other = giveChain
  · subst hother
    simp [orders, setTakers]
  · simp [orders, setTakers, hother]

/-- Effects that hand over no order only flush caches. -/
theorem perform_free {es : List Effect} (hes : ∀ e ∈ es, e.handed? = none) :
    ∃ s', es.foldlM (perform l market orderOf) s = some s' ∧ s'.executor = s.executor ∧
      s'.outcomes = s.outcomes ∧ s'.orders = s.orders ∧
      Proceed l market orderOf P s.takers s'.takers := by
  induction es generalizing s with
  | nil => exact ⟨s, rfl, rfl, rfl, rfl, .refl _⟩
  | cons e es ih =>
    have hone : ∃ s₁, perform l market orderOf s e = some s₁ ∧ s₁.executor = s.executor ∧
        s₁.outcomes = s.outcomes ∧ s₁.orders = s.orders ∧
        Proceed l market orderOf P s.takers s₁.takers := by
      have he : e.handed? = none := hes e List.mem_cons_self
      cases e with
      | take order => cases he
      | flushCache chain =>
        refine ⟨_, rfl, rfl, rfl, ?_, ?_⟩
        · rw [orders_setTakers]
          exact Function.update_eq_self chain s.orders
        · exact Proceed.of_step .flushCache (fun _ heq => by cases heq) rfl
      | _ => exact ⟨s, rfl, rfl, rfl, rfl, .refl _⟩
    obtain ⟨s₁, hs₁, hexecutor, houtcomes, horders, hproceed⟩ := hone
    obtain ⟨s', hs', hexecutor', houtcomes', horders', hproceed'⟩ :=
      ih (s := s₁) fun e hm => hes e (List.mem_cons_of_mem _ hm)
    refine ⟨s', ?_, hexecutor'.trans hexecutor, houtcomes'.trans houtcomes,
      horders'.trans horders, hproceed.trans hproceed'⟩
    rw [List.foldlM_cons, hs₁]
    exact hs'

/-- An order is handed to the takers of its give chain, which accept it. -/
theorem perform_take {awaited : ChainId → Option OrderId}
    (hid : ∀ order, P order → l.executor.toolkit.Identifies orderOf order)
    (hl : Linked awaited s.orders s.outcomes) (ha : awaited chain = none)
    (hrouted : (Effect.take order).Routed (l.Handed P chain))
    (hs : perform l market orderOf s (.take order) = some s') :
    s'.executor = s.executor ∧
      Linked (Function.update awaited chain (some order.orderId)) s'.orders s'.outcomes ∧
      Proceed l market orderOf P s.takers s'.takers := by
  obtain ⟨⟨rfl, htakeId, hgive, -⟩, hconfigured, hfed⟩ := hrouted
  obtain ⟨next, hstart, rfl⟩ := Option.map_eq_some_iff.mp hs
  obtain ⟨hnone, houtcome⟩ := hl.not_awaited ha
  refine ⟨rfl, ?_, ?_⟩
  · change Linked _ (s.setTakers order.giveChain next).orders
      (Function.update s.outcomes order.takeChain _)
    rw [orders_setTakers]
    rcases Takers.orders_start hstart with ⟨horders, hend⟩ | ⟨horders, hend⟩
    · obtain ⟨outcome, hend⟩ := Option.isSome_iff_exists.mp hend
      change (s.takers order.giveChain).outcome _ (CreatedOrderTaker.take l.executor order) =
        some outcome at hend
      rw [hend, Option.map_some, horders]
      have hsame : Function.update s.orders order.giveChain
          (s.takers order.giveChain).orders = s.orders := Function.update_eq_self _ _
      rw [hsame]
      exact hl.ended ha
    · change (s.takers order.giveChain).outcome _ (CreatedOrderTaker.take l.executor order) =
        none at hend
      have hsame : Function.update s.outcomes order.takeChain none = s.outcomes := by
        rw [← houtcome, Function.update_eq_self]
      rw [hend, Option.map_none, horders, hsame]
      exact hl.started ha
  · by_cases hmatch : ∃ calculatedId,
        l.executor.toolkit.calculateId order.orderData = .ok calculatedId ∧
        l.executor.toolkit.hexToBuffer calculatedId = l.executor.toolkit.hexToBuffer order.orderId
    · obtain ⟨calculatedId, hcalculated, hsame⟩ := hmatch
      have haccepts : (s.takers order.giveChain).Accepts
          (l.takersConfig market orderOf order.giveChain) order := by
        refine ⟨fun attempt hm => ?_, hid _ hfed _ _ hcalculated hsame, rfl, hgive, htakeId⟩
        exact hnone order.giveChain attempt.order (List.mem_map_of_mem hm)
      have hstep : (s.takers order.giveChain).step
          (l.takersConfig market orderOf order.giveChain) (.take order) = some next :=
        (if_pos haccepts).trans hstart
      refine Proceed.of_step (.take order) (fun other heq => ?_) hstep
      obtain rfl := TakersInput.take.inj heq
      exact ⟨hfed, htakeId, hconfigured⟩
    · -- the attempt is over before it changes anything
      have hsame : (s.takers order.giveChain).start
          (l.takersConfig market orderOf order.giveChain) order = some (s.takers order.giveChain) :=
        (Takers.start_of_malformed fun _ hcalculated heq => hmatch ⟨_, hcalculated, heq⟩).1
      obtain rfl := Option.some.inj (hsame.symm.trans hstart)
      change Proceed _ _ _ _ s.takers (Function.update s.takers _ _)
      rw [Function.update_eq_self]
      exact .refl _

/-- A section of the executor. What its processor waits for is settled before. -/
theorem advance_linked (hid : ∀ order, P order → l.executor.toolkit.Identifies orderOf order)
    (hf : Fed h P s.executor)
    (hi : ∀ nextOrderInfo, i = .order nextOrderInfo → P nextOrderInfo.order)
    (hl : Linked (s.executor.leaves (l.route i)) s.orders s.outcomes)
    (hs : s.advance h market orderOf i = some s') : Advances h market orderOf P s s' := by
  obtain ⟨e', hstep, hs⟩ := Option.bind_eq_some_iff.mp hs
  have hf' : Fed h P e' := hf.step hstep hi
  cases hr : l.route i with
  | none =>
    rw [hr] at hs hl
    obtain rfl := Option.some.inj hs
    refine ⟨hf', ?_, .refl _⟩
    have hsame : e'.processors = s.executor.processors := by
      have hfollows := executorStep_follows hstep
      rw [hr, Option.toList_none, exec_nil] at hfollows
      exact (Option.some.inj hfollows).symm
    have hawaited : e'.awaited = s.executor.awaited := by
      funext chain
      rw [RunningExecutor.awaited, RunningExecutor.awaited, hsame]
    rw [hawaited]
    exact hl
  | some entry =>
    obtain ⟨chain, j⟩ := entry
    rw [hr] at hs hl
    obtain ⟨p, p', hp, hp', hrouted, ⟨es, heffects, hes⟩, hothers⟩ :=
      hands_of_route hf hstep hf' hr
    have hsection : s.effects e' chain = es := by
      rw [effects, hp, hp']
      simp [logged, heffects]
    have hself : s.executor.leaves (some (chain, j)) chain = j.leaves p.awaited := by
      rw [RunningExecutor.leaves, Function.update_self, RunningExecutor.awaited, hp]
    have hawaited : e'.awaited =
        Function.update (s.executor.leaves (some (chain, j))) chain p'.awaited := by
      rw [RunningExecutor.leaves, Function.update_idem]
      funext other
      by_cases hother : other = chain
      · subst hother
        rw [Function.update_self, RunningExecutor.awaited, hp']
      · rw [Function.update_of_ne hother, RunningExecutor.awaited, RunningExecutor.awaited,
          hothers other hother]
    simp only [hsection] at hs
    have hflushes {es : List Effect} (hes : ∀ e ∈ es, e.handed? = none) : ∃ s₁,
        es.foldlM (perform l market orderOf) { s with executor := e' } = some s₁ ∧
        s₁.executor = e' ∧ s₁.outcomes = s.outcomes ∧ s₁.orders = s.orders ∧
        Proceed l market orderOf P s.takers s₁.takers :=
      perform_free hes
    cases hes with
    | nothing _ hfree hsame =>
      obtain ⟨s₁, hs₁, hexecutor, houtcomes, horders, hproceed⟩ := hflushes hfree
      obtain rfl := Option.some.inj (hs₁.symm.trans hs)
      refine ⟨hexecutor ▸ hf', ?_, hproceed⟩
      rw [hexecutor, hawaited, hsame, ← hself, Function.update_eq_self, houtcomes, horders]
      exact hl
    | order pre order hfree hnot hp'' =>
      obtain ⟨s₁, hs₁, hexecutor, houtcomes, horders, hproceed⟩ := hflushes hfree
      rw [List.foldlM_append, hs₁] at hs
      have htake : perform l market orderOf s₁ (.take order) = some s' := by simpa using hs
      have hl₁ : Linked (s.executor.leaves (some (chain, j))) s₁.orders s₁.outcomes := by
        rw [houtcomes, horders]
        exact hl
      obtain ⟨hexecutor', hlinked, hproceed'⟩ := perform_take hid hl₁ (hself.trans hnot)
        (hrouted.effects _ (by simp [heffects])) htake
      have hsame : s'.executor = e' := hexecutor'.trans hexecutor
      refine ⟨hsame ▸ hf', ?_, hproceed.trans hproceed'⟩
      rw [hsame, hawaited, hp'']
      exact hlinked

/-- The takers of a give chain go on. -/
theorem work_linked {awaited : ChainId → Option OrderId} {i : TakersInput}
    (hi : ∀ order, i ≠ .take order) (hl : Linked awaited s.orders s.outcomes)
    (hs : s.work (l := l) market orderOf giveChain i = some s') :
    s'.executor = s.executor ∧ Linked awaited s'.orders s'.outcomes ∧
      Proceed l market orderOf P s.takers s'.takers := by
  obtain ⟨next, hnext, rfl⟩ := Option.map_eq_some_iff.mp hs
  have hproceed : Proceed l market orderOf P s.takers
      (Function.update s.takers giveChain next) :=
    Proceed.of_step i (fun order heq => absurd heq (hi order)) hnext
  rcases Takers.orders_step hi hnext with ⟨hend, horders⟩ |
    ⟨n, order, outcome, hend, hn, horders⟩
  · rw [hend]
    refine ⟨rfl, ?_, hproceed⟩
    change Linked awaited (s.setTakers giveChain next).orders s.outcomes
    rw [orders_setTakers, horders]
    have hsame : Function.update s.orders giveChain (s.takers giveChain).orders = s.orders :=
      Function.update_eq_self _ _
    rw [hsame]
    exact hl
  · rw [hend]
    refine ⟨rfl, ?_, hproceed⟩
    change Linked awaited (s.setTakers giveChain next).orders
      (Function.update s.outcomes order.takeChain (some (order.orderId, outcome)))
    rw [orders_setTakers, horders]
    exact hl.finished hn

theorem step_linked {i : DaemonInput}
    (hid : ∀ order, P order → l.executor.toolkit.Identifies orderOf order) (hf : Fed h P s.executor)
    (hi : ∀ nextOrderInfo, i = .order nextOrderInfo → P nextOrderInfo.order)
    (hl : Linked s.executor.awaited s.orders s.outcomes)
    (hs : Daemon.step h market orderOf s i = some s') :
    Advances h market orderOf P s s' := by
  have hworks {giveChain : ChainId} {i : TakersInput} (hi : ∀ order, i ≠ .take order)
      (hs : (if s.executor.exited then none else s.work (l := l) market orderOf giveChain i) =
        some s') :
      Advances h market orderOf P s s' := by
    obtain ⟨-, hs⟩ := Option.ite_none_left_eq_some.mp hs
    obtain ⟨hexecutor, hlinked, hproceed⟩ := work_linked hi hl hs
    refine ⟨hexecutor ▸ hf, ?_, hproceed⟩
    rw [hexecutor]
    exact hlinked
  cases i with
  | order nextOrderInfo =>
    have hsame : s.executor.leaves (l.route (.order nextOrderInfo)) = s.executor.awaited := by
      rw [LaunchedExecutor.route]
      cases l.execute nextOrderInfo with
      | none => rfl
      | some context => exact Function.update_eq_self _ _
    refine advance_linked hid hf (fun info heq => ?_) (hsame ▸ hl) hs
    obtain rfl := ExecutorInput.order.inj heq
    exact hi _ rfl
  | run chain j =>
    have hother (hj : j.leaves (s.executor.awaited chain) = s.executor.awaited chain)
        (hs : s.advance h market orderOf (.run chain j) = some s') :
        Advances h market orderOf P s s' := by
      have hsame : s.executor.leaves (l.route (.run chain j)) = s.executor.awaited := by
        rw [LaunchedExecutor.route, RunningExecutor.leaves, hj, Function.update_eq_self]
      exact advance_linked hid hf (fun _ heq => by cases heq) (hsame ▸ hl) hs
    cases j with
    | unlocker j => exact hother rfl hs
    | processor j =>
      cases j with
      | settled n outcome =>
        obtain ⟨houtcome, hs⟩ := Option.ite_none_right_eq_some.mp hs
        have hsome : (s.outcomes chain).isSome = true := by
          rw [← Option.isSome_map, houtcome]
          rfl
        suffices hadvances : Advances h market orderOf P (s.setOutcome chain none) s' from
          ⟨hadvances.fed, hadvances.linked, hadvances.proceed⟩
        have hsettled : Linked (s.executor.leaves (l.route
            (.run chain (.processor (.settled n outcome))))) (s.setOutcome chain none).orders
            (s.setOutcome chain none).outcomes := hl.settled hsome
        exact advance_linked hid hf (fun _ heq => by cases heq) hsettled hs
      | _ => exact hother rfl hs
  | taking giveChain j =>
    cases j with
    | take order => cases hs
    | flushCache => cases hs
    | _ => exact hworks (fun _ heq => by cases heq) hs

end Daemon

/-! ### Runs -/

/-- The feed has delivered the order. -/
def Delivered (t : List DaemonInput) (order : OrderData) : Prop :=
  ∃ nextOrderInfo, .order nextOrderInfo ∈ t ∧ nextOrderInfo.order = order

section Runs

variable {chains : ChainId → GiveChainState} {t : List DaemonInput}

/-- The link is never broken, and the takers have a history of their own. -/
theorem exists_takers_run (hr : (daemon h market orderOf chains).Run t s)
    (hid : ∀ order, Delivered t order → l.executor.toolkit.Identifies orderOf order) :
    Linked s.executor.awaited s.orders s.outcomes ∧ ∃ js,
      (∀ j ∈ js, ∀ order, j.2 = .take order → l.Takes (Delivered t) order) ∧
      (family fun giveChain =>
        takers (l.takersConfig market orderOf giveChain) (chains giveChain)).Run js s.takers := by
  obtain ⟨js, u, hjs, hruns, rfl, -, hlinked⟩ := hr.refines
    (N := family fun giveChain =>
      takers (l.takersConfig market orderOf giveChain) (chains giveChain))
    (R := fun s u => s.takers = u ∧ Fed h (Delivered t) s.executor ∧
      Linked s.executor.awaited s.orders s.outcomes)
    (A := fun i => i ∈ t) (B := fun j => ∀ order, j.2 = .take order → l.Takes (Delivered t) order)
    (fun _ hm => hm) ⟨rfl, ⟨[], by simp, .nil⟩, .initial⟩ (by
      rintro s i s' u hi ⟨rfl, hfed, hlinked⟩ hs
      have hadvances : Daemon.Advances h market orderOf (Delivered t) s s' := by
        refine Daemon.step_linked hid hfed ?_ hlinked hs
        rintro nextOrderInfo rfl
        exact ⟨nextOrderInfo, hi, rfl⟩
      obtain ⟨js, hjs, hexec⟩ := hadvances.proceed
      exact ⟨js, s'.takers, hjs, hexec chains, rfl, hadvances.fed, hadvances.linked⟩)
  exact ⟨hlinked, js, hjs, hruns⟩

/-- Every processor of the daemon waits exactly as long as an attempt for its chain is in progress
or the outcome of one is on its way, and there is one of these at most. The takers of a give chain
are in a state that their own machine reaches, on orders that the feed has delivered for configured
chains. -/
theorem daemon_takers (hr : (daemon h market orderOf chains).Run t s)
    (hid : ∀ order, Delivered t order → l.executor.toolkit.Identifies orderOf order) :
    Linked s.executor.awaited s.orders s.outcomes ∧ ∀ giveChain, ∃ js,
      (∀ order, .take order ∈ js → l.Takes (Delivered t) order) ∧
      (takers (l.takersConfig market orderOf giveChain) (chains giveChain)).Run js
        (s.takers giveChain) := by
  obtain ⟨hlinked, js, hjs, hruns⟩ := exists_takers_run hr hid
  refine ⟨hlinked, fun giveChain => ⟨inputsOf giveChain js, fun order hm => ?_,
    hruns.member giveChain⟩⟩
  exact hjs _ (mem_inputsOf.mp hm) order rfl

/-- If the feed delivers orders for the given take chains only, then what is locked in an active
range of a give chain and what is being sent there is together worth at most the cap for each of
these take chains. -/
theorem daemon_overshoot {T : Finset ChainId} {i : ℕ} {metric : Metric}
    (hr : (daemon h market orderOf chains).Run t s)
    (hid : ∀ order, Delivered t order → l.executor.toolkit.Identifies orderOf order)
    (ht : ∀ order, Delivered t order → (l.chains order.take.chainId).isSome = true →
      order.take.chainId ∈ T)
    (hm : (s.takers giveChain).throughput.metrics[i]? = some metric)
    (ha : metric.isActualMetric = true) :
    metric.currentlyLocked + ((s.takers giveChain).attempts.map (Takers.sending
        (l.takersConfig market orderOf giveChain) (metric.toThreshold, i))).sum ≤
      T.card * metric.maxFulfillThroughputUSD := by
  obtain ⟨-, js, hjs, hruns⟩ := exists_takers_run hr hid
  refine throughput_overshoot (hruns.member giveChain) (fun order hin => ?_) hm ha
  have htakes : l.Takes (Delivered t) order := hjs _ (mem_inputsOf.mp hin) order rfl
  rw [← htakes.takeChain]
  apply ht _ htakes.fed
  rw [htakes.takeChain]
  exact htakes.configured

end Runs

end

namespace Daemon.Sample

/-- Orders from chain 1 may be worth 150 dollars at a time. -/
def launchConfig : ExecutorLaunchConfig where
  filters := []
  srcConstraints := ⟨none, none, none⟩
  chains :=
    [Sample.chainDefinition 1 ⟨⟨none, none, none⟩, ⟨none, some 150, some 30⟩, []⟩,
      Sample.chainDefinition 2 ⟨⟨none, none, none⟩, ⟨none, none, none⟩, []⟩,
      Sample.chainDefinition 3 ⟨⟨none, none, none⟩, ⟨none, none, none⟩, []⟩]

def executor : Executor := Takers.Sample.config.executor

/-- The order of an id, which is compared by its bytes. -/
def orderOf (orderId : OrderId) : OrderData :=
  if executor.toolkit.hexToBuffer orderId = executor.toolkit.hexToBuffer "0xa" then
    Takers.Sample.config.orderOf "0xa"
  else Takers.Sample.config.orderOf "0xb"

def launch : Except LaunchError LaunchedExecutor :=
  Executor.init (fun _ => some .ethereum) launchConfig executor

theorem launches : launch.toOption.isSome = true := by decide +kernel

def launched : LaunchedExecutor := launch.toOption.get launches

theorem launch_eq : launch = .ok launched := by
  obtain ⟨l, h⟩ := exists_ok_of_isSome launches
  simp only [launched, h]
  rfl

def machine : Machine Daemon DaemonInput :=
  daemon launch_eq Takers.Sample.config.market orderOf fun _ => Fleet.Sample.emptyChain

def incoming (orderId : OrderId) : IncomingOrder :=
  { (DlnTaker.Sample.archivalCreated orderId).orderInfo with order := orderOf orderId }

/-- Both orders come to the sender, and the processor of chain 2 hears that the first one has been
sent. -/
def bothOrders : List DaemonInput :=
  let inputs := Takers.Sample.answers 0 16 ++ Takers.Sample.answers 1 11 ++
    [TakersInput.send 0, .sent 0 (.ok "0xc")] ++ Takers.Sample.answers 0 2
  [.order (incoming "0xa"), .order (incoming "0xb")] ++ inputs.map (.taking 1) ++
    [.run 2 (.processor (.settled 0 .success))]

theorem delivered {order : OrderData} (h : Delivered bothOrders order) :
    order = orderOf "0xa" ∨ order = orderOf "0xb" := by
  obtain ⟨nextOrderInfo, hm, rfl⟩ := h
  simp only [bothOrders, List.mem_append, List.mem_cons, List.mem_map, List.not_mem_nil,
    reduceCtorEq, and_false, exists_false, or_false, DaemonInput.order.injEq] at hm
  rcases hm with rfl | rfl
  · exact .inl rfl
  · exact .inr rfl

theorem identifies {order : OrderData} (h : Delivered bothOrders order) :
    launched.executor.toolkit.Identifies orderOf order := by
  intro calculatedId orderId hcalculated hsame
  rw [toolkit_of_init launch_eq] at hcalculated hsame
  have hfirst : orderOf "0xa" = Takers.Sample.config.orderOf "0xa" := if_pos rfl
  have hsecond : orderOf "0xb" = Takers.Sample.config.orderOf "0xb" := if_neg (by decide +kernel)
  rcases delivered h with rfl | rfl
  · rw [hfirst] at hcalculated ⊢
    obtain rfl : "0xa" = calculatedId := Except.ok.inj hcalculated
    exact (if_pos hsame.symm).symm
  · rw [hsecond] at hcalculated ⊢
    obtain rfl : "0xb" = calculatedId := Except.ok.inj hcalculated
    exact (if_neg (by rw [← hsame]; decide +kernel)).symm

end Daemon.Sample

theorem daemon_takers_both : ∃ s, Daemon.Sample.machine.Run Daemon.Sample.bothOrders s ∧
    Linked s.executor.awaited s.orders s.outcomes ∧ ∀ giveChain, ∃ js,
      (∀ order, .take order ∈ js →
        Daemon.Sample.launched.Takes (Delivered Daemon.Sample.bothOrders) order) ∧
      (takers (Daemon.Sample.launched.takersConfig Takers.Sample.config.market
          Daemon.Sample.orderOf giveChain) Fleet.Sample.emptyChain).Run js
        (s.takers giveChain) := by
  apply exists_run_and
  · decide +kernel
  · intro s hr
    exact daemon_takers hr fun _ => Daemon.Sample.identifies

/-- One order is recorded while the other one is being sent, which together is over the cap. -/
theorem daemon_overshoot_both : ∃ s metric, Daemon.Sample.machine.Run Daemon.Sample.bothOrders s ∧
    (s.takers 1).throughput.metrics[0]? = some metric ∧
    metric.maxFulfillThroughputUSD < metric.currentlyLocked +
      ((s.takers 1).attempts.map (Takers.sending (Daemon.Sample.launched.takersConfig
        Takers.Sample.config.market Daemon.Sample.orderOf 1) (metric.toThreshold, 0))).sum ∧
    metric.currentlyLocked +
        ((s.takers 1).attempts.map (Takers.sending (Daemon.Sample.launched.takersConfig
          Takers.Sample.config.market Daemon.Sample.orderOf 1) (metric.toThreshold, 0))).sum ≤
      ({2, 3} : Finset ChainId).card * metric.maxFulfillThroughputUSD := by
  obtain ⟨s, hr, hs⟩ := Machine.exists_run_of_any
    (M := Daemon.Sample.machine) (t := Daemon.Sample.bothOrders)
    (p := fun s => (s.takers 1).throughput.metrics[0]?.any fun metric : Metric =>
      decide (metric.isActualMetric = true ∧ metric.maxFulfillThroughputUSD <
        metric.currentlyLocked +
          ((s.takers 1).attempts.map (Takers.sending (Daemon.Sample.launched.takersConfig
            Takers.Sample.config.market Daemon.Sample.orderOf 1) (metric.toThreshold, 0))).sum))
    (by decide +kernel)
  obtain ⟨metric, hm, hmetric⟩ := (Option.any_eq_true _ _).mp hs
  obtain ⟨ha, hlt⟩ := of_decide_eq_true hmetric
  refine ⟨s, metric, hr, hm, hlt,
    daemon_overshoot hr (fun _ => Daemon.Sample.identifies) (fun order hd _ => ?_) hm ha⟩
  rcases Daemon.Sample.delivered hd with rfl | rfl <;> decide +kernel

end DlnTaker
