import DlnTaker.Processor.Step
import DlnTaker.Unlocker.Batches

/-! # Announced unlocks

The processor hands the announcements of the feed to its unlocker: `unlockOrder`
for a fulfilled order, `remove` for one whose unlock was sent or claimed. The
machine below runs the two together. `remove` is called with the take chain
while the pool goes by give chains, so an announced unlock may stay in the pool.
-/

namespace DlnTaker

open OrderProcessor Relation

namespace Effect

/-- The call of the unlocker that an effect of the processor is. -/
def call? : Effect → Option UnlockerInput
  | unlockOrder orderId order => some (.unlockOrder orderId order)
  | removeUnlock takeChain orderId => some (.remove takeChain orderId)
  | _ => none

/-- Whether a processed event announces an unlock of the order, or announces it fulfilled. -/
def announced? (id : OrderId) : Effect → Option Bool
  | processing context =>
    if context.orderId = id then
      match context.status with
      | .unlockSent | .unlockClaim => some true
      | .fulfilled | .archivalFulfilled => some false
      | _ => none
    else none
  | _ => none

/-- An effect that neither calls the unlocker nor announces anything. -/
def IsQuiet (e : Effect) : Prop := e.call? = none ∧ ∀ id, e.announced? id = none

end Effect

/-- The unlock of the order was announced, and it was not announced fulfilled since. -/
def AnnouncedUnlock (effects : List Effect) (id : OrderId) : Prop :=
  Journal.latest (Effect.announced? id) effects = some true

instance (effects : List Effect) (id : OrderId) : Decidable (AnnouncedUnlock effects id) := by
  unfold AnnouncedUnlock
  infer_instance

/-- A processor and the unlocker it owns. -/
structure UnlockingProcessor where
  processor : Except Crash OrderProcessor
  batchUnlocker : BatchUnlocker

inductive UnlockingInput
  | processor (i : Input)
  | unlocker (i : UnlockerInput)
  deriving DecidableEq

/-- The inputs of the unlocker that are calls made by the processor. -/
def UnlockerInput.isCall : UnlockerInput → Bool
  | unlockOrder .. | remove .. => true
  | _ => false

def OrderProcessor.logged : Except Crash OrderProcessor → List Effect
  | .ok p => p.effects
  | .error _ => []

/-- A section of the processor, with the calls it makes, or one of the unlocker. An exit or a
crash of either stops both. -/
def unlockingStep (network : Network) (unlocker : Machine BatchUnlocker UnlockerInput)
    (s : UnlockingProcessor) : UnlockingInput → Option UnlockingProcessor
  | .processor i =>
    if s.batchUnlocker.exited then none
    else
      match processorStep network s.processor i with
      | none => none
      | some (.error crash) => some { s with processor := .error crash }
      | some (.ok p) =>
        let effects := p.effects.drop (logged s.processor).length
        (unlocker.exec s.batchUnlocker (effects.filterMap Effect.call?)).map
          fun batchUnlocker => ⟨.ok p, batchUnlocker⟩
  | .unlocker i =>
    match s.processor with
    | .error _ => none
    | .ok _ =>
      if i.isCall then none
      else (unlocker.step s.batchUnlocker i).map
        fun batchUnlocker => { s with batchUnlocker }

/-- The processor of a take chain with its unlocker. -/
def unlocking (network : Network) (unlocker : Machine BatchUnlocker UnlockerInput) :
    Machine UnlockingProcessor UnlockingInput where
  init := ⟨.ok .initial, unlocker.init⟩
  step := unlockingStep network unlocker

section Emitted

/-- What a section of the processor appends to its effects. -/
inductive Emitted : List Effect → Prop
  | nil : Emitted []
  | quiet (es : List Effect) (e : Effect) : Emitted es → e.IsQuiet → Emitted (es ++ [e])
  | processed (es : List Effect) (context : IncomingOrderContext) :
      Emitted es → Emitted (es ++ .processing context :: context.outputs)

variable {network : Network} {p q p' : OrderProcessor} {i : Input} {es es' : List Effect}
  {context : IncomingOrderContext} {id : OrderId} {metadata : CreatedOrderMetadata id}
  {finalization : Finalization}

theorem Emitted.append (h : Emitted es) (h' : Emitted es') : Emitted (es ++ es') := by
  induction h' with
  | nil => simpa using h
  | quiet es' e _ he ih =>
    rw [← List.append_assoc]
    exact .quiet _ e ih he
  | processed es' context _ ih =>
    rw [← List.append_assoc]
    exact .processed _ context ih

theorem Emitted.one {e : Effect} (he : e.IsQuiet) : Emitted [e] := .quiet [] e .nil he

theorem isQuiet_processing (hc : context.status.isCreation = true) :
    (Effect.processing context).IsQuiet := by
  refine ⟨rfl, fun id => ?_⟩
  simp only [Effect.announced?]
  split
  · cases hs : context.status <;> simp_all [OrderInfoStatus.isCreation]
  · rfl

theorem emitted_begun (hc : context.status.isCreation = true) :
    ∃ es, (p.begun context metadata finalization).effects = p.effects ++ es ∧ Emitted es := by
  obtain ⟨last, he, hlast⟩ := @begun_effects p context id metadata finalization
  have hq : last.IsQuiet := by
    rcases hlast with ⟨-, params, rfl, -⟩ | ⟨order, rfl, -, -⟩
    · exact ⟨rfl, fun _ => rfl⟩
    · exact ⟨rfl, fun _ => rfl⟩
  refine ⟨_, he, ?_⟩
  exact (Emitted.quiet [_] (.takeOrder id finalization) (.one (isQuiet_processing hc))
    ⟨rfl, fun _ => rfl⟩).append (.one hq)

theorem emitted_enter (h : Enter network p i q) :
    ∃ es, q.effects = p.effects ++ es ∧ Emitted es := by
  have hreceived : ∀ context, Emitted [.received context] := fun context =>
    .one ⟨rfl, fun _ => rfl⟩
  cases h with
  | park context hl => exact ⟨[.received context], by simp, hreceived context⟩
  | process context hf hc =>
    refine ⟨[.received context] ++ .processing context :: context.outputs, by simp, ?_⟩
    exact (hreceived context).processed _ context
  | begin context metadata finalization hf hc hm hi =>
    obtain ⟨es, he, hes⟩ :=
      @emitted_begun (p.receive context) context context.orderId metadata finalization hc
    refine ⟨[.received context] ++ es, ?_, (hreceived context).append hes⟩
    rw [he, receive_effects, List.append_assoc]
  | parkOrder timer ht metadata hl hm =>
    exact ⟨[], by simp [OrderProcessor.expire], .nil⟩
  | beginOrder timer ht metadata finalization hf hm hi =>
    exact emitted_begun (p := p.expire timer ht) metadata.creation
  | settle take outcome ht he =>
    rcases @ended_effects p network take outcome with hp | ⟨params, hp⟩ | ⟨params, -, hp⟩
    · exact ⟨[], by simpa using hp, .nil⟩
    · exact ⟨_, hp, .one ⟨rfl, fun _ => rfl⟩⟩
    · exact ⟨_, hp, .one ⟨rfl, fun _ => rfl⟩⟩
  | release take ht he => exact ⟨[], by simp [OrderProcessor.released], .nil⟩
  | tick ms => exact ⟨[], by simp, .nil⟩

theorem emitted_round (h : Round p q) : ∃ es, q.effects = p.effects ++ es ∧ Emitted es := by
  cases h with
  | process context events hf he hc =>
    exact ⟨.processing context :: context.outputs, by simp, .processed [] context .nil⟩
  | begin id metadata finalization hf he hq hm hi =>
    exact emitted_begun (p := p.picked id) metadata.creation

theorem emitted_rounds (h : ReflTransGen Round p q) :
    ∃ es, q.effects = p.effects ++ es ∧ Emitted es := by
  induction h with
  | refl => exact ⟨[], by simp, .nil⟩
  | tail _ hround ih =>
    obtain ⟨es, he, hes⟩ := ih
    obtain ⟨es', he', hes'⟩ := emitted_round hround
    exact ⟨es ++ es', by rw [he', he, List.append_assoc], hes.append hes'⟩

theorem emitted_step {s : Except Crash OrderProcessor} (hs : Sound p) (hset : Settled p)
    (h : processorStep network (.ok p) i = some s) :
    ∃ p' es, s = .ok p' ∧ Sound p' ∧ Settled p' ∧ p'.effects = p.effects ++ es ∧ Emitted es := by
  obtain ⟨q, p', rfl, henter, hrounds, hs', hset'⟩ := step_ok hs hset h
  obtain ⟨es, he, hes⟩ := emitted_enter henter
  obtain ⟨es', he', hes'⟩ := emitted_rounds hrounds
  exact ⟨p', es ++ es', rfl, hs', hset', by rw [he', he, List.append_assoc], hes.append hes'⟩

end Emitted

namespace BatchUnlocker

variable {config : UnlockerConfig} {u u' : BatchUnlocker} {i : UnlockerInput} {id : OrderId}
  {c giveChainId : ChainId} {log es : List Effect} {context : IncomingOrderContext}

/-- The data of an order is kept only while the order is in a set. -/
def Backed (u : BatchUnlocker) : Prop :=
  ∀ id, u.ordersDataMap id ≠ none → ∃ c, id ∈ u.pending c

namespace Backed

theorem initial : Backed .initial := fun _ h => absurd rfl h

theorem congr (hb : Backed u) (hp : ∀ c, u'.pending c = u.pending c)
    (hd : u'.ordersDataMap = u.ordersDataMap) : Backed u' := by
  intro id h
  rw [hd] at h
  obtain ⟨c, hin⟩ := hb id h
  exact ⟨c, by rw [hp]; exact hin⟩

theorem remove (hb : Backed u) : Backed (u.remove c id) := by
  cases hk : u.unlockBatchesOrderIdMap.get? c with
  | none =>
    rw [remove_of_none hk]
    exact hb.congr (fun _ => rfl) rfl
  | some orderIds =>
    intro x hx
    rw [remove_ordersDataMap_of_some (by rw [hk]; rfl)] at hx
    have hne : x ≠ id := by
      rintro rfl
      exact hx (Function.update_self ..)
    rw [Function.update_of_ne hne] at hx
    obtain ⟨c', hin⟩ := hb x hx
    refine ⟨c', ?_⟩
    rw [pending_remove]
    split
    · exact InsertionSet.mem_delete.mpr ⟨hne, hin⟩
    · exact hin

theorem pool (hb : Backed u) {order : OrderData} : Backed (u.pool id order) := by
  intro x hx
  by_cases hxid : x = id
  · refine ⟨order.give.chainId, ?_⟩
    rw [pending_pool, if_pos rfl, hxid]
    exact InsertionSet.mem_add.mpr (.inl rfl)
  · rw [pool_ordersDataMap, Function.update_of_ne hxid] at hx
    obtain ⟨c, hin⟩ := hb x hx
    refine ⟨c, ?_⟩
    rw [pending_pool]
    split
    · exact InsertionSet.mem_add.mpr (.inr hin)
    · exact hin

theorem cleanUp (hb : Backed u) {batch : BatchUnlock} {unlockedOrders : List OrderId} :
    Backed (u.cleanUp config 0 batch unlockedOrders) := by
  intro x hx
  have hnot : x ∉ unlockedOrders := fun hm => hx (if_pos hm)
  have hd : (u.cleanUp config 0 batch unlockedOrders).ordersDataMap x = u.ordersDataMap x :=
    if_neg hnot
  rw [hd] at hx
  obtain ⟨c, hin⟩ := hb x hx
  refine ⟨c, ?_⟩
  rw [pending_cleanUp]
  split
  · exact InsertionSet.mem_deleteAll.mpr ⟨hnot, hin⟩
  · exact hin

theorem try_ (hb : Backed u) (h : Try config u giveChainId u') : Backed u' := by
  cases h with
  | refused => exact hb
  | started => exact hb.congr (fun _ => rfl) rfl

theorem change (hb : Backed u) (h : Change config u i u') : Backed u' := by
  cases h with
  | remove takeChain orderId => exact hb.remove
  | tryUnlock giveChainId _ ht => exact hb.try_ ht
  | added n call orderState _ hn hu ht =>
    have hb' : Backed { u with calls := u.calls.eraseIdx n } := hb.congr (fun _ => rfl) rfl
    exact hb'.pool.try_ ht
  | sent batch orderIds unlockedOrders answer hbatch hstage =>
    cases answer <;> exact hb.congr (fun _ => rfl) rfl
  | cleanedUp batch unlockedOrders hbatch hstage => exact hb.cleanUp
  | _ => exact hb.congr (fun _ => rfl) rfl

end Backed

/-- An order comes into the pool when an answer shows that it is to be unlocked. -/
theorem enters_of_change (h : Change config u i u') (hout : id ∉ u.pending c)
    (hin : id ∈ u'.pending c) : ∃ n call orderState, i = .orderState n (.ok orderState) ∧
      u.calls[n]? = some call ∧ isUnlockable config orderState = true ∧ call.orderId = id := by
  cases h with
  | remove takeChain orderId =>
    rw [pending_remove] at hin
    split at hin
    · exact absurd (InsertionSet.mem_delete.mp hin).2 hout
    · exact absurd hin hout
  | tryUnlock giveChainId _ ht => cases ht <;> exact absurd hin hout
  | added n call orderState _ hn hu ht =>
    refine ⟨n, call, orderState, rfl, hn, hu, ?_⟩
    have hin' : id ∈ (BatchUnlocker.pool { u with calls := u.calls.eraseIdx n }
        call.orderId call.order).pending c := by
      cases ht <;> exact hin
    rw [pending_pool] at hin'
    split at hin'
    · exact ((InsertionSet.mem_add.mp hin').resolve_right hout).symm
    · exact absurd hin' hout
  | sent batch orderIds unlockedOrders answer hbatch hstage =>
    cases answer <;> exact absurd hin hout
  | cleanedUp batch unlockedOrders hbatch hstage =>
    rw [pending_cleanUp] at hin
    split at hin
    · exact absurd (InsertionSet.mem_deleteAll.mp hin).2 hout
    · exact absurd hin hout
  | _ => exact absurd hin hout

/-- A call of `remove` is made for an order that is in no set but that of the chain it names. -/
def Removable (u : BatchUnlocker) : UnlockerInput → Prop
  | .remove takeChain orderId => u.OnlyIn takeChain orderId
  | _ => True

instance (u : BatchUnlocker) : DecidablePred (Removable u)
  | .remove takeChain orderId => inferInstanceAs (Decidable (u.OnlyIn takeChain orderId))
  | .unlockOrder .. | .tryUnlock _ | .orderState .. | .lookup .. | .sender .. | .resume _ =>
    inferInstanceAs (Decidable True)

/-- No order whose unlock was announced is in a set. -/
def Cleared (log : List Effect) (u : BatchUnlocker) : Prop :=
  ∀ id, AnnouncedUnlock log id → ∀ c, id ∉ u.pending c

theorem Cleared.of_subset (hc : Cleared log u) {log' : List Effect}
    (ha : ∀ id, AnnouncedUnlock log' id → AnnouncedUnlock log id)
    (hp : ∀ id c, id ∈ u'.pending c → id ∈ u.pending c) : Cleared log' u' :=
  fun id h c hin => hc id (ha id h) c (hp id c hin)

theorem not_mem_of_remove (h : u.OnlyIn c id) {c' : ChainId} : id ∉ (u.remove c id).pending c' := by
  intro hin
  rw [pending_remove] at hin
  split at hin
  · exact (InsertionSet.mem_delete.mp hin).1 rfl
  · rename_i hne
    exact not_mem_of_onlyIn h hne hin

end BatchUnlocker

section Cleared

open BatchUnlocker

variable {config : UnlockerConfig} {u u' : BatchUnlocker} {id : OrderId} {log es : List Effect}
  {context : IncomingOrderContext}

/-- The pool of the unlocker, and the calls that come from the processor. -/
def removing (config : UnlockerConfig) : Machine BatchUnlocker UnlockerInput :=
  (unlocker config).guard Removable

theorem announcedUnlock_quiet {e : Effect} (he : e.IsQuiet) :
    AnnouncedUnlock (log ++ [e]) id ↔ AnnouncedUnlock log id := by
  rw [AnnouncedUnlock, Journal.latest_concat, he.2 id]
  rfl

/-- What an event announces is known once it is processed, not by the calls it makes. -/
theorem announcedUnlock_processed :
    AnnouncedUnlock (log ++ .processing context :: context.outputs) id ↔
      AnnouncedUnlock (log ++ [.processing context]) id := by
  have hout : ∀ e ∈ context.outputs, Effect.announced? id e = none := by
    intro e he
    have hi := isOutput_of_mem_outputs he
    cases e <;> first | rfl | cases hi
  rw [AnnouncedUnlock, List.append_cons, Journal.latest_append_of_none hout]
  rfl

/-- A call of the processor has the effect of one function of the unlocker. -/
theorem step_call {i : UnlockerInput} (hi : i.isCall = true)
    (h : (removing config).step u i = some u') :
    (∃ orderId order, i = .unlockOrder orderId order ∧
        u' = { u with calls := u.calls ++ [⟨orderId, order⟩] }) ∨
      ∃ takeChain orderId, i = .remove takeChain orderId ∧ u.OnlyIn takeChain orderId ∧
        u' = u.remove takeChain orderId := by
  obtain ⟨hc, hstep⟩ := Machine.guard_step.mp h
  change unlockerStep config u i = some u' at hstep
  unfold unlockerStep at hstep
  split at hstep
  · cases hstep
  cases i with
  | unlockOrder orderId order =>
    left
    exact ⟨orderId, order, rfl, (Option.some.inj hstep).symm⟩
  | remove takeChain orderId =>
    right
    exact ⟨takeChain, orderId, rfl, hc, (Option.some.inj hstep).symm⟩
  | _ => cases hi

/-- A call of `unlockOrder` is made for an order that is announced fulfilled. -/
theorem not_mem_called {c : ChainId} {known : Option Bool}
    (hold : Effect.announced? id (.processing context) = none → id ∉ u.pending c)
    (hs : context.status = .archivalFulfilled ∨ context.status = .fulfilled)
    (ha : (Effect.announced? id (.processing context)).or known = some true)
    (h : (removing config).step u
      (.unlockOrder context.orderId context.orderInfo.order) = some u') : id ∉ u'.pending c := by
  rcases step_call rfl h with ⟨_, _, _, rfl⟩ | ⟨_, _, hi, -, -⟩
  · refine hold (if_neg ?_)
    rintro rfl
    rcases hs with hs | hs <;> simp [Effect.announced?, hs] at ha
  · cases hi

/-- A call of `remove` takes its order out of the pool, and no other. -/
theorem not_mem_removed {c : ChainId}
    (hold : Effect.announced? id (.processing context) = none → id ∉ u.pending c)
    (h : (removing config).step u (.remove context.takeChain context.orderId) = some u') :
    id ∉ u'.pending c := by
  rcases step_call rfl h with ⟨_, _, hi, -⟩ | ⟨takeChain, orderId, hi, honly, rfl⟩
  · cases hi
  obtain ⟨rfl, rfl⟩ := UnlockerInput.remove.inj hi
  by_cases hid : context.orderId = id
  · rw [← hid]
    exact not_mem_of_remove honly
  · intro hin
    refine hold (if_neg hid) ?_
    rw [pending_remove] at hin
    split at hin
    · exact (InsertionSet.mem_delete.mp hin).2
    · exact hin

theorem filterMap_call?_outputs : context.outputs.filterMap Effect.call? =
    match context.status with
    | .archivalFulfilled | .fulfilled => [.unlockOrder context.orderId context.orderInfo.order]
    | .unlockSent | .unlockClaim => [.remove context.takeChain context.orderId]
    | _ => [] := by
  unfold IncomingOrderContext.outputs
  cases context.status <;> rfl

/-- The calls an event makes leave the pool cleared. -/
theorem cleared_processed (hc : Cleared log u)
    (h : (removing config).exec u (context.outputs.filterMap Effect.call?) = some u') :
    Cleared (log ++ .processing context :: context.outputs) u' := by
  intro id ha c
  rw [announcedUnlock_processed, AnnouncedUnlock, Journal.latest_concat] at ha
  have hold : Effect.announced? id (.processing context) = none → id ∉ u.pending c := by
    intro hn
    rw [hn] at ha
    exact hc id ha c
  rw [filterMap_call?_outputs] at h
  split at h <;> (try rw [Machine.exec_singleton] at h)
  case h_1 hs => exact not_mem_called hold (.inl hs) ha h
  case h_2 hs => exact not_mem_called hold (.inr hs) ha h
  case h_3 hs => exact not_mem_removed hold h
  case h_4 hs => exact not_mem_removed hold h
  case h_5 h₁ h₂ h₃ h₄ =>
    obtain rfl := Option.some.inj h
    refine hold ?_
    cases hs : context.status <;> simp_all [Effect.announced?]

theorem cleared_emitted (hes : Emitted es) (hc : Cleared log u)
    (h : (removing config).exec u (es.filterMap Effect.call?) = some u') :
    Cleared (log ++ es) u' := by
  induction hes generalizing u' with
  | nil =>
    obtain rfl := Option.some.inj h
    rw [List.append_nil]
    exact hc
  | quiet es e _ he ih =>
    have hnone : [e].filterMap Effect.call? = [] := by simp [he.1]
    rw [List.filterMap_append, hnone, List.append_nil] at h
    rw [← List.append_assoc]
    exact (ih h).of_subset (fun id => (announcedUnlock_quiet he).mp) fun id c hin => hin
  | processed es context _ ih =>
    rw [List.filterMap_append, Machine.exec_append] at h
    obtain ⟨v, hv, h⟩ := Option.bind_eq_some_iff.mp h
    rw [← List.append_assoc]
    exact cleared_processed (ih hv) h

end Cleared

section Run

open BatchUnlocker

variable {config : UnlockerConfig} {network : Network} {t : List UnlockingInput}
  {s s' : UnlockingProcessor} {p p' : OrderProcessor} {u u' : BatchUnlocker} {i : UnlockerInput}
  {j : UnlockingInput} {id : OrderId}

/-- No order comes into the pool after its unlock was announced. -/
def Timely (config : UnlockerConfig) (s : UnlockingProcessor) : UnlockingInput → Prop
  | .unlocker (.orderState n (.ok orderState)) => isUnlockable config orderState = true →
      ∀ call ∈ s.batchUnlocker.calls[n]?, ¬ AnnouncedUnlock (logged s.processor) call.orderId
  | _ => True

instance (s : UnlockingProcessor) (j : UnlockingInput) : Decidable (Timely config s j) := by
  unfold Timely
  split <;> infer_instance

/-- Holds in every state of a run in which the calls of `remove` and the answers meet their
conditions. -/
structure Consistent (config : UnlockerConfig) (p : OrderProcessor) (u : BatchUnlocker) : Prop where
  processor : DlnTaker.Sound p ∧ Settled p
  unlocker : BatchUnlocker.Sound config u ∧ Backed u
  cleared : Cleared p.effects u

theorem sound_of_removing (hs : BatchUnlocker.Sound config u ∧ Backed u)
    (h : (removing config).step u i = some u') :
    BatchUnlocker.Sound config u' ∧ Backed u' := by
  have hchange := (change_of_step hs.1.single (Machine.guard_step.mp h).2).2
  exact ⟨hs.1.change hchange, hs.2.change hchange⟩

namespace Consistent

theorem initial : Consistent config .initial .initial where
  processor := ⟨.initial, .initial⟩
  unlocker := ⟨.initial, .initial⟩
  cleared id h := by cases h

theorem processor_step (hc : Consistent config p u) {i : Input} {r : Except Crash OrderProcessor}
    (h : processorStep network (.ok p) i = some r) :
    ∃ p', r = .ok p' ∧ ∀ u', (removing config).exec u
      ((p'.effects.drop p.effects.length).filterMap Effect.call?) = some u' →
        Consistent config p' u' := by
  obtain ⟨p', es, rfl, hs, hset, he, hes⟩ := emitted_step hc.processor.1 hc.processor.2 h
  refine ⟨p', rfl, fun u' hu => ?_⟩
  rw [he, List.drop_left] at hu
  refine ⟨⟨hs, hset⟩, ?_, ?_⟩
  · exact Machine.exec_invariant (P := fun u => BatchUnlocker.Sound config u ∧ Backed u) hu
      hc.unlocker fun _ _ _ => sound_of_removing
  · rw [he]
    exact cleared_emitted hes hc.cleared hu

theorem unlocker_step (hc : Consistent config p u)
    (ht : Timely config ⟨.ok p, u⟩ (.unlocker i)) (h : (removing config).step u i = some u')
    (hcall : i.isCall = false) : Consistent config p u' := by
  refine ⟨hc.processor, sound_of_removing hc.unlocker h, fun id ha c hin => ?_⟩
  have hchange := (change_of_step hc.unlocker.1.single (Machine.guard_step.mp h).2).2
  obtain ⟨n, call, orderState, rfl, hn, hu, rfl⟩ :=
    enters_of_change hchange (hc.cleared id ha c) hin
  exact ht hu call hn ha

end Consistent

theorem Consistent.step (hc : Consistent config p u) (ht : Timely config ⟨.ok p, u⟩ j)
    (h : (unlocking network (removing config)).step ⟨.ok p, u⟩ j = some s') :
    ∃ p', s'.processor = .ok p' ∧ Consistent config p' s'.batchUnlocker := by
  change unlockingStep network (removing config) ⟨.ok p, u⟩ j = some s' at h
  cases j with
  | processor i =>
    simp only [unlockingStep] at h
    split at h
    · cases h
    split at h
    · cases h
    · rename_i crash hr
      obtain ⟨p', he, -⟩ := hc.processor_step hr
      cases he
    · rename_i p' hr
      obtain ⟨u', hu, rfl⟩ := Option.map_eq_some_iff.mp h
      obtain ⟨q, he, hnext⟩ := hc.processor_step hr
      obtain rfl := Except.ok.inj he
      exact ⟨p', rfl, hnext u' hu⟩
  | unlocker i =>
    simp only [unlockingStep] at h
    split at h
    · cases h
    · rename_i hcall
      obtain ⟨u', hu, rfl⟩ := Option.map_eq_some_iff.mp h
      exact ⟨p, rfl, hc.unlocker_step ht hu (by simpa using hcall)⟩

theorem consistent_of_run
    (h : ((unlocking network (removing config)).guard (Timely config)).Run t s) :
    ∃ p, s.processor = .ok p ∧ Consistent config p s.batchUnlocker := by
  refine h.guarded_invariant (P := fun s => ∃ p, s.processor = .ok p ∧
    Consistent config p s.batchUnlocker) ⟨.initial, rfl, .initial⟩ ?_
  rintro ⟨_, u⟩ j s' ⟨p, rfl, hc⟩ ht hstep
  exact hc.step ht hstep

/-- Once an unlock of an order was announced, and until the order is announced fulfilled again, it
is in no set of the pool, and its data is not kept. -/
theorem announced_unlocks_leave
    (h : ((unlocking network (removing config)).guard (Timely config)).Run t s)
    (hp : s.processor = .ok p) (ha : AnnouncedUnlock p.effects id) :
    (∀ c, id ∉ s.batchUnlocker.pending c) ∧ s.batchUnlocker.ordersDataMap id = none := by
  obtain ⟨q, hq, hc⟩ := consistent_of_run h
  obtain rfl := Except.ok.inj (hp.symm.trans hq)
  have hout := hc.cleared id ha
  refine ⟨hout, ?_⟩
  by_contra hd
  obtain ⟨c, hin⟩ := hc.unlocker.2 id hd
  exact hout c hin

namespace Sample

/-- The order of chain 1 was fulfilled, or its unlock was sent, on chain 2. -/
def announce (status : OrderInfoStatus) (h : status ≠ .created) : UnlockingInput :=
  .processor (.event ⟨⟨"0xa", status, order, none, fun hs => absurd hs h⟩, 1, 2⟩)

/-- The order is fulfilled and comes into the pool. -/
def pooled : List UnlockingInput :=
  [announce .fulfilled (by decide), .unlocker (.orderState 0 (.ok BatchUnlocker.Sample.ours))]

/-- Its batch is sent, and then its unlock is announced. -/
def unlockedOrder : List UnlockingInput :=
  pooled ++ (BatchUnlocker.Sample.sentAs (.ok "0x1")).map .unlocker ++
    [announce .unlockSent (by decide)]

/-- The unlock of a pooled order is announced. -/
def unlockedElsewhere : List UnlockingInput := pooled ++ [announce .unlockSent (by decide)]

end Sample

theorem announced_unlocks_leave_sent : ∃ s p,
    ((unlocking Sample.network (removing BatchUnlocker.Sample.single)).guard
      (Timely BatchUnlocker.Sample.single)).Run Sample.unlockedOrder s ∧
    s.processor = .ok p ∧ AnnouncedUnlock p.effects "0xa" ∧
    (∀ c, "0xa" ∉ s.batchUnlocker.pending c) ∧ s.batchUnlocker.ordersDataMap "0xa" = none := by
  obtain ⟨s, hr, hp⟩ := Machine.exists_run_of_any
    (M := (unlocking Sample.network (removing BatchUnlocker.Sample.single)).guard
      (Timely BatchUnlocker.Sample.single)) (t := Sample.unlockedOrder)
    (p := fun s : UnlockingProcessor => decide (s.processor.toOption.any
      fun p : OrderProcessor => decide (AnnouncedUnlock p.effects "0xa"))) (by decide +kernel)
  obtain ⟨p, hp, ha⟩ := Option.any_eq_true _ _ |>.mp (of_decide_eq_true hp)
  have hok : s.processor = .ok p := by
    cases hs : s.processor <;> simp_all [Except.toOption]
  exact ⟨s, p, hr, hok, of_decide_eq_true ha, announced_unlocks_leave hr hok (of_decide_eq_true ha)⟩

/-- The unlock of a pooled order is announced, and the order stays in the pool with its data. -/
theorem announced_unlock_stays : ∃ s p,
    (unlocking Sample.network (unlocker BatchUnlocker.Sample.pairs)).Run
      Sample.unlockedElsewhere s ∧
    s.processor = .ok p ∧ AnnouncedUnlock p.effects "0xa" ∧
    "0xa" ∈ s.batchUnlocker.pending 1 ∧
    s.batchUnlocker.ordersDataMap "0xa" = some Sample.order := by
  obtain ⟨s, hr, hp⟩ := Machine.exists_run_of_any
    (M := unlocking Sample.network (unlocker BatchUnlocker.Sample.pairs))
    (t := Sample.unlockedElsewhere) (p := fun s : UnlockingProcessor =>
      decide ("0xa" ∈ s.batchUnlocker.pending 1 ∧
        s.batchUnlocker.ordersDataMap "0xa" = some Sample.order) && s.processor.toOption.any
          fun p : OrderProcessor => decide (AnnouncedUnlock p.effects "0xa")) (by decide +kernel)
  obtain ⟨hpool, hp⟩ := Bool.and_eq_true _ _ |>.mp hp
  obtain ⟨p, hp, ha⟩ := Option.any_eq_true _ _ |>.mp hp
  have hok : s.processor = .ok p := by
    cases hs : s.processor <;> simp_all [Except.toOption]
  exact ⟨s, p, hr, hok, of_decide_eq_true ha, of_decide_eq_true hpool⟩

end Run

end DlnTaker
