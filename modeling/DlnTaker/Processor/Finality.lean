import DlnTaker.Library.Journal
import DlnTaker.Processor.Step

/-! # The finalization of a take

What an order is known to have reached is replayed from the log of received
events. A take uses the replayed finalization unless the order became known by
an archival event: then its stored status stays archival, and a take goes on as
finalized whatever the live events said since.
-/

namespace DlnTaker

open OrderProcessor Journal

/-- What the events received since an order became known say: whether the first one was
archival, and the finalization info of the latest live one. -/
inductive Knowledge
  | unknown
  | known (archival : Bool) (live : Option FinalizationInfo)
  deriving DecidableEq, Repr

namespace Knowledge

def learn (context : IncomingOrderContext) : Knowledge → Knowledge
  | unknown =>
    if context.status = .created then known false context.orderInfo.finalizationInfo
    else known true none
  | known archival live =>
    if context.status = .created then known archival context.orderInfo.finalizationInfo
    else known archival live

/-- An order is known from a creation event on, until a terminal event for it is processed. -/
def update (id : OrderId) (knowledge : Knowledge) : Effect → Knowledge
  | .received context =>
    if context.status.isCreation ∧ id = context.orderId then knowledge.learn context
    else knowledge
  | .processing context =>
    if context.status.isTerminal ∧ id = context.orderId then unknown else knowledge
  | _ => knowledge

/-- The finalization due to the latest live event, `'Finalized'` if there was none. -/
def due : Knowledge → Option Finalization
  | unknown => none
  | known _ none => some (.reached .finalized)
  | known _ (some info) => some info.finalization

/-- The finalization the code arrives at. -/
def used : Knowledge → Option Finalization
  | unknown => none
  | known true _ => some (.reached .finalized)
  | known false live => live.map FinalizationInfo.finalization

/-- The latest live event says otherwise, but the order is known from an archival one. -/
def Shadowed : Knowledge → Prop
  | known true (some info) => info.finalization ≠ .reached .finalized
  | _ => False

instance (knowledge : Knowledge) : Decidable knowledge.Shadowed := by
  unfold Shadowed; split <;> infer_instance

end Knowledge

/-- What is known of an order at the end of a log. -/
def knowledge (id : OrderId) (log : List Effect) : Knowledge :=
  log.foldl (Knowledge.update id) .unknown

variable {network : Network} {t : List Input} {s : Except Crash OrderProcessor}
  {p p' : OrderProcessor} {i : Input} {context : IncomingOrderContext} {id x : OrderId}
  {metadata : CreatedOrderMetadata id} {finalization : Finalization} {log : List Effect}
  {k : Knowledge}

section Replay

theorem knowledge_concat {e : Effect} :
    knowledge id (log ++ [e]) = (knowledge id log).update id e := by
  simp [knowledge, List.foldl_append]

theorem knowledge_append {es : List Effect} (h : ∀ e ∈ es, ∀ k, Knowledge.update id k e = k) :
    knowledge id (log ++ es) = knowledge id log := by
  induction es using List.reverseRecOn with
  | nil => rw [List.append_nil]
  | append_singleton es e ih =>
    rw [← List.append_assoc, knowledge_concat, h e (by simp), ih fun e he => h e (by simp [he])]

theorem update_of_isOutput {e : Effect} (h : e.isOutput = true) : k.update id e = k := by
  cases e <;> simp_all [Effect.isOutput, Knowledge.update]

theorem update_processing (hc : context.status.isCreation = true) :
    k.update id (.processing context) = k := by
  have ht : ¬ context.status.isTerminal = true := by
    intro ht
    rw [OrderInfoStatus.not_creation_of_terminal ht] at hc
    cases hc
  simp [Knowledge.update, ht]

theorem knowledge_processed : knowledge x (p.processed context).effects =
    if context.status.isTerminal ∧ x = context.orderId then .unknown
    else knowledge x p.effects := by
  rw [processed_effects, ← List.singleton_append, ← List.append_assoc, knowledge_append,
    knowledge_concat]
  · rfl
  · exact fun e he k => update_of_isOutput (isOutput_of_mem_outputs he)

end Replay

/-- The entry of the store for an order is what the log says of it. -/
inductive Agrees : Option (CreatedOrderMetadata id) → Knowledge → Prop
  | unknown : Agrees none .unknown
  | live (metadata : CreatedOrderMetadata id) : metadata.context.status = .created →
      Agrees (some metadata) (.known false metadata.context.orderInfo.finalizationInfo)
  | archival (metadata : CreatedOrderMetadata id) (live : Option FinalizationInfo) :
      metadata.context.status = .archivalCreated → Agrees (some metadata) (.known true live)

/-- The store agrees with the log on every order. -/
def Replayed (p : OrderProcessor) : Prop :=
  ∀ id, Agrees (p.createdOrdersMetadata id) (knowledge id p.effects)

section Store

theorem getFinalizationInfo_created {info : Option FinalizationInfo} :
    getFinalizationInfo .created info = info.map FinalizationInfo.finalization := by
  rcases info with _ | ⟨_⟩ | ⟨_⟩ | _ <;> rfl

theorem Agrees.used (h : Agrees (some metadata) k) : k.used =
    getFinalizationInfo metadata.context.status metadata.context.orderInfo.finalizationInfo := by
  cases h with
  | live _ hs => rw [hs, getFinalizationInfo_created]; rfl
  | archival _ live hs => rw [hs]; rfl

theorem Agrees.countAttempt (h : Agrees (some metadata) k) :
    Agrees (some metadata.countAttempt) k := by
  cases h with
  | live _ hs => exact .live metadata.countAttempt hs
  | archival _ live hs => exact .archival metadata.countAttempt live hs

/-- An arriving creation event is learnt by the store as by the log. -/
theorem Agrees.trackCreation (h : Agrees (p.createdOrdersMetadata context.orderId) k)
    (hc : context.status.isCreation = true) :
    Agrees ((p.trackCreation context).createdOrdersMetadata context.orderId)
      (k.learn context) := by
  have harchival : context.status ≠ .created → context.status = .archivalCreated := by
    cases hs : context.status <;> simp_all [OrderInfoStatus.isCreation]
  simp only [OrderProcessor.trackCreation, hc, dite_true]
  rcases hm : p.createdOrdersMetadata context.orderId with _ | known
  · rw [hm] at h
    cases h
    simp only [setMetadata, Function.update_self, Knowledge.learn]
    split
    · rename_i hs
      exact .live _ hs
    · rename_i hs
      exact .archival _ none (harchival hs)
  · rw [hm] at h
    by_cases hs : context.status = .created
    · simp only [hs, dite_true, setMetadata, Function.update_self]
      cases h with
      | live _ hk =>
        simp only [Knowledge.learn, hs, if_true]
        exact .live (known.patchFinalization context hs) hk
      | archival _ live hk =>
        simp only [Knowledge.learn, hs, if_true]
        exact .archival (known.patchFinalization context hs) _ hk
    · have hl : k.learn context = k := by cases h <;> simp [Knowledge.learn, hs]
      simp only [hs, dite_false, hm, hl]
      exact h

theorem createdOrdersMetadata_trackCreation_of_ne (hne : id ≠ context.orderId) :
    (p.trackCreation context).createdOrdersMetadata id = p.createdOrdersMetadata id := by
  unfold OrderProcessor.trackCreation; repeat' split
  all_goals simp [setMetadata, hne]

theorem Replayed.receive (h : Replayed p) : Replayed (p.receive context) := by
  intro id
  have hk : knowledge id (p.receive context).effects =
      if context.status.isCreation ∧ id = context.orderId
      then (knowledge id p.effects).learn context else knowledge id p.effects := by
    rw [receive_effects, knowledge_concat]
    rfl
  rw [hk]
  by_cases hid : id = context.orderId
  · subst hid
    by_cases hc : context.status.isCreation = true
    · simp only [hc, and_self, if_true]
      exact Agrees.trackCreation (p := p.emit (.received context)) (h _) hc
    · rw [if_neg (by simp [hc])]
      rw [OrderProcessor.receive, trackCreation_of_other (by simpa using hc)]
      exact h _
  · rw [if_neg (by simp [hid])]
    rw [OrderProcessor.receive, createdOrdersMetadata_trackCreation_of_ne hid]
    exact h id

theorem Replayed.processed (h : Replayed p) : Replayed (p.processed context) := by
  intro id
  rw [knowledge_processed, processed_createdOrdersMetadata]
  split
  · exact .unknown
  · exact h id

theorem Replayed.congr (h : Replayed p) (hm : p'.createdOrdersMetadata = p.createdOrdersMetadata)
    {es : List Effect} (he : p'.effects = p.effects ++ es)
    (hes : ∀ e ∈ es, ∀ id k, Knowledge.update id k e = k) : Replayed p' := by
  intro id
  rw [hm, he, knowledge_append fun e hes' => hes e hes' id]
  exact h id

theorem Replayed.begun (h : Replayed p) (hm : p.createdOrdersMetadata id = some metadata)
    (hc : context.status.isCreation = true) :
    Replayed (p.begun context metadata finalization) := by
  obtain ⟨last, he, hlast⟩ := @begun_effects p context id metadata finalization
  intro x
  have hk : knowledge x (p.begun context metadata finalization).effects =
      knowledge x p.effects := by
    rw [he, knowledge_append]
    intro e hmem k
    simp only [List.mem_cons, List.not_mem_nil, or_false] at hmem
    rcases hmem with rfl | rfl | rfl
    · exact update_processing hc
    · rfl
    · rcases hlast with ⟨_, _, rfl, _⟩ | ⟨_, rfl, _⟩ <;> rfl
  rw [hk, begun_createdOrdersMetadata]
  by_cases hx : x = id
  · subst hx
    rw [Function.update_self]
    exact Agrees.countAttempt (hm ▸ h x)
  · rw [Function.update_of_ne hx]
    exact h x

end Store

section Log

/-- A take uses the finalization the code arrives at, and it is handed to a taker right after
it started. -/
def Reported (pre : List Effect) : Effect → Prop
  | .takeOrder id finalization => (knowledge id pre).used = some finalization
  | .take order => ∃ pre', pre = pre' ++
      [.takeOrder order.orderId (.reached order.finalization)]
  | _ => True

/-- A take uses the finalization due, and no order known as revoked reaches a taker. -/
def NeverStale (pre : List Effect) : Effect → Prop
  | .takeOrder id finalization => (knowledge id pre).due = some finalization
  | .take order => (knowledge order.orderId pre).due ≠ some .revoked
  | _ => True

def NeverShadowed (pre : List Effect) : Effect → Prop
  | .takeOrder id _ => ¬ (knowledge id pre).Shadowed
  | _ => True

theorem due_eq_of_used (hk : ¬ k.Shadowed) (h : k.used = some finalization) :
    k.due = some finalization := by
  rcases k with _ | ⟨_ | _, _ | info⟩
  · simp [Knowledge.used] at h
  · simp [Knowledge.used] at h
  · simpa [Knowledge.used, Knowledge.due] using h
  · simpa [Knowledge.used, Knowledge.due] using h
  · have hi : info.finalization = .reached .finalized := by
      simpa [Knowledge.Shadowed] using hk
    simp only [Knowledge.used, Option.some.injEq] at h
    simp [Knowledge.due, hi, ← h]

theorem due_ne_of_shadowed (hk : k.Shadowed) (h : k.used = some finalization) :
    k.due ≠ some finalization := by
  rcases k with _ | ⟨_ | _, _ | info⟩
  all_goals simp only [Knowledge.Shadowed] at hk
  simp only [Knowledge.used, Option.some.injEq] at h
  simpa [Knowledge.due, ← h] using hk

/-- In a reported log exactly the shadowed takes are stale. -/
theorem neverStale_iff (h : EachEntry Reported log) :
    EachEntry NeverStale log ↔ EachEntry NeverShadowed log := by
  constructor
  · intro hs pre e post hl
    have hr := h pre e post hl
    have hd := hs pre e post hl
    cases e with
    | takeOrder id finalization => exact fun hk => due_ne_of_shadowed hk hr hd
    | _ => trivial
  · intro hs pre e post hl
    have hr := h pre e post hl
    cases e with
    | takeOrder id finalization => exact due_eq_of_used (hs pre _ post hl) hr
    | take order =>
      obtain ⟨pre', rfl⟩ := hr
      -- the entry before this one is the start of the same take
      have hl' : log = pre' ++ .takeOrder order.orderId (.reached order.finalization) ::
          (.take order :: post) := by simpa using hl
      have hd := due_eq_of_used (hs _ _ _ hl') (h _ _ _ hl')
      change (knowledge order.orderId (pre' ++ [_])).due ≠ some .revoked
      rw [knowledge_concat]
      change (knowledge order.orderId pre').due ≠ some .revoked
      simp [hd]
    | _ => trivial

theorem reported_of_isOutput {e : Effect} (h : e.isOutput = true) {pre : List Effect} :
    Reported pre e := by
  cases e <;> simp_all [Effect.isOutput, Reported]

/-- The store and the log of a run. -/
structure Recorded (p : OrderProcessor) : Prop where
  store : Replayed p
  log : EachEntry Reported p.effects

theorem Recorded.receive (h : Recorded p) : Recorded (p.receive context) :=
  ⟨h.store.receive, by rw [receive_effects, eachEntry_concat]; exact ⟨h.log, trivial⟩⟩

theorem Recorded.processed (h : Recorded p) : Recorded (p.processed context) := by
  refine ⟨h.store.processed, ?_⟩
  rw [processed_effects]
  refine h.log.append fun e he pre => ?_
  rcases List.mem_cons.mp he with rfl | he
  · trivial
  · exact reported_of_isOutput (isOutput_of_mem_outputs he)

theorem Recorded.congr (h : Recorded p)
    (hm : p'.createdOrdersMetadata = p.createdOrdersMetadata) (es : List Effect)
    (he : p'.effects = p.effects ++ es) (hes : ∀ e ∈ es, ∀ id k, Knowledge.update id k e = k)
    (hrep : ∀ e ∈ es, ∀ pre, Reported pre e) : Recorded p' :=
  ⟨h.store.congr hm he hes, by rw [he]; exact h.log.append hrep⟩

theorem Recorded.begun (h : Recorded p) (hm : p.createdOrdersMetadata id = some metadata)
    (hc : context.status.isCreation = true)
    (hi : getFinalizationInfo metadata.context.status metadata.context.orderInfo.finalizationInfo =
      some finalization) :
    Recorded (p.begun context metadata finalization) := by
  refine ⟨h.store.begun hm hc, ?_⟩
  obtain ⟨last, he, hlast⟩ := @begun_effects p context id metadata finalization
  rw [he, show p.effects ++ [Effect.processing context, .takeOrder id finalization, last] =
    p.effects ++ [Effect.processing context] ++ [.takeOrder id finalization] ++ [last] by simp]
  refine eachEntry_concat.mpr ⟨eachEntry_concat.mpr ⟨eachEntry_concat.mpr ⟨h.log, trivial⟩, ?_⟩, ?_⟩
  · change (knowledge id (p.effects ++ [_])).used = some finalization
    rw [knowledge_concat, update_processing hc, ← hi]
    exact Agrees.used (hm ▸ h.store id)
  · rcases hlast with ⟨_, params, rfl, _⟩ | ⟨order, rfl, rfl, rfl⟩
    · trivial
    · exact ⟨_, rfl⟩

theorem Recorded.enter (h : Recorded p) (he : Enter network p i p') : Recorded p' := by
  cases he with
  | park context hl =>
    exact h.receive.congr park_createdOrdersMetadata [] (by simp) (by simp) (by simp)
  | process context hf hc => exact h.receive.processed
  | begin context metadata finalization hf hc hm hi => exact h.receive.begun hm hc hi
  | parkOrder timer ht metadata hl hm =>
    exact h.congr park_createdOrdersMetadata [] (by simp [expire]) (by simp) (by simp)
  | beginOrder timer ht metadata finalization hf hm hi =>
    exact Recorded.begun (p := p.expire timer ht) ⟨h.store, h.log⟩ hm metadata.creation hi
  | settle take outcome ht he =>
    have hm := @ended_createdOrdersMetadata p network take outcome
    rcases @ended_effects p network take outcome with hp | ⟨params, hp⟩ | ⟨params, _, hp⟩
    · exact h.congr hm [] (by simpa using hp) (by simp) (by simp)
    · exact h.congr hm _ hp (by simp [Knowledge.update]) (by simp [Reported])
    · exact h.congr hm _ hp (by simp [Knowledge.update]) (by simp [Reported])
  | release take ht he => exact ⟨h.store, h.log⟩
  | tick ms => exact ⟨h.store, h.log⟩

theorem Recorded.round (h : Recorded p) (hr : Round p p') : Recorded p' := by
  cases hr with
  | process context events hf he hc =>
    exact Recorded.processed (p := { p with eventsQueue := events }) ⟨h.store, h.log⟩
  | begin id metadata finalization hf he hq hm hi =>
    exact Recorded.begun (p := p.picked id) ⟨h.store, h.log⟩ hm metadata.creation hi

/-- The takes of a run are never stale if and only if no order is taken that is known from an
archival event while its latest live event says something else than finalized. -/
theorem never_stale_iff (h : (processor network).Run t s) : ∃ p, s = .ok p ∧
    (EachEntry NeverStale p.effects ↔ EachEntry NeverShadowed p.effects) := by
  obtain ⟨p, rfl, -, -, hrec⟩ := run_induct (J := fun _ => Recorded)
    ⟨fun _ => .unknown, eachEntry_nil⟩ (fun _ _ _ _ _ _ _ hj he => hj.enter he)
    (fun _ _ _ _ hj hr => hj.round hr) h
  exact ⟨p, rfl, neverStale_iff hrec.log⟩

/-- A live order that is revoked before its timer fires. -/
theorem never_stale_iff_revoked :
    ∃ s, (processor Sample.network).Run [.event (Sample.created "a" (.confirmed 3 "")),
      .settled 0 (.postpone .notProfitable "" none), .returned 0,
      .event (Sample.created "a" .revoked)] s ∧
    ∃ p, s = .ok p ∧
      (EachEntry NeverStale p.effects ↔ EachEntry NeverShadowed p.effects) := by
  apply Machine.exists_run_and
  · decide +kernel
  · intro s hr
    exact never_stale_iff hr

/-- An archival order is postponed and then revoked by a live event: it is taken as finalized. -/
theorem revoked_order_taken :
    ∃ p, (processor Sample.network).Run [.event (Sample.archivalCreated "a"),
      .settled 0 (.postpone .notProfitable "" none), .returned 0,
      .event (Sample.created "a" .revoked)] (.ok p) ∧
    ¬ EachEntry NeverStale p.effects ∧
    knowledge "a" p.effects = .known true (some .revoked) ∧
    ∃ order, p.effects.getLast? = some (.take order) ∧ order.orderId = "a" ∧
      order.finalization = .finalized := by
  obtain ⟨s, hr, hp⟩ := Machine.exists_run_of_any (M := processor Sample.network)
    (t := [.event (Sample.archivalCreated "a"), .settled 0 (.postpone .notProfitable "" none),
      .returned 0, .event (Sample.created "a" .revoked)])
    (p := fun s => match s with
      | .ok p => p.effects[7]? == some (.takeOrder "a" (.reached .finalized)) &&
          knowledge "a" (p.effects.take 7) == .known true (some .revoked) &&
          knowledge "a" p.effects == .known true (some .revoked) &&
          p.effects.getLast? == some (.take ⟨"a", Sample.order, .finalized, 0, 2, 1, 2⟩)
      | .error _ => false) (by decide +kernel)
  cases s with
  | error crash => simp at hp
  | ok p =>
    simp only [Bool.and_eq_true, beq_iff_eq] at hp
    obtain ⟨⟨⟨htake, hk⟩, hlast⟩, htaker⟩ := hp
    refine ⟨p, hr, fun hs => ?_, hlast, _, htaker, rfl, rfl⟩
    have hd : (knowledge "a" (p.effects.take 7)).due = some (.reached .finalized) := hs.get htake
    rw [hk] at hd
    exact absurd hd (by decide)

end Log

end DlnTaker
