import DlnTaker.Processor.Step

/-! # What a section hands to a taker

A section of the processor hands an order to a taker at most once, as its last
effect, and only if it waits for no other attempt. From then on it waits for the
attempt at this order, until nothing but its end makes it stop waiting.
-/

namespace DlnTaker

open OrderProcessor Relation

/-- The order whose attempt the processor waits for. -/
def OrderProcessor.awaited (p : OrderProcessor) : Option OrderId :=
  (p.takes.find? (!·.ended)).map (·.orderId)

def Effect.handed? : Effect → Option CreatedOrder
  | take order => some order
  | _ => none

def Input.isSettled : Input → Bool
  | settled .. => true
  | _ => false

/-- After these effects the processor waits as before, or for the order handed over by the last of
them. -/
inductive Hands (awaited : Option OrderId) (p : OrderProcessor) : List Effect → Prop
  | nothing (es : List Effect) : (∀ e ∈ es, e.handed? = none) → p.awaited = awaited →
      Hands awaited p es
  | order (es : List Effect) (order : CreatedOrder) : (∀ e ∈ es, e.handed? = none) →
      awaited = none → p.awaited = some order.orderId → Hands awaited p (es ++ [.take order])

variable {network : Network} {p q p' : OrderProcessor} {i : Input} {es : List Effect}
  {context : IncomingOrderContext} {id : OrderId} {metadata : CreatedOrderMetadata id}
  {finalization : Finalization} {before : Option OrderId}

theorem awaited_of_nil (h : p.takes = []) : p.awaited = none := by
  rw [awaited, h]
  rfl

/-- Effects before which nothing was handed over. -/
theorem Hands.after {es' : List Effect} (h : Hands before p es')
    (he : ∀ e ∈ es, e.handed? = none) : Hands before p (es ++ es') := by
  have hmem : ∀ {es' : List Effect}, (∀ e ∈ es', e.handed? = none) →
      ∀ e ∈ es ++ es', e.handed? = none := by
    intro es' he' e hm
    exact (List.mem_append.mp hm).elim (he e) (he' e)
  cases h with
  | nothing _ he' hp => exact .nothing _ (hmem he') hp
  | order es' order he' ha hp =>
    rw [← List.append_assoc]
    exact .order _ order (hmem he') ha hp

theorem handed_none_of_isOutput {e : Effect} (h : e.isOutput = true) : e.handed? = none := by
  cases e with
  | take order => cases h
  | _ => rfl

theorem hands_begun (h : p.takes = []) : ∃ es,
    (p.begun context metadata finalization).effects = p.effects ++ es ∧
      Hands none (p.begun context metadata finalization) es := by
  obtain ⟨last, heffects, hlast⟩ := @begun_effects p context id metadata finalization
  obtain ⟨take, hid, hended, htakes⟩ := @begun_takes p context id metadata finalization
  refine ⟨_, heffects, ?_⟩
  have hpre : ∀ e ∈ [Effect.processing context, .takeOrder id finalization], e.handed? = none := by
    simp [Effect.handed?]
  suffices hlastHands : Hands none (p.begun context metadata finalization) [last] from
    hlastHands.after hpre
  have hawaited : (p.begun context metadata finalization).awaited =
      if take.ended then none else some id := by
    rw [awaited, htakes, h, List.nil_append, ← hid]
    cases hend : take.ended <;> simp [hend]
  rcases hlast with ⟨rfl, params, rfl, -⟩ | ⟨order, rfl, hsame, rfl⟩
  · refine .nothing _ (by simp [Effect.handed?]) ?_
    rw [hawaited, hended]
    rfl
  · refine .order [] order (by simp) rfl ?_
    rw [hawaited, hended, hsame]
    rfl

theorem hands_processed (hf : p.takes = []) : ∃ es,
    (p.processed context).effects = p.effects ++ es ∧ Hands none (p.processed context) es := by
  refine ⟨_, processed_effects, .nothing _ (fun e hm => ?_) (awaited_of_nil (by simp [hf]))⟩
  rcases List.mem_cons.mp hm with rfl | hm
  · rfl
  · exact handed_none_of_isOutput (isOutput_of_mem_outputs hm)

/-- The effects of a part that starts with the arrival of an event. -/
theorem hands_receive (h : ∃ es, q.effects = (p.receive context).effects ++ es ∧
    Hands before q es) : ∃ es, q.effects = p.effects ++ es ∧ Hands before q es := by
  obtain ⟨es, heffects, hes⟩ := h
  refine ⟨[.received context] ++ es, ?_, hes.after (by simp [Effect.handed?])⟩
  rw [heffects, receive_effects, List.append_assoc]

/-- What the processor waits for when it goes on with the input. -/
def Input.leaves (i : Input) (awaited : Option OrderId) : Option OrderId :=
  if i.isSettled then none else awaited

theorem hands_enter (hs : Sound p) (he : Enter network p i q) : ∃ es,
    q.effects = p.effects ++ es ∧ Hands (i.leaves p.awaited) q es := by
  have hfree (hf : p.isLocked = false) : p.takes = [] ∧ p.awaited = none :=
    ⟨hs.takes_nil hf, awaited_of_nil (hs.takes_nil hf)⟩
  cases he with
  | park context hl =>
    refine @hands_receive _ _ context _ ⟨[], by simp, .nothing _ (by simp) ?_⟩
    simp [awaited, Input.leaves, Input.isSettled]
  | process context hf hc =>
    rw [(hfree hf).2]
    exact hands_receive (hands_processed (by simpa using (hfree hf).1))
  | begin context metadata finalization hf hc hm hi =>
    rw [(hfree hf).2]
    exact hands_receive (hands_begun (by simpa using (hfree hf).1))
  | parkOrder timer ht metadata hl hm =>
    refine ⟨[], by simp [OrderProcessor.expire], .nothing _ (by simp) ?_⟩
    simp [awaited, Input.leaves, Input.isSettled, OrderProcessor.expire]
  | beginOrder timer ht metadata finalization hf hm hi =>
    rw [(hfree hf).2]
    exact hands_begun (p := p.expire timer ht) (hfree hf).1
  | settle take outcome ht hended =>
    have hq : (p.ended network take outcome).awaited = none := by simp [awaited]
    rcases @ended_effects p network take outcome with hp | ⟨params, hp⟩ | ⟨params, -, hp⟩
    · exact ⟨[], by rw [hp, List.append_nil], .nothing _ (by simp) hq⟩
    · exact ⟨_, hp, .nothing _ (by simp [Effect.handed?]) hq⟩
    · exact ⟨_, hp, .nothing _ (by simp [Effect.handed?]) hq⟩
  | release take ht hended =>
    have hp : p.awaited = none := by simp [awaited, ht, hended]
    rw [hp]
    exact ⟨[], by simp [OrderProcessor.released], .nothing _ (by simp) rfl⟩
  | tick ms =>
    refine ⟨[], by simp, .nothing _ (by simp) ?_⟩
    simp [awaited, Input.leaves, Input.isSettled]

theorem hands_round (hs : Sound p) (hr : Round p q) : p.awaited = none ∧ ∃ es,
    q.effects = p.effects ++ es ∧ Hands none q es := by
  cases hr with
  | process context events hf he hc =>
    have hnil : p.takes = [] := hs.takes_nil hf
    exact ⟨awaited_of_nil hnil, hands_processed (p := { p with eventsQueue := events }) hnil⟩
  | begin id metadata finalization hf he hq hm hi =>
    have hnil : p.takes = [] := hs.takes_nil hf
    exact ⟨awaited_of_nil hnil, hands_begun (p := p.picked id) hnil⟩

/-- A section hands over at most one order, as the last thing it does, and only if the processor
waits for no attempt. -/
theorem hands_step (hs : Sound p) (hset : Settled p)
    (h : processorStep network (.ok p) i = some (.ok p')) : ∃ es,
    p'.effects = p.effects ++ es ∧ Hands (i.leaves p.awaited) p' es := by
  obtain ⟨q, r, heq, he, hrounds, -, -⟩ := step_ok hs hset h
  obtain rfl := Except.ok.inj heq
  have hparts : Sound p' ∧ ∃ es, p'.effects = p.effects ++ es ∧
      Hands (i.leaves p.awaited) p' es := by
    clear heq h
    induction hrounds with
    | refl => exact ⟨hs.enter he, hands_enter hs he⟩
    | tail _ hround ih =>
      obtain ⟨hsound, es, heffects, hes⟩ := ih
      obtain ⟨hidle, es', heffects', hes'⟩ := hands_round hsound hround
      refine ⟨hsound.round hround, es ++ es', ?_, ?_⟩
      · rw [heffects', heffects, List.append_assoc]
      · -- a round is taken by a free processor only, so nothing was handed over before
        cases hes with
        | nothing _ hfree ha =>
          rw [← ha, hidle]
          exact hes'.after hfree
        | order es order hfree ha hp =>
          rw [hidle] at hp
          cases hp
  exact hparts.2

end DlnTaker
