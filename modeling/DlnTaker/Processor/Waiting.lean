import DlnTaker.Processor.Scheduling

/-! # How long a live order waits

Each release of the lock takes the first live order that waits, and a live order
that comes later goes behind. An order with `n` others ahead of it in the
priority queue is therefore taken, or announced finished, within `n + 1`
releases, whatever arrives meanwhile.
-/

namespace DlnTaker

open OrderProcessor Relation

/-- An attempt at the order starts, or a terminal event for it is processed. -/
def Effect.Serves (id : OrderId) : Effect → Prop
  | takeOrder orderId _ => orderId = id
  | processing context => context.status.isTerminal = true ∧ context.orderId = id
  | _ => False

/-- The order was served between the two states. -/
def Served (id : OrderId) (p p' : OrderProcessor) : Prop :=
  ∃ es, p'.effects = p.effects ++ es ∧ ∃ e ∈ es, e.Serves id

def Input.isReturn : Input → Bool
  | returned _ => true
  | _ => false

/-- A live order that is not being taken waits for its turn. -/
structure OrderProcessor.Waits (p : OrderProcessor) (id : OrderId) : Prop where
  queued : id ∈ p.priorityQueue
  notTaking : ¬ p.Taking id

variable {network : Network} {t t' : List Input} {s : Except Crash OrderProcessor}
  {p p' q : OrderProcessor} {i : Input} {context : IncomingOrderContext} {id x : OrderId}
  {metadata : CreatedOrderMetadata x} {finalization : Finalization} {take : PendingTake}
  {outcome : TakeOutcome} {events : List IncomingOrderContext}

section Log

theorem prefix_enter (h : Enter network p i p') : p.effects <+: p'.effects := by
  cases h with
  | park context hl => simp
  | process context hf hc => simp [List.append_assoc]
  | begin context metadata finalization hf hc hm hi =>
    obtain ⟨last, he, -⟩ :=
      @begun_effects (p.receive context) context context.orderId metadata finalization
    rw [he, receive_effects, List.append_assoc]
    exact List.prefix_append _ _
  | parkOrder timer ht metadata hl hm => simp [expire]
  | beginOrder timer ht metadata finalization hf hm hi =>
    obtain ⟨last, he, -⟩ :=
      @begun_effects (p.expire timer ht) metadata.context timer.orderId metadata finalization
    exact ⟨_, he.symm⟩
  | settle take outcome ht he =>
    rcases @ended_effects p network take outcome with hp | ⟨params, hp⟩ | ⟨params, -, hp⟩
    · exact ⟨[], by rw [hp, List.append_nil]⟩
    · exact ⟨_, hp.symm⟩
    · exact ⟨_, hp.symm⟩
  | release take ht he => exact List.prefix_rfl
  | tick ms => exact List.prefix_rfl

theorem prefix_round (h : Round p p') : p.effects <+: p'.effects := by
  cases h with
  | process context events hf he hc =>
    exact ⟨_, (processed_effects (p := { p with eventsQueue := events })).symm⟩
  | begin id metadata finalization hf he hq hm hi =>
    obtain ⟨last, he, -⟩ :=
      @begun_effects (p.picked id) metadata.context id metadata finalization
    exact ⟨_, he.symm⟩

theorem prefix_rounds (h : ReflTransGen Round p p') : p.effects <+: p'.effects := by
  induction h with
  | refl => exact List.prefix_rfl
  | tail _ hround ih => exact ih.trans (prefix_round hround)

/-- A section only appends to the log. -/
theorem prefix_step (hs : Sound p) (hset : Settled p)
    (h : processorStep network (.ok p) i = some s) :
    ∃ p', s = .ok p' ∧ Sound p' ∧ Settled p' ∧ p.effects <+: p'.effects := by
  obtain ⟨q, p', rfl, henter, hrounds, hs', hset'⟩ := step_ok hs hset h
  exact ⟨p', rfl, hs', hset', (prefix_enter henter).trans (prefix_rounds hrounds)⟩

theorem prefix_exec (hs : Sound p) (hset : Settled p)
    (h : (processor network).exec (.ok p) t = some (.ok p')) : p.effects <+: p'.effects := by
  obtain ⟨q, hq, -, -, hp⟩ := Machine.exec_invariant
    (P := fun s => ∃ q, s = .ok q ∧ Sound q ∧ Settled q ∧ p.effects <+: q.effects) h
    ⟨p, rfl, hs, hset, List.prefix_rfl⟩ (by
      rintro _ i s' ⟨q, rfl, hs, hset, hp⟩ hstep
      obtain ⟨q', rfl, hs', hset', hq⟩ := prefix_step hs hset hstep
      exact ⟨q', rfl, hs', hset', hp.trans hq⟩)
  rw [Except.ok.inj hq]
  exact hp

theorem Served.trans_prefix (h : Served id p q) (hp : q.effects <+: p'.effects) :
    Served id p p' := by
  obtain ⟨es, he, e, hin, hserves⟩ := h
  obtain ⟨rest, hrest⟩ := hp
  exact ⟨es ++ rest, by rw [← hrest, he, List.append_assoc], e, List.mem_append_left _ hin, hserves⟩

theorem Served.of_prefix (hp : p.effects <+: q.effects) (h : Served id q p') : Served id p p' := by
  obtain ⟨es, he, e, hin, hserves⟩ := h
  obtain ⟨rest, hrest⟩ := hp
  exact ⟨rest ++ es, by rw [he, ← hrest, List.append_assoc], e, List.mem_append_right _ hin,
    hserves⟩

end Log

section Queue

@[simp] theorem receive_priorityQueue : (p.receive context).priorityQueue = p.priorityQueue := by
  unfold OrderProcessor.receive trackCreation
  repeat' split
  all_goals rfl

theorem park_priorityQueue : (p.park context).priorityQueue =
    if context.status = .created then p.priorityQueue.add context.orderId
    else p.priorityQueue := by
  unfold park
  cases context.status <;> rfl

theorem processed_priorityQueue : (p.processed context).priorityQueue =
    if context.status.isTerminal then p.priorityQueue.delete context.orderId
    else p.priorityQueue := by
  change (dispatch { p.emit (.processing context) with isLocked := true }
    context).priorityQueue = _
  rw [dispatch_eq]
  cases context.status.isTerminal <;> rfl

theorem begun_priorityQueue : (p.begun context metadata finalization).priorityQueue =
    if finalization = .revoked then p.priorityQueue.delete x else p.priorityQueue := by
  cases finalization with
  | revoked =>
    change p.priorityQueue.delete metadata.countAttempt.context.orderInfo.orderId = _
    rw [metadata.countAttempt.context_orderId]
    rfl
  | reached finality => rfl

theorem ended_priorityQueue : (p.ended network take outcome).priorityQueue = p.priorityQueue ∨
    (p.ended network take outcome).priorityQueue = p.priorityQueue.delete take.orderId := by
  rcases @settleTake_cases p network take outcome with ⟨_, _, h⟩ | ⟨_, h⟩ | ⟨_, _, h⟩
  · exact .inl (by rw [ended, h]; rfl)
  · exact .inr (by rw [ended, h]; rfl)
  · exact .inl (by rw [ended, h]; rfl)

/-- The order stays where it is, or moves up. -/
theorem waits_of_delete (hw : p.Waits id) (ht : ¬ p'.Taking id)
    (hq : p'.priorityQueue = p.priorityQueue ∨
      id ≠ x ∧ p'.priorityQueue = p.priorityQueue.delete x) :
    p'.Waits id ∧ p'.priorityQueue.rank id ≤ p.priorityQueue.rank id := by
  rcases hq with hq | ⟨hne, hq⟩
  · exact ⟨⟨hq ▸ hw.queued, ht⟩, by rw [hq]⟩
  · refine ⟨⟨?_, ht⟩, ?_⟩
    · rw [hq]
      exact InsertionSet.mem_delete.mpr ⟨hne, hw.queued⟩
    · rw [hq]
      exact InsertionSet.rank_delete_le hne

theorem waits_processed (hw : p.Waits id) : Served id p (p.processed context) ∨
    (p.processed context).Waits id ∧
      (p.processed context).priorityQueue.rank id ≤ p.priorityQueue.rank id := by
  have hq := @processed_priorityQueue p context
  have hnt : ¬ (p.processed context).Taking id := by simpa [Taking] using hw.notTaking
  by_cases hserves : context.status.isTerminal = true ∧ context.orderId = id
  · exact .inl ⟨_, processed_effects, .processing context, by simp, hserves⟩
  · right
    refine waits_of_delete (x := context.orderId) hw hnt ?_
    split at hq
    · rename_i hterminal
      exact .inr ⟨fun hid => hserves ⟨hterminal, hid.symm⟩, hq⟩
    · exact .inl hq

/-- A waiting order is not the one that a locked processor goes on with. -/
theorem waits_begun (hw : p.Waits id) (hne : id ≠ x) :
    (p.begun context metadata finalization).Waits id ∧
      (p.begun context metadata finalization).priorityQueue.rank id ≤ p.priorityQueue.rank id := by
  refine waits_of_delete (x := x) hw (fun h => (taking_begun.mp h).elim hw.notTaking hne) ?_
  rw [begun_priorityQueue]
  split
  · exact .inr ⟨hne, rfl⟩
  · exact .inl rfl

end Queue

section Turn

/-- Where a live order waits, the next order is the first one that does. -/
theorem pickNextOrderId_of_waits (hin : id ∈ p.priorityQueue)
    (hproper : ∀ x ∈ p.priorityQueue, x ≠ "") :
    ∃ x, p.priorityQueue.first? = some x ∧ p.pickNextOrderId = (some x, p.picked x) := by
  cases hx : p.priorityQueue.first? with
  | none => exact absurd hin (InsertionSet.first?_eq_none.mp hx id)
  | some x =>
    have hne : x ≠ "" := hproper x (InsertionSet.mem_of_first?_eq_some hx)
    refine ⟨x, rfl, ?_⟩
    simp [pickNextOrderId, hx, Option.filter, hne, picked]

/-- The rest of a section after the release serves the order, or moves it up. -/
theorem drain_serves (hs : Sound p) (hf : p.isLocked = false) (he : p.eventsQueue = events)
    (hin : id ∈ p.priorityQueue) (hproper : ∀ x ∈ p.priorityQueue, x ≠ "")
    (hd : drain events p = .ok p') :
    Served id p p' ∨ p'.Waits id ∧ p'.priorityQueue.rank id < p.priorityQueue.rank id := by
  have hnt : ¬ p.Taking id := by simp [Taking, hs.takes_nil hf]
  induction events generalizing p with
  | nil =>
    obtain ⟨x, hfirst, hpick⟩ := pickNextOrderId_of_waits hin hproper
    have hq : p.Queued x := .inr (.inl (InsertionSet.mem_of_first?_eq_some hfirst))
    obtain ⟨metadata, hm⟩ := Option.isSome_iff_exists.mp (hs.tracked x (.inl hq))
    obtain ⟨finalization, -, hh⟩ := handleOrder_free (p := p.picked x) .ok hm hf
    rw [drain, hpick] at hd
    obtain rfl := Except.ok.inj (hh.symm.trans hd)
    by_cases hx : id = x
    · subst hx
      obtain ⟨last, hlog, -⟩ :=
        @begun_effects (p.picked id) metadata.context id metadata finalization
      exact .inl ⟨_, hlog, .takeOrder id finalization, by simp, rfl⟩
    · have hw : (p.picked x).Waits id := ⟨InsertionSet.mem_delete.mpr ⟨hx, hin⟩, hnt⟩
      obtain ⟨hw', hle⟩ :=
        @waits_begun (p.picked x) metadata.context id x metadata finalization hw hx
      exact .inr ⟨hw', hle.trans_lt (InsertionSet.rank_delete_first hx hfirst)⟩
  | cons context events ih =>
    have hc := hs.events context (by simp [he])
    have hr : Round p _ := .process context events hf he hc
    have hstep : drain events (processed { p with eventsQueue := events } context) = .ok p' := by
      rw [drain, handleEvent, trackCreation_of_other hc] at hd
      exact (process_other (p := { p with eventsQueue := events }) hf hc).symm.trans hd
    have hnext := hs.round hr
    obtain ⟨q, hq, hrounds, -, -⟩ := drain_ok hnext rfl processed_eventsQueue
    obtain rfl := Except.ok.inj (hq.symm.trans hstep)
    have hw : { p with eventsQueue := events }.Waits id := ⟨hin, hnt⟩
    rcases @waits_processed { p with eventsQueue := events } context id hw with hserved | ⟨hw, hle⟩
    · exact .inl (Served.trans_prefix hserved (prefix_rounds hrounds))
    · have hsub : ∀ x ∈ (processed { p with eventsQueue := events } context).priorityQueue,
          x ≠ "" := by
        intro x hx
        rw [processed_priorityQueue] at hx
        split at hx
        · exact hproper x (InsertionSet.mem_delete.mp hx).2
        · exact hproper x hx
      rcases ih hnext rfl processed_eventsQueue hw.queued hsub hstep hw.notTaking with h | ⟨h, hlt⟩
      · exact .inl (h.of_prefix (prefix_round hr))
      · exact .inr ⟨h, hlt.trans_le hle⟩

theorem eq_of_rounds (hl : q.isLocked = true) (h : ReflTransGen Round q p') : p' = q := by
  rcases h.cases_head with heq | ⟨r, hround, -⟩
  · exact heq.symm
  · cases hround with
    | process _ _ hf => rw [hl] at hf; cases hf
    | begin _ _ _ hf => rw [hl] at hf; cases hf

/-- An order that comes later goes behind. -/
theorem waits_park (hw : p.Waits id) : (p.park context).Waits id ∧
    (p.park context).priorityQueue.rank id = p.priorityQueue.rank id := by
  have hnt : ¬ (p.park context).Taking id := by simpa [Taking] using hw.notTaking
  have hq := @park_priorityQueue p context
  split at hq
  · refine ⟨⟨?_, hnt⟩, ?_⟩
    · rw [hq]
      exact InsertionSet.mem_add.mpr (.inr hw.queued)
    · rw [hq]
      exact InsertionSet.rank_add hw.queued
  · exact ⟨⟨hq ▸ hw.queued, hnt⟩, by rw [hq]⟩

theorem waits_receive (hw : p.Waits id) : (p.receive context).Waits id where
  queued := by rw [receive_priorityQueue]; exact hw.queued
  notTaking := by simpa using hw.notTaking

theorem waits_ended (hw : p.Waits id) (ht : p.takes = [take]) :
    (p.ended network take outcome).Waits id ∧
      (p.ended network take outcome).priorityQueue.rank id ≤ p.priorityQueue.rank id := by
  have hne : id ≠ take.orderId := by
    rintro rfl
    exact hw.notTaking ⟨take, by simp [ht], rfl⟩
  refine waits_of_delete hw (fun h => ?_) (ended_priorityQueue.imp_right fun h => ⟨hne, h⟩)
  obtain ⟨u, hu, hid⟩ := h
  rw [ended_takes, List.mem_singleton] at hu
  subst hu
  exact hne hid.symm

/-- A section keeps a waiting order where it is or moves it up; a release serves it or moves it
up. -/
theorem waits_step (hs : Sound p) (hset : Settled p) (hw : p.Waits id)
    (hproper : ∀ x ∈ p.priorityQueue, x ≠ "")
    (h : processorStep network (.ok p) i = some (.ok p')) :
    Served id p p' ∨ p'.Waits id ∧
      p'.priorityQueue.rank id + (if i.isReturn then 1 else 0) ≤ p.priorityQueue.rank id := by
  have hl : p.isLocked = true := by
    by_contra hf
    obtain ⟨x, hfirst, -⟩ := pickNextOrderId_of_waits hw.queued hproper
    exact hproper x (InsertionSet.mem_of_first?_eq_some hfirst)
      ((hset (by simpa using hf)).2 x (.inl hfirst))
  obtain ⟨q, _, he, henter, hrounds, -, -⟩ := step_ok hs hset h
  obtain rfl := Except.ok.inj he
  cases henter with
  | park context hl =>
    obtain rfl := eq_of_rounds (by simpa using hl) hrounds
    have hpark := @waits_park (p.receive context) context id (waits_receive hw)
    rw [receive_priorityQueue] at hpark
    exact .inr ⟨hpark.1, hpark.2.le⟩
  | process context hf hc => rw [hl] at hf; cases hf
  | begin context metadata finalization hf hc hm hi => rw [hl] at hf; cases hf
  | parkOrder timer ht metadata hl hm =>
    obtain rfl := eq_of_rounds (by simpa [expire] using hl) hrounds
    have hw : (p.expire timer ht).Waits id := ⟨hw.queued, hw.notTaking⟩
    have hpark := @waits_park _ metadata.context id hw
    exact .inr ⟨hpark.1, hpark.2.le⟩
  | beginOrder timer ht metadata finalization hf hm hi => rw [hl] at hf; cases hf
  | settle take outcome ht he =>
    obtain rfl := eq_of_rounds (by simpa using hl) hrounds
    exact .inr (waits_ended hw ht)
  | release take ht he =>
    have hd : drain p.released.eventsQueue p.released = .ok p' := by
      simpa [processorStep, ht, he, resume, released] using h
    rcases drain_serves hs.released rfl rfl hw.queued hproper hd with hserved | ⟨hw', hlt⟩
    · exact .inl hserved
    · exact .inr ⟨hw', hlt⟩
  | tick ms =>
    obtain rfl := eq_of_rounds (by simpa using hl) hrounds
    exact .inr ⟨⟨hw.queued, hw.notTaking⟩, le_rfl⟩

end Turn

section Run

def returns (t : List Input) : ℕ := t.countP Input.isReturn

theorem proper_of_run (h : (processor network).Run t (.ok p))
    (hid : ∀ context, Input.event context ∈ t → context.orderId ≠ "") :
    ∀ x ∈ p.priorityQueue, x ≠ "" := by
  obtain ⟨_, he, hs, -, ha⟩ := run_induct (J := Announced)
    ⟨fun id hx => by simp [Tracked, OrderProcessor.initial] at hx, rfl⟩
    (fun _ _ _ _ _ _ hset ha he => ha.enter hset he) (fun _ _ _ _ ha hr => ha.round hr) h
  obtain rfl := Except.ok.inj he
  intro x hx
  obtain ⟨context, hm, rfl⟩ := ha.tracked x (hs.tracked x (.inl (.inr (.inl hx))))
  exact hid context hm

/-- As long as a live order is not served, each release of the lock moves it up. -/
theorem waits_exec (h : (processor network).Run t (.ok p)) (hw : p.Waits id)
    (hid : ∀ context, Input.event context ∈ t ++ t' → context.orderId ≠ "")
    (hexec : (processor network).exec (.ok p) t' = some (.ok p')) :
    Served id p p' ∨
      p'.Waits id ∧ p'.priorityQueue.rank id + returns t' ≤ p.priorityQueue.rank id := by
  obtain ⟨_, he, hs, hset, -⟩ := run_induct (J := fun _ _ => True) trivial
    (fun _ _ _ _ _ _ _ _ _ => trivial) (fun _ _ _ _ _ _ => trivial) h
  obtain rfl := Except.ok.inj he
  induction t' generalizing t p with
  | nil =>
    obtain rfl := Except.ok.inj (Option.some.inj hexec)
    exact .inr ⟨hw, le_rfl⟩
  | cons i t' ih =>
    obtain ⟨s, hstep, hrest⟩ := Option.bind_eq_some_iff.mp hexec
    obtain ⟨q, rfl, hs', hset', hprefix⟩ := prefix_step hs hset hstep
    have hproper := proper_of_run h fun context hm => hid context (List.mem_append_left _ hm)
    rcases waits_step hs hset hw hproper hstep with hserved | ⟨hw', hle⟩
    · exact .inl (hserved.trans_prefix (prefix_exec hs' hset' hrest))
    · rcases ih (h.snoc hstep) hw' (by simpa using hid) hrest rfl hs' hset' with
        hserved | ⟨hw'', hle'⟩
      · exact .inl (hserved.of_prefix hprefix)
      · refine .inr ⟨hw'', ?_⟩
        rw [returns, List.countP_cons, ← returns]
        omega

/-- A live order that waits behind `n` others is taken, or a terminal event for it is processed,
by the time the lock was released `n + 1` times. -/
theorem waiting_order_served (h : (processor network).Run t (.ok p)) (hw : p.Waits id)
    (hid : ∀ context, Input.event context ∈ t ++ t' → context.orderId ≠ "")
    (hexec : (processor network).exec (.ok p) t' = some (.ok p'))
    (hreturns : p.priorityQueue.rank id < returns t') : Served id p p' := by
  rcases waits_exec h hw hid hexec with hserved | ⟨-, hle⟩
  · exact hserved
  · omega

namespace Sample

/-- One order is being taken and another one waits. -/
def oneWaiting : List Input :=
  [.event (created "a" (.finalized "")), .event (created "b" (.finalized ""))]

def oneReturn : List Input := [.settled 0 .success, .returned 0]

end Sample

theorem waiting_order_served_next : ∃ p p',
    (processor Sample.network).Run Sample.oneWaiting (.ok p) ∧
    (processor Sample.network).exec (.ok p) Sample.oneReturn = some (.ok p') ∧
    p.Waits "b" ∧ Served "b" p p' := by
  obtain ⟨s, hr, hs⟩ := Machine.exists_run_of_any (M := processor Sample.network)
    (t := Sample.oneWaiting) (p := fun s => s.toOption.any fun p : OrderProcessor =>
      decide ("b" ∈ p.priorityQueue ∧ (∀ take ∈ p.takes, take.orderId ≠ "b") ∧
        p.priorityQueue.rank "b" < 1) &&
      ((processor Sample.network).exec (.ok p) Sample.oneReturn).any
        fun s : Except Crash OrderProcessor => s.toOption.isSome) (by decide +kernel)
  cases s with
  | error crash => cases hs
  | ok p =>
    obtain ⟨hw, hs⟩ := Bool.and_eq_true _ _ |>.mp hs
    obtain ⟨hin, hnt, hrank⟩ := of_decide_eq_true hw
    obtain ⟨s', hexec, hs⟩ := Option.any_eq_true _ _ |>.mp hs
    cases s' with
    | error crash => cases hs
    | ok p' =>
      have hw : p.Waits "b" := ⟨hin, fun ⟨take, hm, hid⟩ => hnt take hm hid⟩
      refine ⟨p, p', hr, hexec, hw, waiting_order_served hr hw ?_ hexec hrank⟩
      intro context hm
      simp only [Sample.oneWaiting, Sample.oneReturn, List.mem_append, List.mem_cons,
        Input.event.injEq, reduceCtorEq, List.not_mem_nil, or_false] at hm
      rcases hm with rfl | rfl <;> decide

end Run

end DlnTaker
