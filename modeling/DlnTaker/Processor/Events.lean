import DlnTaker.Library.Journal
import DlnTaker.Processor.Step

/-! # Creation and terminal events

A creation event is stored on arrival, a terminal event waits while the
processor is busy. So no order is taken after its terminal event, but a creation
that overtakes a waiting terminal event is forgotten when that event is
processed: this is the one case in which being busy changes the outcome.
-/

namespace DlnTaker

open OrderProcessor Journal

/-- What an event says about an order: to be taken, or no longer to be taken. -/
inductive Mark
  | creation | terminal
  deriving DecidableEq, Repr

def IncomingOrderContext.mark? (id : OrderId) (context : IncomingOrderContext) : Option Mark :=
  if id ≠ context.orderId then none
  else if context.status.isTerminal then some .terminal
  else if context.status.isCreation then some .creation
  else none

def Input.mark? (id : OrderId) : Input → Option Mark
  | .event context => context.mark? id
  | _ => none

def Effect.mark? (id : OrderId) : Effect → Option Mark
  | .received context => context.mark? id
  | _ => none

/-- A terminal event for the order waits to be processed. -/
def Ending (p : OrderProcessor) (id : OrderId) : Prop :=
  ∃ context ∈ p.eventsQueue, context.mark? id = some .terminal

/-- The last word on the order is a creation that arrived while a terminal event for the order
was waiting. -/
def Overtaken (network : Network) (t : List Input) (id : OrderId) : Prop :=
  ∃ t₁ context t₂ p, t = t₁ ++ Input.event context :: t₂ ∧ (∀ i ∈ t₂, i.mark? id = none) ∧
    context.mark? id = some .creation ∧ (processor network).Run t₁ (.ok p) ∧ Ending p id

variable {network : Network} {t : List Input} {s : Except Crash OrderProcessor}
  {p p' : OrderProcessor} {i : Input} {context : IncomingOrderContext} {id x : OrderId}
  {metadata : CreatedOrderMetadata id} {finalization : Finalization}

theorem mark?_eq_creation : context.mark? id = some .creation ↔
    context.status.isCreation = true ∧ id = context.orderId := by
  have := @OrderInfoStatus.not_creation_of_terminal context.status
  unfold IncomingOrderContext.mark?
  split_ifs <;> simp_all

theorem mark?_eq_terminal : context.mark? id = some .terminal ↔
    context.status.isTerminal = true ∧ id = context.orderId := by
  unfold IncomingOrderContext.mark?
  split_ifs <;> simp_all

theorem tracked_receive_iff : (p.receive context).Tracked id ↔
    p.Tracked id ∨ context.mark? id = some .creation := by
  rw [tracked_receive, mark?_eq_creation]

theorem tracked_processed_iff : (p.processed context).Tracked id ↔
    p.Tracked id ∧ context.mark? id ≠ some .terminal := by
  rw [tracked_processed, ne_eq, mark?_eq_terminal]

theorem overtaken_concat (hr : (processor network).Run t (.ok p)) :
    Overtaken network (t ++ [i]) id ↔ (i.mark? id = none ∧ Overtaken network t id) ∨
      (i.mark? id = some .creation ∧ Ending p id) := by
  constructor
  · rintro ⟨t₁, context, t₂, q, ht, hno, hc, hrun, he⟩
    rcases List.eq_nil_or_concat t₂ with rfl | ⟨t₃, j, rfl⟩
    · obtain ⟨rfl, rfl⟩ := List.append_singleton_inj.mp ht
      obtain rfl := Except.ok.inj (hr.unique hrun)
      exact .inr ⟨hc, he⟩
    · rw [List.concat_eq_append, ← List.cons_append, ← List.append_assoc] at ht
      obtain ⟨rfl, rfl⟩ := List.append_singleton_inj.mp ht
      exact .inl ⟨hno i (by simp), t₁, context, t₃, q, rfl, fun j hj => hno j (by simp [hj]), hc,
        hrun, he⟩
  · rintro (⟨hi, t₁, context, t₂, q, rfl, hno, hc, hrun, he⟩ | ⟨hi, he⟩)
    · refine ⟨t₁, context, t₂ ++ [i], q, by simp, fun j hj => ?_, hc, hrun, he⟩
      rcases List.mem_append.mp hj with hj | hj
      · exact hno j hj
      · obtain rfl := List.mem_singleton.mp hj
        exact hi
    · cases i with
      | event context => exact ⟨t, context, [], p, rfl, by simp, hi, hr, he⟩
      | _ => simp [Input.mark?] at hi

/-- A creation is the last word on the order, and it did not overtake a terminal event. -/
def Standing (network : Network) (t : List Input) (id : OrderId) : Prop :=
  latest (Input.mark? id) t = some .creation ∧ ¬ Overtaken network t id

/-- An order that stands is tracked; any other is not, or its terminal event waits. -/
structure Stored (network : Network) (t : List Input) (p : OrderProcessor) (id : OrderId) :
    Prop where
  of_standing : Standing network t id → p.Tracked id ∧ ¬ Ending p id
  of_not_standing : ¬ Standing network t id → Ending p id ∨ ¬ p.Tracked id

theorem standing_concat_of_none (hr : (processor network).Run t (.ok p))
    (hi : i.mark? id = none) :
    Standing network (t ++ [i]) id ↔ Standing network t id := by
  simp [Standing, latest_concat, overtaken_concat hr, hi]

theorem standing_concat_of_creation (hr : (processor network).Run t (.ok p))
    (hi : i.mark? id = some .creation) :
    Standing network (t ++ [i]) id ↔ ¬ Ending p id := by
  simp [Standing, latest_concat, overtaken_concat hr, hi]

theorem not_standing_concat_of_terminal (hi : i.mark? id = some .terminal) :
    ¬ Standing network (t ++ [i]) id := by
  simp [Standing, latest_concat, hi]

theorem ending_park : Ending (p.park context) id ↔
    Ending p id ∨ context.mark? id = some .terminal := by
  unfold Ending
  rw [park_eventsQueue]
  split
  · rename_i hc
    have : context.mark? id ≠ some .terminal := by
      intro h
      have hn := OrderInfoStatus.not_creation_of_terminal (mark?_eq_terminal.mp h).1
      simp [hc] at hn
    simp [this]
  · simp [or_and_right, exists_or]

theorem ending_congr (h : p'.eventsQueue = p.eventsQueue) : Ending p' id ↔ Ending p id := by
  rw [Ending, h, Ending]

namespace Stored

/-- Nothing changed for the order. -/
theorem congr (h : Stored network t p id) {t' : List Input}
    (ht : Standing network t' id ↔ Standing network t id) (hp : p'.Tracked id ↔ p.Tracked id)
    (he : Ending p' id ↔ Ending p id) : Stored network t' p' id := by
  constructor
  · intro hst
    rw [hp, he]
    exact h.of_standing (ht.mp hst)
  · intro hst
    rw [hp, he]
    exact h.of_not_standing fun hn => hst (ht.mpr hn)

theorem of_creation (hr : (processor network).Run t (.ok p)) (hi : i.mark? id = some .creation)
    (hp : p'.Tracked id) (he : Ending p' id ↔ Ending p id) :
    Stored network (t ++ [i]) p' id := by
  refine ⟨fun hst => ?_, fun hst => .inl ?_⟩
  · rw [he]
    exact ⟨hp, (standing_concat_of_creation hr hi).mp hst⟩
  · rw [standing_concat_of_creation hr hi, not_not] at hst
    exact he.mpr hst

theorem of_terminal (hi : i.mark? id = some .terminal) (hp : Ending p' id ∨ ¬ p'.Tracked id) :
    Stored network (t ++ [i]) p' id :=
  ⟨fun hst => absurd hst (not_standing_concat_of_terminal hi), fun _ => hp⟩

theorem enter (h : ∀ id, Stored network t p id) (hr : (processor network).Run t (.ok p))
    (he : Enter network p i p') (id : OrderId) : Stored network (t ++ [i]) p' id := by
  have hquiet : i.mark? id = none → (p'.Tracked id ↔ p.Tracked id) →
      p'.eventsQueue = p.eventsQueue → Stored network (t ++ [i]) p' id := fun hi hp hq =>
    (h id).congr (standing_concat_of_none hr hi) hp (ending_congr hq)
  cases he with
  | park context hl =>
    have htr : ((p.receive context).park context).Tracked id ↔
        p.Tracked id ∨ context.mark? id = some .creation := by
      rw [Tracked, park_createdOrdersMetadata, ← tracked_receive_iff]
      rfl
    have hen : Ending ((p.receive context).park context) id ↔
        Ending p id ∨ context.mark? id = some .terminal := by
      rw [ending_park, ending_congr receive_eventsQueue]
    rcases hm : context.mark? id with _ | _ | _
    · exact (h id).congr (standing_concat_of_none hr hm) (by simp [htr, hm]) (by simp [hen, hm])
    · exact of_creation hr hm (htr.mpr (.inr hm)) (by simp [hen, hm])
    · exact of_terminal hm (.inl (hen.mpr (.inr hm)))
  | process context hf hc =>
    have htr : ((p.receive context).processed context).Tracked id ↔
        p.Tracked id ∧ context.mark? id ≠ some .terminal := by
      have hn : context.mark? id ≠ some .creation := by simp [mark?_eq_creation, hc]
      rw [tracked_processed_iff, tracked_receive_iff]
      simp [hn]
    rcases hm : context.mark? id with _ | _ | _
    · exact hquiet hm (by simp [htr, hm]) (by simp)
    · simp [mark?_eq_creation, hc] at hm
    · exact of_terminal hm (.inr (by simp [htr, hm]))
  | begin context metadata finalization hf hc hmeta hi =>
    have htr : ((p.receive context).begun context metadata finalization).Tracked id ↔
        p.Tracked id ∨ context.mark? id = some .creation := by
      rw [tracked_begun_iff hmeta, tracked_receive_iff]
    rcases hm : context.mark? id with _ | _ | _
    · exact hquiet hm (by simp [htr, hm]) (by simp)
    · exact of_creation hr hm (htr.mpr (.inr hm)) (ending_congr (by simp))
    · have hn := OrderInfoStatus.not_creation_of_terminal (mark?_eq_terminal.mp hm).1
      simp [hc] at hn
  | parkOrder timer ht metadata hl hmeta =>
    have hc : metadata.context.status.isCreation = true := metadata.creation
    refine hquiet rfl ?_ (by simp [park_eventsQueue, hc, OrderProcessor.expire])
    rw [Tracked, park_createdOrdersMetadata]
    rfl
  | beginOrder timer ht metadata finalization hf hmeta hi =>
    exact hquiet rfl (tracked_begun_iff (p := p.expire timer ht) hmeta) (by simp; rfl)
  | settle take outcome ht he => exact hquiet rfl tracked_ended ended_eventsQueue
  | release take ht he => exact hquiet rfl Iff.rfl rfl
  | tick ms => exact hquiet rfl Iff.rfl rfl

theorem round (h : ∀ id, Stored network t p id) (hr : Round p p') (id : OrderId) :
    Stored network t p' id := by
  cases hr with
  | process context events hf he hc =>
    have hen : Ending p id ↔ context.mark? id = some .terminal ∨
        Ending (processed { p with eventsQueue := events } context) id := by
      simp [Ending, he]
    have htr : (processed { p with eventsQueue := events } context).Tracked id ↔
        p.Tracked id ∧ context.mark? id ≠ some .terminal := tracked_processed_iff
    by_cases hm : context.mark? id = some .terminal
    · have hns : ¬ Standing network t id := fun hst =>
        ((h id).of_standing hst).2 (hen.mpr (.inl hm))
      exact ⟨fun hst => absurd hst hns, fun _ => .inr (by simp [htr, hm])⟩
    · exact (h id).congr Iff.rfl (by simp [htr, hm]) (by simp [hen, hm])
  | begin id' metadata finalization hf he hq hmeta hi =>
    exact (h id).congr Iff.rfl (tracked_begun_iff (p := p.picked id') hmeta)
      (ending_congr (by simp; rfl))

end Stored

/-- With no event waiting, a tracked order may be taken. -/
theorem Stored.latest_ne_terminal (h : Stored network t p id) (hq : p.eventsQueue = [])
    (hp : p.Tracked id) : latest (Input.mark? id) t ≠ some .terminal := by
  intro hl
  rcases h.of_not_standing (by simp [Standing, hl]) with he | hn
  · simp [Ending, hq] at he
  · exact hn hp

section Retaking

/-- The entry is not the take of an order whose last word so far is a terminal event. -/
def NoRetake (pre : List Effect) (e : Effect) : Prop := ∀ id finalization,
  e = .takeOrder id finalization → latest (Effect.mark? id) pre ≠ some .terminal

theorem mark?_of_isOutput {e : Effect} (h : e.isOutput = true) : e.mark? x = none := by
  cases e <;> simp_all [Effect.isOutput, Effect.mark?]

theorem noRetake_of_isOutput {e : Effect} (h : e.isOutput = true) {pre : List Effect} :
    NoRetake pre e := by
  rintro id finalization rfl
  simp [Effect.isOutput] at h

/-- The log tells the marks received so far, and no take in it comes after a terminal event. -/
structure Heeded (t : List Input) (p : OrderProcessor) : Prop where
  marks : ∀ id, latest (Effect.mark? id) p.effects = latest (Input.mark? id) t
  takes : EachEntry NoRetake p.effects

theorem Heeded.receive (h : Heeded t p) (context : IncomingOrderContext) :
    Heeded (t ++ [.event context]) (p.receive context) := by
  constructor
  · intro id
    rw [receive_effects, latest_concat, latest_concat, h.marks]
    rfl
  · rw [receive_effects, eachEntry_concat]
    exact ⟨h.takes, by simp [NoRetake]⟩

theorem Heeded.processed (h : Heeded t p) : Heeded t (p.processed context) := by
  constructor
  · intro id
    rw [processed_effects, latest_append_of_none, h.marks]
    intro e he
    rcases List.mem_cons.mp he with rfl | he
    · rfl
    · exact mark?_of_isOutput (isOutput_of_mem_outputs he)
  · rw [processed_effects]
    refine h.takes.append fun e he pre => ?_
    rcases List.mem_cons.mp he with rfl | he
    · simp [NoRetake]
    · exact noRetake_of_isOutput (isOutput_of_mem_outputs he)

theorem Heeded.begun (h : Heeded t p) (hl : latest (Input.mark? id) t ≠ some .terminal) :
    Heeded t (p.begun context metadata finalization) := by
  obtain ⟨last, he, hlast⟩ := @begun_effects p context id metadata finalization
  have hmark : ∀ x, last.mark? x = none := by
    rcases hlast with ⟨_, _, rfl, _⟩ | ⟨_, rfl, _⟩ <;> exact fun _ => rfl
  have hno : ∀ pre, NoRetake pre last := by
    rcases hlast with ⟨_, _, rfl, _⟩ | ⟨_, rfl, _⟩ <;> simp [NoRetake]
  constructor
  · intro x
    rw [he, latest_append_of_none, h.marks]
    intro e hm
    simp only [List.mem_cons, List.not_mem_nil, or_false] at hm
    rcases hm with rfl | rfl | rfl
    · rfl
    · rfl
    · exact hmark x
  · rw [he, show p.effects ++ [Effect.processing context, .takeOrder id finalization, last] =
      p.effects ++ [Effect.processing context] ++ [.takeOrder id finalization] ++ [last] by simp]
    refine eachEntry_concat.mpr ⟨eachEntry_concat.mpr ⟨?_, ?_⟩, hno _⟩
    · exact h.takes.append (by simp [NoRetake])
    · rintro x f hx
      obtain ⟨rfl, rfl⟩ := Effect.takeOrder.inj hx
      rw [latest_concat, h.marks]
      simpa [Effect.mark?] using hl

theorem Heeded.congr (h : Heeded t p) {t' : List Input}
    (ht : ∀ id, latest (Input.mark? id) t' = latest (Input.mark? id) t)
    (hp : p'.effects = p.effects) : Heeded t' p' :=
  ⟨fun id => by rw [hp, ht, h.marks], by rw [hp]; exact h.takes⟩

theorem Heeded.enter (h : Heeded t p) (hst : ∀ id, Stored network t p id) (hset : Settled p)
    (he : Enter network p i p') : Heeded (t ++ [i]) p' := by
  cases he with
  | park context hl => exact (h.receive context).congr (fun _ => rfl) park_effects
  | process context hf hc => exact (h.receive context).processed
  | begin context metadata finalization hf hc hm hi =>
    apply (h.receive context).begun
    have hmark : context.mark? context.orderId = some .creation := mark?_eq_creation.mpr ⟨hc, rfl⟩
    simp [latest_concat, Input.mark?, hmark]
  | parkOrder timer ht metadata hl hm =>
    exact h.congr (fun _ => by simp [latest_concat, Input.mark?]) park_effects
  | beginOrder timer ht metadata finalization hf hm hi =>
    have hlast : ∀ id, latest (Input.mark? id) (t ++ [.timer timer.id]) =
        latest (Input.mark? id) t := fun _ => by simp [latest_concat, Input.mark?]
    have hp : p.Tracked timer.orderId := Option.isSome_iff_exists.mpr ⟨_, hm⟩
    apply Heeded.begun (p := p.expire timer ht) (h.congr hlast rfl)
    rw [hlast]
    exact (hst timer.orderId).latest_ne_terminal (hset hf).1 hp
  | settle take outcome ht he =>
    have hlast : ∀ id, latest (Input.mark? id) (t ++ [.settled 0 outcome]) =
        latest (Input.mark? id) t := fun _ => by simp [latest_concat, Input.mark?]
    rcases @ended_effects p network take outcome with hp | ⟨params, hp⟩ | ⟨params, _, hp⟩
    · exact h.congr hlast hp
    all_goals
      constructor
      · intro id
        rw [hp, hlast, latest_concat, h.marks]
        rfl
      · rw [hp, eachEntry_concat]
        exact ⟨h.takes, by simp [NoRetake]⟩
  | release take ht he => exact h.congr (fun _ => by simp [latest_concat, Input.mark?]) rfl
  | tick ms => exact h.congr (fun _ => by simp [latest_concat, Input.mark?]) rfl

theorem Heeded.round (h : Heeded t p) (hst : ∀ id, Stored network t p id) (hr : Round p p') :
    Heeded t p' := by
  cases hr with
  | process context events hf he hc =>
    exact Heeded.processed (p := { p with eventsQueue := events }) (h.congr (fun _ => rfl) rfl)
  | begin id metadata finalization hf he hq hm hi =>
    refine Heeded.begun (p := p.picked id) (h.congr (fun _ => rfl) rfl) ?_
    exact (hst id).latest_ne_terminal he (Option.isSome_iff_exists.mpr ⟨_, hm⟩)

/-- What holds in every state of every run. -/
theorem run_stored_heeded (h : (processor network).Run t s) :
    ∃ p, s = .ok p ∧ Settled p ∧ (∀ id, Stored network t p id) ∧ Heeded t p := by
  obtain ⟨p, rfl, -, hset, hst, hh⟩ := run_induct
    (J := fun t p => (∀ id, Stored network t p id) ∧ Heeded t p)
    ⟨fun id => ⟨fun hst => by simp [Standing] at hst, fun _ => .inr (by
      simp [Tracked, OrderProcessor.initial])⟩, fun _ => rfl, eachEntry_nil⟩
    (fun _ _ _ _ hr _ hset hj he =>
      ⟨Stored.enter hj.1 hr he, hj.2.enter hj.1 hset he⟩)
    (fun _ _ _ _ hj hr => ⟨Stored.round hj.1 hr, hj.2.round hj.1 hr⟩) h
  exact ⟨p, rfl, hset, hst, hh⟩

/-- No take of an order starts between a terminal event for it and the next creation event. -/
theorem never_retaken (h : (processor network).Run t s) :
    ∃ p, s = .ok p ∧ EachEntry NoRetake p.effects := by
  obtain ⟨p, rfl, -, -, hh⟩ := run_stored_heeded h
  exact ⟨p, rfl, hh.takes⟩

/-- Cancelled while it is being taken, the order is not taken again by its timer; announced
anew, it is. -/
theorem never_retaken_after_cancellation :
    ∃ s, (processor Sample.network).Run [.event (Sample.created "a" (.finalized "")),
      .event (Sample.cancelled "a"), .settled 0 .success, .returned 0,
      .event (Sample.archivalCreated "a")] s ∧
    ∃ p, s = .ok p ∧ EachEntry NoRetake p.effects := by
  apply Machine.exists_run_and
  · decide +kernel
  · intro s hr
    exact never_retaken hr

end Retaking

section Overtaking

theorem Overtaken.latest (h : Overtaken network t id) :
    latest (Input.mark? id) t = some .creation := by
  obtain ⟨t₁, context, t₂, p, rfl, hno, hc, -, -⟩ := h
  rw [show t₁ ++ Input.event context :: t₂ = (t₁ ++ [.event context]) ++ t₂ by simp,
    latest_append_of_none hno, latest_concat]
  simp [Input.mark?, hc]

/-- Whenever the processor is free, an order is tracked as its last word says, unless that word
is a creation that arrived while a terminal event for the order was waiting. -/
theorem tracked_iff_creation_iff (h : (processor network).Run t s) :
    ∃ p, s = .ok p ∧ (p.isLocked = false → ∀ id,
      ((p.Tracked id ↔ latest (Input.mark? id) t = some .creation) ↔
        ¬ Overtaken network t id)) := by
  obtain ⟨p, rfl, hset, hst, -⟩ := run_stored_heeded h
  refine ⟨p, rfl, fun hf id => ?_⟩
  have hne : ¬ Ending p id := by simp [Ending, (hset hf).1]
  have htr : p.Tracked id ↔ Standing network t id := by
    constructor
    · intro hp
      by_contra hns
      rcases (hst id).of_not_standing hns with he | hn
      · exact hne he
      · exact hn hp
    · exact fun hs => ((hst id).of_standing hs).1
  rw [htr, Standing]
  constructor
  · intro hiff ho
    exact (hiff.mpr ho.latest).2 ho
  · intro ho
    exact ⟨And.left, fun hl => ⟨hl, ho⟩⟩

/-- The order is cancelled and announced anew, first while the processor is free. -/
theorem tracked_iff_creation_iff_while_free :
    ∃ s, (processor Sample.network).Run [.event (Sample.cancelled "a"),
      .event (Sample.created "a" (.finalized "")), .settled 0 .success, .returned 0] s ∧
    ∃ p, s = .ok p ∧ (p.isLocked = false → ∀ id,
      ((p.Tracked id ↔ latest (Input.mark? id) [.event (Sample.cancelled "a"),
        .event (Sample.created "a" (.finalized "")), .settled 0 .success, .returned 0] =
          some .creation) ↔
        ¬ Overtaken Sample.network [.event (Sample.cancelled "a"),
          .event (Sample.created "a" (.finalized "")), .settled 0 .success, .returned 0] id)) := by
  apply Machine.exists_run_and
  · decide +kernel
  · intro s hr
    exact tracked_iff_creation_iff hr

/-- The same two events during a take of the order leave a free processor that has forgotten it. -/
theorem creation_lost_while_busy :
    ∃ p, (processor Sample.network).Run [.event (Sample.created "a" (.finalized "")),
      .event (Sample.cancelled "a"), .event (Sample.created "a" (.finalized "")),
      .settled 0 .success, .returned 0] (.ok p) ∧ p.isLocked = false ∧
    latest (Input.mark? "a") [.event (Sample.created "a" (.finalized "")),
      .event (Sample.cancelled "a"), .event (Sample.created "a" (.finalized "")),
      .settled 0 .success, .returned 0] = some .creation ∧ ¬ p.Tracked "a" := by
  obtain ⟨s, hr, hp⟩ := Machine.exists_run_of_any (M := processor Sample.network)
    (t := [.event (Sample.created "a" (.finalized "")), .event (Sample.cancelled "a"),
      .event (Sample.created "a" (.finalized "")), .settled 0 .success, .returned 0])
    (p := fun s => match s with
      | .ok p => !p.isLocked && (p.createdOrdersMetadata "a").isNone
      | .error _ => false) (by decide +kernel)
  cases s with
  | error crash => simp at hp
  | ok p =>
    obtain ⟨hl, hm⟩ : p.isLocked = false ∧ p.createdOrdersMetadata "a" = none := by simpa using hp
    exact ⟨p, hr, hl, by decide +kernel, by simp [Tracked, hm]⟩

end Overtaking

end DlnTaker
