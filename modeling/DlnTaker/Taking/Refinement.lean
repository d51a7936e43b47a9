import DlnTaker.Limits.FleetStep
import DlnTaker.Taking.Takers

/-! # The takers refine the abstract take runs

Whatever the takers of a give chain do, an abstract run does with the same
controllers, the same give chain and the same transactions. An attempt stands for
an abstract run that is suspended at the same place; the updates at the end of an
attempt are one step there.
-/

namespace DlnTaker

open Dialogue Taking

section Lists

variable {α β : Type} {R : α → β → Prop} {as : List α} {bs : List β} {a : α} {b : β} {n : ℕ}

theorem forall₂_set (h : List.Forall₂ R as bs) (hr : R a b) :
    List.Forall₂ R (as.set n a) (bs.set n b) := by
  induction h generalizing n with
  | nil => exact .nil
  | cons hhead htail ih =>
    cases n with
    | zero => exact .cons hr htail
    | succ n => exact .cons hhead ih

theorem forall₂_eraseIdx (h : List.Forall₂ R as bs) :
    List.Forall₂ R (as.eraseIdx n) (bs.eraseIdx n) := by
  rw [List.eraseIdx_eq_take_drop_succ, List.eraseIdx_eq_take_drop_succ]
  exact List.rel_append (List.forall₂_take n h) (List.forall₂_drop (n + 1) h)

theorem exists_of_forall₂ (h : List.Forall₂ R as bs) (ha : as[n]? = some a) :
    ∃ b, bs[n]? = some b ∧ R a b := by
  induction h generalizing n with
  | nil => cases ha
  | cons hhead htail ih =>
    cases n with
    | zero =>
      obtain rfl := Option.some.inj ha
      exact ⟨_, rfl, hhead⟩
    | succ n => exact ih ha

end Lists

variable {config : TakersConfig} {order : CreatedOrder} {phase phase' : Phase}
  {before before' s s' : Takers} {stage stage' : TakeStage} {takes : List TakeRun} {n : ℕ}
  {p rest : Taking Unit} {P : CreatedOrder → Prop}

namespace Takers

/-- The abstract state with the given take runs. -/
def fleet (s : Takers) (takes : List TakeRun) : Fleet where
  now := s.now
  throughput := s.throughput
  tvlBudget := s.tvlBudget
  chain := s.chain
  takes := takes
  submitted := s.submitted
  sends := s.sends

/-- The calculation has been resolved. -/
def Resolved (s : Takers) (n : ℕ) (tvl : ℚ) : Prop :=
  s.tvlBudget.calculations[n]?.map Calculation.stage = some (.resolved tvl)

/-- What has been updated at the end of an attempt that started in the given state. -/
inductive Updates (config : TakersConfig) (order : CreatedOrder) (s : Takers) :
    Phase → Takers → Prop
  | added (throughput : ThroughputController) :
      s.throughput.addOrder s.now order.orderId (config.fleet.blockConfirmations order)
        (config.fleet.usdValue order.orderId) = .ok throughput →
      Updates config order s .added { s with throughput }
  | flushed (throughput : ThroughputController) :
      s.throughput.addOrder s.now order.orderId (config.fleet.blockConfirmations order)
        (config.fleet.usdValue order.orderId) = .ok throughput →
      Updates config order s .flushed
        { s with throughput, tvlBudget := s.tvlBudget.flushCache }
  | reported (throughput : ThroughputController) :
      s.throughput.addOrder s.now order.orderId (config.fleet.blockConfirmations order)
        (config.fleet.usdValue order.orderId) = .ok throughput →
      Updates config order s .reported
        { s with throughput, tvlBudget := s.tvlBudget.flushCache }

/-- The stage at which the abstract run of an attempt is, in the state that it has not yet left. -/
inductive At (config : TakersConfig) (order : CreatedOrder) (before : Takers) :
    Takers → Phase → TakeStage → Prop
  | validating : At config order before before .validating .validating
  | budgeted (n : ℕ) (tvl : ℚ) : before.Resolved n tvl →
      At config order before before (.budgeted tvl) (.awaitingTVL n)
  | unthrottled : At config order before before .unthrottled .notThrottled
  | fulfilled : At config order before before .fulfilled .fulfilled
  | adding : At config order before before (.adding before.throughput) .fulfilled
  | addingAt :
      At config order before before (.addingAt before.throughput before.now) .fulfilled
  | updates (phase : Phase) (s : Takers) : Updates config order before phase s →
      At config order before s phase .fulfilled
  | ending (stage : TakeStage) : At config order before before .ending stage

/-- The abstract machine can go from the one state to the other, taking only such orders. -/
def Leads (config : TakersConfig) (P : CreatedOrder → Prop) (u u' : Fleet) : Prop :=
  ∃ inputs, (∀ order, FleetInput.take order ∈ inputs → P order) ∧
    ∀ chain, (DlnTaker.fleet config.fleet chain).exec u inputs = some u'

theorem Leads.refl (u : Fleet) : Leads config P u u := ⟨[], by simp, fun _ => rfl⟩

theorem Leads.trans {u u' u'' : Fleet} (h : Leads config P u u')
    (h' : Leads config P u' u'') : Leads config P u u'' := by
  obtain ⟨inputs, hp, hexec⟩ := h
  obtain ⟨inputs', hp', hexec'⟩ := h'
  refine ⟨inputs ++ inputs', fun order hm => ?_, fun chain => ?_⟩
  · exact (List.mem_append.mp hm).elim (hp order) (hp' order)
  · rw [Machine.exec_append, hexec]
    exact hexec' chain

theorem Leads.of_step {u u' : Fleet} (i : FleetInput) (hi : ∀ order, i = .take order → P order)
    (h : u.step config.fleet i = some u') : Leads config P u u' :=
  ⟨[i], fun order hm => hi order (List.mem_singleton.mp hm).symm,
    fun _ => Machine.exec_singleton.trans h⟩

/-- The state in which the n-th abstract run is at the given stage. -/
def fleetAt (s : Takers) (takes : List TakeRun) (n : ℕ) (order : CreatedOrder)
    (stage : TakeStage) : Fleet :=
  s.fleet (takes.set n ⟨order, stage⟩)

theorem leads_of_takeStep (input : TakeInput) {u : Fleet} (hn : n < takes.length)
    (h : (s.fleetAt takes n order stage).takeStep config.fleet n ⟨order, stage⟩ input = some u) :
    Leads config P (s.fleetAt takes n order stage) u := by
  refine Leads.of_step (.run n input) nofun ?_
  have hget : (s.fleetAt takes n order stage).takes[n]? = some ⟨order, stage⟩ :=
    List.getElem?_set_self hn
  rw [Fleet.step, hget]
  exact h

theorem moved_fleetAt : (s.fleetAt takes n order stage).moved n ⟨order, stage⟩ stage' =
    s.fleetAt takes n order stage' := by
  simp only [fleetAt, Fleet.moved, fleet, List.set_set]

theorem ended_fleetAt :
    (s.fleetAt takes n order stage).ended n = s.fleet (takes.eraseIdx n) := by
  simp only [fleetAt, Fleet.ended, fleet, List.eraseIdx_set_eq]

/-- The order passes both limits. -/
theorem leads_notThrottled (hn : n < takes.length) (hat : At config order before s phase stage)
    (hpast : config.PastBudget order phase)
    (ht : before.throughput.isThrottled (config.fleet.blockConfirmations order)
      (config.fleet.usdValue order.orderId) = false) :
    Leads config P (before.fleetAt takes n order stage)
      (before.fleetAt takes n order .notThrottled) := by
  have hthroughput : Leads config P (before.fleetAt takes n order .withinBudget)
      (before.fleetAt takes n order .notThrottled) := by
    refine leads_of_takeStep .checkThroughput hn ?_
    have hfits : ¬ (before.fleetAt takes n order .withinBudget).throughput.isThrottled
        (config.fleet.blockConfirmations order) (config.fleet.usdValue order.orderId) = true :=
      Bool.eq_false_iff.mp ht
    exact (if_neg hfits).trans (congrArg some moved_fleetAt)
  refine Leads.trans ?_ hthroughput
  rcases hpast with ⟨rfl, hpos⟩ | ⟨tvl, rfl, hle⟩
  · cases hat with
    | validating =>
      refine leads_of_takeStep .checkTVLBudget hn ?_
      exact (if_neg hpos).trans (congrArg some moved_fleetAt)
    | updates _ _ hu => cases hu
  · cases hat with
    | budgeted k _ hresolved =>
      have hstage : (before.fleetAt takes n order (.awaitingTVL k)).tvlBudget.calculations[k]?.map
          Calculation.stage = some (.resolved tvl) := hresolved
      refine leads_of_takeStep .compareTVL hn ?_
      simp only [Fleet.takeStep, hstage]
      exact (if_neg (not_lt.mpr hle)).trans (congrArg some moved_fleetAt)
    | updates _ _ hu => cases hu

/-- A query that is no lookup is answered, and the abstract run keeps up with it. -/
theorem heard (hn : n < takes.length) (hat : At config order before s phase stage)
    (hacc : before.throughput.Accounted) {query : Request} (hq : ∀ l, query ≠ .lookup l)
    (hallowed : config.Allowed order phase query) :
    ∃ answer s₁ stage₁, s.hear config query = some (answer, s₁) ∧
      Leads config P (before.fleetAt takes n order stage)
        (before.fleetAt takes n order stage₁) ∧
      At config order before s₁ (config.nextPhase order phase query answer) stage₁ := by
  cases query with
  | lookup l => exact absurd rfl (hq l)
  | now =>
    refine ⟨s.now, s, stage, rfl, .refl _, ?_⟩
    cases hat with
    | validating => exact .validating
    | budgeted k tvl hresolved => exact .budgeted k tvl hresolved
    | unthrottled => exact .unthrottled
    | fulfilled => exact .fulfilled
    | adding => exact .addingAt
    | addingAt => cases hallowed
    | updates _ _ hu => cases hu <;> cases hallowed
    | ending => cases hallowed
  | throughput c =>
    have hcheck : config.PastBudget order phase → before = s → c = config.chain →
        (∀ throughput, config.nextPhase order phase (.throughput c) throughput =
          config.checked order throughput.1) →
        ∃ answer s₁ stage₁, s.hear config (.throughput c) = some (answer, s₁) ∧
          Leads config P (before.fleetAt takes n order stage)
            (before.fleetAt takes n order stage₁) ∧
          At config order before s₁ (config.nextPhase order phase (.throughput c) answer)
            stage₁ := by
      rintro hpast rfl hc hphase
      have hhear : before.hear config (.throughput c) =
          some (⟨before.throughput, hacc⟩, before) := dif_pos ⟨hc, hacc⟩
      cases ht : before.throughput.isThrottled (config.fleet.blockConfirmations order)
          (config.fleet.usdValue order.orderId) with
      | true =>
        refine ⟨_, _, stage, hhear, .refl _, ?_⟩
        rw [hphase, TakersConfig.checked, if_pos ht]
        exact .ending stage
      | false =>
        refine ⟨_, _, .notThrottled, hhear, leads_notThrottled hn hat hpast ht, ?_⟩
        rw [hphase, TakersConfig.checked, if_neg (Bool.eq_false_iff.mp ht)]
        exact .unthrottled
    cases hat with
    | validating => exact hcheck (.inl ⟨rfl, hallowed.2⟩) rfl hallowed.1 fun _ => rfl
    | budgeted k tvl hresolved =>
      exact hcheck (.inr ⟨tvl, rfl, hallowed.2⟩) rfl hallowed.1 fun _ => rfl
    | fulfilled =>
      exact ⟨⟨before.throughput, hacc⟩, before, .fulfilled, dif_pos ⟨hallowed, hacc⟩, .refl _,
        .adding⟩
    | updates _ _ hu => cases hu <;> cases hallowed
    | _ => cases hallowed
  | setThroughput c throughput =>
    cases hat with
    | addingAt =>
      exact ⟨(), _, .fulfilled, if_pos hallowed.1, .refl _,
        .updates _ _ (.added throughput hallowed.2)⟩
    | updates _ _ hu => cases hu <;> cases hallowed
    | _ => cases hallowed
  | flushCache c =>
    cases hat with
    | updates _ _ hu =>
      cases hu with
      | added throughput hadd =>
        exact ⟨(), _, .fulfilled, if_pos hallowed, .refl _,
          .updates _ _ (.flushed throughput hadd)⟩
      | _ => cases hallowed
    | _ => cases hallowed
  | orderFulfilled params =>
    cases hat with
    | updates _ _ hu =>
      cases hu with
      | flushed throughput hadd =>
        exact ⟨(), _, .fulfilled, rfl, .refl _, .updates _ _ (.reported throughput hadd)⟩
      | _ => cases hallowed
    | _ => cases hallowed

/-- Only a lookup is awaited. -/
def Suspended : Taking Unit → Prop
  | Dialogue.ask (.lookup _) _ => True
  | Dialogue.ask _ _ => False
  | _ => True

/-- A section has come to a lookup or to its end, with the abstract run close behind it. -/
def Arrived (config : TakersConfig) (P : CreatedOrder → Prop) (order : CreatedOrder)
    (takes : List TakeRun) (n : ℕ) (u : Fleet) (s : Takers) (rest : Taking Unit) : Prop :=
  ∃ before phase stage, Leads config P u (before.fleetAt takes n order stage) ∧
    At config order before s phase stage ∧ config.Proper order phase rest ∧ Suspended rest

theorem Arrived.after {u u' : Fleet} (h : Arrived config P order takes n u' s rest)
    (hl : Leads config P u u') : Arrived config P order takes n u s rest := by
  obtain ⟨before, phase, stage, hl', hat, hp, hs⟩ := h
  exact ⟨before, phase, stage, hl.trans hl', hat, hp, hs⟩

/-- A section runs to a lookup or to its end. -/
theorem exists_proceed (hn : n < takes.length) (hat : At config order before s phase stage)
    (hacc : before.throughput.Accounted) (hp : config.Proper order phase p) :
    ∃ s' rest, proceed config p s = some (s', rest) ∧
      Arrived config P order takes n (before.fleetAt takes n order stage) s' rest := by
  induction p generalizing s phase stage with
  | done u => exact ⟨s, .done u, rfl, before, phase, stage, .refl _, hat, hp, trivial⟩
  | stop reason => exact ⟨s, .stop reason, rfl, before, phase, stage, .refl _, hat, hp, trivial⟩
  | ask query next ih =>
    obtain ⟨hallowed, hafter⟩ := hp
    by_cases hq : ∀ l, query ≠ .lookup l
    · obtain ⟨answer, s₁, stage₁, hhear, hleads, hat₁⟩ := heard (P := P) hn hat hacc hq hallowed
      have hexpected : (config.rules order).Expected query answer := by
        cases query with
        | lookup l => exact absurd rfl (hq l)
        | _ => trivial
      obtain ⟨s', rest, hproceed, harrived⟩ := ih answer hat₁ (hafter answer hexpected)
      refine ⟨s', rest, ?_, harrived.after hleads⟩
      rw [proceed_ask hq, hhear]
      exact hproceed
    · obtain ⟨l, rfl⟩ := not_forall_not.mp hq
      exact ⟨s, _, rfl, before, phase, stage, .refl _, hat, ⟨hallowed, hafter⟩, trivial⟩

theorem hear_kept {query : Request} {answer : Answer query}
    (h : s.hear config query = some (answer, s')) :
    s'.attempts = s.attempts ∧ s'.tvlBudget.calculations = s.tvlBudget.calculations := by
  cases query with
  | lookup l => cases h
  | now | orderFulfilled =>
    obtain ⟨-, rfl⟩ := Prod.mk.inj (Option.some.inj h)
    exact ⟨rfl, rfl⟩
  | throughput | setThroughput | flushCache =>
    simp only [hear] at h
    split at h
    · obtain ⟨-, rfl⟩ := Prod.mk.inj (Option.some.inj h)
      exact ⟨rfl, rfl⟩
    · cases h

theorem proceed_kept (h : proceed config p s = some (s', rest)) :
    s'.attempts = s.attempts ∧ s'.tvlBudget.calculations = s.tvlBudget.calculations := by
  induction p generalizing s with
  | done u =>
    obtain ⟨rfl, rfl⟩ := Prod.mk.inj (Option.some.inj h)
    exact ⟨rfl, rfl⟩
  | stop reason =>
    obtain ⟨rfl, rfl⟩ := Prod.mk.inj (Option.some.inj h)
    exact ⟨rfl, rfl⟩
  | ask query next ih =>
    by_cases hq : ∀ l, query ≠ .lookup l
    · rw [proceed_ask hq] at h
      obtain ⟨⟨answer, s₁⟩, hhear, hproceed⟩ := Option.bind_eq_some_iff.mp h
      obtain ⟨hattempts, hcalculations⟩ := hear_kept hhear
      obtain ⟨hattempts', hcalculations'⟩ := ih answer hproceed
      exact ⟨hattempts'.trans hattempts, hcalculations'.trans hcalculations⟩
    · obtain ⟨l, rfl⟩ := not_forall_not.mp hq
      obtain ⟨rfl, rfl⟩ := Prod.mk.inj (Option.some.inj h)
      exact ⟨rfl, rfl⟩

/-! ### Suspended attempts -/

/-- The stage of an abstract run whose attempt waits for a plain lookup. -/
def OpenAt (s : Takers) : Phase → TakeStage → Prop
  | .validating, .validating | .unthrottled, .notThrottled | .fulfilled, .fulfilled => True
  | .budgeted tvl, .awaitingTVL n => s.Resolved n tvl
  | _, _ => False

/-- An attempt and the abstract run that it stands for. -/
inductive Stands (config : TakersConfig) (s : Takers) : Attempt → TakeRun → Prop
  | lookup (order : CreatedOrder) (l : Lookup) (next : Answer (.lookup l) → Taking Unit)
      (phase : Phase) (stage : TakeStage) : config.Fits order → l.isPlain = true →
      s.OpenAt phase stage → config.Proper order phase (Dialogue.ask (.lookup l) next) →
      Stands config s ⟨order, Dialogue.ask (.lookup l) next, .lookup⟩ ⟨order, stage⟩
  | calculation (order : CreatedOrder) (c : ChainId)
      (next : Answer (.lookup (.getCurrentTVL c)) → Taking Unit) (n : ℕ) : config.Fits order →
      config.Proper order .validating (Dialogue.ask (.lookup (.getCurrentTVL c)) next) →
      Stands config s ⟨order, Dialogue.ask (.lookup (.getCurrentTVL c)) next, .calculation n⟩
        ⟨order, .awaitingTVL n⟩
  | sender (order : CreatedOrder) (estimation : OrderEstimation)
      (next : Answer (.lookup (.fulfill estimation)) → Taking Unit) (broadcast : Bool) :
      config.Fits order →
      config.Proper order .unthrottled (Dialogue.ask (.lookup (.fulfill estimation)) next) →
      Stands config s ⟨order, Dialogue.ask (.lookup (.fulfill estimation)) next,
        .sender broadcast⟩ ⟨order, if broadcast then .broadcast else .fulfilling⟩

/-- The abstract run ends with its attempt, or stands where the attempt waits. -/
def Settled (config : TakersConfig) (P : CreatedOrder → Prop) (takes : List TakeRun) (n : ℕ)
    (u : Fleet) (s : Takers) : Option Attempt → Prop
  | some attempt => ∃ run, Leads config P u (s.fleet (takes.set n run)) ∧
      Stands config s attempt run
  | none => Leads config P u (s.fleet (takes.eraseIdx n))

theorem At.eq_of_mayStop (hat : At config order before s phase stage) (hp : phase.MayStop) :
    before = s := by
  cases hat with
  | updates _ _ hu => cases hu <;> cases hp
  | _ => rfl

theorem settled_of_suspend {attempt : Option Attempt} {u : Fleet} (hfits : config.Fits order)
    (hn : n < takes.length) (harrived : Arrived config P order takes n u s rest)
    (h : s.suspend config order rest = some (s', attempt)) :
    Settled config P takes n u s' attempt := by
  obtain ⟨before, phase, stage, hleads, hat, hp, hs⟩ := harrived
  cases rest with
  | done value =>
    obtain ⟨rfl, rfl⟩ := Prod.mk.inj (Option.some.inj h)
    obtain rfl : phase = .reported := hp
    refine hleads.trans ?_
    cases hat with
    | updates _ _ hu =>
      cases hu with
      | reported throughput hadd =>
        refine leads_of_takeStep .addOrder hn ?_
        have hadd' : (before.fleetAt takes n order .fulfilled).throughput.addOrder
            (before.fleetAt takes n order .fulfilled).now order.orderId
            (config.fleet.blockConfirmations order) (config.fleet.usdValue order.orderId) =
              .ok throughput := hadd
        simp only [Fleet.takeStep, hadd', ended_fleetAt]
        rfl
  | stop reason =>
    have hmay : phase.MayStop := hp
    obtain rfl := hat.eq_of_mayStop hmay
    have hended : Leads config P u (before.fleet (takes.eraseIdx n)) :=
      hleads.trans (leads_of_takeStep .abort hn (congrArg some ended_fleetAt))
    cases reason with
    | died message => cases h
    | _ =>
      obtain ⟨rfl, rfl⟩ := Prod.mk.inj (Option.some.inj h)
      exact hended
  | ask query next =>
    cases query with
    | lookup l =>
      have hallowed : config.Allowed order phase (.lookup l) := hp.1
      cases l with
      | getCurrentTVL c =>
        cases hat with
        | validating =>
          obtain ⟨rfl, rfl⟩ := Prod.mk.inj (Option.some.inj h)
          let called :=
            s.tvlBudget.getCurrentTVL config.fleet.toTVLBudgetConfig s.chain s.now
          have hmoved := @moved_fleetAt order { s with tvlBudget := called.2 } .validating
            (.awaitingTVL called.1) takes n
          exact ⟨_, hleads.trans (leads_of_takeStep .checkTVLBudget hn
            ((if_pos hallowed.2).trans (congrArg some hmoved))),
            .calculation order c next _ hfits hp⟩
        | updates _ _ hu => cases hu <;> cases hallowed
        | _ => cases hallowed
      | fulfill estimation =>
        cases hat with
        | unthrottled =>
          obtain ⟨rfl, rfl⟩ := Prod.mk.inj (Option.some.inj h)
          refine ⟨_, hleads.trans (leads_of_takeStep .attemptFulfil hn ?_),
            .sender order estimation next false hfits hp⟩
          exact congrArg some moved_fleetAt
        | updates _ _ hu => cases hu <;> cases hallowed
        | _ => cases hallowed
      | _ =>
        obtain ⟨rfl, rfl⟩ := Prod.mk.inj (Option.some.inj h)
        have hopen : s.OpenAt phase stage ∧ before = s := by
          cases hat with
          | validating | unthrottled | fulfilled => exact ⟨trivial, rfl⟩
          | budgeted k tvl hresolved => exact ⟨hresolved, rfl⟩
          | updates _ _ hu => cases hu <;> cases hallowed
          | _ => cases hallowed
        obtain ⟨hopen, rfl⟩ := hopen
        exact ⟨_, hleads, .lookup order _ next phase stage hfits rfl hopen hp⟩
    | _ => cases hs

/-- A resolved calculation stays what it is. -/
def Keeps (s s' : Takers) : Prop := ∀ k tvl, s.Resolved k tvl → s'.Resolved k tvl

theorem OpenAt.isOpen (h : s.OpenAt phase stage) : phase.IsOpen := by
  unfold OpenAt at h
  split at h
  all_goals trivial

theorem OpenAt.mono (h : s.OpenAt phase stage) (hk : s.Keeps s') : s'.OpenAt phase stage := by
  unfold OpenAt at h ⊢
  split
  all_goals simp only at h
  all_goals first | trivial | exact hk _ _ h

theorem Stands.mono {attempt : Attempt} {run : TakeRun} (h : Stands config s attempt run)
    (hk : s.Keeps s') : Stands config s' attempt run := by
  cases h with
  | lookup order l next phase stage hfits hl hopen hp =>
    exact .lookup order l next phase stage hfits hl (hopen.mono hk) hp
  | calculation order c next k hfits hp => exact .calculation order c next k hfits hp
  | sender order estimation next broadcast hfits hp =>
    exact .sender order estimation next broadcast hfits hp

/-- The attempts stand for the abstract runs. -/
abbrev StandFor (config : TakersConfig) (s : Takers) (takes : List TakeRun) : Prop :=
  List.Forall₂ (Stands config s) s.attempts takes

theorem keeps_getCurrentTVL (s : Takers) (config : TVLBudgetConfig) (now : ℕ) :
    s.Keeps { s with tvlBudget := (s.tvlBudget.getCurrentTVL config s.chain now).2 } := by
  intro k tvl hresolved
  unfold Resolved TVLBudgetController.getCurrentTVL
  split
  · exact hresolved
  · obtain ⟨calculation, hk, hstage⟩ := Option.map_eq_some_iff.mp hresolved
    have hlt : k < s.tvlBudget.calculations.length := (List.getElem?_eq_some_iff.mp hk).1
    rw [List.getElem?_append_left hlt, hk, Option.map_some, hstage]

theorem suspend_kept {attempt : Option Attempt}
    (h : s.suspend config order rest = some (s', attempt)) :
    s'.attempts = s.attempts ∧ s.Keeps s' := by
  have hself : s.attempts = s.attempts ∧ s.Keeps s := ⟨rfl, fun _ _ => id⟩
  cases rest with
  | done value =>
    obtain ⟨rfl, -⟩ := Prod.mk.inj (Option.some.inj h)
    exact hself
  | stop reason =>
    cases reason with
    | died message => cases h
    | _ =>
      obtain ⟨rfl, -⟩ := Prod.mk.inj (Option.some.inj h)
      exact hself
  | ask query next =>
    cases query with
    | lookup l =>
      cases l with
      | getCurrentTVL c =>
        obtain ⟨rfl, -⟩ := Prod.mk.inj (Option.some.inj h)
        exact ⟨rfl, keeps_getCurrentTVL s _ _⟩
      | _ =>
        obtain ⟨rfl, -⟩ := Prod.mk.inj (Option.some.inj h)
        exact hself
    | _ =>
      obtain ⟨rfl, -⟩ := Prod.mk.inj (Option.some.inj h)
      exact hself

/-- Only a failed assertion keeps a section from its end. -/
theorem exists_suspend (hs : Suspended rest) (hrest : ∀ message, rest ≠ .stop (.died message)) :
    ∃ s' attempt, s.suspend config order rest = some (s', attempt) := by
  cases rest with
  | done value => exact ⟨_, _, rfl⟩
  | stop reason =>
    cases reason with
    | died message => exact absurd rfl (hrest message)
    | _ => exact ⟨_, _, rfl⟩
  | ask query next =>
    cases query with
    | lookup l => cases l <;> exact ⟨_, _, rfl⟩
    | _ => cases hs

/-- What a section does to its own attempt, and that it leaves the others alone. -/
theorem settled_of_runSection {attempt : Option Attempt} (hacc : s.throughput.Accounted)
    (hfits : config.Fits order) (hn : n < takes.length) (hat : At config order s s phase stage)
    (hp : config.Proper order phase p)
    (h : s.runSection config order p = some (s', attempt)) :
    Settled config P takes n (s.fleetAt takes n order stage) s' attempt ∧
      s'.attempts = s.attempts ∧ s.Keeps s' := by
  obtain ⟨⟨s₁, rest⟩, hproceed, hsuspend⟩ := Option.bind_eq_some_iff.mp h
  obtain ⟨s₂, rest', hproceed', harrived⟩ := exists_proceed (P := P) hn hat hacc hp
  obtain ⟨rfl, rfl⟩ := Prod.mk.inj (Option.some.inj (hproceed.symm.trans hproceed'))
  obtain ⟨hattempts, hcalculations⟩ := proceed_kept hproceed
  obtain ⟨hattempts', hkeeps⟩ := suspend_kept hsuspend
  refine ⟨settled_of_suspend hfits hn harrived hsuspend,
    hattempts'.trans hattempts, fun k tvl hresolved => hkeeps k tvl ?_⟩
  rw [Resolved, hcalculations]
  exact hresolved

/-! ### Steps -/

theorem leads_fleetAt (hget : takes[n]? = some ⟨order, stage⟩) :
    Leads config P (s.fleet takes) (s.fleetAt takes n order stage) := by
  obtain ⟨hn, hself⟩ := List.getElem?_eq_some_iff.mp hget
  rw [fleetAt, ← hself, List.set_getElem_self]
  exact .refl _

/-- The stage of an open phase before a section. -/
theorem OpenAt.toAt (h : s.OpenAt phase stage) : At config order s s phase stage := by
  unfold OpenAt at h
  split at h
  · exact .validating
  · exact .unthrottled
  · exact .fulfilled
  · exact .budgeted _ _ h
  · exact h.elim

/-- An attempt that hears what it waits for is where its abstract run can come to. -/
theorem exists_resumed {i : TakersInput} (hf : StandFor config s takes)
    (h : s.resumed config i = some (n, order, p)) :
    ∃ phase stage, n < takes.length ∧
      Leads config P (s.fleet takes) (s.fleetAt takes n order stage) ∧ config.Fits order ∧
      At config order s s phase stage ∧ config.Proper order phase p := by
  unfold resumed at h
  split at h
  · rename_i m found
    split at h
    · rename_i order' l next hget
      split at h
      · rename_i hagrees
        cases h
        obtain ⟨run, hrun, hstands⟩ := exists_of_forall₂ hf hget
        cases hstands with
        | lookup _ _ _ phase stage hfits hl hopen hp =>
          have hstay := (TakersConfig.allowed_of_isPlain config order hopen.isOpen (.lookup l) hl).2
          have hnext : config.Proper order phase (next (found l)) := by
            have hafter := hp.2 (found l) hagrees
            change config.Proper order (config.nextPhase order phase (.lookup l) (found l)) _
              at hafter
            rwa [hstay] at hafter
          exact ⟨phase, stage, (List.getElem?_eq_some_iff.mp hrun).1, leads_fleetAt hrun, hfits,
            hopen.toAt, hnext⟩
      · cases h
    · cases h
  · rename_i m err
    split at h
    · rename_i order' c next k hget
      obtain ⟨run, hrun, hstands⟩ := exists_of_forall₂ hf hget
      have hm : m < takes.length := (List.getElem?_eq_some_iff.mp hrun).1
      cases hstands with
      | calculation _ _ _ _ hfits hp =>
        split at h
        · rename_i tvl hstage
          cases h
          exact ⟨_, _, hm, leads_fleetAt hrun, hfits, .budgeted k tvl hstage, hp.2 (.ok tvl) rfl⟩
        · cases h
          exact ⟨_, _, hm, leads_fleetAt hrun, hfits, .ending _, hp.2 (.error err) rfl⟩
        · cases h
    · cases h
  · rename_i m result
    split at h
    · rename_i order' estimation next broadcast hget
      obtain ⟨run, hrun, hstands⟩ := exists_of_forall₂ hf hget
      have hm : m < takes.length := (List.getElem?_eq_some_iff.mp hrun).1
      split at h
      · cases h
      · rename_i hresult
        cases h
        cases hstands with
        | sender _ _ _ _ hfits hp =>
          cases result with
          | error err =>
            exact ⟨_, _, hm, leads_fleetAt hrun, hfits, .ending _, hp.2 (.error err) rfl⟩
          | ok txHash =>
            cases broadcast with
            | false => exact absurd ⟨rfl, rfl⟩ hresult
            | true =>
              have hconfirm : Leads config P (s.fleetAt takes n order .broadcast)
                  (s.fleetAt takes n order .fulfilled) :=
                leads_of_takeStep .confirm hm (congrArg some moved_fleetAt)
              exact ⟨_, _, hm, (leads_fleetAt hrun).trans hconfirm, hfits, .fulfilled,
                hp.2 (.ok txHash) rfl⟩
    · cases h
  · cases h

/-- An attempt goes on. -/
theorem simulated_resume {i : TakersInput} (hacc : s.throughput.Accounted)
    (hf : StandFor config s takes) (hr : s.resumed config i = some (n, order, p))
    (h : s.resume config n order p = some s') :
    ∃ takes', Leads config P (s.fleet takes) (s'.fleet takes') ∧
      StandFor config s' takes' := by
  obtain ⟨phase, stage, hn, hleads, hfits, hat, hp⟩ := exists_resumed (P := P) hf hr
  obtain ⟨⟨s₁, attempt⟩, hsection, rfl⟩ := Option.map_eq_some_iff.mp h
  have hsettled : Settled config P takes n (s.fleetAt takes n order stage) s₁ attempt ∧
      s₁.attempts = s.attempts ∧ s.Keeps s₁ := settled_of_runSection hacc hfits hn hat hp hsection
  obtain ⟨hsettled, hattempts, hkeeps⟩ := hsettled
  have hf₁ : List.Forall₂ (Stands config s₁) s₁.attempts takes := by
    rw [hattempts]
    exact hf.imp fun _ _ hstands => hstands.mono hkeeps
  cases attempt with
  | some attempt =>
    obtain ⟨run, hsettled, hstands⟩ := hsettled
    exact ⟨takes.set n run, hleads.trans hsettled, (forall₂_set hf₁ hstands).imp fun _ _ h =>
      h.mono fun _ _ => id⟩
  | none =>
    exact ⟨takes.eraseIdx n, hleads.trans hsettled, (forall₂_eraseIdx hf₁).imp fun _ _ h =>
      h.mono fun _ _ => id⟩

theorem simulated_send (hf : StandFor config s takes) (h : s.send config n = some s') :
    ∃ takes', Leads config P (s.fleet takes) (s'.fleet takes') ∧
      StandFor config s' takes' := by
  unfold send at h
  split at h
  · rename_i order rest broadcast hget
    obtain rfl := Option.some.inj h
    obtain ⟨run, hrun, hstands⟩ := exists_of_forall₂ hf hget
    have hn : n < takes.length := (List.getElem?_eq_some_iff.mp hrun).1
    cases hstands with
    | sender _ estimation next _ hfits hp =>
      refine ⟨takes.set n ⟨order, .broadcast⟩, (leads_fleetAt hrun).trans
        (leads_of_takeStep .send hn ?_), ?_⟩
      · cases broadcast <;> simp [Fleet.takeStep, fleetAt, Fleet.moved, fleet, List.set_set]
      · have hstands' : Stands config s ⟨order, _, .sender true⟩ ⟨order, .broadcast⟩ :=
          .sender order estimation next true hfits hp
        exact (forall₂_set hf hstands').imp fun _ _ h => h.mono fun _ _ => id
  · cases h

theorem Stands.order_eq {attempt : Attempt} {run : TakeRun} (h : Stands config s attempt run) :
    run.order = attempt.order := by
  cases h <;> rfl

/-- An order is taken up by both. -/
theorem simulated_take (horder : P order) (hacc : s.throughput.Accounted)
    (hf : StandFor config s takes) (ha : s.Accepts config order)
    {attempt : Option Attempt}
    (h : s.runSection config order (CreatedOrderTaker.take config.executor order) =
      some (s', attempt)) :
    ∃ takes', Leads config P (s.fleet takes)
        ({ s' with attempts := s'.attempts ++ attempt.toList }.fleet takes') ∧
      StandFor config { s' with attempts := s'.attempts ++ attempt.toList } takes' := by
  have hfits : config.Fits order := ⟨ha.2.1, ha.2.2.1⟩
  have haccepts : (s.fleet takes).Accepts config.fleet order := by
    refine ⟨fun run hrun => ?_, ha.2⟩
    obtain ⟨n, hn⟩ := List.mem_iff_getElem?.mp hrun
    obtain ⟨attempt, hget, hstands⟩ := exists_of_forall₂ hf.flip hn
    rw [hstands.order_eq]
    exact ha.1 attempt (List.mem_of_getElem? hget)
  have htaken : Leads config P (s.fleet takes) (s.fleet (takes ++ [⟨order, .validating⟩])) :=
    Leads.of_step (.take order) (fun _ heq => FleetInput.take.inj heq ▸ horder)
      (if_pos haccepts)
  have hn : takes.length < (takes ++ [TakeRun.mk order .validating]).length := by simp
  have hsection : Settled config P (takes ++ [⟨order, .validating⟩]) takes.length
      (s.fleetAt (takes ++ [⟨order, .validating⟩]) takes.length order .validating) s' attempt ∧
      s'.attempts = s.attempts ∧ s.Keeps s' :=
    settled_of_runSection hacc hfits hn .validating (TakersConfig.proper_take hfits) h
  obtain ⟨hsettled, hattempts, hkeeps⟩ := hsection
  have hstart : Leads config P (s.fleet takes)
      (s.fleetAt (takes ++ [⟨order, .validating⟩]) takes.length order .validating) :=
    htaken.trans (leads_fleetAt (by simp))
  have hf' : List.Forall₂ (Stands config { s' with attempts := s'.attempts ++ attempt.toList })
      s'.attempts takes := by
    rw [hattempts]
    exact hf.imp fun _ _ h => h.mono hkeeps
  cases attempt with
  | some attempt =>
    obtain ⟨run, hleads, hstands⟩ := hsettled
    refine ⟨takes ++ [run], ?_, List.rel_append hf' (.cons (hstands.mono fun _ _ => id) .nil)⟩
    simpa [fleet] using hstart.trans hleads
  | none =>
    refine ⟨takes, ?_, by simpa using hf'⟩
    simpa [fleet, List.eraseIdx_append_of_length_le] using hstart.trans hsettled

theorem keeps_calculate {k : ℕ} {input : CalculationInput} {tvlBudget : TVLBudgetController}
    (h : s.tvlBudget.calculate config.fleet.toTVLBudgetConfig s.chain k input = some tvlBudget) :
    s.Keeps { s with tvlBudget } := by
  obtain ⟨calculation, hbind, rfl⟩ := Option.map_eq_some_iff.mp h
  obtain ⟨old, hold, hstep⟩ := Option.bind_eq_some_iff.mp hbind
  intro j tvl hresolved
  have hne : j ≠ k := by
    rintro rfl
    rw [Resolved, hold] at hresolved
    have hstage : old.stage = .resolved tvl := Option.some.inj hresolved
    cases input <;> simp [TVLBudgetConfig.calculationStep, hstage] at hstep
  rw [Resolved, List.getElem?_set_ne hne.symm]
  exact hresolved

/-- What happens outside of the attempts happens to the abstract state as well. -/
theorem simulated_outside (hf : StandFor config s takes) {i : FleetInput}
    (hi : ∀ order, i ≠ .take order)
    (h : (s.fleet takes).step config.fleet i = some (s'.fleet takes))
    (hattempts : s'.attempts = s.attempts) (hk : s.Keeps s') :
    ∃ takes', Leads config P (s.fleet takes) (s'.fleet takes') ∧
      StandFor config s' takes' := by
  refine ⟨takes, Leads.of_step i (fun order heq => absurd heq (hi order)) h, ?_⟩
  rw [StandFor, hattempts]
  exact hf.imp fun _ _ h => h.mono hk

theorem simulated_step {i : TakersInput} (hi : ∀ order, i = .take order → P order)
    (hacc : s.throughput.Accounted) (hf : StandFor config s takes)
    (h : s.step config i = some s') :
    ∃ takes', Leads config P (s.fleet takes) (s'.fleet takes') ∧
      StandFor config s' takes' := by
  have hsame : s.Keeps s := fun _ _ => id
  cases i with
  | tick ms =>
    obtain rfl := Option.some.inj h
    exact simulated_outside hf (i := .tick ms) (by simp) rfl rfl hsame
  | take order =>
    simp only [step] at h
    split at h
    · rename_i ha
      obtain ⟨⟨s₁, attempt⟩, hsection, rfl⟩ := Option.map_eq_some_iff.mp h
      exact simulated_take (hi order rfl) hacc hf ha hsection
    · cases h
  | send n => exact simulated_send hf h
  | answer | tvl | sent =>
    obtain ⟨⟨n, order, p⟩, hr, hresume⟩ := Option.bind_eq_some_iff.mp h
    exact simulated_resume hacc hf hr hresume
  | calculate k input =>
    obtain ⟨tvlBudget, hcalculate, rfl⟩ := Option.map_eq_some_iff.mp h
    refine simulated_outside hf (i := .calculate k input) (by simp) ?_ rfl
      (keeps_calculate hcalculate)
    exact Option.map_eq_some_iff.mpr ⟨tvlBudget, hcalculate, rfl⟩
  | flushCache =>
    obtain rfl := Option.some.inj h
    exact simulated_outside hf (i := .flushCache) (by simp) rfl rfl hsame
  | throughputTimer k =>
    simp only [step] at h
    split at h
    · rename_i throughput htimer
      obtain rfl := Option.some.inj h
      refine simulated_outside hf (i := .throughputTimer k) (by simp) ?_ rfl hsame
      have htimer' : (s.fleet takes).throughput.onTimer (s.fleet takes).now k =
          some (.ok throughput) := htimer
      simp only [Fleet.step, htimer']
      rfl
    · cases h
  | fulfilled orderId =>
    simp only [step] at h
    split at h
    · rename_i hfulfilled
      obtain rfl := Option.some.inj h
      exact simulated_outside hf (i := .fulfilled orderId) (by simp) (if_pos hfulfilled) rfl hsame
    · cases h
  | dropped orderId =>
    obtain rfl := Option.some.inj h
    exact simulated_outside hf (i := .dropped orderId) (by simp) rfl rfl hsame
  | claimed orderId =>
    simp only [step] at h
    split at h
    · rename_i hclaimed
      obtain rfl := Option.some.inj h
      exact simulated_outside hf (i := .claimed orderId) (by simp) (if_pos hclaimed) rfl hsame
    · cases h
  | spent account token amount =>
    obtain rfl := Option.some.inj h
    exact simulated_outside hf (i := .spent account token amount) (by simp) rfl rfl hsame

/-! ### Runs -/

theorem accounted_of_step {u u' : Fleet} {i : FleetInput} (hacc : u.throughput.Accounted)
    (h : u.step config.fleet i = some u') : u'.throughput.Accounted := by
  cases Fleet.change_of_step h with
  | addOrder m run throughput hm hadd =>
    obtain ⟨c, hc, hc', -⟩ := hacc.addOrder u.now run.order.orderId
      (config.fleet.blockConfirmations run.order) (config.fleet.usdValue run.order.orderId)
    obtain rfl := Except.ok.inj (hadd.symm.trans hc)
    exact hc'
  | throughputTimer k throughput hfired =>
    obtain ⟨c, hc, hc', -⟩ := hacc.onTimer hfired
    obtain rfl := Except.ok.inj hc
    exact hc'
  | _ => exact hacc

theorem Leads.accounted {u u' : Fleet} (h : Leads config P u u')
    (hacc : u.throughput.Accounted) : u'.throughput.Accounted := by
  obtain ⟨inputs, -, hexec⟩ := h
  exact Machine.exec_invariant (P := fun u => u.throughput.Accounted) (hexec u.chain) hacc
    fun _ _ _ => accounted_of_step

variable {chain : GiveChainState} {t : List TakersInput}

/-- Every reachable state stands for one that the abstract machine reaches, with right accounts. -/
theorem exists_run (h : (takers config chain).Run t s) :
    ∃ t' takes, (∀ order, FleetInput.take order ∈ t' → TakersInput.take order ∈ t) ∧
      (DlnTaker.fleet config.fleet chain).Run t' (s.fleet takes) ∧ StandFor config s takes ∧
      s.throughput.Accounted := by
  obtain ⟨t', u, htaken, hr, hacc, takes, rfl, hf⟩ := h.refines
    (N := DlnTaker.fleet config.fleet chain) (A := fun i => i ∈ t)
    (B := fun j => ∀ order, j = .take order → TakersInput.take order ∈ t)
    (R := fun s u => u.throughput.Accounted ∧ ∃ takes, u = s.fleet takes ∧
      StandFor config s takes)
    (fun _ => id) ⟨.create _, [], rfl, .nil⟩ (by
      rintro s i s' u hi ⟨hacc, takes, rfl, hf⟩ hs
      obtain ⟨takes', hleads, hf'⟩ := simulated_step
        (P := fun order => TakersInput.take order ∈ t) (fun order heq => heq ▸ hi) hacc hf hs
      have hacc' := hleads.accounted hacc
      obtain ⟨js, hjs, hexec⟩ := hleads
      exact ⟨js, _, fun j hj order heq => hjs order (heq ▸ hj), hexec chain, hacc', takes', rfl,
        hf'⟩)
  exact ⟨t', takes, fun order hm => htaken _ hm order rfl, hr, hf, hacc⟩

end Takers

open Takers

/-- Whatever the attempts of the orders of a give chain do, an abstract run that takes only orders
they have taken ends with the same controllers, chains and transactions, and each of its take runs
is suspended where an attempt is. -/
theorem takers_refine_fleet {chain : GiveChainState} {t : List TakersInput}
    (h : (takers config chain).Run t s) :
    ∃ t' takes, (∀ order, FleetInput.take order ∈ t' → TakersInput.take order ∈ t) ∧
      (fleet config.fleet chain).Run t' (s.fleet takes) ∧ StandFor config s takes := by
  obtain ⟨t', takes, htaken, hr, hf, -⟩ := exists_run h
  exact ⟨t', takes, htaken, hr, hf⟩

theorem takers_refine_fleet_both :
    ∃ s, (takers Takers.Sample.config Fleet.Sample.emptyChain).Run Takers.Sample.bothOrders s ∧
      ∃ t' takes, (∀ order, FleetInput.take order ∈ t' →
          TakersInput.take order ∈ Takers.Sample.bothOrders) ∧
        (fleet Takers.Sample.config.fleet Fleet.Sample.emptyChain).Run t' (s.fleet takes) ∧
        StandFor Takers.Sample.config s takes := by
  apply Machine.exists_run_and
  · decide +kernel
  · intro s hr
    exact takers_refine_fleet hr

/-- An attempt that hears what it waits for goes on to its next lookup or to its end, if no
assertion fails. -/
theorem takers_go_on {chain : GiveChainState} {t : List TakersInput} {i : TakersInput}
    (h : (takers config chain).Run t s) (hr : s.resumed config i = some (n, order, p)) :
    (∃ s', s.step config i = some s') ∨
      ∃ u message, proceed config p s = some (u, .stop (.died message)) := by
  obtain ⟨-, takes, -, -, hf, hacc⟩ := exists_run h
  obtain ⟨phase, stage, hn, -, -, hat, hp⟩ := exists_resumed (P := fun _ => True) hf hr
  obtain ⟨u, rest, hproceed, harrived⟩ := exists_proceed (P := fun _ => True) hn hat hacc hp
  obtain ⟨-, -, -, -, -, -, hs⟩ := harrived
  by_cases hrest : ∃ message, rest = .stop (.died message)
  · obtain ⟨message, rfl⟩ := hrest
    exact .inr ⟨u, message, hproceed⟩
  · obtain ⟨u', attempt, hsuspend⟩ := @exists_suspend config order u rest hs (not_exists.mp hrest)
    have hsection : s.runSection config order p = some (u', attempt) :=
      Option.bind_eq_some_iff.mpr ⟨_, hproceed, hsuspend⟩
    have hstep : s.step config i = s.resume config n order p := by
      cases i with
      | answer | tvl | sent =>
        change (s.resumed config _).bind _ = _
        rw [hr]
        rfl
      | _ => cases hr
    rw [hstep]
    exact .inl ⟨_, Option.map_eq_some_iff.mpr ⟨_, hsection, rfl⟩⟩

end DlnTaker
