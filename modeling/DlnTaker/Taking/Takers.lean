import DlnTaker.Taking.Fulfilment
import DlnTaker.Taking.Phases

/-! # The takers of a give chain

The attempts of the orders of one give chain run concurrently: each is suspended
at its lookups, and what it does between two of them is one section, in which the
controllers are read and written. The time, the lookups, the calculations of the
TVL and the senders go on in any order.
-/

namespace DlnTaker

open Dialogue Taking

namespace ThroughputController

variable {c : ThroughputController}

theorem accounted_iff_forall : c.Accounted ↔ (c.orders.map (·.orderId)).Nodup ∧
    (∀ order ∈ c.orders, order.metric < c.metrics.length) ∧
    ∀ i, ∀ h : i < c.metrics.length, c.metrics[i].currentlyLocked = lockedIn c.orders i ∧
      (∀ orderId ∈ c.metrics[i].orders.toList,
        ∃ order ∈ c.orders, order.orderId = orderId ∧ order.metric = i) ∧
      ∀ order ∈ c.orders, order.metric = i → order.orderId ∈ c.metrics[i].orders := by
  constructor
  · intro h
    refine ⟨h.nodup, h.metric, fun i hi => ?_⟩
    have hget : c.metrics[i]? = some c.metrics[i] := List.getElem?_eq_getElem hi
    refine ⟨h.currentlyLocked i _ hget, fun orderId hm => ?_, fun order ho hmetric => ?_⟩
    · exact (h.orders i _ hget orderId).mp (InsertionSet.mem_def.mpr hm)
    · exact (h.orders i _ hget order.orderId).mpr ⟨order, ho, rfl, hmetric⟩
  · rintro ⟨hnodup, hmetric, hall⟩
    refine ⟨hnodup, hmetric, fun i metric hget => ?_, fun i metric hget orderId => ?_⟩
    · obtain ⟨hi, rfl⟩ := List.getElem?_eq_some_iff.mp hget
      exact (hall i hi).1
    · obtain ⟨hi, rfl⟩ := List.getElem?_eq_some_iff.mp hget
      constructor
      · exact fun hm => (hall i hi).2.1 orderId (InsertionSet.mem_def.mp hm)
      · rintro ⟨order, ho, rfl, hm⟩
        exact (hall i hi).2.2 order ho hm

instance : Decidable c.Accounted := decidable_of_iff' _ accounted_iff_forall

end ThroughputController

/-- What a suspended attempt waits for; a sender may have broadcast its transaction. -/
inductive Waiting
  | lookup
  | calculation (n : ℕ)
  | sender (broadcast : Bool)
  deriving DecidableEq, Repr

structure Attempt where
  order : CreatedOrder
  rest : Taking Unit
  waiting : Waiting

structure Takers where
  now : ℕ
  throughput : ThroughputController
  tvlBudget : TVLBudgetController
  chain : GiveChainState
  attempts : List Attempt
  submitted : List OrderId
  sends : List Send

/-- An order is taken, a suspended attempt hears what it waits for, its fulfil transaction is sent,
or something happens outside of the attempts. -/
inductive TakersInput
  | tick (ms : ℕ)
  | take (order : CreatedOrder)
  | answer (n : ℕ) (found : (l : Lookup) → Except String l.Found)
  | tvl (n : ℕ) (err : String)
  | send (n : ℕ)
  | sent (n : ℕ) (result : Except String String)
  | calculate (n : ℕ) (input : CalculationInput)
  | flushCache
  | throughputTimer (n : ℕ)
  | fulfilled (orderId : OrderId)
  | dropped (orderId : OrderId)
  | claimed (orderId : OrderId)
  | spent (account token : Address) (amount : ℕ)

namespace Takers

variable (config : TakersConfig) (s : Takers)

def initial (chain : GiveChainState) : Takers where
  now := 0
  throughput := .create config.fleet.thresholds
  tvlBudget := ⟨none, []⟩
  chain := chain
  attempts := []
  submitted := []
  sends := []

/-- What a query that is no lookup is answered at once, and what it changes. -/
def hear : (query : Request) → Option (Answer query × Takers)
  | .lookup _ => none
  | .now => some (s.now, s)
  | .throughput chain =>
    if h : chain = config.chain ∧ s.throughput.Accounted then some (⟨s.throughput, h.2⟩, s)
    else none
  | .setThroughput chain throughput =>
    if chain = config.chain then some ((), { s with throughput }) else none
  | .flushCache chain =>
    if chain = config.chain then some ((), { s with tvlBudget := s.tvlBudget.flushCache })
    else none
  | .orderFulfilled _ => some ((), s)

/-- A section of an attempt, up to its next lookup or its end. -/
def proceed : Taking Unit → Takers → Option (Takers × Taking Unit)
  | Dialogue.ask (.lookup l) next, s => some (s, Dialogue.ask (.lookup l) next)
  | Dialogue.ask query next, s =>
    (s.hear config query).bind fun (answer, s) => proceed (next answer) s
  | rest, s => some (s, rest)

variable {config s} in
theorem proceed_ask {query : Request} {next : Answer query → Taking Unit}
    (hq : ∀ l, query ≠ .lookup l) : proceed config (Dialogue.ask query next) s =
      (s.hear config query).bind fun (answer, s) => proceed config (next answer) s := by
  cases query with
  | lookup l => exact absurd rfl (hq l)
  | _ => rfl

/-- Where an attempt waits after a section, if it does. A failed assertion ends the program. -/
def suspend (order : CreatedOrder) (rest : Taking Unit) : Option (Takers × Option Attempt) :=
  match rest with
  | .done () => some (s, none)
  | .stop (.died _) => none
  | .stop _ => some (s, none)
  | Dialogue.ask (.lookup (.getCurrentTVL _)) _ =>
    let (n, tvlBudget) := s.tvlBudget.getCurrentTVL config.fleet.toTVLBudgetConfig s.chain s.now
    some ({ s with tvlBudget }, some ⟨order, rest, .calculation n⟩)
  | Dialogue.ask (.lookup (.fulfill _)) _ => some (s, some ⟨order, rest, .sender false⟩)
  | Dialogue.ask _ _ => some (s, some ⟨order, rest, .lookup⟩)

def runSection (order : CreatedOrder) (p : Taking Unit) : Option (Takers × Option Attempt) :=
  (proceed config p s).bind fun (s, rest) => s.suspend config order rest

/-- The n-th attempt goes on. -/
def resume (n : ℕ) (order : CreatedOrder) (p : Taking Unit) : Option Takers :=
  (s.runSection config order p).map fun
    | (s, some attempt) => { s with attempts := s.attempts.set n attempt }
    | (s, none) => { s with attempts := s.attempts.eraseIdx n }

/-- An attempt starts with its first section. -/
def start (order : CreatedOrder) : Option Takers :=
  (s.runSection config order (CreatedOrderTaker.take config.executor order)).map fun
    (s, attempt) => { s with attempts := s.attempts ++ attempt.toList }

/-- A processor takes an order that is checked against its id. -/
def Accepts (order : CreatedOrder) : Prop :=
  (∀ attempt ∈ s.attempts, attempt.order.takeChain ≠ order.takeChain) ∧
    order.orderData = config.orderOf order.orderId ∧ order.giveChain = config.chain ∧
    order.orderData.give.chainId = order.giveChain ∧
    order.orderData.take.chainId = order.takeChain

instance (order : CreatedOrder) : Decidable (s.Accepts config order) := by
  unfold Accepts; infer_instance

/-- The attempt that hears what it waits for, and how it goes on. A transaction that was not
broadcast has no hash. -/
def resumed : TakersInput → Option (ℕ × CreatedOrder × Taking Unit)
  | .answer n found =>
    match s.attempts[n]? with
    | some ⟨order, Dialogue.ask (.lookup l) next, .lookup⟩ =>
      if l.agrees config.market (found l) then some (n, order, next (found l)) else none
    | _ => none
  | .tvl n err =>
    match s.attempts[n]? with
    | some ⟨order, Dialogue.ask (.lookup (.getCurrentTVL _)) next, .calculation k⟩ =>
      match s.tvlBudget.calculations[k]?.map Calculation.stage with
      | some (.resolved tvl) => some (n, order, next (.ok tvl))
      | some .rejected => some (n, order, next (.error err))
      | _ => none
    | _ => none
  | .sent n result =>
    match s.attempts[n]? with
    | some ⟨order, Dialogue.ask (.lookup (.fulfill _)) next, .sender broadcast⟩ =>
      if broadcast = false ∧ result.isOk = true then none else some (n, order, next result)
    | _ => none
  | _ => none

def send (n : ℕ) : Option Takers :=
  match s.attempts[n]? with
  | some ⟨order, rest, .sender _⟩ =>
    let send := ⟨order.orderId, config.fleet.blockConfirmations order, s.now⟩
    some { s with
      attempts := s.attempts.set n ⟨order, rest, .sender true⟩
      submitted := s.submitted ++ [order.orderId]
      sends := s.sends ++ [send] }
  | _ => none

def step (s : Takers) : TakersInput → Option Takers
  | .tick ms => some { s with now := s.now + ms }
  | .take order =>
    if s.Accepts config order then s.start config order else none
  | .send n => s.send config n
  | .calculate n input =>
    (s.tvlBudget.calculate config.fleet.toTVLBudgetConfig s.chain n input).map fun tvlBudget =>
      { s with tvlBudget }
  | .flushCache => some { s with tvlBudget := s.tvlBudget.flushCache }
  | .throughputTimer n =>
    match s.throughput.onTimer s.now n with
    | some (.ok throughput) => some { s with throughput }
    | _ => none
  | .fulfilled orderId =>
    if orderId ∈ s.submitted ∧ orderId ∉ s.chain.fulfilled then
      some { s with chain := s.chain.fulfil orderId }
    else none
  | .dropped orderId => some { s with submitted := s.submitted.filter (· ≠ orderId) }
  | .claimed orderId =>
    if orderId ∈ s.chain.pending ∧ (config.orderOf orderId).give.chainId = config.chain then
      some { s with chain := s.chain.claim config.fleet.toTVLBudgetConfig orderId }
    else none
  | .spent account token amount => some { s with chain := s.chain.spend account token amount }
  | input => (s.resumed config input).bind fun (n, order, p) => s.resume config n order p

end Takers

/-- The takers of one give chain, which is initially in the given state. -/
def takers (config : TakersConfig) (chain : GiveChainState) : Machine Takers TakersInput where
  init := .initial config chain
  step := Takers.step config

namespace Takers.Sample

/-- Orders worth 100 dollars each for two take chains, with a cap of 150 dollars. -/
def config : TakersConfig where
  executor :=
    { DlnTaker.Sample.daemon with
      toolkit :=
        { DlnTaker.Sample.toolkit with
          calculateId := fun data => .ok (if data.take.chainId = 2 then "0xa" else "0xb") }
      chains := fun _ =>
        { DlnTaker.Sample.supportedChain with srcConstraints := ⟨⟨0, 150, 30⟩, 4, 10, []⟩ }
      buckets := [⟨[(1, [[10]]), (2, [[20]]), (3, [[20]])]⟩] }
  chain := 1
  market := (Fleet.Sample.config 0 0).market
  orderOf orderId :=
    DlnTaker.Sample.orderData ⟨1, [10], 100⟩ ⟨if orderId = "0xa" then 2 else 3, [20], 99⟩

def order (orderId : OrderId) : CreatedOrder where
  orderId := orderId
  orderData := config.orderOf orderId
  finalization := .finalized
  arrivedAt := 0
  attempt := 1
  giveChain := 1
  takeChain := (config.orderOf orderId).take.chainId

/-- So many lookups of the n-th attempt are answered. -/
def answers (n count : ℕ) : List TakersInput :=
  List.replicate count
    (.answer n fun l => DlnTaker.Sample.answer true (fun _ => true) [] (.lookup l))

/-- Both orders come to the sender, and the first one is fulfilled. -/
def bothOrders : List TakersInput :=
  [.take (order "0xa"), .take (order "0xb")] ++ answers 0 5 ++ answers 1 5 ++
    [.calculate 0 (.balance [10]), .calculate 0 .balances, .calculate 0 .pendingOrders,
      .tvl 0 "", .tvl 1 ""] ++
    answers 0 14 ++ answers 1 9 ++
    [.send 0, .fulfilled "0xa", .sent 0 (.ok "0xc")] ++ answers 0 2

end Takers.Sample

end DlnTaker
