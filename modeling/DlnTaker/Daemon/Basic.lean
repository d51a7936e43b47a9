import DlnTaker.Launch.Dispatch
import DlnTaker.Processor.Handing
import DlnTaker.Taking.Takers

/-! # The daemon

The launched executor with the attempts that its processors hand to the takers.
The attempts of a give chain share its controllers. When an attempt has come to
its end, its outcome is on the way to the processor that waits for it.
-/

namespace DlnTaker

open OrderProcessor Taking Machine

/-- The takers of a give chain work with what has been launched. -/
def LaunchedExecutor.takersConfig (l : LaunchedExecutor) (market : TokenMarket)
    (orderOf : OrderId → OrderData) (giveChain : ChainId) : TakersConfig where
  executor := l.executor
  chain := giveChain
  market := market
  orderOf := orderOf

/-- How `take` settles, if it is at its end. -/
def Taking.ending : Taking Unit → Option TakeOutcome
  | .done () => some .success
  | .stop reason => reason.outcome
  | _ => none

namespace Takers

variable (config : TakersConfig) (s : Takers)

/-- How a section ends its attempt, if it does. -/
def outcome (p : Taking Unit) : Option TakeOutcome :=
  (proceed config p s).bind fun (_, rest) => ending rest

/-- The order whose attempt an input ends, and how. -/
def finished (i : TakersInput) : Option (CreatedOrder × TakeOutcome) :=
  (s.resumed config i).bind fun (_, order, p) => (s.outcome config p).map (order, ·)

end Takers

/-- The takers are by give chain, the outcomes on the way by take chain, each with its order. -/
structure Daemon where
  executor : RunningExecutor
  takers : ChainId → Takers
  outcomes : ChainId → Option (OrderId × TakeOutcome)

inductive DaemonInput
  | order (nextOrderInfo : IncomingOrder)
  | run (chain : ChainId) (i : UnlockingInput)
  | taking (giveChain : ChainId) (i : TakersInput)

namespace Daemon

variable {supportedChain : ChainId → Option SupportedChain} {config : ExecutorLaunchConfig}
  {executor : Executor} {l : LaunchedExecutor}
  (h : Executor.init supportedChain config executor = .ok l) (market : TokenMarket)
  (orderOf : OrderId → OrderData) (s : Daemon)

def setTakers (giveChain : ChainId) (takers : Takers) : Daemon :=
  { s with takers := Function.update s.takers giveChain takers }

def setOutcome (takeChain : ChainId) (outcome : Option (OrderId × TakeOutcome)) : Daemon :=
  { s with outcomes := Function.update s.outcomes takeChain outcome }

variable (l) in
/-- What an effect of a processor does to the takers. -/
def perform (s : Daemon) : Effect → Option Daemon
  | .take order =>
    let config := l.takersConfig market orderOf order.giveChain
    let takers := s.takers order.giveChain
    (takers.start config order).map fun next =>
      (s.setTakers order.giveChain next).setOutcome order.takeChain
        ((takers.outcome config (CreatedOrderTaker.take l.executor order)).map (order.orderId, ·))
  | .flushCache chain =>
    let takers := s.takers chain
    some (s.setTakers chain { takers with tvlBudget := takers.tvlBudget.flushCache })
  | _ => some s

/-- What a processor has done in a section that led to the given state. -/
def effects (executor : RunningExecutor) (chain : ChainId) : List Effect :=
  (logged (executor.processors chain).processor).drop
    (logged (s.executor.processors chain).processor).length

/-- A section of the executor, with what its processor does to the takers. -/
def advance (i : ExecutorInput) : Option Daemon :=
  ((running h).step s.executor i).bind fun executor =>
    match l.route i with
    | none => some { s with executor }
    | some (chain, _) =>
      (s.effects executor chain).foldlM (perform l market orderOf) { s with executor }

/-- The takers of a give chain go on by themselves. -/
def work (giveChain : ChainId) (i : TakersInput) : Option Daemon :=
  let config := l.takersConfig market orderOf giveChain
  let takers := s.takers giveChain
  (takers.step config i).map fun next =>
    match takers.finished config i with
    | some (order, outcome) =>
      (s.setTakers giveChain next).setOutcome order.takeChain (some (order.orderId, outcome))
    | none => s.setTakers giveChain next

/-- A processor hears how its attempt has ended, and only processors hand over orders and flush the
caches. -/
def step (s : Daemon) : DaemonInput → Option Daemon
  | .order nextOrderInfo => s.advance h market orderOf (.order nextOrderInfo)
  | .run chain (.processor (.settled n outcome)) =>
    if (s.outcomes chain).map (·.2) = some outcome then
      (s.setOutcome chain none).advance h market orderOf
        (.run chain (.processor (.settled n outcome)))
    else none
  | .run chain i => s.advance h market orderOf (.run chain i)
  | .taking _ (.take _) | .taking _ .flushCache => none
  | .taking giveChain i =>
    if s.executor.exited then none else s.work (l := l) market orderOf giveChain i

end Daemon

/-- The daemon, with the give chains in the given states at the start. -/
def daemon {supportedChain : ChainId → Option SupportedChain} {config : ExecutorLaunchConfig}
    {executor : Executor} {l : LaunchedExecutor}
    (h : Executor.init supportedChain config executor = .ok l) (market : TokenMarket)
    (orderOf : OrderId → OrderData) (chains : ChainId → GiveChainState) :
    Machine Daemon DaemonInput where
  init :=
    { executor := (running h).init
      takers := fun giveChain =>
        .initial (l.takersConfig market orderOf giveChain) (chains giveChain)
      outcomes := fun _ => none }
  step := Daemon.step h market orderOf

end DlnTaker
