import DlnTaker.Library.Machine
import DlnTaker.Library.Family
import DlnTaker.Library.Journal
import DlnTaker.Library.InsertionSet
import DlnTaker.Library.InsertionMap
import DlnTaker.Library.Exposure
import DlnTaker.Library.Fallible
import DlnTaker.Library.BigEndian
import DlnTaker.Library.Double
import DlnTaker.Library.Json
import DlnTaker.Library.Coercion
import DlnTaker.Library.Dialogue
import DlnTaker.Library.Rules
import DlnTaker.Library.Environment
import DlnTaker.Library.RangeSearch
import DlnTaker.Orders.Interfaces
import DlnTaker.Orders.Worth
import DlnTaker.Processor.Mempool
import DlnTaker.Processor.MempoolRuns
import DlnTaker.Processor.Basic
import DlnTaker.Processor.Operations
import DlnTaker.Processor.Step
import DlnTaker.Processor.Scheduling
import DlnTaker.Processor.Events
import DlnTaker.Processor.Finality
import DlnTaker.Processor.Attempts
import DlnTaker.Processor.Waiting
import DlnTaker.Processor.Handing
import DlnTaker.Evm.Fees
import DlnTaker.Evm.Broadcaster
import DlnTaker.Evm.Moves
import DlnTaker.Evm.Nonces
import DlnTaker.Evm.Delivery
import DlnTaker.Evm.Capping
import DlnTaker.Evm.Outcome
import DlnTaker.Evm.Replacement
import DlnTaker.Evm.Termination
import DlnTaker.Evm.Signer
import DlnTaker.Evm.PriorityFees
import DlnTaker.Evm.LastAttempt
import DlnTaker.Evm.Escalation
import DlnTaker.Evm.Preferences
import DlnTaker.Limits.Throughput
import DlnTaker.Limits.ThroughputRuns
import DlnTaker.Limits.ThroughputWindow
import DlnTaker.Limits.TVLBudget
import DlnTaker.Limits.TVLCalculation
import DlnTaker.Limits.Fleet
import DlnTaker.Limits.FleetStep
import DlnTaker.Limits.ThroughputCap
import DlnTaker.Limits.TVLCache
import DlnTaker.Limits.PendingOrders
import DlnTaker.Limits.TVLReads
import DlnTaker.Limits.TVLCap
import DlnTaker.Limits.Overshoot
import DlnTaker.Unlocker.Basic
import DlnTaker.Unlocker.Step
import DlnTaker.Unlocker.Batches
import DlnTaker.Unlocker.Pool
import DlnTaker.Unlocker.Maps
import DlnTaker.Unlocker.Announcements
import DlnTaker.Taking.Basic
import DlnTaker.Taking.Validator
import DlnTaker.Taking.Taker
import DlnTaker.Taking.Checks
import DlnTaker.Taking.Fulfilment
import DlnTaker.Taking.Accounting
import DlnTaker.Taking.Filters
import DlnTaker.Taking.RoughProfit
import DlnTaker.Taking.Estimation
import DlnTaker.Taking.Slippage
import DlnTaker.Taking.Sending
import DlnTaker.Taking.Phases
import DlnTaker.Taking.Takers
import DlnTaker.Taking.Refinement
import DlnTaker.Taking.Overshoot
import DlnTaker.Launch.Config
import DlnTaker.Launch.Ranges
import DlnTaker.Launch.Inheritance
import DlnTaker.Launch.Dispatch
import DlnTaker.Launch.Approvals
import DlnTaker.Feed.U256
import DlnTaker.Feed.Limbs
import DlnTaker.Feed.Orders
import DlnTaker.Feed.ChainIds
import DlnTaker.Feed.Messages
import DlnTaker.Feed.Connection
import DlnTaker.Feed.Reconnection
import DlnTaker.Launch.Subscription
import DlnTaker.Daemon.Basic
import DlnTaker.Daemon.Linked
import DlnTaker.Daemon.Runs
