import Oms.Foundation.Apportion
import Oms.Foundation.Ascending
import Oms.Foundation.Evenly
import Oms.Foundation.FirstSeen
import Oms.Foundation.Interpolate
import Oms.Foundation.Keyed
import Oms.Foundation.Serial
import Oms.Foundation.SignedWord
import Oms.Foundation.Streak
import Oms.Foundation.WeightedMean
import Oms.Foundation.Window
import Oms.Foundation.WordCodec
import Oms.OrderPool.Stale
import Oms.OrderPool.Sums
import Oms.Position.Vwap
import Oms.RingBuffer.Window
import Oms.RingBuffer.Percentile
import Oms.OrderManager.Steps
import Oms.OrderManager.Changes
import Oms.OrderManager.Turns
import Oms.OrderManager.Runs
import Oms.OrderManager.Books
import Oms.OrderManager.Chronicle
import Oms.OrderManager.World
import Oms.OrderManager.Fills
import Oms.OrderManager.Identity
import Oms.OrderManager.Records
import Oms.OrderManager.Absorbing
import Oms.OrderManager.Acks
import Oms.OrderManager.Published
import Oms.OrderManager.View
import Oms.OrderManager.Effects
import Oms.OrderManager.Slots
import Oms.OrderManager.Exhaustion
import Oms.OrderManager.Marks
import Oms.OrderManager.Traded
import Oms.OrderManager.AvgPrice
import Oms.OrderManager.Delivery
import Oms.OrderManager.Notional
import Oms.OrderManager.Race
import Oms.OrderManager.Spacing
import Oms.OrderManager.Watchdog
import Oms.OrderManager.Recorded
import Oms.OrderManager.AllDown
import Oms.OrderManager.FailedSubmit
import Oms.OrderManager.Accepted
import Oms.Netting
import Oms.Netting.Invariant
import Oms.Netting.Attribution
import Oms.Netting.Cycle
import Oms.Netting.Fairness
import Oms.Netting.Overflow
import Oms.Netting.Settle
import Oms.Signal
import Oms.Signal.Gate
import Oms.Signal.Wire
import Oms.Signal.Poison
import Oms.Signal.Pipeline
import Oms.Signal.Projection
import Oms.Signal.Reserve
import Oms.SignalProducer
import Oms.SignalProducer.Loop
import Oms.SignalDemo
import Oms.SimulatedExchange
import Oms.SimulatedExchange.Queue
import Oms.SimulatedExchange.Coupling
import Oms.SimulatedExchange.Agreement
import Oms.ExecutionAlgo
import Oms.ExecutionAlgo.Listening
import Oms.ExecutionAlgo.ChildBook
import Oms.ExecutionAlgo.Dispatcher
import Oms.ExecutionAlgo.Children
import Oms.ExecutionAlgo.Ownership
import Oms.ExecutionAlgo.Twap
import Oms.ExecutionAlgo.Steered
import Oms.ExecutionAlgo.Pov
import Oms.ExecutionAlgo.Slices
import Oms.ExecutionAlgo.Finished
import Oms.ExecutionAlgo.Deadline
import Oms.Metrics
import Oms.Metrics.ArrivalMids
import Oms.Metrics.Accounts
import Oms.Metrics.Summary
import Oms.Health
import Oms.Health.Reentry
import Oms.Health.DeadEnd
import Oms.Health.Probe
import Oms.Health.Trips
import Oms.Health.Evidence
import Oms.Router
import Oms.Routed
import Oms.Routed.Failover
import Oms.Reconciliation
import Oms.Reconciliation.Startup
import Oms.Reconciliation.Cycle
import Oms.Reconciliation.Corrective
import Oms.Reconciliation.Disconnected
import Oms.Reconciliation.Halt
import Oms.OrderManager.KillSwitch
import Oms.Reconciliation.Persist
import Oms.Reconciliation.Healed
import Oms.Reconciliation.Outstanding
import Oms.SimulatedExchange.Quiescence
import Oms.Reconciliation.Simulated
import Oms.OrderManager.Sizing
import Oms.OrderManager.Audit
import Oms.History
import Oms.Netting.Saved
