import Kaiban.Proofs.Usage
import Kaiban.Proofs.Actor.EmergencyStop
import Kaiban.Proofs.Actor.OneRecord
import Kaiban.Proofs.Router
import Kaiban.Proofs.Orchestrator.BudgetStop
import Kaiban.Proofs.Board
import Kaiban.Proofs.Control.Reconnect
import Kaiban.Proofs.A2aExecutor
import Kaiban.Proofs.GatedActor
import Kaiban.Proofs.DlqReplay
import Kaiban.Proofs.Publisher.Accounting
import Kaiban.Proofs.Publisher.AgentRow
import Kaiban.Proofs.AgentNode.StoppedOnce
import Kaiban.Proofs.KillSwitch
import Kaiban.Proofs.StopIngress
import Kaiban.Proofs.Control.Signed
import Kaiban.Proofs.Actor.StopOrder
import Kaiban.Proofs.StopAcks
import Kaiban.Proofs.ControlPlane
import Kaiban.Proofs.WaitAll
import Kaiban.Proofs.Orchestrator.Cleared
import Kaiban.Proofs.Orchestrator.Durable
import Kaiban.Proofs.Orchestrator.StartedOnce
import Kaiban.Proofs.Orchestrator.Sequential
import Kaiban.Proofs.AllOrNothing
import Kaiban.Proofs.ParseHandlerResult
import Kaiban.Proofs.CapSize
import Kaiban.Proofs.SecureMemoryStore
import Kaiban.Proofs.AuditLog
import Kaiban.Proofs.McpHttp
import Kaiban.Proofs.HitlRounds
import Kaiban.Proofs.TaskWait
import Kaiban.Proofs.Actor.Guards
import Kaiban.Proofs.SlidingWindowBreaker
import Kaiban.Proofs.RateLimiter
import Kaiban.Proofs.ModelRouter
import Kaiban.Proofs.CacheAccounting
import Kaiban.Proofs.TruncateToBytes
import Kaiban.Proofs.Orchestrator.Ledger
import Kaiban.Proofs.ActionGate
import Kaiban.Proofs.Pricing
import Kaiban.Proofs.PolicyEngine.Undodged
import Kaiban.Proofs.KafkaDriver
import Kaiban.Proofs.GracefulShutdown
import Kaiban.Proofs.Dispatch
import Kaiban.Proofs.ProcessDrain
import Kaiban.Proofs.HitlDelivery
import Kaiban.Proofs.HitlIngress
import Kaiban.Proofs.FrontDoors
import Kaiban.Proofs.AgentStatusTracker
import Kaiban.Proofs.McpServer
import Kaiban.Proofs.GatewayApp
import Kaiban.Proofs.TaskHandler
import Kaiban.Proofs.StopAllCli
import Kaiban.Proofs.ReplayLoop
import Kaiban.Proofs.StopButton
import Kaiban.Proofs.SpendCaps
