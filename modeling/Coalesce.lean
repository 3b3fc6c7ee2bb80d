import Coalesce.Json.Reader
import Coalesce.Main
import Coalesce.Scenario.Run
import Coalesce.Scenario.Tasks
import Coalesce.Proofs.Run
import Coalesce.Proofs.Keyed
import Coalesce.Proofs.Frame
import Coalesce.Proofs.Trace
import Coalesce.Proofs.Registry
import Coalesce.Proofs.RegistrySteps
import Coalesce.Proofs.Executions
import Coalesce.Proofs.Admission
import Coalesce.Proofs.Conservation
import Coalesce.Proofs.Slots
import Coalesce.Proofs.Delivery
import Coalesce.Proofs.Timers
import Coalesce.Proofs.Pool
import Coalesce.Proofs.Workers
import Coalesce.Proofs.Accounts
import Coalesce.Proofs.Cancellation
import Coalesce.Proofs.Shutdown
import Coalesce.Proofs.Isolation
import Coalesce.Proofs.Grouping
import Coalesce.Proofs.Prompt
import Coalesce.Proofs.Refinement
import Coalesce.Proofs.Readings
import Coalesce.Proofs.Waking
import Coalesce.Proofs.Reasons
import Coalesce.Proofs.Answers
import Coalesce.Proofs.Statistics
import Coalesce.Proofs.Queueing
import Coalesce.Proofs.Service
import Coalesce.Proofs.Dropping
import Coalesce.Proofs.Filing
import Coalesce.Proofs.Erasure
import Coalesce.Proofs.Coupling
import Coalesce.Proofs.KeyIsolation
import Coalesce.Proofs.Nearest
import Coalesce.Proofs.NumberText
import Coalesce.Proofs.JsonGrammar
import Coalesce.Proofs.JsonSkip
import Coalesce.Proofs.JsonText
import Coalesce.Proofs.JsonForm
import Coalesce.Proofs.MapOrder
import Coalesce.Proofs.ContentKeys
import Coalesce.Proofs.Observing
import Coalesce.Proofs.Unobserved
import Coalesce.Proofs.Polling
import Coalesce.Proofs.LateResults
import Coalesce.Proofs.Overtaking
import Coalesce.Proofs.Widening
import Coalesce.Proofs.DataTypes
import Coalesce.Proofs.Separation
import Coalesce.Proofs.LongerTimeouts
import Coalesce.Proofs.Limits
import Coalesce.Proofs.WholeMillis
import Coalesce.Proofs.Numerals
import Coalesce.Proofs.Overrides
import Coalesce.Proofs.CommandLine
import Coalesce.Proofs.Resting
import Coalesce.Proofs.StormReport
import Coalesce.Proofs.Rounds
import Coalesce.Proofs.SettingsText
