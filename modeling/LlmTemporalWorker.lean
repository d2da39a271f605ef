import LlmTemporalWorker.Budget.Proofs.Lease
import LlmTemporalWorker.Budget.Proofs.Recovered
import LlmTemporalWorker.Admission.Proofs.RoundTrip
import LlmTemporalWorker.Throttle.Proofs.Conservation
import LlmTemporalWorker.Engine.Proofs.Recovery
import LlmTemporalWorker.CloudState.Proofs.OneStarter
import LlmTemporalWorker.CloudState.Proofs.ExecutionHistory
import LlmTemporalWorker.Budget.Proofs.Covered
import LlmTemporalWorker.Pricing.Proofs.Numeral
import LlmTemporalWorker.Admission.Proofs.MemoryTokens
import LlmTemporalWorker.Admission.Proofs.MemorySweep
import LlmTemporalWorker.Admission.Proofs.ActiveWindow
import LlmTemporalWorker.Admission.Proofs.Retention
import LlmTemporalWorker.State.Proofs.CheckpointGraph
import LlmTemporalWorker.State.CheckpointBlob
import LlmTemporalWorker.Stream.Sse
import LlmTemporalWorker.Stream.Assembler
import LlmTemporalWorker.Pricing.Catalog
import LlmTemporalWorker.Routing.Planner
import LlmTemporalWorker.Runtime.ContinuationPinning
import LlmTemporalWorker.Runtime.ToolCallIds
import LlmTemporalWorker.Llm.ToolCallId
