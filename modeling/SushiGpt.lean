import SushiGpt.Proofs.ApplyPatch.SeekSequence
import SushiGpt.Proofs.ApplyPatch.Verify
import SushiGpt.Proofs.ExecPolicy.Merge
import SushiGpt.Proofs.ExecPolicy.NetworkHost
import SushiGpt.Proofs.ExecPolicy.NetworkDomains
import SushiGpt.Proofs.Sandboxing.PolicyTransforms
import SushiGpt.Proofs.Permissions.Order
import SushiGpt.Proofs.Permissions.AdditionalRoots
import SushiGpt.Proofs.Permissions.Signature
import SushiGpt.Proofs.ClaudeTransport.Transport
import SushiGpt.Proofs.NetworkProxy.Runtime
import SushiGpt.Proofs.ExecServer.LocalProcess
import SushiGpt.Proofs.ExecServer.Complete
import SushiGpt.Proofs.RemoteControl.ClientTracker
import SushiGpt.Proofs.Core.TurnDiffTracker
import SushiGpt.Proofs.Core.RenamePairs
import SushiGpt.Proofs.Core.RenderedDiff
import SushiGpt.Proofs.Core.EarlyExit
import SushiGpt.Proofs.Core.HeadTailBuffer
import SushiGpt.Proofs.Config.Merge
import SushiGpt.Proofs.AppServer.ThreadHistory
import SushiGpt.Proofs.Core.Residency
import SushiGpt.Proofs.Core.AgentRegistry
import SushiGpt.Proofs.GuardianReviewer.Pool
import SushiGpt.Proofs.Core.NetworkApproval
import SushiGpt.Proofs.Core.Normalize
import SushiGpt.Proofs.ThreadStore.SegmentPaging
import SushiGpt.Proofs.Core.DropTurns
import SushiGpt.Proofs.Core.RemoveFirst
import SushiGpt.Proofs.CodexApi.RoundTrip
import SushiGpt.Proofs.ClaudeTransport.Read
import SushiGpt.Proofs.ExecServer.Stdin
import SushiGpt.Proofs.AppServer.Coalescing
import SushiGpt.Proofs.Utils.Truncate
import SushiGpt.Proofs.Rollout.ReverseJsonl
import SushiGpt.Proofs.Utils.FuzzyMatch
