import Difflore.Cloud.CredentialHost
import Difflore.Cloud.Logout
import Difflore.Cloud.Observations.Fencing
import Difflore.Cloud.Observations.Isolation
import Difflore.Cloud.Observations.QueueCap
import Difflore.Cloud.OutboxApproval
import Difflore.Cloud.OutboxDrain
import Difflore.Cloud.OutboxLease
import Difflore.Cloud.RuleDirectories
import Difflore.Cloud.SpillReplay
import Difflore.Context.AnnPersistence
import Difflore.Context.AnnSearch
import Difflore.Context.DisabledRules
import Difflore.Context.IndexProfile
import Difflore.Context.Ineligible
import Difflore.Daemon.SingleInstance
import Difflore.Export.Rerun
import Difflore.Fix.Conservation
import Difflore.Fix.ExtractedStart
import Difflore.Fix.PatchTargets
import Difflore.Forward.SingleListener
import Difflore.Hook.CitationRoundTrip
import Difflore.Hook.LastTurn
import Difflore.Hook.RepeatedEdits
import Difflore.Hook.ShortCircuit
import Difflore.Infra.GitRoundTrip
import Difflore.Infra.KeysReadable
import Difflore.Infra.StoredSecret
import Difflore.Ingest.AgentFileRefusals
import Difflore.Ingest.AgentFrontMatter
import Difflore.Ingest.AgentTraces
import Difflore.Ingest.DraftBody
import Difflore.Ingest.PathPatterns
import Difflore.Install.GooseRemove
import Difflore.Install.HookFrame
import Difflore.Install.JsonConfig
import Difflore.Memory.AllOrNothing
import Difflore.Memory.AlreadyActive
import Difflore.Memory.AutopilotDirty
import Difflore.Memory.AutopilotLease
import Difflore.Memory.CuratorJson
import Difflore.Memory.Survivors
import Difflore.Observability.StatedVsActual
import Difflore.Package.RoundTrip
import Difflore.Package.StoredHash
import Difflore.Review.BlockingIssues
import Difflore.Review.Excerpts
import Difflore.Review.PackBounds
import Difflore.Review.PackSlice
import Difflore.Review.RecallFairness
import Difflore.Review.RecordForm
import Difflore.SessionMine.Cadence
import Difflore.SessionMine.GateAnswer
import Difflore.SessionMine.StallBackoff
import Difflore.Skills.ActiveUnique
import Difflore.Skills.Recapture
import Difflore.Skills.RegionCapture
import Difflore.Skills.RepoAliases
import Difflore.Skills.ScoreHistory
import Difflore.Skills.SemanticScope
