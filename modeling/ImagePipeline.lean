import ImagePipeline.Base64
import ImagePipeline.Build.Context
import ImagePipeline.Build.Credentials
import ImagePipeline.Build.Error
import ImagePipeline.Build.Recipe
import ImagePipeline.Build.Tag
import ImagePipeline.BuildOutcome
import ImagePipeline.Cleanup
import ImagePipeline.Command.Basic
import ImagePipeline.Command.Cleanup
import ImagePipeline.Command.Product
import ImagePipeline.Command.Publish
import ImagePipeline.Command.StopPrevious
import ImagePipeline.Command.Toolchain
import ImagePipeline.CommandLine
import ImagePipeline.Decimal.Double
import ImagePipeline.Decimal.Numeral
import ImagePipeline.Endpoints
import ImagePipeline.Endpoints.Document
import ImagePipeline.Engine.Address
import ImagePipeline.Engine.Call
import ImagePipeline.Engine.Cleaner
import ImagePipeline.Engine.Client
import ImagePipeline.Engine.Error
import ImagePipeline.Engine.Images
import ImagePipeline.Engine.Query
import ImagePipeline.Engine.Transfer
import ImagePipeline.Environment
import ImagePipeline.Files.Error
import ImagePipeline.Files.Path
import ImagePipeline.Files.Pattern
import ImagePipeline.Files.Removal
import ImagePipeline.Files.Search
import ImagePipeline.Files.Tree
import ImagePipeline.Gate
import ImagePipeline.Image.Kind
import ImagePipeline.Image.Labels
import ImagePipeline.Instant.Basic
import ImagePipeline.Instant.Calendar
import ImagePipeline.Instant.Text
import ImagePipeline.Json.Basic
import ImagePipeline.Json.Printer
import ImagePipeline.Json.Reader
import ImagePipeline.Json.Record
import ImagePipeline.Main
import ImagePipeline.Program
import ImagePipeline.PullRequest.Action
import ImagePipeline.PullRequest.Mergeability
import ImagePipeline.PullRequest.Trigger
import ImagePipeline.Refusal
import ImagePipeline.Regex.Basic
import ImagePipeline.Regex.Class
import ImagePipeline.Regex.Reader
import ImagePipeline.Scheduler.Basic
import ImagePipeline.Scheduler.BuildInfo
import ImagePipeline.Service.Error
import ImagePipeline.Service.Fetch
import ImagePipeline.Service.Registry
import ImagePipeline.Service.SourceHost
import ImagePipeline.Settings
import ImagePipeline.SettingsError
import ImagePipeline.Sha1
import ImagePipeline.Text.Blank
import ImagePipeline.Text.Case
import ImagePipeline.Text.CaseTable
import ImagePipeline.Text.Pieces
import ImagePipeline.Text.Utf8
import ImagePipeline.Toolchain.Plan
import ImagePipeline.Toolchain.Provenance
import ImagePipeline.Web.Request
import ImagePipeline.Web.Url
import ImagePipeline.Yaml.Basic
import ImagePipeline.Yaml.Reader
import ImagePipeline.Yaml.Scalar
import ImagePipeline.Yaml.Tag
import ImagePipeline.Yaml.Token
import ImagePipeline.Proofs.EngineTranscript
import ImagePipeline.Proofs.ServiceTranscript
import ImagePipeline.Proofs.Publication
import ImagePipeline.Proofs.ToolchainPreparation
import ImagePipeline.Proofs.PathResolution
import ImagePipeline.Proofs.WorkspacePattern
import ImagePipeline.Proofs.PatternSearch
import ImagePipeline.Proofs.WorkspaceRemoval
import ImagePipeline.Proofs.WireAddress
import ImagePipeline.Proofs.SchedulerTranscript
import ImagePipeline.Proofs.JobAddress
import ImagePipeline.Proofs.OwnBuild
import ImagePipeline.Proofs.GateDecision
import ImagePipeline.Proofs.RepositoryHistory
import ImagePipeline.Proofs.LabelValidation
import ImagePipeline.Proofs.ToolchainPlan
import ImagePipeline.Proofs.ToolchainReplacement
import ImagePipeline.Proofs.TransferRun
import ImagePipeline.Proofs.EngineStream
import ImagePipeline.Proofs.ReportedErrors
import ImagePipeline.Proofs.ArchitectureTag
import ImagePipeline.Proofs.ImageRemoval
import ImagePipeline.Proofs.CleanupContainers
import ImagePipeline.Proofs.NewerBuild
import ImagePipeline.Proofs.PrepareTranscript
import ImagePipeline.Proofs.SettingsSource
import ImagePipeline.Proofs.RemovalScope
import ImagePipeline.Proofs.InvocationTranscript
import ImagePipeline.Proofs.MissingSetting
import ImagePipeline.Proofs.SharedReferences
import ImagePipeline.Proofs.Lockstep
import ImagePipeline.Proofs.AuthorizationHeader
import ImagePipeline.Proofs.SecretHeaders
import ImagePipeline.Proofs.StopVerdict
import ImagePipeline.Proofs.JsonGrammar
import ImagePipeline.Proofs.JsonText
import ImagePipeline.Proofs.SerializedForm
import ImagePipeline.Proofs.CalendarDays
import ImagePipeline.Proofs.DecimalDigits
import ImagePipeline.Proofs.InstantNumerals
import ImagePipeline.Proofs.TrimmedText
import ImagePipeline.Proofs.Timestamp
import ImagePipeline.Proofs.CanonicalInstant
import ImagePipeline.Proofs.FirstMatch
import ImagePipeline.Proofs.LabelledVerdict
import ImagePipeline.Proofs.PlanOutcome
import ImagePipeline.Proofs.WrittenBase64
import ImagePipeline.Proofs.StoredPair
import ImagePipeline.Proofs.CredentialSelection
import ImagePipeline.Proofs.ReportedBuild
import ImagePipeline.Proofs.LabelHistory
import ImagePipeline.Proofs.SecureHash
import ImagePipeline.Proofs.FileDigest
import ImagePipeline.Proofs.JsonRecord
import ImagePipeline.Proofs.RegistryLabels
import ImagePipeline.Proofs.CheckedOutCommit
import ImagePipeline.Proofs.GrownTree
import ImagePipeline.Proofs.LinkTarget
import ImagePipeline.Proofs.ContextArchive
import ImagePipeline.Proofs.ContextRecipe
import ImagePipeline.Proofs.WorkspaceExactness
import ImagePipeline.Proofs.WrongVariable
import ImagePipeline.Proofs.CommentAddress
import ImagePipeline.Proofs.TagGrammar
import ImagePipeline.Proofs.WrittenText
import ImagePipeline.Proofs.FlatMapping
import ImagePipeline.Proofs.FlatDocument
import ImagePipeline.Proofs.ConfigurationDocument
import ImagePipeline.Proofs.ConfigurationDiscovery
import ImagePipeline.Proofs.LetterCase
import ImagePipeline.Proofs.Vocabulary
import ImagePipeline.Proofs.LabelSearch
