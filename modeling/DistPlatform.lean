import DistPlatform.Library.Text
import DistPlatform.Library.Digits
import DistPlatform.Library.Utf8
import DistPlatform.Library.Framing
import DistPlatform.Library.Glob
import DistPlatform.Library.Json
import DistPlatform.Library.Fallible
import DistPlatform.Library.Process
import DistPlatform.Library.Runs
import DistPlatform.Library.Parties
import DistPlatform.Library.History
import DistPlatform.Library.Table
import DistPlatform.Library.Streaks
import DistPlatform.Library.FileTree
import DistPlatform.Core.Roles
import DistPlatform.Core.Naming
import DistPlatform.Core.Rollout
import DistPlatform.Core.ReleaseInfo
import DistPlatform.Core.FileNames
import DistPlatform.Core.Repository
import DistPlatform.Core.Publication
import DistPlatform.Core.ReferenceClosure
import DistPlatform.Core.PublicationRuns
import DistPlatform.Core.Writers
import DistPlatform.Core.Timestamps
import DistPlatform.Core.Succession
import DistPlatform.Core.Closing
import DistPlatform.Core.Continuity
import DistPlatform.Core.Restart
import DistPlatform.Core.Signatures
import DistPlatform.Core.Catalogue
import DistPlatform.Core.Retry
import DistPlatform.Core.Atomicity
import DistPlatform.Core.Verifiable
import DistPlatform.Tuf.TargetPath
import DistPlatform.Tuf.Globbing
import DistPlatform.Tuf.Metadata
import DistPlatform.Tuf.Database
import DistPlatform.Tuf.Interchange
import DistPlatform.Tuf.Updates
import DistPlatform.Client.Verifier
import DistPlatform.Client.Binding
import DistPlatform.Client.Rollout
import DistPlatform.Client.ReleaseInfo
import DistPlatform.Client.UpdateCheck
import DistPlatform.Client.VersionOrder
import DistPlatform.Client.Naming
import DistPlatform.Client.Isolation
import DistPlatform.Client.Acceptance
import DistPlatform.Client.Redirect
import DistPlatform.Client.Resolution
import DistPlatform.Client.Reading
import DistPlatform.Client.Broker
import DistPlatform.Client.Installer
import DistPlatform.Client.CrashSafety
import DistPlatform.Client.Probation
import DistPlatform.Client.KnownGood
import DistPlatform.Registry.Models
import DistPlatform.Registry.Store
import DistPlatform.Ingest.Forge
import DistPlatform.Ingest.Provenance
import DistPlatform.Ingest.Attestation
import DistPlatform.Ingest.Gates
import DistPlatform.Ingest.Quarantine
import DistPlatform.Ingest.QuarantineRuns
import DistPlatform.Ingest.Promotion
import DistPlatform.Ingest.Policy
import DistPlatform.Ingest.Signatures
import DistPlatform.Ingest.PreAuthentication
import DistPlatform.Ingest.Soundness
import DistPlatform.Ingest.OrderIndependence
import DistPlatform.Ingest.FailsClosed
import DistPlatform.Ingest.Extraction
import DistPlatform.Ingest.Sources
import DistPlatform.Ingest.Download
import DistPlatform.Ingest.Feed
import DistPlatform.Ingest.Worker
import DistPlatform.Ingest.AttestedVersion
import DistPlatform.Queue.Turn
import DistPlatform.Ingest.Tick
import DistPlatform.Sign.Worker
import DistPlatform.Admin.Handlers
import DistPlatform.Admin.Forms
import DistPlatform.Sign.Publishable
import DistPlatform.Sign.SignedBytes
import DistPlatform.Queue.System
import DistPlatform.Queue.Jobs
import DistPlatform.Queue.Approved
import DistPlatform.Queue.HandOff
import DistPlatform.Queue.Ownership
import DistPlatform.Queue.Critical
import DistPlatform.Queue.Sources
import DistPlatform.Queue.Validating
import DistPlatform.Queue.Skipping
import DistPlatform.Core.FileFormat
import DistPlatform.Registry.Delegate
import DistPlatform.Client.FileFormat
import DistPlatform.Client.Replay
import DistPlatform.Library.JsonText
import DistPlatform.Tuf.Canonical
import DistPlatform.Tuf.Lifetime
import DistPlatform.Client.Handle
import DistPlatform.Client.Accepting
import DistPlatform.Client.Delivery
import DistPlatform.Admin.Accounts
import DistPlatform.Admin.Sessions
import DistPlatform.Queue.Requested
import DistPlatform.Core.Editions
import DistPlatform.Queue.Supply
import DistPlatform.Client.Promoted
