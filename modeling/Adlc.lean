import Adlc.Framework.Search
import Adlc.Framework.Disk
import Adlc.Framework.HashChain
import Adlc.Framework.Interleaving
import Adlc.Tickets.SignedValue
import Adlc.Core.Ledger
import Adlc.Core.LedgerLock
import Adlc.Tickets.EntryBytes
import Adlc.Tickets.RoundTrip
import Adlc.GateManifest.Runs
import Adlc.GateManifest.Agreement
import Adlc.GateManifest.Framing
import Adlc.GateManifest.RecordedOnce
import Adlc.GateManifest.Tamper
import Adlc.GateManifest.Adopt
import Adlc.Tickets.Journal
import Adlc.Tickets.OwnChains
import Adlc.Fleet.Lock
import Adlc.Fleet.Prerequisites
import Adlc.Fleet.Concurrency
import Adlc.Fleet.Publish
import Adlc.Fleet.Strikes
import Adlc.Fleet.Resume
import Adlc.Fleet.Completion
import Adlc.TicketSync.CarriedStatus
import Adlc.TicketSync.BlockRoundTrip
import Adlc.Autopilot.Exclusion
import Adlc.Fleet.ScopeOverlap
import Adlc.ContextHandoff.StickyDeny
import Adlc.Tickets.Lock
import Adlc.GateManifest.OwnChain
import Adlc.Core.RailPath
import Adlc.Core.Shell
import Adlc.Core.Revision
import Adlc.Core.DiffMask
import Adlc.Tickets.Reassign
import Adlc.Tickets.Ulid
import Adlc.TicketPrune.Prune
import Adlc.Core.Cluster
import Adlc.Core.CriticalPath
import Adlc.GateManifest.Repair
import Adlc.ContextHandoff.RecoveryException
import Adlc.ContextHandoff.SessionLock
import Adlc.ContextHandoff.ProtectedTarget
import Adlc.ContextHandoff.Brief
import Adlc.ContextHandoff.NoTrace
import Adlc.Autopilot.Attempts
import Adlc.RailsGuard.RailFreeze
import Adlc.RailsGuard.Codeowners
import Adlc.RailsGuard.VersionOnly
import Adlc.RailsGuard.Suppressions
import Adlc.Autopilot.Budget
import Adlc.Autopilot.Retired
import Adlc.Autopilot.Terminal
import Adlc.Autopilot.Quarantine
import Adlc.Autopilot.CiWatch
import Adlc.Autopilot.Denylist
import Adlc.Autopilot.Lockfile
import Adlc.Autopilot.Quota
import Adlc.Autopilot.Block
import Adlc.Autopilot.Select
import Adlc.Autopilot.Selection
import Adlc.Autopilot.TrustRootLists
import Adlc.Autopilot.Authorized
import Adlc.MergeForecast.Waves
import Adlc.BacklogGroom.Verify
import Adlc.BacklogGroom.Apply
import Adlc.BacklogGroom.Licensed
import Adlc.BacklogGroom.Resumable
import Adlc.Core.ChangedLines
import Adlc.Framework.UnifiedDiff
import Adlc.Framework.CrashSafety
import Adlc.Framework.WriteAhead
import Adlc.Tickets.Applied
import Adlc.Tickets.Outcome
import Adlc.Tickets.Recovered
import Adlc.Tickets.TransactionRuns
import Adlc.Tickets.TransactionStore
