import ArchonSearch.Chunker
import ArchonSearch.Collections.Delete
import ArchonSearch.Collections.ModelChange
import ArchonSearch.Collections.Names
import ArchonSearch.Collections.VectorSpace
import ArchonSearch.Communities.Prompt
import ArchonSearch.Communities.Split
import ArchonSearch.Descriptions.Answer
import ArchonSearch.Descriptions.Manual
import ArchonSearch.Descriptions.Overlay
import ArchonSearch.Descriptions.Overtaken
import ArchonSearch.Descriptions.Routing
import ArchonSearch.Descriptions.Turns
import ArchonSearch.EmbedderCache
import ArchonSearch.Export.RoundTrip
import ArchonSearch.Graph.Collect
import ArchonSearch.Graph.Expansion
import ArchonSearch.Graph.Extract
import ArchonSearch.Graph.Hidden
import ArchonSearch.Graph.Impact
import ArchonSearch.Graph.Integrity
import ArchonSearch.Graph.Merged
import ArchonSearch.Graph.Removal
import ArchonSearch.Graph.TableNames
import ArchonSearch.Import.Isolation
import ArchonSearch.Import.Lines
import ArchonSearch.Ingest.Concurrent
import ArchonSearch.Ingest.Declared
import ArchonSearch.Jobs.Backup
import ArchonSearch.Jobs.Cancel
import ArchonSearch.Jobs.Claim
import ArchonSearch.Jobs.CrashGuard
import ArchonSearch.Jobs.Listing
import ArchonSearch.Jobs.OrphanSweep
import ArchonSearch.Jobs.Rebuild
import ArchonSearch.Jobs.RetryChain
import ArchonSearch.Jobs.Scheduler
import ArchonSearch.Jobs.Trigger
import ArchonSearch.Keys.Cache
import ArchonSearch.Keys.Escalation
import ArchonSearch.Keys.Generate
import ArchonSearch.Keys.ViewToken
import ArchonSearch.LlmClient.TokenCounter
import ArchonSearch.PathSafety.Indexed
import ArchonSearch.Privacy
import ArchonSearch.Progress
import ArchonSearch.ProseExtraction.Load
import ArchonSearch.Search.FusedOrder
import ArchonSearch.Search.Where
import ArchonSearch.Server.Admission
import ArchonSearch.Server.BodyLimit
import ArchonSearch.Server.Disconnect
import ArchonSearch.Store.Expiring
import ArchonSearch.Store.Listing
import ArchonSearch.Store.Lock
import ArchonSearch.Store.MetaRow
import ArchonSearch.Store.ModelMigration
import ArchonSearch.Store.Ownership
import ArchonSearch.Store.Recompute
import ArchonSearch.Sync.Manifest
import ArchonSearch.Sync.Naming
import ArchonSearch.Sync.Track
import ArchonSearch.Telemetry.Writer
import ArchonSearch.TextBatching
import ArchonSearch.Watcher
