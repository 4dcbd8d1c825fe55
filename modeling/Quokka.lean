import Quokka.Library.BoundedLoop
import Quokka.Library.Codec
import Quokka.Library.CompactedLog
import Quokka.Library.FaultyDisk
import Quokka.Library.Semaphore
import Quokka.Library.Table
import Quokka.Library.Text
import Quokka.Library.WeakestPre
import Quokka.AcceptedConfig
import Quokka.ChunkBalance
import Quokka.DurationDb.Estimates
import Quokka.DurationDb.FlakeMerge
import Quokka.DurationDb.NameCodec
import Quokka.DurationDb.ReportedHistory
import Quokka.DurationDb.TornAppend
import Quokka.ResourceMarkers
import Quokka.ResultNames
import Quokka.Scheduler.Admission
import Quokka.Scheduler.AttemptIndexes
import Quokka.Scheduler.BatchShape
import Quokka.Scheduler.CacheLabels
import Quokka.Scheduler.EnvironmentOrder
import Quokka.Scheduler.ExecutedSet
import Quokka.Scheduler.FlakeHistory
import Quokka.Scheduler.HostExclusivity
import Quokka.Scheduler.LogUploads
import Quokka.Scheduler.MemoryOverrides
import Quokka.Scheduler.ReportPublication
import Quokka.Scheduler.RetryBounds
import Quokka.Scheduler.RetryBudget
import Quokka.Scheduler.RunVerdict
import Quokka.Scheduler.SeenTests
import Quokka.Scheduler.TerminalResults
import Quokka.Scheduler.WholeTarget
import Quokka.Translator.Rereading
import Quokka.Translator.TextDecoding
import Quokka.Translator.TruncatedListing
import Quokka.SupervisedShell
import Quokka.TransportDeadline
import Quokka.Session.Ending
import Quokka.Session.GreenRun
import Quokka.Supervisor.CleanExit
