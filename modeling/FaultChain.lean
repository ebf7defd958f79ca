import FaultChain.Inspect.CommandLines
import FaultChain.Main
import FaultChain.Telemetry.Exporter
import FaultChain.Proofs.Campaign.Completeness
import FaultChain.Proofs.CallGraph.ReportedBatches
import FaultChain.Proofs.Registry.Accounting
import FaultChain.Proofs.Registry.Indexes
import FaultChain.Proofs.Registry.Seeds
import FaultChain.Proofs.Session.Stages
import FaultChain.Proofs.Session.Growth
import FaultChain.Proofs.Session.Budget
import FaultChain.Proofs.Session.Seeding
import FaultChain.Proofs.Work.Courses
import FaultChain.Proofs.Paths
import FaultChain.Proofs.Registry.Renaming
import FaultChain.Proofs.Work.Sharing
import FaultChain.Proofs.Campaign.Analyses
import FaultChain.Proofs.Campaign.Scheduling
import FaultChain.Proofs.Registry.Offers
import FaultChain.Proofs.Fuzz.CrashReports
import FaultChain.Proofs.Fuzz.ForegoingOutput
import FaultChain.Proofs.ReportFormat
import FaultChain.Proofs.Campaign.EdgeImages
import FaultChain.Proofs.Campaign.EntryPoints
import FaultChain.Proofs.Campaign.Balance
import FaultChain.Proofs.CallGraph.Cycles
import FaultChain.Proofs.CallGraph.LeastFirst
import FaultChain.Proofs.Registry.Outgrown
import FaultChain.Proofs.Service.Lifecycle
import FaultChain.Proofs.Service.Cancellation
import FaultChain.Proofs.Registry.StartedChains
import FaultChain.Proofs.Registry.KnownErrors
import FaultChain.Proofs.Registry.Frameless
import FaultChain.Proofs.CallGraph.LongestPaths
import FaultChain.Proofs.Coverage.ExecutedLines
import FaultChain.Proofs.Service.RequestedTimes
import FaultChain.Proofs.Telemetry
import FaultChain.Proofs.MemoryGroup
import FaultChain.Proofs.Trace.Prepending
import FaultChain.Proofs.Fuzz.Saturation
import FaultChain.Proofs.CallGraph.Extraction
