import MinRender.Framework.Table
import MinRender.Framework.Programs
import MinRender.Framework.Outbox
import MinRender.Framework.PaddedLists
import MinRender.Framework.StableSort
import MinRender.Framework.Substitution
import MinRender.Framework.RingBuffer
import MinRender.Framework.Raster
import MinRender.Framework.ConstantTime
import MinRender.Framework.Shuffle
import MinRender.Framework.Lens
import MinRender.Core.Templates
import MinRender.Core.JobTypes
import MinRender.Core.IpcServer
import MinRender.Core.FrameGrid
import MinRender.Core.PathTranslation
import MinRender.Core.ManifestCodec
import MinRender.Core.Sha256
import MinRender.Agent.Messages
import MinRender.Agent.Executor
import MinRender.Agent.RenderOutput
import MinRender.Monitor.Delivery
import MinRender.Monitor.Election
import MinRender.Monitor.ExternalInputs
import MinRender.Monitor.WatchedFolders
import MinRender.Monitor.UdpMessages
import MinRender.Monitor.JobControls
import MinRender.Monitor.AbortPushes
import MinRender.Monitor.DispatchRace
import MinRender.Monitor.DeadWorkers
import MinRender.Monitor.EditEpoch
import MinRender.Monitor.FinishedJobs
import MinRender.Monitor.RenderOwnership
import MinRender.Monitor.RevertQueue
import MinRender.Monitor.TableInvariants
import MinRender.Monitor.PeerAuthority
import MinRender.Monitor.Cleanup
import MinRender.Monitor.StagingDirs
import MinRender.Monitor.Submissions
import MinRender.Monitor.CompletedFrames
import MinRender.Monitor.LateReports
import MinRender.Monitor.TaskFormat
import MinRender.Monitor.CachedJobs
import MinRender.Monitor.JobLists
import MinRender.Monitor.EditCommands
import MinRender.Monitor.DispatchAccounts
import MinRender.Monitor.ReportBuffers
import MinRender.Monitor.ChunkTable
import MinRender.Monitor.TableCallers
import MinRender.Monitor.FarmInit
import MinRender.Monitor.FarmSecrets
import MinRender.Monitor.FarmContent
import MinRender.Monitor.StagedPaths
import MinRender.Monitor.StagedRender
import MinRender.Monitor.SubmissionAcks
import MinRender.Monitor.StoppedNodes
import MinRender.Monitor.AdministrativeActions
import MinRender.Monitor.SuspendWindows
import MinRender.Monitor.RetryBudget
import MinRender.Monitor.JobOrder
import MinRender.Monitor.CommandLine
import MinRender.Monitor.CompletionVerdicts
import MinRender.Monitor.FailureCounts
import MinRender.Monitor.LockedChunks
import MinRender.Monitor.FailingEdits
import MinRender.Monitor.Resubmissions
import MinRender.Monitor.PeerDeaths
import MinRender.Monitor.NextChunk
import MinRender.Monitor.FrameLists
import MinRender.Monitor.QueueOrder
import MinRender.Monitor.SnapshotRestore
import MinRender.Monitor.AgentWait
import MinRender.Monitor.TemplateRules
import MinRender.Monitor.AssignmentPass
import MinRender.Monitor.DispatchMemory
import MinRender.Monitor.NodeReports
import MinRender.Monitor.WorkerViews
import MinRender.Monitor.HttpServer
import MinRender.Monitor.HttpGate
import MinRender.Monitor.RemoteActions
import MinRender.Ui.JobEditor
import MinRender.Ui.ListModels
import MinRender.Ui.LogPanel
import MinRender.Ui.FramePainter
import MinRender.Ui.JobForm
import MinRender.Ui.RawEdits
