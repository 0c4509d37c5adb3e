import ScalarLM.Adapter.Isolation
import ScalarLM.Data.Loader
import ScalarLM.Engine.EmbeddingOutput
import ScalarLM.Engine.MixedBatch
import ScalarLM.Job.CrashSafety
import ScalarLM.Job.HistoryOrder
import ScalarLM.Job.UpdateSequence
import ScalarLM.Logs.FollowMode
import ScalarLM.Logs.LineNumbers
import ScalarLM.Logs.StreamCodec
import ScalarLM.Loop.SameCollectives
import ScalarLM.Loop.Spread
import ScalarLM.Mpi.AllgatherRuns
import ScalarLM.Queue.AckedAbsorbing
import ScalarLM.Queue.Dispatch
import ScalarLM.Queue.FinishBatch
import ScalarLM.Queue.RequestsKept
import ScalarLM.Queue.Responses
import ScalarLM.Queue.Retention
import ScalarLM.Serving.LoraTables
import ScalarLM.Slurm.OneJob
import ScalarLM.Status.KeysKept
import ScalarLM.Training.ReduceScatter
import ScalarLM.Training.GradientClipping
import ScalarLM.Training.ResumeRestores
import ScalarLM.Training.ForwardTransparent
import ScalarLM.Job.ServedCheckpoint
import ScalarLM.Upload.UploadIsolation
import ScalarLM.Queue.QueueDepth
import ScalarLM.Slurm.TimeLimit
import ScalarLM.Training.ServedParameters
import ScalarLM.Slurm.TerminalStatus
import ScalarLM.Job.CheckpointRetention
import ScalarLM.Queue.BusyTime
import ScalarLM.Queue.ClientWait
import ScalarLM.Serving.ModelNames
import ScalarLM.Slurm.Resources
import ScalarLM.Upload.SizeLimits
import ScalarLM.Training.SurgeonWalk
import ScalarLM.Job.ListingSurvives
import ScalarLM.Upload.StaysInside
import ScalarLM.Slurm.DiscoverClusters
import ScalarLM.Slurm.RewriteIdempotent
import ScalarLM.Slurm.SettingsKept
import ScalarLM.Mpi.Offsets
import ScalarLM.Cache.Accounting
import ScalarLM.Cache.CacheRuns
import ScalarLM.Cache.Reached
import ScalarLM.Scheduling.ScheduledStep
import ScalarLM.Scheduling.StepResults
