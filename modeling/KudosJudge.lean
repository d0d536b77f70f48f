import KudosJudge.ClientForge
import KudosJudge.DecodeFraming
import KudosJudge.WorkerServe
import KudosJudge.ConnectionQueue
import KudosJudge.RunVerdict
import KudosJudge.TemplateHandshake
import KudosJudge.DescriptorIsolation
import KudosJudge.LimitVerdict
import KudosJudge.OutputLimit
import KudosJudge.FailedClone
import KudosJudge.RunSignals
import KudosJudge.ServeReply
import KudosJudge.LangProcess
import KudosJudge.ServeResidue
import KudosJudge.FieldUse
import KudosJudge.ClientReceive
import KudosJudge.TemplateSerial
import KudosJudge.StdinEof
import KudosJudge.EarlyKill
import KudosJudge.CompareFinishes
import KudosJudge.LangTable
import KudosJudge.SubmissionBuffers
import KudosJudge.SourceFreshness
import KudosJudge.RamFs
import KudosJudge.RamFsCopy
import KudosJudge.RamFsAccounting
import KudosJudge.IniConfig
import KudosJudge.WorkerRuns
import KudosJudge.FeedFiles
import KudosJudge.JudgeWorkers
import KudosJudge.RunCoherence
import KudosJudge.RunDistance
import KudosJudge.RunReturns
import KudosJudge.RunFinishes
import KudosJudge.JudgeProgress
import KudosJudge.JudgeSession
import KudosJudge.QueueRaces
import KudosJudge.JudgeService
