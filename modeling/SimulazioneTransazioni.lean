import SimulazioneTransazioni.LedgerRace
import SimulazioneTransazioni.NodeRun
import SimulazioneTransazioni.PoolCounter
import SimulazioneTransazioni.Intake
import SimulazioneTransazioni.Users
import SimulazioneTransazioni.Balance
import SimulazioneTransazioni.Outgoing
import SimulazioneTransazioni.UserHistory
import SimulazioneTransazioni.Interrupts
import SimulazioneTransazioni.FinalAccounting
import SimulazioneTransazioni.Deaths
import SimulazioneTransazioni.Payment
import SimulazioneTransazioni.Readers
import SimulazioneTransazioni.UserSignals
import SimulazioneTransazioni.Library.Custody
import SimulazioneTransazioni.Queues
import SimulazioneTransazioni.Master
import SimulazioneTransazioni.Network
import SimulazioneTransazioni.NetworkTokens
import SimulazioneTransazioni.NetworkWiring
import SimulazioneTransazioni.Confirmation
import SimulazioneTransazioni.ExhaustedHops
import SimulazioneTransazioni.HopBudget
import SimulazioneTransazioni.HopBound
import SimulazioneTransazioni.UserCalls
import SimulazioneTransazioni.DeadFinal
import SimulazioneTransazioni.Library.Registry
import SimulazioneTransazioni.Startup
import SimulazioneTransazioni.StoredRows
import SimulazioneTransazioni.ExtraNodes
import SimulazioneTransazioni.Parser
import SimulazioneTransazioni.DrawRanges
import SimulazioneTransazioni.Library.Streak
import SimulazioneTransazioni.Retries
import SimulazioneTransazioni.FriendSampling
import SimulazioneTransazioni.FriendArrays
import SimulazioneTransazioni.Library.LastWins
import SimulazioneTransazioni.Library.Trace
import SimulazioneTransazioni.Library.TopThree
import SimulazioneTransazioni.SignificantProcesses
import SimulazioneTransazioni.Arguments
import SimulazioneTransazioni.Settings
import SimulazioneTransazioni.ParserTables
import SimulazioneTransazioni.Library.LinkedList
import SimulazioneTransazioni.PoolCells
import SimulazioneTransazioni.LkCells
import SimulazioneTransazioni.Library.Collect
import SimulazioneTransazioni.LedgerCopy
import SimulazioneTransazioni.PassSchedule
import SimulazioneTransazioni.PoolLosses
import SimulazioneTransazioni.Library.Counter
import SimulazioneTransazioni.RewardRace
import SimulazioneTransazioni.LiveBalances
import SimulazioneTransazioni.Losses
import SimulazioneTransazioni.NetworkLedger
import SimulazioneTransazioni.RunAccounting
import SimulazioneTransazioni.Monitor
import SimulazioneTransazioni.FinalReport
import SimulazioneTransazioni.Library.Potential
import SimulazioneTransazioni.NetworkWork
import SimulazioneTransazioni.AtRest
import SimulazioneTransazioni.Starvation
import SimulazioneTransazioni.Library.Spans
import SimulazioneTransazioni.Library.Texts
import SimulazioneTransazioni.Timestamps
import SimulazioneTransazioni.LedgerFile
import SimulazioneTransazioni.MoneyInTransit
import SimulazioneTransazioni.QueuesLeft
