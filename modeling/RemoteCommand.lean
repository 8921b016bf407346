import RemoteCommand.Interaction.Runs
import RemoteCommand.CycleSafety
import RemoteCommand.FullQueue
import RemoteCommand.Machine.CString
import RemoteCommand.Machine.Numeral
import RemoteCommand.Platform
import RemoteCommand.Authentication
import RemoteCommand.Commands
import RemoteCommand.Logging
import RemoteCommand.Server
import RemoteCommand.Footprint
import RemoteCommand.WorkerAccount
import RemoteCommand.WorkerLife
import RemoteCommand.AuthenticationGate
import RemoteCommand.AuthenticatedExecution
import RemoteCommand.Interaction.Session
import RemoteCommand.Interaction.Interleaving
import RemoteCommand.SharedParser
import RemoteCommand.Device
import RemoteCommand.AuthenticationSession
import RemoteCommand.Client
import RemoteCommand.TransferLoops
import RemoteCommand.TransferSession
import RemoteCommand.DownloadSession
import RemoteCommand.UploadSession
import RemoteCommand.Truncation
import RemoteCommand.TokenSecrecy
import RemoteCommand.ThreadPool
import RemoteCommand.PoolLifeCycle
import RemoteCommand.StatusCode
import RemoteCommand.UploadFidelity
import RemoteCommand.Configuration
import RemoteCommand.Reload
import RemoteCommand.ReloadCoherence
import RemoteCommand.ReloadLogging
import RemoteCommand.GracefulReload
import RemoteCommand.Interaction.Deadlock
import RemoteCommand.Script
import RemoteCommand.SegmentedHandshake
import RemoteCommand.ScriptedTransfer
import RemoteCommand.SessionDeadlock
import RemoteCommand.SegmentedExchange
import RemoteCommand.Interaction.Agreement
import RemoteCommand.RequestOutcome
import RemoteCommand.TransferOutcome
import RemoteCommand.OutcomeAgreement
import RemoteCommand.ConfigurationFile
import RemoteCommand.ConfigurationLine
import RemoteCommand.ConfigurationBounds
import RemoteCommand.Machine.Lines
import RemoteCommand.CommandOutput
import RemoteCommand.CommandArguments
import RemoteCommand.TransferNames
import RemoteCommand.RequestBounds
import RemoteCommand.Interaction.Completion
import RemoteCommand.NumberTransfer
import RemoteCommand.RequestTag
import RemoteCommand.ReceiveLoops
import RemoteCommand.ClientOptions
import RemoteCommand.PassphraseToken
import RemoteCommand.SighupExit
import RemoteCommand.AcceptFailures
import RemoteCommand.SharedLog
import RemoteCommand.LogCalls
import RemoteCommand.Interaction.Monitor
import RemoteCommand.StreamUse
import RemoteCommand.ConnectionUse
import RemoteCommand.Daemon
import RemoteCommand.StreamLeak
import RemoteCommand.LogFormat
import RemoteCommand.ClientGate
import RemoteCommand.ConfigurationReload
import RemoteCommand.LogStall
import RemoteCommand.LostPermits
import RemoteCommand.Audit
import RemoteCommand.ChallengeSeed
import RemoteCommand.FileStore
import RemoteCommand.CycleRefinement
import RemoteCommand.Restarts
import RemoteCommand.MainRefinement
