import RelayBoard.Interlock
import RelayBoard.ChipState
import RelayBoard.FailSafe
import RelayBoard.Pulses
import RelayBoard.MaxOnTime
import RelayBoard.Commands
import RelayBoard.WiredNc
import RelayBoard.HoldState
import RelayBoard.Listeners
import RelayBoard.Counters
import RelayBoard.Lib.Journal
import RelayBoard.BoardConfig
import RelayBoard.SkPublisher
import RelayBoard.RelayStates
import RelayBoard.Notifications
import RelayBoard.SkLoss
import RelayBoard.N2kAlertPgn
import RelayBoard.N2kAlerts
import RelayBoard.AlertTrace
import RelayBoard.AlertChannels
import RelayBoard.HonestAlerts
import RelayBoard.AlertNormals
import RelayBoard.AlertAcks
import RelayBoard.ScheduleEdges
import RelayBoard.BootState
import RelayBoard.N2kHandoffs
import RelayBoard.CounterSaves
import RelayBoard.ScheduleWindows
import RelayBoard.ScheduleFaults
import RelayBoard.InterlockFaults
import RelayBoard.DeadTime
import RelayBoard.AlertDemand
import RelayBoard.AlertTurns
import RelayBoard.InputDebounce
import RelayBoard.BootReadings
import RelayBoard.LateInputs
import RelayBoard.CounterRuntime
import RelayBoard.ScheduleConflicts
import RelayBoard.ButtonFeedback
import RelayBoard.RtcPcf85063
import RelayBoard.AlertText
import RelayBoard.CodePoints
import RelayBoard.SkJson
import RelayBoard.SkBootOrder
import RelayBoard.Position
import RelayBoard.RtttlDefaults
import RelayBoard.TonePlayer
import RelayBoard.Morse
import RelayBoard.SwitchBankPgn
import RelayBoard.OtaManifest
import RelayBoard.CivilInverse
import RelayBoard.TwaiNode
import RelayBoard.CanReceive
import RelayBoard.CandumpStream
import RelayBoard.WebRequests
import RelayBoard.MorseTone
import RelayBoard.IndicatorChirps
import RelayBoard.IoInterlock
import RelayBoard.IoSources
import RelayBoard.IoRestart
