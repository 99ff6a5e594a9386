import Tlpi.Transition
import Tlpi.Indexed
import Tlpi.Faults
import Tlpi.Keyed
import Tlpi.AclUpdate
import Tlpi.SharedMemoryTransfer
import Tlpi.FileServer
import Tlpi.PathName
import Tlpi.WatchCache
import Tlpi.TreeMonitor
import Tlpi.EventReader
import Tlpi.FileTree
import Tlpi.TreeRace
import Tlpi.WatchSet
import Tlpi.TreeGrowth
import Tlpi.TreeRenames
import Tlpi.SettledTree
import Tlpi.HandledEvents
import Tlpi.ChangeStages
import Tlpi.ChildReaping
import Tlpi.ShellLoop
import Tlpi.SignalPingPong
import Tlpi.PidFile
import Tlpi.QueueNotification
import Tlpi.Ranges
import Tlpi.SemaphoreInit
import Tlpi.SequenceFifo
import Tlpi.DecimalText
import Tlpi.PipeFraming
import Tlpi.ReadLine
import Tlpi.SequenceServer
import Tlpi.RenamedDirectory
import Tlpi.TreeMirror
import Tlpi.ReplacedDirectory
import Tlpi.Monitors
import Tlpi.ThreadJoining
import Tlpi.ProducerConsumer
import Tlpi.NamespaceTree
import Tlpi.BufferedLines
import Tlpi.FullTransfers
import Tlpi.OneTimeInit
import Tlpi.Environment
import Tlpi.FileSending
import Tlpi.CStrings
import Tlpi.GetNum
import Tlpi.SemaphoreOps
import Tlpi.UserIds
import Tlpi.AclSpec
import Tlpi.Blocks
import Tlpi.ExecSearch
import Tlpi.FileAttributes
import Tlpi.CachedPaths
import Tlpi.ElapsedTime
import Tlpi.FreedBlocks
import Tlpi.Bpf
import Tlpi.InetSockets
import Tlpi.OpenFilters
import Tlpi.RootSpelling
import Tlpi.SystemCommand
import Tlpi.TimerSpec
import Tlpi.TtyName
import Tlpi.AtomicAppend
import Tlpi.CaseChange
import Tlpi.CaseDatagrams
import Tlpi.CounterRaces
import Tlpi.EchoService
import Tlpi.EpollInput
import Tlpi.SeekIo
import Tlpi.StreamTransfer
import Tlpi.TerminalModes
import Tlpi.TreeCommands
import Tlpi.BarrierRounds
import Tlpi.Daemons
import Tlpi.RandomTrees
import Tlpi.ScriptSession
import Tlpi.SelfPipe
import Tlpi.UsernsChild
import Tlpi.PipeSync
import Tlpi.BsdPty
import Tlpi.FilePerms
