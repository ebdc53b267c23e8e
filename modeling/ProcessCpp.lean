import ProcessCpp.Base.Prelude
import ProcessCpp.Posix.Basic
import ProcessCpp.Core.Wait
import ProcessCpp.Core.ForkAndRun
import ProcessCpp.Core.SignalTrap
import ProcessCpp.Base.Transition
import ProcessCpp.Core.SignalTrapRun
import ProcessCpp.Core.Env
import ProcessCpp.Core.Signalable
import ProcessCpp.Base.IStream
import ProcessCpp.Core.Stat
import ProcessCpp.Base.FdTable
import ProcessCpp.Core.Pipe
import ProcessCpp.Core.Fork
import ProcessCpp.Core.ForkRun
import ProcessCpp.Core.Vfork
import ProcessCpp.Posix.Children
import ProcessCpp.Core.DeathObserver
import ProcessCpp.Core.ObserverRun
import ProcessCpp.Core.AutoKill
import ProcessCpp.Core.DeathAccount
import ProcessCpp.Core.DeathTruth
import ProcessCpp.Core.OnSigChild
import ProcessCpp.Core.ThrowingSubscriber
import ProcessCpp.Core.RunCall
import ProcessCpp.Core.RunOnce
import ProcessCpp.Core.SessionStops
import ProcessCpp.Core.SessionSignals
import ProcessCpp.Core.PrivatePipes
import ProcessCpp.Core.ProcessTree
import ProcessCpp.Core.CreateOnce
import ProcessCpp.Base.OrderedMap
import ProcessCpp.Core.Exec
import ProcessCpp.Core.Overloads
import ProcessCpp.Core.ThisProcess
import ProcessCpp.Core.NestedCalls
import ProcessCpp.Core.ForkFaults
import ProcessCpp.Base.FdSlots
import ProcessCpp.Core.CrossProcessSync
import ProcessCpp.Core.FdOwnership
import ProcessCpp.Base.CxxString
import ProcessCpp.Core.Backtrace
import ProcessCpp.Base.Extraction
import ProcessCpp.Posix.ProcFs
import ProcessCpp.Core.BrokenStat
import ProcessCpp.Core.Oom
import ProcessCpp.Base.Execution
import ProcessCpp.Core.ReapingLoop
import ProcessCpp.Base.Family
import ProcessCpp.Base.Monitor
import ProcessCpp.Core.EnvThreads
import ProcessCpp.Core.TrapThreads
import ProcessCpp.Core.TrapFork
import ProcessCpp.Core.CreateFork
import ProcessCpp.Core.Registry
import ProcessCpp.Core.OtherWaiters
import ProcessCpp.Core.ScopedChildren
import ProcessCpp.Core.SeveralTraps
import ProcessCpp.Core.ChildBranch
import ProcessCpp.Core.InheritedObserver
import ProcessCpp.Core.ComesToRest
