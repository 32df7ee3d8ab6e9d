import Os2Labs.Conc.Runs
import Os2Labs.Conc.Program
import Os2Labs.Conc.Chain
import Os2Labs.Conc.History
import Os2Labs.Conc.Fifo
import Os2Labs.Conc.Guarded
import Os2Labs.Conc.Ghost
import Os2Labs.Queue.Heap
import Os2Labs.Queue.Ledger
import Os2Labs.Queue.Operations
import Os2Labs.Queue.Spec
import Os2Labs.Queue.Object
import Os2Labs.Queue.Bookkeeping
import Os2Labs.Conc.Client
import Os2Labs.Queue.ReaderWriter
import Os2Labs.Queue.Unlocked
import Os2Labs.Queue.UnlockedPoints
import Os2Labs.Queue.Orderly
import Os2Labs.Queue.OrderlyAdd
import Os2Labs.Queue.OrderlyGet
import Os2Labs.Queue.Gap
import Os2Labs.Conc.Lock
import Os2Labs.Queue.FutexMutex
import Os2Labs.Conc.Bisimulation
import Os2Labs.Conc.Simulation
import Os2Labs.Conc.LockCalls
import Os2Labs.Locks.FutexExchange
import Os2Labs.Locks.Spinlocks
import Os2Labs.Queue.Spinlock
import Os2Labs.Conc.Exchange
import Os2Labs.Conc.Sweep
import Os2Labs.Conc.Population
import Os2Labs.Conc.Handover
import Os2Labs.Proxy.AcceptLoop
import Os2Labs.Bytes.CString
import Os2Labs.Bytes.Decimal
import Os2Labs.Proxy.GetHost
import Os2Labs.Proxy.OriginForm
import Os2Labs.Proxy.Handler
import Os2Labs.Proxy.Grammar
import Os2Labs.Proxy.AbsoluteForm
import Os2Labs.Proxy.Request
import Os2Labs.Proxy.Transfer
import Os2Labs.Proxy.Frame
import Os2Labs.Queue.CondVar
import Os2Labs.Queue.CondVarStall
import Os2Labs.Queue.Semaphore
import Os2Labs.Queue.SemaphoreProgress
import Os2Labs.Queue.SemaphoreInterrupt
import Os2Labs.Queue.Destroy
import Os2Labs.Workers.Code
import Os2Labs.Workers.Invariant
import Os2Labs.Workers.Discipline
import Os2Labs.Workers.Shape
import Os2Labs.Workers.Null
import Os2Labs.Workers.Exit
import Os2Labs.Workers.Turn
import Os2Labs.Workers.Pass
import Os2Labs.Workers.SwapPass
import Os2Labs.Workers.Swappers
import Os2Labs.Workers.Count
import Os2Labs.Storage.Build
import Os2Labs.Storage.Append
import Os2Labs.Storage.Fill
import Os2Labs.Threads.Mythread
import Os2Labs.Threads.Join
import Os2Labs.Conc.Shares
import Os2Labs.Proxy.Kernel
import Os2Labs.Proxy.Process
import Os2Labs.Proxy.Holdings
import Os2Labs.Proxy.Accepting
import Os2Labs.Proxy.Isolation
import Os2Labs.Proxy.Leaks
import Os2Labs.Proxy.Record
import Os2Labs.Conc.Inevitable
import Os2Labs.Conc.Service
import Os2Labs.Queue.Programs
import Os2Labs.Queue.FutexLiveness
import Os2Labs.Queue.CondVarLiveness
import Os2Labs.Queue.SemaphoreLiveness
import Os2Labs.Conc.Ahead
import Os2Labs.Workers.Delay
import Os2Labs.Workers.Ends
import Os2Labs.Conc.Inversions
import Os2Labs.Storage.Print
