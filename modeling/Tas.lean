import Tas.RxStream
import Tas.TxStream
import Tas.BumpOrder
import Tas.Schedule
import Tas.Isolation
import Tas.Arp
import Tas.TimeoutRun
import Tas.Contexts
import Tas.DataPlane
import Tas.PortTable
import Tas.Resources
import Tas.SlowFlag
import Tas.Handshake
import Tas.EpollRun
import Tas.SlowWake
import Tas.FastWake
import Tas.AppWake
import Tas.Doorbell
import Tas.BumpCheck
import Tas.Dupack
import Tas.SchedTarget
import Tas.ParseGate
import Tas.FailedAlloc
import Tas.PortAlloc
import Tas.Backoff
import Tas.SpendBudget
import Tas.VirtualTime
import Tas.RemovalBatch
import Tas.Backlog
import Tas.BoostBudget
import Tas.Routing
import Tas.CoreScaling
import Tas.Fragments
import Tas.Coalesce
import Tas.Replies
import Tas.WriteReady
import Tas.Nbqueue
