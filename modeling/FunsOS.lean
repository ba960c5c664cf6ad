import FunsOS.Fundb.Misread
import FunsOS.Fundb.OrderBy
import FunsOS.Fundb.IndexAgreement
import FunsOS.Fundb.Ids
import FunsOS.Fundb.Durable
import FunsOS.Kheap.Integrity
import FunsOS.SchedCfs.Fair
import FunsOS.Sched.ReadyQueues
import FunsOS.Mmap.Regions
import FunsOS.PageReplace.Evict
import FunsOS.Pmm.Exclusive
import FunsOS.Vmalloc.Reuse
import FunsOS.SlabCache.Conserve
import FunsOS.Rbtree.Erase
import FunsOS.Slip.RoundTrip
import FunsOS.NetNat.ReturnPath
import FunsOS.Route.Cache
import FunsOS.Ip.Forward
import FunsOS.Ip.Qos
import FunsOS.FileDesc.Table
import FunsOS.Tcp.Wire
import FunsOS.Tcp.Reassembly
import FunsOS.Path.Resolve
import FunsOS.Softdiv.Divide
import FunsOS.FunFormat.Dlsym
import FunsOS.Pipe.Fifo
import FunsOS.Flock.Exclusion
import FunsOS.Ramfs.Contents
import FunsOS.Ramfs.InStep
import FunsOS.BlockCache.Durable
import FunsOS.SchedSmp.Accounting
import FunsOS.SchedSmp.Current
import FunsOS.IpcSem.Semop
import FunsOS.IpcMsg.Queue
