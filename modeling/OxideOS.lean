import OxideOS.Lib.TransitionSystem
import OxideOS.Lib.Cascade
import OxideOS.Lib.Guard
import OxideOS.Lib.Bitmap
import OxideOS.Lib.Text
import OxideOS.Basic
import OxideOS.Capability.Permissions
import OxideOS.Capability.Resource
import OxideOS.Capability.Table
import OxideOS.Capability.Revocation
import OxideOS.Capability.Confinement
import OxideOS.Capability.AddressRange
import OxideOS.Capability.RevokeOrder
import OxideOS.Net.Firewall
import OxideOS.Net.Socket
import OxideOS.Net.Http
import OxideOS.Net.Url
import OxideOS.Net.HttpRequest
import OxideOS.Net.HttpReceive
import OxideOS.Net.HttpResponse
import OxideOS.Virtio.Queue
import OxideOS.Net.VirtioNet
import OxideOS.Net.Transmit
import OxideOS.Net.Receive
import OxideOS.Memory.FrameAllocator
import OxideOS.Memory.FrameRuns
import OxideOS.Memory.Statistics
import OxideOS.Memory.BootMap
import OxideOS.Lib.OrderedMap
import OxideOS.Lib.WriteBack
import OxideOS.Lib.Recency
import OxideOS.Storage.Device
import OxideOS.Storage.VirtioBlk
import OxideOS.Storage.DiskSchedule
import OxideOS.Virtio.Geometry
import OxideOS.Storage.BlockCache
import OxideOS.Storage.Eviction
import OxideOS.Storage.Acknowledged
import OxideOS.Storage.Flush
import OxideOS.Lib.Bytes
import OxideOS.Lib.Layout
import OxideOS.Lib.XorShift
import OxideOS.Lib.ByteMemory
import OxideOS.Lib.X64
import OxideOS.Crypto.Rng
import OxideOS.Userspace.Elf
import OxideOS.Storage.OxideFs
import OxideOS.Storage.FileMap
import OxideOS.Storage.Dedup
import OxideOS.Storage.DiskFormat
import OxideOS.Storage.LoadBounds
import OxideOS.Storage.Persistence
import OxideOS.Storage.ContextStore
import OxideOS.Storage.RoundTrip
import OxideOS.Storage.Isolation
import OxideOS.Storage.ContextMap
import OxideOS.Task.Task
import OxideOS.Task.Scheduler
import OxideOS.Task.Conservation
import OxideOS.Lib.PriorityRotation
import OxideOS.Task.RoundRobin
import OxideOS.Task.DispatchOrder
import OxideOS.Task.Machine
import OxideOS.Memory.Paging
import OxideOS.Lib.BinaryHeap
import OxideOS.Gpu.Scheduler
import OxideOS.Gpu.Order
import OxideOS.Gpu.Accounting
import OxideOS.Ipc.Basic
import OxideOS.Kernel.State
import OxideOS.Task.ContextSlots
import OxideOS.Task.ContextSwitch
import OxideOS.Task.Resumption
import OxideOS.Task.SwitchAbstraction
import OxideOS.Ipc.Message
import OxideOS.Ipc.Channel
import OxideOS.Ipc.RequestReply
import OxideOS.Kernel.System
import OxideOS.Lib.BoundedQueue
import OxideOS.Ipc.Delivery
import OxideOS.Kernel.Tables
import OxideOS.Ipc.Transfer
import OxideOS.Ipc.Subscription
import OxideOS.Ipc.Publish
import OxideOS.Ipc.SharedMemory
import OxideOS.Ipc.RegionAuthority
import OxideOS.Ipc.RegionFrames
import OxideOS.Kernel.Recycling
import OxideOS.Kernel.Stacks
import OxideOS.Kernel.ResourceGate
import OxideOS.Kernel.RequestLife
import OxideOS.Kernel.ReplyAuth
import OxideOS.Lib.RoseTree
import OxideOS.Agent.Registry
import OxideOS.Agent.Names
import OxideOS.Agent.Lifecycle
import OxideOS.Agent.Subtree
import OxideOS.Agent.Forest
import OxideOS.Agent.Termination
import OxideOS.Agent.CallLog
import OxideOS.Agent.Reports
import OxideOS.Agent.Containment
import OxideOS.Agent.Outsiders
import OxideOS.Agent.Agreement
import OxideOS.Interrupts.TimerLocks
import OxideOS.Timer.Deadline
import OxideOS.Timer.Firing
import OxideOS.Kernel.Timed
import OxideOS.Kernel.WakeUp
import OxideOS.Kernel.Sleep
import OxideOS.Syscall.Dispatch
import OxideOS.Syscall.Ambient
import OxideOS.Storage.WriteOrder
import OxideOS.Storage.Crash
import OxideOS.Lib.LockOrder
import OxideOS.Kernel.LockOrder
import OxideOS.Lib.X64Stack
import OxideOS.Syscall.Entry
import OxideOS.Storage.Restart
import OxideOS.Pci.Scan
