import Xv6.Disk.Bcache
import Xv6.Disk.Ring
import Xv6.Fs.Abstract
import Xv6.Fs.Bitmap
import Xv6.Fs.Blocks
import Xv6.Fs.Buffers
import Xv6.Fs.Calls
import Xv6.Fs.Capacity
import Xv6.Fs.Content
import Xv6.Fs.Dirs
import Xv6.Fs.Files
import Xv6.Fs.Images
import Xv6.Fs.Inode
import Xv6.Fs.Kernel
import Xv6.Fs.Layout
import Xv6.Fs.Logged
import Xv6.Fs.Namei
import Xv6.Fs.Names
import Xv6.Fs.Opens
import Xv6.Fs.ReadWrite
import Xv6.Fs.Refs
import Xv6.Fs.Runs
import Xv6.Fs.Tables
import Xv6.Fs.Update
import Xv6.Fs.View
import Xv6.Ipc.Console
import Xv6.Ipc.Order
import Xv6.Ipc.Pipe
import Xv6.Ipc.Uart
import Xv6.Ipc.Wakeup
import Xv6.Lib.Bytes
import Xv6.Lib.Count
import Xv6.Lib.Fifo
import Xv6.Lib.Lines
import Xv6.Lib.Links
import Xv6.Lib.Ownership
import Xv6.Lib.Redo
import Xv6.Lib.Rendezvous
import Xv6.Lib.Spec
import Xv6.Lib.Triple
import Xv6.Log.Commit
import Xv6.Log.Crash
import Xv6.Log.History
import Xv6.Log.Machine
import Xv6.Log.Recovery
import Xv6.Log.Reserve
import Xv6.Mkfs.Append
import Xv6.Mkfs.Boot
import Xv6.Mkfs.Build
import Xv6.Mkfs.Image
import Xv6.Mkfs.Machine
import Xv6.Mkfs.Mount
import Xv6.Params
import Xv6.Process.Effect
import Xv6.Process.Frame
import Xv6.Process.Interrupts
import Xv6.Process.Invariant
import Xv6.Process.Kernel
import Xv6.Process.Machine
import Xv6.Process.Pair
import Xv6.Process.Parked
import Xv6.Process.Peer
import Xv6.Process.Slots
import Xv6.Process.StepSpec
import Xv6.Table.Lifecycle
import Xv6.Table.Machine
import Xv6.Table.Pids
import Xv6.Table.Reaping
import Xv6.User.Grep
import Xv6.User.Memmove
import Xv6.User.Printf
import Xv6.User.Regexp
import Xv6.Vm.Calls
import Xv6.Vm.Contents
import Xv6.Vm.Copies
import Xv6.Vm.Exec
import Xv6.Vm.Global
import Xv6.Vm.Isolation
import Xv6.Vm.Machine
import Xv6.Vm.Mapping
import Xv6.Vm.Memory
import Xv6.Vm.PipeRead
import Xv6.Vm.Pipes
import Xv6.Vm.Programs
import Xv6.Vm.Safety
import Xv6.Vm.Shape
import Xv6.Vm.Space
import Xv6.Vm.Table
import Xv6.Vm.UserCopy
