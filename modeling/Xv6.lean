import Xv6.Lib.Run
import Xv6.Lib.Bytes
import Xv6.Lib.Crash
import Xv6.Lib.DList
import Xv6.Lib.Count
import Xv6.Lib.Ring
import Xv6.Lib.Except
import Xv6.Kernel.Trapframe
import Xv6.Kernel.Proc
import Xv6.Kernel.Syscall
import Xv6.Kernel.Signal
import Xv6.Kernel.Table
import Xv6.Kernel.Trap
import Xv6.Verif.SignalReturn
import Xv6.Kernel.Isolation
import Xv6.Verif.Kill
import Xv6.Sync.SleepWakeup
import Xv6.Verif.Wakeup
import Xv6.Verif.SlotReuse
import Xv6.Verif.Init
import Xv6.Fs.Log
import Xv6.Verif.LogCrash
import Xv6.Fs.Ops
import Xv6.Verif.GroupCommit
import Xv6.Fs.Bio
import Xv6.Verif.BufCache
import Xv6.Ipc.Pipe
import Xv6.Verif.PipeFifo
import Xv6.Dev.Console
import Xv6.Verif.ConsoleLine
import Xv6.Mem.Kalloc
import Xv6.Mem.Vm
import Xv6.Verif.PageTable
import Xv6.Verif.Growproc
import Xv6.Verif.ProcTree
import Xv6.Fs.Layout
import Xv6.Fs.File
import Xv6.Fs.Inode
import Xv6.Verif.SharedOffset
import Xv6.Verif.SignalDispatch
import Xv6.Verif.SignalStack
import Xv6.Kernel.Sigaction
import Xv6.Verif.Sigaction
import Xv6.Verif.InodeData
import Xv6.Fs.Path
import Xv6.Verif.Path
import Xv6.Lib.Copy
import Xv6.Kernel.String
import Xv6.User.Ulib
import Xv6.Verif.Memmove
import Xv6.User.Wc
import Xv6.Verif.Wc
import Xv6.User.Grep
import Xv6.Verif.Grep
import Xv6.Verif.SyscallArgs
import Xv6.Lib.Digits
import Xv6.Dev.Cprintf
import Xv6.User.Printf
import Xv6.Verif.Printf
import Xv6.Lib.Chain
import Xv6.Dev.Ide
import Xv6.Verif.IdeQueue
import Xv6.Kernel.Mp
import Xv6.Verif.Mp
import Xv6.Sync.Spinlock
import Xv6.Verif.Spinlock
import Xv6.Mem.Copyout
import Xv6.Verif.Copyout
import Xv6.User.Umalloc
import Xv6.Verif.FreeList
import Xv6.Verif.Umalloc
import Xv6.Verif.Malloc
import Xv6.Verif.Heap
import Xv6.User.Sh
import Xv6.Verif.ShParse
import Xv6.Verif.ShRender
import Xv6.Fs.Icache
import Xv6.Verif.Icache
import Xv6.Fs.Ftable
import Xv6.Verif.Ftable
import Xv6.Verif.PidWrap
