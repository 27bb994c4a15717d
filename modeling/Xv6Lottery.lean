import Xv6Lottery.Library.Run
import Xv6Lottery.Library.Draw
import Xv6Lottery.Library.Residue
import Xv6Lottery.Library.RunLength
import Xv6Lottery.Library.Process
import Xv6Lottery.Library.Monitor
import Xv6Lottery.Library.Ring
import Xv6Lottery.Library.Heap
import Xv6Lottery.Library.Links
import Xv6Lottery.Library.Sections
import Xv6Lottery.Life.Data
import Xv6Lottery.Life.Step
import Xv6Lottery.Life.Tree
import Xv6Lottery.Life.Change
import Xv6Lottery.Life.History
import Xv6Lottery.Kernel.Rand
import Xv6Lottery.Kernel.Table
import Xv6Lottery.Kernel.Scheduler
import Xv6Lottery.Kernel.Machine
import Xv6Lottery.Kernel.Coherent
import Xv6Lottery.Kernel.Preserve
import Xv6Lottery.Kernel.Refine
import Xv6Lottery.Kernel.Lottery
import Xv6Lottery.Kernel.Share
import Xv6Lottery.Kernel.Processes
import Xv6Lottery.Kernel.Accounts
import Xv6Lottery.Kernel.Pids
import Xv6Lottery.Kernel.Frame
import Xv6Lottery.Kernel.Wakeup
import Xv6Lottery.Kernel.Fork
import Xv6Lottery.Recorder.Order
import Xv6Lottery.Recorder.Encoder
import Xv6Lottery.Recorder.Lock
import Xv6Lottery.Shell.Lexer
import Xv6Lottery.Shell.Parser
import Xv6Lottery.Shell.Grammar
import Xv6Lottery.Shell.Terminate
import Xv6Lottery.Syscall.Arguments
import Xv6Lottery.Syscall.Growproc
import Xv6Lottery.Syscall.Sleep
import Xv6Lottery.User.AssignTickets
import Xv6Lottery.User.Creation
import Xv6Lottery.User.Roster
import Xv6Lottery.User.Nested
import Xv6Lottery.User.Fan
import Xv6Lottery.User.Report
import Xv6Lottery.Pipe.Code
import Xv6Lottery.Pipe.Fifo
import Xv6Lottery.Pipe.Records
import Xv6Lottery.Pipe.Sleepers
import Xv6Lottery.Pipe.Calls
import Xv6Lottery.Locks.Sleeplock
import Xv6Lottery.Log.Code
import Xv6Lottery.Log.Reserve
import Xv6Lottery.Log.Crash
import Xv6Lottery.Mem.Kalloc
import Xv6Lottery.Mem.Vm
import Xv6Lottery.Mem.Tables
import Xv6Lottery.Mem.Pages
import Xv6Lottery.Mem.Space
import Xv6Lottery.Mem.Boot
import Xv6Lottery.Mem.Growth
import Xv6Lottery.Mem.Image
import Xv6Lottery.Mem.Private
import Xv6Lottery.Bio.Code
import Xv6Lottery.Bio.Invariant
import Xv6Lottery.Bio.Drive
import Xv6Lottery.Bio.Steps
import Xv6Lottery.Bio.Coherent
