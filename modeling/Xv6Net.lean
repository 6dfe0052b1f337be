import Xv6Net.Lib.Bytes
import Xv6Net.Lib.Except
import Xv6Net.Lib.Ring
import Xv6Net.Kernel.Console
import Xv6Net.Net.ArpFrame
import Xv6Net.Kernel.Syscall
import Xv6Net.Net.SysArp
import Xv6Net.Lib.WriteTrace
import Xv6Net.Fs.Layout
import Xv6Net.Fs.Log
import Xv6Net.Fs.LogOp
import Xv6Net.Fs.Blocks
import Xv6Net.Fs.FileWrite
import Xv6Net.Kernel.Vm
import Xv6Net.Kernel.UserMem
import Xv6Net.Fs.Namespace
import Xv6Net.Kernel.Proc
import Xv6Net.Kernel.ProcInv
import Xv6Net.Kernel.ProcSafety
import Xv6Net.Kernel.Pipe
import Xv6Net.Fs.Mkfs
import Xv6Net.Fs.Read
import Xv6Net.Fs.RootHole
import Xv6Net.Fs.MkfsRoot
import Xv6Net.Fs.SharedWrite
import Xv6Net.Fs.Bio
import Xv6Net.Fs.BioInv
import Xv6Net.Lib.Links
import Xv6Net.Fs.BioReaders
import Xv6Net.Kernel.Mp
import Xv6Net.Fs.Path
import Xv6Net.User.Grep
import Xv6Net.User.Umalloc
import Xv6Net.Fs.Namex
import Xv6Net.User.Sh
import Xv6Net.User.ShLex
import Xv6Net.User.ShGrammar
import Xv6Net.User.UmallocBlocks
import Xv6Net.User.UmallocFree
import Xv6Net.Kernel.String
import Xv6Net.Kernel.Printint
import Xv6Net.Kernel.Bootmain
import Xv6Net.Kernel.Dealloc
import Xv6Net.Lib.Bits
import Xv6Net.Lib.Regions
import Xv6Net.Lib.Count
import Xv6Net.Kernel.Pci
import Xv6Net.Net.E1000Driver
import Xv6Net.Fs.FileTable
import Xv6Net.Kernel.Spinlock
import Xv6Net.Kernel.Format
import Xv6Net.Kernel.Cga
import Xv6Net.Kernel.Exec
import Xv6Net.Lib.Flags
import Xv6Net.Kernel.Kbd
import Xv6Net.User.Wc
