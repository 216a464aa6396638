import Xv6Mount.Infra.Trace
import Xv6Mount.Infra.Crash
import Xv6Mount.Infra.Linked
import Xv6Mount.Param
import Xv6Mount.Log.Header
import Xv6Mount.Log.Crash
import Xv6Mount.Log.Calls
import Xv6Mount.Bio
import Xv6Mount.Fs.Inode
import Xv6Mount.Fs.Path
import Xv6Mount.Mount.Table
import Xv6Mount.Fs.Namex
import Xv6Mount.Mount.Syscall
import Xv6Mount.Mount.Boot
import Xv6Mount.Mount.Refcount
import Xv6Mount.Mount.Invariant
import Xv6Mount.Proc.Namespace
import Xv6Mount.Proc.Proc
import Xv6Mount.Proc.Pid
import Xv6Mount.Mount.Tree
import Xv6Mount.Fs.Coherent
import Xv6Mount.Mount.Resolve
import Xv6Mount.Proc.Kill
import Xv6Mount.Proc.Exit
import Xv6Mount.Infra.Bitmap
import Xv6Mount.Fs.Balloc
import Xv6Mount.Infra.Ring
import Xv6Mount.Pipe
import Xv6Mount.Console
import Xv6Mount.Fs.Dir
import Xv6Mount.Infra.Count
import Xv6Mount.Fs.DirInv
import Xv6Mount.Fs.Blocks
import Xv6Mount.Syscall.Args
import Xv6Mount.User.Umalloc
import Xv6Mount.Vm.Uvm
import Xv6Mount.Infra.Buffer
import Xv6Mount.User.Sh
import Xv6Mount.User.ShGrammar
import Xv6Mount.User.ShParse
import Xv6Mount.Fs.Rw
import Xv6Mount.Fs.RwSpec
import Xv6Mount.User.Grep
import Xv6Mount.Printint
import Xv6Mount.Infra.FirstOcc
import Xv6Mount.Log.Absorb
import Xv6Mount.Bio.Cache
import Xv6Mount.Bio.Pin
import Xv6Mount.Log.Protocol
import Xv6Mount.Proc.NsCount
import Xv6Mount.Infra.DList
import Xv6Mount.Bio.Bcache
import Xv6Mount.Infra.Cycle
import Xv6Mount.Infra.Tile
import Xv6Mount.User.UmallocFree
import Xv6Mount.User.UmallocMalloc
import Xv6Mount.User.UmallocRun
import Xv6Mount.Infra.Copy
import Xv6Mount.Infra.Lines
import Xv6Mount.String
import Xv6Mount.User.GrepLoop
