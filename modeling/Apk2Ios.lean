import Apk2Ios.Lib.Lists
import Apk2Ios.Lib.Bytes
import Apk2Ios.Lib.Reader
import Apk2Ios.Lib.Utf8
import Apk2Ios.Lib.Leb128
import Apk2Ios.Lib.Opcode
import Apk2Ios.Lib.Words
import Apk2Ios.Lib.Memory
import Apk2Ios.Lib.Arm64
import Apk2Ios.Lib.Assembly
import Apk2Ios.Lib.Placement
import Apk2Ios.Lib.Trie
import Apk2Ios.Lib.Threads
import Apk2Ios.Lib.Monitor
import Apk2Ios.Lib.ThreadData
import Apk2Ios.Lib.CSource
import Apk2Ios.Lib.Files
import Apk2Ios.Lib.Relaxation
import Apk2Ios.Lib.Records
import Apk2Ios.Lib.Runs
import Apk2Ios.Lib.Heap
import Apk2Ios.Lib.Histories
import Apk2Ios.MachO.Dyld
import Apk2Ios.MachO.Format
import Apk2Ios.MachO.Walk
import Apk2Ios.MachO.Loader
import Apk2Ios.MachO.Link
import Apk2Ios.MachO.ExportTrie
import Apk2Ios.Errors
import Apk2Ios.Python
import Apk2Ios.Apk
import Apk2Ios.Elf
import Apk2Ios.ElfLayout
import Apk2Ios.Bionic
import Apk2Ios.Shim.Phdr
import Apk2Ios.Shim.PhdrSource
import Apk2Ios.Shim.Once
import Apk2Ios.Shim.Semaphore
import Apk2Ios.Shim.Futex
import Apk2Ios.Shim.FutexWake
import Apk2Ios.Shim.Registry
import Apk2Ios.Shim.MutexStorage
import Apk2Ios.Shim.Sockaddr
import Apk2Ios.Shim.OpenFlags
import Apk2Ios.Shim.Deadline
import Apk2Ios.Shim.CondClock
import Apk2Ios.Shim.SemCount
import Apk2Ios.Shim.Readdir
import Apk2Ios.Shim.Recvfrom
import Apk2Ios.Shim.Addrinfo
import Apk2Ios.Shim.Keys
import Apk2Ios.Shim.Signals
import Apk2Ios.Phase3.Encoding
import Apk2Ios.Phase3.Streams
import Apk2Ios.Phase3.Commands
import Apk2Ios.Phase2.Translate
import Apk2Ios.Phase3.Layout
import Apk2Ios.Phase3.Relocate
import Apk2Ios.Phase3.Translate
import Apk2Ios.Phase3.Load
import Apk2Ios.Phase3.Order
import Apk2Ios.Phase2.Agree
import Apk2Ios.Phase3.Fixups
import Apk2Ios.Phase3.Accounting
import Apk2Ios.Phase3.Placed
import Apk2Ios.Failures
import Apk2Ios.Shim.Scaffold
import Apk2Ios.Shim.Stubs
import Apk2Ios.Shim.Setjmp
import Apk2Ios.Shim.Defines
import Apk2Ios.Phase4.Encoding
import Apk2Ios.Phase4.ExportTrie
import Apk2Ios.Phase4.TrieLayout
import Apk2Ios.Phase4.Header
import Apk2Ios.Phase4.Translate
import Apk2Ios.Phase4.Output
import Apk2Ios.Phase4.Memory
import Apk2Ios.Phase4.Outcome
import Apk2Ios.Phase4.Structure
import Apk2Ios.Phase4.Sections
import Apk2Ios.Phase4.LoadBias
import Apk2Ios.Phase4.Link
import Apk2Ios.Calls
import Apk2Ios.ElfReport
import Apk2Ios.Reports
