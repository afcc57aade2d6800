import XosKernel.Theory.Bytes
import XosKernel.Theory.StateRun
import XosKernel.Fat32.Ata
import XosKernel.Fat32.Driver
import XosKernel.Fat32.FatTable
import XosKernel.Fat32.Names
import XosKernel.Fat32.Directory
import XosKernel.Fat32.Files
import XosKernel.Fat32.Paths
import XosKernel.Theory.Chain
import XosKernel.Fat32.Volume
import XosKernel.Fat32.FatSpec
import XosKernel.Fat32.Allocation
import XosKernel.Fat32.Release
import XosKernel.Fat32.DirSpec
import XosKernel.Fat32.Ownership
import XosKernel.Fat32.WriteSpec
import XosKernel.Fat32.NameSpec
import XosKernel.Fat32.Inert
import XosKernel.Fat32.Operations
import XosKernel.Fat32.Invariant
import XosKernel.Fat32.Calls
import XosKernel.Fat32.ReadSpec
import XosKernel.Fat32.RoundTrip
import XosKernel.Fat32.Frame
import XosKernel.Fat32.Directories
import XosKernel.Fat32.OtherFiles
import XosKernel.Fat32.FailedWrite
import XosKernel.Fat32.Resolution
import XosKernel.Fat32.DeletePath
import XosKernel.Fat32.OpenPath
import XosKernel.Theory.PathText
import XosKernel.Fat32.CurrentPath
import XosKernel.Theory.Cyclic
import XosKernel.Mm.Pmm
import XosKernel.Sched.Scheduler
import XosKernel.Sched.Runs
import XosKernel.Sched.Exit
import XosKernel.Arch.Interrupts
import XosKernel.Arch.Acknowledge
import XosKernel.Mm.Pages
import XosKernel.Sched.OneRunning
import XosKernel.Sched.RoundRobin
import XosKernel.Sched.Stacks
import XosKernel.Arch.Elf
import XosKernel.Arch.ElfWrites
import XosKernel.Arch.ProgramMemory
import XosKernel.Fat32.MountGeometry
import XosKernel.Fat32.CallDirectory
import XosKernel.Fat32.OneDirectory
import XosKernel.Fat32.WriteBounds
import XosKernel.Fat32.StrayRelease
import XosKernel.Fat32.DirectoryUpdates
import XosKernel.Fat32.ReadChain
import XosKernel.Fat32.Partition
import XosKernel.Image.Contents
import XosKernel.Image.ReadBack
import XosKernel.Sched.Machine
import XosKernel.Sched.Contexts
import XosKernel.Fat32.TableMap
import XosKernel.Fat32.Remount
import XosKernel.Mm.LiveSet
import XosKernel.Mm.Heap
import XosKernel.Fat32.ReadFile
import XosKernel.Arch.FileReads
import XosKernel.Lib.Printf
import XosKernel.Net.Frames
import XosKernel.Shell.Network
import XosKernel.Shell.Readline
import XosKernel.Shell.History
import XosKernel.Display.Vga
import XosKernel.Display.Scrollback
import XosKernel.Fat32.PartitionSlots
import XosKernel.Arch.LoadedProgram
import XosKernel.Arch.LoaderStack
import XosKernel.Fat32.FailingTable
import XosKernel.Fat32.PathBounds
import XosKernel.Fat32.Navigation
import XosKernel.Fat32.UnsetLocals
import XosKernel.Fat32.ChangeDirectory
import XosKernel.Fat32.NameMatch
import XosKernel.Fat32.MadeNames
import XosKernel.Fat32.MadeDirectory
import XosKernel.Fat32.StaleSlot
import XosKernel.Fat32.CountedReads
import XosKernel.Fat32.FailingAllocation
import XosKernel.Fat32.FailingLookups
import XosKernel.Mm.FreePages
import XosKernel.Sched.FailedCreation
import XosKernel.Sched.EarlyTicks
import XosKernel.Theory.RingBuffer
import XosKernel.Drivers.Keyboard
import XosKernel.Drivers.KeyEvents
import XosKernel.Drivers.Serial
import XosKernel.Drivers.Queues
import XosKernel.Display.Paper
import XosKernel.Display.Window
import XosKernel.Display.Layout
import XosKernel.Display.Cursor
import XosKernel.Shell.Safety
import XosKernel.Shell.ControlKeys
import XosKernel.Shell.Commands
import XosKernel.Shell.CommandLine
import XosKernel.Theory.OnesComplement
import XosKernel.Net.Checksum
import XosKernel.Net.EchoPacket
import XosKernel.Shell.EchoRedirect
import XosKernel.Shell.Addresses
import XosKernel.Lib.Numerals
import XosKernel.Arch.Paging
import XosKernel.Arch.SyscallReads
import XosKernel.Theory.Store
import XosKernel.Fat32.FileStore
import XosKernel.Fat32.FileChanges
import XosKernel.Fat32.StoredFiles
import XosKernel.Theory.Ports
import XosKernel.Drivers.AtaPorts
import XosKernel.Drivers.AtaProtocol
import XosKernel.Drivers.AtaTransfers
import XosKernel.Theory.WordStack
import XosKernel.Arch.Descriptors
import XosKernel.Arch.InterruptStubs
import XosKernel.Arch.InterruptReturn
import XosKernel.Arch.UserPrograms
import XosKernel.Theory.OwnedRing
import XosKernel.Drivers.Rtl8139
import XosKernel.Drivers.Transmit
import XosKernel.Sched.OwnStacks
import XosKernel.Sched.GuardedStacks
import XosKernel.Sched.SwitchReturns
import XosKernel.Lib.DebugLog
import XosKernel.Theory.Scan
import XosKernel.Drivers.Pci
import XosKernel.Boot.Loading
