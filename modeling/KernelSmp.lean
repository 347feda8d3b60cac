import KernelSmp.Syscall.Bounds
import KernelSmp.Memory.PmmComplete
import KernelSmp.Memory.LoaderRegions
import KernelSmp.Smp.Lapic
import KernelSmp.Smp.Madt
import KernelSmp.Memory.KmallocSmp
import KernelSmp.Memory.VmaBalance
import KernelSmp.Smp.Shootdown
import KernelSmp.Memory.SlabClasses
import KernelSmp.Memory.KmallocAlignment
import KernelSmp.Atomic.Spinlock
import KernelSmp.Drivers.Keyboard
import KernelSmp.Drivers.Serial
import KernelSmp.Sched.SleepQueue
import KernelSmp.Sched.Clock
import KernelSmp.Sched.RunQueueLock
import KernelSmp.Sched.Quanta
import KernelSmp.Memory.VmaExact
import KernelSmp.Memory.SharedKernel
import KernelSmp.Memory.RangeRollback
import KernelSmp.Memory.HugePages
import KernelSmp.Fs.ElfCopy
import KernelSmp.Sched.TaskList
import KernelSmp.Sched.Reaper
import KernelSmp.Fs.TarBounds
import KernelSmp.Fs.Vfs
import KernelSmp.Boot.KernelLoader
import KernelSmp.Common.Printf
import KernelSmp.Syscall.UserHeapBlocks
