import AuraKernel.Physical.PlainScan
import AuraKernel.Physical.Bookkeeping
import AuraKernel.Physical.FirstFit
import AuraKernel.Heap.Coalescing
import AuraKernel.Heap.Reallocation
import AuraKernel.Heap.AlignedFree
import AuraKernel.Heap.DoubleFree
import AuraKernel.Heap.Reuse
import AuraKernel.Zram.Runs
import AuraKernel.Slab.Runs
import AuraKernel.Paging.Translation
import AuraKernel.Paging.Exhaustion
import AuraKernel.Paging.Rights
import AuraKernel.Boot.AvailableRam
import AuraKernel.Boot.MapEntries
import AuraKernel.Boot.LongMode
import AuraKernel.Sched.Switching
import AuraKernel.Interrupts.Transparency
import AuraKernel.Drivers.KeyRing
import AuraKernel.Drivers.Consoles
import AuraKernel.Drivers.ConsoleText
import AuraKernel.Drivers.Tui
import AuraKernel.Drivers.SerialText
import AuraKernel.Drivers.SerialDigits
import AuraKernel.Drivers.Box
import AuraKernel.Drivers.Gauge
import AuraKernel.Shell.Recovery
import AuraKernel.Shell.LineEditor
import AuraKernel.Shell.LogHistory
import AuraKernel.Telemetry.CpuLoad
import AuraKernel.Kernel.IdentityMap
import AuraKernel.Kernel.NoTwoOwners
import AuraKernel.Kernel.AddressSpaces
import AuraKernel.Kernel.Heartbeat
import AuraKernel.Kernel.Board
import AuraKernel.Interrupts.Tables
import AuraKernel.Machine.PrefixCode
import AuraKernel.Zram.Acceptance
