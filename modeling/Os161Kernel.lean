import Os161Kernel.Pids
import Os161Kernel.SwapInterleaving
import Os161Kernel.SwapfileLookup
import Os161Kernel.Semaphore
import Os161Kernel.Hangman
import Os161Kernel.DeviceTable
import Os161Kernel.TlbSlots
import Os161Kernel.RegionLimits
import Os161Kernel.SwapOutCalls
import Os161Kernel.PageSources
import Os161Kernel.SfsLeaks
import Os161Kernel.SfsSectors
import Os161Kernel.SfsOffsets
import Os161Kernel.SfsArrays
import Os161Kernel.SfsSync
import Os161Kernel.RecursionDepth
import Os161Kernel.FrameRequests
import Os161Kernel.UioTransfers
import Os161Kernel.Console
import Os161Kernel.Copyinout
import Os161Kernel.InterruptLevels
import Os161Kernel.Migration
import Os161Kernel.SemfsListing
import Os161Kernel.SemfsWakeups
import Os161Kernel.SubpageRuns
import Os161Kernel.ProgramNames
import Os161Kernel.Bswap
import Os161Kernel.Arrays
import Os161Kernel.Threadlist
import Os161Kernel.DiskRequests
import Os161Kernel.Ipi
import Os161Kernel.SerialOutput
import Os161Kernel.Spinlock
