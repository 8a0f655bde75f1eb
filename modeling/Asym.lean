import Asym.AllocationSizes
import Asym.ArgumentVectors
import Asym.BitmapSearch
import Asym.BootDisk
import Asym.BootTables
import Asym.CStrings
import Asym.Calculator
import Asym.CanonicalPaths
import Asym.Catalogues
import Asym.ChdirRaces
import Asym.CircularLists
import Asym.ClientArea
import Asym.CommandLines
import Asym.DeadlineOrder
import Asym.DeviceRemoval
import Asym.DirtyRectangles
import Asym.Drawing
import Asym.DwmCopies
import Asym.DwmRepaints
import Asym.DwmShown
import Asym.ElfLoads
import Asym.EventDevices
import Asym.ExpiredSleepers
import Asym.FrameSupplies
import Asym.GlyphPixels
import Asym.HeapIntegrity
import Asym.ImageLoads
import Asym.InterruptLines
import Asym.InterruptMasking
import Asym.IntrusiveLists
import Asym.IpiQueue
import Asym.KernelHalf
import Asym.KernelHandover
import Asym.KernelMappings
import Asym.Keyboard
import Asym.Listings
import Asym.LogLines
import Asym.MadtWalks
import Asym.MessageQueue
import Asym.MouseBatches
import Asym.NestedMasks
import Asym.NumberPrinting
import Asym.Numerals
import Asym.OrderedLists
import Asym.Ownership
import Asym.PageExhaustion
import Asym.PathBounds
import Asym.PathLookup
import Asym.PathResolution
import Asym.PendingItems
import Asym.PhysicalRuns
import Asym.PipePolling
import Asym.PipeStream
import Asym.PipeTeardown
import Asym.PipeWaiters
import Asym.PixelBlends
import Asym.PlacedWrites
import Asym.Polling
import Asym.ProgramLoads
import Asym.Ps2Devices
import Asym.RamfsCursor
import Asym.RecordWalks
import Asym.RectFills
import Asym.RectPartitions
import Asym.RingQueue
import Asym.SchedulingOrder
import Asym.Scrolling
import Asym.SegmentLoads
import Asym.SpaceSharing
import Asym.StackAccounting
import Asym.SyscallFailures
import Asym.SyscallResources
import Asym.Sysfs
import Asym.SysfsInverse
import Asym.SysfsTree
import Asym.TerminalScreen
import Asym.TerminalSession
import Asym.TextDrawing
import Asym.ThreadCustody
import Asym.ThreadFrees
import Asym.ThreadJoins
import Asym.ThreadSelection
import Asym.ThreadSwitches
import Asym.TicketLock
import Asym.Timeouts
import Asym.Uptime
import Asym.VolumeLifetimes
import Asym.Wakeups
import Asym.WidgetLists
import Asym.WindowCreation
import Asym.WindowDrags
import Asym.WindowFiles
import Asym.WindowFlushes
import Asym.WindowOwners
import Asym.WindowTimers
import Asym.WordCopies
import Asym.WorkingDirectory
