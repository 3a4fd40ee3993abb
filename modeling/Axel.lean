import Axel.Fault
import Axel.Lib.SplitCounter
import Axel.Peripheral.Timer
import Axel.Lib.Rounding
import Axel.Memory.Alignment
import Axel.Memory.EarlyAllocator
import Axel.Memory.FrameCount
import Axel.Memory.GlobalAllocator
import Axel.Memory.Region
import Axel.Lib.Strides
import Axel.Memory.Bss
import Axel.Lib.Dyadic
import Axel.Buddy.Allocator
import Axel.Buddy.FreeLists
import Axel.Buddy.AllocateSemantics
import Axel.Buddy.Buddies
import Axel.Buddy.FreeSemantics
import Axel.Memory.Frame
import Axel.Buddy.Runs
import Axel.Buddy.Contracts
import Axel.Buddy.Coalescing
import Axel.Buddy.Nesting
import Axel.Buddy.Fragmentation
import Axel.Lib.Descent
import Axel.Paging.Entry
import Axel.Paging.EntryUpdates
import Axel.Paging.Page
import Axel.Paging.Mmu
import Axel.Paging.Table
import Axel.Paging.Window
import Axel.Paging.CreateSemantics
import Axel.Paging.Growth
import Axel.Paging.MapSemantics
import Axel.Paging.LeafTable
import Axel.Paging.Grafting
import Axel.Paging.Tree
import Axel.Paging.Refinement
import Axel.Paging.Interference
import Axel.Paging.Search
import Axel.Paging.FailedSearch
import Axel.Paging.FindEmpty
import Axel.Paging.Boot
import Axel.Paging.BootCode
import Axel.Paging.Atomicity
import Axel.Paging.Cycle
import Axel.Paging.EmptyPages
import Axel.Paging.PagingRuns
import Axel.Paging.With
import Axel.Paging.Init
import Axel.Paging.InitSemantics
import Axel.Paging.InitProgress
import Axel.Paging.InitTree
import Axel.Paging.Fitting
import Axel.Paging.BuddyFrames
import Axel.Paging.BuddyTables
import Axel.Paging.ContinuousMap
import Axel.Paging.BlockMapping
import Axel.Paging.Levels
import Axel.Paging.ContinuousRuns
import Axel.Paging.MappedFrames
import Axel.Graphic.CharacterDisplay
import Axel.Graphic.Terminal
import Axel.Graphic.GraphicalDisplay
import Axel.Graphic.Fill
import Axel.Graphic.TrueColor
import Axel.Graphic.CellColors
import Axel.Lib.BitField
import Axel.Lib.Preemption
import Axel.Interrupt.Pic
import Axel.Interrupt.DescriptorTable
import Axel.Interrupt.Pit
import Axel.Interrupt.TimerInterrupt
import Axel.Peripheral.Gpio
import Axel.Peripheral.Spi
import Axel.Memory.Init
import Axel.Paging.PageContents
import Axel.Kernel.Startup
import Axel.Kernel.StartupProgress
import Axel.Kernel.Runs
