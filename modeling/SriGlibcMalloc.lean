import SriGlibcMalloc.Lookup.HeapRegistration
import SriGlibcMalloc.Lookup.Model
import SriGlibcMalloc.Metadata.AllOrNothing
import SriGlibcMalloc.Metadata.CachedRun
import SriGlibcMalloc.Transition.Run
import SriGlibcMalloc.LockFreeTable.Model
import SriGlibcMalloc.OpenAddressing.Probe
import SriGlibcMalloc.LockFreeTable.Tables
import SriGlibcMalloc.LockFreeTable.Migration
import SriGlibcMalloc.LockFreeTable.Assimilate
import SriGlibcMalloc.LockFreeTable.Sequential
import SriGlibcMalloc.LockFreeTable.MapRun
import SriGlibcMalloc.LockFreeTable.Moving
import SriGlibcMalloc.LockFreeTable.GrowthRun
import SriGlibcMalloc.MainArena.Coverage
import SriGlibcMalloc.MainArena.Trim
import SriGlibcMalloc.MainArena.OldTop
import SriGlibcMalloc.Bins.Run
import SriGlibcMalloc.Blocks.Memalign
import SriGlibcMalloc.MappedChunks.Remap
import SriGlibcMalloc.BitMask.Masks
import SriGlibcMalloc.PoolAllocator.Model
import SriGlibcMalloc.PoolAllocator.Exact
import SriGlibcMalloc.PoolAllocator.SlotRun
import SriGlibcMalloc.PoolAllocator.Reserve
import SriGlibcMalloc.Lphash.KeyedRun
import SriGlibcMalloc.Replay.LogLine
import SriGlibcMalloc.Replay.RoundTrip
import SriGlibcMalloc.Replay.Handlers
import SriGlibcMalloc.Replay.FollowsLog
import SriGlibcMalloc.EntryPoints.World
import SriGlibcMalloc.EntryPoints.Internal
import SriGlibcMalloc.EntryPoints.Public
import SriGlibcMalloc.Outcome.Routine
import SriGlibcMalloc.EntryPoints.Need
import SriGlibcMalloc.EntryPoints.Arranged
import SriGlibcMalloc.EntryPoints.Steps
import SriGlibcMalloc.EntryPoints.Initialised
import SriGlibcMalloc.EntryPoints.InternalSpecs
import SriGlibcMalloc.EntryPoints.ArenaSpecs
import SriGlibcMalloc.EntryPoints.PublicSpecs
import SriGlibcMalloc.EntryPoints.Threads
import SriGlibcMalloc.EntryPoints.LockBalance
import SriGlibcMalloc.EntryPoints.Confined
import SriGlibcMalloc.EntryPoints.ReserveSuffices
import SriGlibcMalloc.EntryPoints.AbsentRecords
import SriGlibcMalloc.Bins.Index
import SriGlibcMalloc.Bins.Model
import SriGlibcMalloc.Bins.Scan
import SriGlibcMalloc.CircularList.Ring
import SriGlibcMalloc.Bins.SizeHeads
import SriGlibcMalloc.Bins.Links
import SriGlibcMalloc.Bins.SkipRing
import SriGlibcMalloc.Bins.Relink
import SriGlibcMalloc.Bins.Placement
import SriGlibcMalloc.Bins.Unlink
import SriGlibcMalloc.Bins.LinkedRoutines
import SriGlibcMalloc.CircularList.Pairing
import SriGlibcMalloc.Bins.Pointers
import SriGlibcMalloc.Bins.Threads
import SriGlibcMalloc.Bins.ScanRun
import SriGlibcMalloc.Bins.SkipRingRun
import SriGlibcMalloc.Bins.KeptRun
import SriGlibcMalloc.Blocks.Malloced
import SriGlibcMalloc.MappedChunks.Model
import SriGlibcMalloc.Blocks.Realloc
import SriGlibcMalloc.Blocks.Usable
import SriGlibcMalloc.ByteMemory.Ranges
import SriGlibcMalloc.Blocks.Contents
import SriGlibcMalloc.BoundaryTags.Table
import SriGlibcMalloc.BoundaryTags.Walk
import SriGlibcMalloc.Heaps.Reached
import SriGlibcMalloc.Metadata.SplitPointer
import SriGlibcMalloc.Metadata.Load
import SriGlibcMalloc.Metadata.FrontMove
import SriGlibcMalloc.Metadata.Deletion
import SriGlibcMalloc.Metadata.Inverse
import SriGlibcMalloc.Metadata.Maximum
import SriGlibcMalloc.TableMemory.Ownership
import SriGlibcMalloc.TableMemory.Trace
import SriGlibcMalloc.MallocCheck.Trailer
import SriGlibcMalloc.MallocCheck.Realloc
import SriGlibcMalloc.LockFreeTable.Overfull
import SriGlibcMalloc.LockFreeTable.MigrationLoop
import SriGlibcMalloc.Lphash.SegmentPools
import SriGlibcMalloc.MappedChunks.Consistency
import SriGlibcMalloc.MappedChunks.Routines
import SriGlibcMalloc.MappedChunks.RegistryRun
