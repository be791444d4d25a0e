import TM2C.Lib.Transition
import TM2C.Lib.ByteMemory
import TM2C.Lib.AppendLog
import TM2C.Lib.LockMap
import TM2C.Lib.Interleaving
import TM2C.Lib.Serial
import TM2C.Lib.RingBuffer
import TM2C.Lib.Extent
import TM2C.Lib.LinkedList
import TM2C.Lib.Chunks
import TM2C.Common
import TM2C.WriteSet
import TM2C.ReadYourWrites
import TM2C.RwEntry
import TM2C.Ssht
import TM2C.DslService
import TM2C.LockService
import TM2C.LockTable
import TM2C.Insertion
import TM2C.MutualExclusion
import TM2C.PhantomConflicts
import TM2C.Arbitration
import TM2C.TxMemory
import TM2C.ReadModifyWrite
import TM2C.TypedStores
import TM2C.PgasSolo
import TM2C.PgasExclusion
import TM2C.PgasMemory
import TM2C.PgasCommit
import TM2C.PgasSerial
import TM2C.ReleaseAll
import TM2C.System
import TM2C.CircularWait
import TM2C.GreedyTimestamps
import TM2C.SystemInvariant
import TM2C.CommitIsolation
import TM2C.Snapshot
import TM2C.KillOrder
import TM2C.ServiceRefinement
import TM2C.Platforms
import TM2C.Statistics
import TM2C.EarlyRelease
import TM2C.SlotOwners
import TM2C.ShmemAllocator
import TM2C.PgasAllocators
import TM2C.Backoff
import TM2C.FakeMem
import TM2C.FakeMemPartition
import TM2C.LinkedListSet
import TM2C.LinkedListRefinement
import TM2C.HashTableMove
import TM2C.MapReduce
import TM2C.CoreNumbering
import TM2C.WriteSetUpdate
import TM2C.EightBitEntries
import TM2C.Lib.AtomicBlocks
import TM2C.Transactions
import TM2C.Atomicity
import TM2C.Lib.WordMix
import TM2C.Hashing
import TM2C.Bank
import TM2C.ParallelMapReduce
import TM2C.SerialRuns
import TM2C.Accounts
import TM2C.WorkLeft
import TM2C.AttemptsEnd
