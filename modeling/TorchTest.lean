import TorchTest.BlockingQueue.Accounts
import TorchTest.BlockingQueue.Delivery
import TorchTest.BlockingQueue.Exceptions
import TorchTest.BlockingQueue.Linearizability
import TorchTest.BlockingQueue.Monitor
import TorchTest.BlockingQueue.Moves
import TorchTest.BlockingQueue.Quiescence
import TorchTest.BlockingQueue.Storage
import TorchTest.BlockingQueue.Wakeups
import TorchTest.Deque.Cost
import TorchTest.Deque.Iterators
import TorchTest.Deque.Layout
import TorchTest.Deque.Lifetime
import TorchTest.Deque.Map
import TorchTest.Deque.MyStack
import TorchTest.Deque.Refinement
import TorchTest.Deque.Source
import TorchTest.Deque.Steps
import TorchTest.FixedPool.Footprint
import TorchTest.FixedPool.Invariant
import TorchTest.FixedPool.Isolation
import TorchTest.FixedPool.Partition
import TorchTest.FixedPool.Refinement
import TorchTest.FixedPool.Refusal
import TorchTest.FixedPool.ReuseOrder
import TorchTest.FixedPool.Screens
import TorchTest.FixedPool.Sizes
import TorchTest.FixedPool.Source
import TorchTest.FixedPool.Steps
import TorchTest.FixedPool.Threading
import TorchTest.FixedPool.World
import TorchTest.Library.CHeap
import TorchTest.Library.Chain
import TorchTest.Library.Counting
import TorchTest.Library.FreeStore
import TorchTest.Library.Interval
import TorchTest.Library.Linearization
import TorchTest.Library.Memory
import TorchTest.Library.Runs
import TorchTest.Machine
import TorchTest.MyString.Leaks
import TorchTest.MyString.Ownership
import TorchTest.MyString.Source
import TorchTest.PoolAlloc.Accounting
import TorchTest.PoolAlloc.Alignment
import TorchTest.PoolAlloc.Arena
import TorchTest.PoolAlloc.Arithmetic
import TorchTest.PoolAlloc.Batches
import TorchTest.PoolAlloc.Chunk
import TorchTest.PoolAlloc.Coherence
import TorchTest.PoolAlloc.Contents
import TorchTest.PoolAlloc.Elementary
import TorchTest.PoolAlloc.Exhaustion
import TorchTest.PoolAlloc.Flags
import TorchTest.PoolAlloc.Forced
import TorchTest.PoolAlloc.Growth
import TorchTest.PoolAlloc.Ledger
import TorchTest.PoolAlloc.Links
import TorchTest.PoolAlloc.Ownership
import TorchTest.PoolAlloc.Pieces
import TorchTest.PoolAlloc.Progress
import TorchTest.PoolAlloc.Refill
import TorchTest.PoolAlloc.Refinement
import TorchTest.PoolAlloc.Reuse
import TorchTest.PoolAlloc.Source
import TorchTest.PoolAlloc.ThreadMoves
import TorchTest.PoolAlloc.ThreadSafety
import TorchTest.PoolAlloc.Threads
import TorchTest.PoolAlloc.World
import TorchTest.Serialize.Canonical
import TorchTest.Serialize.RoundTrip
import TorchTest.Serialize.Source
import TorchTest.Serialize.Untrusted
import TorchTest.Threaded
