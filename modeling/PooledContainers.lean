import PooledContainers.Backoff
import PooledContainers.Container
import PooledContainers.Driving
import PooledContainers.Error
import PooledContainers.HandleTable
import PooledContainers.IndexKey
import PooledContainers.Link.Basic
import PooledContainers.Link.Lemmas
import PooledContainers.Operation
import PooledContainers.Payload
import PooledContainers.Pool.Actions
import PooledContainers.Pool.Basic
import PooledContainers.Pool.Session
import PooledContainers.PriorityQueue.Basic
import PooledContainers.PriorityQueue.Helping
import PooledContainers.PriorityQueue.Operations
import PooledContainers.PriorityQueue.Session
import PooledContainers.Proofs.Agreement
import PooledContainers.Proofs.Backoff
import PooledContainers.Proofs.Driving
import PooledContainers.Proofs.Faultless
import PooledContainers.Proofs.Limits
import PooledContainers.Proofs.Line
import PooledContainers.Proofs.Link
import PooledContainers.Proofs.Operation
import PooledContainers.Proofs.Pool.Balance
import PooledContainers.Proofs.Pool.Cascade
import PooledContainers.Proofs.Pool.Counting
import PooledContainers.Proofs.Pool.Figure
import PooledContainers.Proofs.Pool.History
import PooledContainers.Proofs.Pool.Keeping
import PooledContainers.Proofs.Pool.Reserve
import PooledContainers.Proofs.Pool.Runs
import PooledContainers.Proofs.Pool.View
import PooledContainers.Proofs.PriorityQueue.Changes
import PooledContainers.Proofs.PriorityQueue.Consistent
import PooledContainers.Proofs.PriorityQueue.Contents
import PooledContainers.Proofs.PriorityQueue.Counts
import PooledContainers.Proofs.PriorityQueue.Driving
import PooledContainers.Proofs.PriorityQueue.Ending
import PooledContainers.Proofs.PriorityQueue.Entries
import PooledContainers.Proofs.PriorityQueue.Enumeration
import PooledContainers.Proofs.PriorityQueue.Framing
import PooledContainers.Proofs.PriorityQueue.Ground
import PooledContainers.Proofs.PriorityQueue.Handling
import PooledContainers.Proofs.PriorityQueue.Helper
import PooledContainers.Proofs.PriorityQueue.Hints
import PooledContainers.Proofs.PriorityQueue.History
import PooledContainers.Proofs.PriorityQueue.InOrder
import PooledContainers.Proofs.PriorityQueue.Insert
import PooledContainers.Proofs.PriorityQueue.Landing
import PooledContainers.Proofs.PriorityQueue.Levels
import PooledContainers.Proofs.PriorityQueue.Limits
import PooledContainers.Proofs.PriorityQueue.Linking
import PooledContainers.Proofs.PriorityQueue.Looking
import PooledContainers.Proofs.PriorityQueue.Meaning
import PooledContainers.Proofs.PriorityQueue.Operating
import PooledContainers.Proofs.PriorityQueue.Peeking
import PooledContainers.Proofs.PriorityQueue.Positions
import PooledContainers.Proofs.PriorityQueue.Removal
import PooledContainers.Proofs.PriorityQueue.Runs
import PooledContainers.Proofs.PriorityQueue.Shape
import PooledContainers.Proofs.PriorityQueue.Stages
import PooledContainers.Proofs.PriorityQueue.Start
import PooledContainers.Proofs.PriorityQueue.Unlinking
import PooledContainers.Proofs.PriorityQueue.Walks
import PooledContainers.Proofs.Session
import PooledContainers.Proofs.SortedList.Completing
import PooledContainers.Proofs.SortedList.Consistent
import PooledContainers.Proofs.SortedList.Contents
import PooledContainers.Proofs.SortedList.Counts
import PooledContainers.Proofs.SortedList.Driving
import PooledContainers.Proofs.SortedList.Entries
import PooledContainers.Proofs.SortedList.Enumeration
import PooledContainers.Proofs.SortedList.InOrder
import PooledContainers.Proofs.SortedList.Operating
import PooledContainers.Proofs.SortedList.Positions
import PooledContainers.Proofs.SortedList.Runs
import PooledContainers.Proofs.SortedList.Shape
import PooledContainers.Proofs.SortedList.Start
import PooledContainers.Proofs.Threads
import PooledContainers.Proofs.Tidying
import PooledContainers.Sentinel
import PooledContainers.Session
import PooledContainers.SortedList.Basic
import PooledContainers.SortedList.Operations
import PooledContainers.SortedList.Search
import PooledContainers.SortedList.Session
import PooledContainers.Word
