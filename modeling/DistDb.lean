import DistDb.Lib.Base64
import DistDb.Lib.BinarySearch
import DistDb.Lib.Chunks
import DistDb.Lib.Codec
import DistDb.Lib.Comparison
import DistDb.Lib.HeldLog
import DistDb.Lib.Increasing
import DistDb.Lib.Inverted
import DistDb.Lib.Join
import DistDb.Lib.KeyedList
import DistDb.Lib.KeyedLog
import DistDb.Lib.Kleene
import DistDb.Lib.LiveLog
import DistDb.Lib.Maps
import DistDb.Lib.Numerals
import DistDb.Lib.Ownership
import DistDb.Lib.Pages
import DistDb.Lib.Rows
import DistDb.Lib.Run
import DistDb.Lib.Scan
import DistDb.Lib.Text
import DistDb.Lib.Wildcard
import DistDb.Table.Order
import DistDb.Table.RuntimeIndex
import DistDb.Table.Value
import DistDb.Transaction.Record
import DistDb.Transaction.WireFrame
import DistDb.Payload.Envelope
import DistDb.Payload.FieldLookup
import DistDb.Payload.History
import DistDb.Payload.RoundTrip
import DistDb.Payload.Row
import DistDb.Payload.Stored
import DistDb.Payload.Transform
import DistDb.Payload.Typed
import DistDb.Wal.Batches
import DistDb.Wal.Compaction
import DistDb.Wal.Failures
import DistDb.Wal.Lemmas.Durability
import DistDb.Wal.Lemmas.Frames
import DistDb.Wal.Lemmas.Placement
import DistDb.Wal.Lemmas.Storage
import DistDb.Wal.Manager
import DistDb.Wal.Readers
import DistDb.Wal.Reads
import DistDb.Wal.Recovery
import DistDb.Wal.Requests
import DistDb.Wal.Storage
import DistDb.Wal.Theorems
import DistDb.Wal.Worker
import DistDb.Execution.Lemmas.LiveRows
import DistDb.Execution.LimitedScan
import DistDb.Execution.LiveRows
import DistDb.Execution.Realignment
import DistDb.Execution.Theorems
import DistDb.Access.Authorization
import DistDb.Access.Grants
import DistDb.Access.Statement
import DistDb.Affinity.Document
import DistDb.Affinity.SyncTask
import DistDb.Cache.Accessors
import DistDb.Cache.Agreement
import DistDb.Cache.Coherence
import DistDb.Cache.ColdScan
import DistDb.Cache.DirectScan
import DistDb.Cache.Equality
import DistDb.Cache.Lemmas.Answers
import DistDb.Cache.Lemmas.Imports
import DistDb.Cache.Lemmas.Writes
import DistDb.Cache.Patterns
import DistDb.Cache.Positions
import DistDb.Cache.Probes
import DistDb.Cache.Ranges
import DistDb.Cache.Snapshots
import DistDb.Cache.Stream
import DistDb.Cache.TPHashSet
import DistDb.Coordinator.Lemmas.Locks
import DistDb.Coordinator.Lemmas.Staged
import DistDb.Coordinator.Loop
import DistDb.Coordinator.Theorems
import DistDb.Group.Terminal
import DistDb.Group.Theorems
import DistDb.Indexing.Coherence
import DistDb.Indexing.Integers
import DistDb.Indexing.Multimap
import DistDb.Indexing.PostingPages
import DistDb.Indexing.Postings
import DistDb.Indexing.Range
import DistDb.Indexing.Rebuild
import DistDb.Indexing.ScopedClone
import DistDb.Indexing.ScopedLookup
import DistDb.Indexing.State
import DistDb.Indexing.Store
import DistDb.Isolation.Conflicts
import DistDb.Isolation.Lemmas
import DistDb.Isolation.Theorems
import DistDb.Mutation.Append
import DistDb.Mutation.Log
import DistDb.Mutation.Statement
import DistDb.Mutation.UnassignedColumns
import DistDb.Query.Condition
import DistDb.Query.GroupBy
import DistDb.Query.Join
import DistDb.Query.Lemmas.Select
import DistDb.Query.Like
import DistDb.Query.NestedLoop
import DistDb.Query.OrderBy
import DistDb.Query.Row
import DistDb.Query.Select
import DistDb.Query.ThreeValued
import DistDb.Replication.Catchup
import DistDb.Replication.Delivery
import DistDb.Replication.Exchange
import DistDb.Replication.Streams
import DistDb.Session.Control
import DistDb.Session.Lemmas.Bookkeeping
import DistDb.Session.Lemmas.Exclusion
import DistDb.Session.Theorems
import DistDb.Sql.Request
import DistDb.Transfer.InsertChunks
