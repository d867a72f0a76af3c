import Tether.Lib.Machine
import Tether.Lib.Lists
import Tether.Shape.SqlClause
import Tether.Shape.Isolation
import Tether.Shape.Refinement
import Tether.Shape.RowIdentity
import Tether.Shape.Resume
import Tether.Shape.KeyUpdate
import Tether.Shape.Presence
import Tether.Shape.Fingerprint
import Tether.Shape.Reconstruct
import Tether.Shape.MatchForms
import Tether.Shape.FilterEquality
import Tether.Shape.WhereUnicode
import Tether.Wal.Durability
import Tether.Wal.RoundTrip
import Tether.Wal.Ingest
import Tether.Wal.SharedLog
import Tether.Wal.Progress
import Tether.Wal.Publication
import Tether.Snapshot.Take
import Tether.Snapshot.Query
import Tether.Mutate.AtMostOnce
import Tether.Engine.Dispatch
import Tether.Engine.Handoff
import Tether.Engine.Publish
import Tether.Engine.Subscribe
import Tether.Engine.Replay
import Tether.Engine.FanOut
import Tether.Engine.Principals
import Tether.Engine.HaltedStream
import Tether.Engine.Sharing
import Tether.Engine.Replacement
import Tether.Engine.Recovery
import Tether.Engine.Loud
import Tether.Engine.Rerun
import Tether.Engine.Warning
import Tether.Engine.Holes
import Tether.Engine.Transactions
import Tether.Engine.EndToEnd
import Tether.Engine.Convergence
import Tether.Engine.Locks
import Tether.Engine.Backpressure
import Tether.Engine.Lifecycle
import Tether.Engine.Supervisor
import Tether.Transport.Protocol
