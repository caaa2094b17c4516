import Libnbd.Lifecycle
import Libnbd.Agreement
import Libnbd.Sync
import Libnbd.Bounds
import Libnbd.Failure
import Libnbd.Lib.Reader
import Libnbd.Stream
import Libnbd.Fragment
import Libnbd.Negotiation.Flags
import Libnbd.Negotiation.Connect
import Libnbd.Negotiation.Options
import Libnbd.Negotiation.Api
import Libnbd.Negotiation.Run
import Libnbd.Negotiation.Rules
import Libnbd.Negotiation.Shape
import Libnbd.Negotiation.Effect
import Libnbd.Negotiation.Callbacks
import Libnbd.Negotiation.Payload
import Libnbd.Extents
import Libnbd.Negotiation.Contexts
import Libnbd.Completion
import Libnbd.Polling
import Libnbd.Ownership
import Libnbd.Channels
import Libnbd.Shutdown
import Libnbd.Session
import Libnbd.Origins
import Libnbd.Assertions
import Libnbd.Coverage
import Libnbd.Fuse
import Libnbd.Lib.Parse
import Libnbd.Negotiation.Output
import Libnbd.Negotiation.Revision
import Libnbd.Ready
import Libnbd.Negotiation.Tls
import Libnbd.Negotiation.Lockstep
import Libnbd.Enforcement
import Libnbd.Encoding
import Libnbd.Payloads
import Libnbd.Rejection
import Libnbd.Copy.Extents
import Libnbd.FirstError
import Libnbd.Copy.FileExtents
import Libnbd.Copy.FileOps
import Libnbd.Copy.Sizes
import Libnbd.Copy.Split
import Libnbd.FuseFile
import Libnbd.Copy.Worker
import Libnbd.Copy.Accounting
import Libnbd.Copy.Exact
import Libnbd.Copy.Threads
import Libnbd.Copy.Interleaving
import Libnbd.Copy.Visits
import Libnbd.Copy.Zeroes
import Libnbd.Uri.Queries
import Libnbd.Lib.Decimal
import Libnbd.Uri.Policy
import Libnbd.Spawn.Execvpe
import Libnbd.Spawn.Environment
import Libnbd.Tools.HumanSize
import Libnbd.Tools.Dump
import Libnbd.Tools.Map
import Libnbd.Tools.MapPrint
import Libnbd.Negotiation.Plaintext
import Libnbd.Common.IsZero
import Libnbd.Common.Vector
import Libnbd.Spawn.Xwritel
import Libnbd.Synchronous
import Libnbd.Endings
import Libnbd.Termination
import Libnbd.Copy.Synch
import Libnbd.Rust.Prompt
import Libnbd.Negotiation.Termination
import Libnbd.Copy.Progress
import Libnbd.Terms
