import NdnNode.Name
import NdnNode.Packet
import NdnNode.Node
import NdnNode.Api
import NdnNode.Dispatch
import NdnNode.Sweep
import NdnNode.Run
import NdnNode.Invariant
import NdnNode.Guarantees
import NdnNode.Preserved
import NdnNode.Timeouts
import NdnNode.Handles
import NdnNode.Lifecycle
import NdnNode.Registrations
