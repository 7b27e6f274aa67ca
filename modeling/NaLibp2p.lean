import NaLibp2p.Runtime.Delivery
import NaLibp2p.Lib.Matching
import NaLibp2p.Plugin.Messages
import NaLibp2p.Plugin.Rma
import NaLibp2p.Runtime.Incoming
import NaLibp2p.Receive.Interleaving
import NaLibp2p.Endpoint
import NaLibp2p.Endpoint.Accounting
import NaLibp2p.Endpoint.ExactlyOnce
import NaLibp2p.Endpoint.Confinement
import NaLibp2p.Endpoint.Sources
import NaLibp2p.Endpoint.Filtering
import NaLibp2p.Network
import NaLibp2p.Network.Gets
import NaLibp2p.Lib.Lanes
import NaLibp2p.Runtime.Numbering
import NaLibp2p.Runtime.Order
import NaLibp2p.Link
import NaLibp2p.Link.Ordering
import NaLibp2p.Plugin.Handles
import NaLibp2p.Endpoint.Puts
import NaLibp2p.Endpoint.Unmatched
import NaLibp2p.Lib.Wakeup
import NaLibp2p.Plugin.Progress
import NaLibp2p.Network.Settled
import NaLibp2p.Mesh
import NaLibp2p.Mesh.Deadlock
import NaLibp2p.EventLoop.Lookups
import NaLibp2p.EventLoop.Answers
import NaLibp2p.EventLoop.Addresses
import NaLibp2p.Receive.Cancellation
import NaLibp2p.Receive.Delivered
import NaLibp2p.Endpoint.Frames
import NaLibp2p.Runtime.Serving
import NaLibp2p.Lib.Text
import NaLibp2p.Plugin.Transport
import NaLibp2p.Plugin.Address
import NaLibp2p.Lib.Checked
import NaLibp2p.Plugin.Parsing
import NaLibp2p.Plugin.AddressBytes
import NaLibp2p.Plugin.SelfAddress
import NaLibp2p.Lib.Stable
import NaLibp2p.Receive.Board
import NaLibp2p.Lib.Potential
import NaLibp2p.Mesh.Drain
import NaLibp2p.Endpoint.Boxes
import NaLibp2p.Startup
import NaLibp2p.Plugin.Initialize
import NaLibp2p.Network.Received
import NaLibp2p.Mesh.Refinement
import NaLibp2p.Mesh.Arrival
import NaLibp2p.EventLoop.Deadlines
import NaLibp2p.Process
import NaLibp2p.Process.Lookups
import NaLibp2p.Endpoint.Destroyed
import NaLibp2p.RelayServer
