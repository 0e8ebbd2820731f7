import LibUdp.Bytes.Overlay
import LibUdp.Cli.Atomicity
import LibUdp.Cli.Collection
import LibUdp.Cli.Conversion
import LibUdp.Cli.Detection
import LibUdp.Cli.Doubles
import LibUdp.Cli.Failure
import LibUdp.Cli.Override
import LibUdp.Cli.Programs
import LibUdp.Cli.Reading
import LibUdp.Cli.Reordering
import LibUdp.Cli.Required
import LibUdp.Cli.Separation
import LibUdp.Cli.Spelling
import LibUdp.Cli.Syntax
import LibUdp.Cli.Validation
import LibUdp.Echo.Properties
import LibUdp.Logger
import LibUdp.Mesh.Example
import LibUdp.Mesh.Message.Ambiguity
import LibUdp.Mesh.Message.Decoding
import LibUdp.Mesh.Message.Properties
import LibUdp.Mesh.Network.Properties
import LibUdp.Mesh.Node.Contents
import LibUdp.Mesh.Node.Locking.Deadlock
import LibUdp.Mesh.Node.Locking.Lifecycle
import LibUdp.Mesh.Node.Peers.Staleness
import LibUdp.Mesh.Node.Reporting
import LibUdp.Mesh.Node.Sending
import LibUdp.Mesh.PeerId
import LibUdp.Udp.Socket.Callers
import LibUdp.Udp.Socket.Continuation
import LibUdp.Udp.Socket.Ownership
import LibUdp.Udp.Socket.Synchronous
import LibUdp.Udp.Task.Ownership
