import Dicon.Framework.LittleEndian
import Dicon.Framework.Numerals
import Dicon.Framework.FieldReader
import Dicon.Framework.Cells
import Dicon.Framework.ByteMemory
import Dicon.Framework.Transition
import Dicon.Framework.Linearization
import Dicon.Framework.Script
import Dicon.Framework.Since
import Dicon.Framework.Framing
import Dicon.Framework.LinkedChain
import Dicon.Framework.Waiting
import Dicon.Framework.WellLinked
import Dicon.Framework.Ownership
import Dicon.Framework.RotateXor
import Dicon.Framework.Transport
import Dicon.Common.CInt
import Dicon.Common.Protocol
import Dicon.Common.Messages
import Dicon.Common.Sockets
import Dicon.Common.Sending
import Dicon.Common.ExactReads
import Dicon.Common.Checksum
import Dicon.Common.ChecksumLaws
import Dicon.MainServer.Registry
import Dicon.MainServer.Server
import Dicon.MainServer.Steps
import Dicon.MainServer.Invariant
import Dicon.MainServer.History
import Dicon.MainServer.Running
import Dicon.MainServer.Stream
import Dicon.MainServer.LiveEntries
import Dicon.MainServer.DeadEntries
import Dicon.MainServer.Linearizable
import Dicon.MainServer.Authentic
import Dicon.MainServer.Frames
import Dicon.MainServer.Stall
import Dicon.MainServer.Boundaries
import Dicon.MainServer.Vanishing
import Dicon.MainServer.Readdress
import Dicon.MainServer.Replies
import Dicon.MainServer.GetInfo
import Dicon.MainServer.Pointers
import Dicon.MainServer.Epochs
import Dicon.MainServer.Losses
import Dicon.MainServer.Answers
import Dicon.SharedConn.System
import Dicon.SharedConn.Pairing
import Dicon.SharedConn.Progress
import Dicon.SharedConn.Join
import Dicon.SharedConn.Linearizable
import Dicon.Node.State
import Dicon.Node.Handlers
import Dicon.Node.Loop
import Dicon.Node.OneResponse
import Dicon.Node.Determined
import Dicon.Node.Announce
import Dicon.Node.Sessions
import Dicon.Node.Persistence
import Dicon.Client.Builders
import Dicon.Client.Strings
import Dicon.Client.Calls
import Dicon.Client.InStep
import Dicon.Client.Memory
import Dicon.Client.NodesInfo
import Dicon.RemoteObjects.Upload
import Dicon.RemoteObjects.Loader
import Dicon.RemoteObjects.Verify
import Dicon.RemoteObjects.Versions
import Dicon.RemoteObjects.LoadPath
import Dicon.RemoteObjects.Report
import Dicon.RemoteMemory.Flat
import Dicon.RemoteMemory.Refinement
import Dicon.RemoteMemory.Refused
import Dicon.RemoteMemory.Shared
import Dicon.RemoteMemory.Isolated
import Dicon.Bounds.FixedBuffers
import Dicon.Bounds.DeclaredSizes
import Dicon.Bounds.MessageLengths
import Dicon.Connections.Records
import Dicon.Connections.Servers
import Dicon.Connections.Descriptors
import Dicon.RemoteThreads.Machine
import Dicon.RemoteThreads.Assets
import Dicon.RemoteThreads.Rules
import Dicon.Demo.FindPrimes
import Dicon.Demo.Chunks
import Dicon.Demo.CountPrimes
import Dicon.Demo.HashCracker
import Dicon.Cluster.Connecting
import Dicon.Cluster.Discovery
import Dicon.Cluster.Backlog
import Dicon.Cluster.Crowd
import Dicon.Cluster.Finishing
