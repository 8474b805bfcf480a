import Haentgl.Lib.Program
import Haentgl.Lib.Simulation
import Haentgl.Lib.Parse
import Haentgl.Lib.Text
import Haentgl.Lib.Runs
import Haentgl.Lib.Latest
import Haentgl.Lib.Batches
import Haentgl.Protocol.Constants
import Haentgl.Protocol.Packets
import Haentgl.Protocol.Io
import Haentgl.Protocol.Writer
import Haentgl.Protocol.Reader
import Haentgl.Protocol.ReadErrors
import Haentgl.Protocol.Sockets
import Haentgl.Protocol.Nested
import Haentgl.Protocol.Link
import Haentgl.Protocol.Basic
import Haentgl.Protocol.Writers
import Haentgl.Protocol.Handshake
import Haentgl.Protocol.Requests
import Haentgl.Server.Links
import Haentgl.Server.Forwarders
import Haentgl.Server.Proxy
import Haentgl.Server.Invariants
import Haentgl.Server.Levels
import Haentgl.Server.Parties
import Haentgl.Server.Responses
import Haentgl.Server.Readings
import Haentgl.Server.Relay
import Haentgl.Server.Commands
import Haentgl.Server.Auth
import Haentgl.Server.Numbers
import Haentgl.Server.Pool
import Haentgl.Server.Lifecycle
import Haentgl.Backend.Keys
import Haentgl.Backend.Manager
import Haentgl.Backend.Discovery
import Haentgl.Backend.Lists
import Haentgl.Backend.Notify
import Haentgl.Backend.Resolver
import Haentgl.Backend.Members
import Haentgl.Backend.Failover
import Haentgl.Backend.Outages
import Haentgl.Backend.Rotation
import Haentgl.Server.Tenants
import Haentgl.Server.Logins
import Haentgl.Server.Opening
import Haentgl.Server.Startup
import Haentgl.Server.Faults
import Haentgl.Server.ChangeUser
import Haentgl.Server.Session
import Haentgl.Server.Streams
import Haentgl.Server.Resets
import Haentgl.Server.Pools
import Haentgl.Server.Greeting
import Haentgl.Server.StaticProxy
import Haentgl.Server.DemoBackend
import Haentgl.Server.Capabilities
import Haentgl.Server.Statements
import Haentgl.Cp.ActiveUsers
import Haentgl.Cp.Target
import Haentgl.Cp.Users
