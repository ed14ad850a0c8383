import IocpProxy.Library.TransitionSystem
import IocpProxy.Library.Ownership
import IocpProxy.Library.Locks
import IocpProxy.Proxy.SocketContext
import IocpProxy.Proxy.State
import IocpProxy.Proxy.InitRemoteConnection
import IocpProxy.Proxy.Threads
import IocpProxy.Proxy.Links
import IocpProxy.Proxy.Invariant
import IocpProxy.Proxy.Operations
import IocpProxy.Proxy.Isolation
import IocpProxy.Proxy.CompletionKeys
import IocpProxy.Proxy.Records
import IocpProxy.Proxy.Receives
import IocpProxy.Proxy.Forwarding
import IocpProxy.Proxy.Sends
import IocpProxy.Proxy.Relay
import IocpProxy.Proxy.Lifetime
import IocpProxy.Proxy.Forward
import IocpProxy.Proxy.Teardown
import IocpProxy.Proxy.Handles
import IocpProxy.Driver.ClassifyCallback
import IocpProxy.Driver.Destination
import IocpProxy.Driver.Versions
import IocpProxy.Driver.Ioctl
import IocpProxy.Driver.Requests
import IocpProxy.Driver.Sequence
import IocpProxy.Driver.FilterEngine
import IocpProxy.Driver.InitializeWfp
import IocpProxy.Driver.Lifecycle
import IocpProxy.Proxy.CompletionPort
import IocpProxy.Proxy.Shutdown
import IocpProxy.Host.Instances
import IocpProxy.Host.Registration
import IocpProxy.Proxy.Linking
import IocpProxy.Driver.DeviceContext
import IocpProxy.Driver.Exits
import IocpProxy.Driver.Decision
import IocpProxy.Driver.Resources
import IocpProxy.Proxy.AcceptConnection
import IocpProxy.Proxy.CleanUp
import IocpProxy.Proxy.CriticalSections
import IocpProxy.Proxy.Linearizability
import IocpProxy.Proxy.AcceptLoop
import IocpProxy.Proxy.AcceptProgress
import IocpProxy.Proxy.Termination
import IocpProxy.Proxy.Attendance
import IocpProxy.Proxy.Delivery
import IocpProxy.Proxy.Leaks
import IocpProxy.Proxy.Truncation
import IocpProxy.Proxy.Process
import IocpProxy.Host.Traffic
import IocpProxy.Host.Transparency
