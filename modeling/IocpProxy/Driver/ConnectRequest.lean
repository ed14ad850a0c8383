import IocpProxy.SockAddr

/-!
# Connect requests and their versions

At the connect redirect layer the filtering platform shows a callout the data of a connect
request. A filter may change the data and apply the change, which makes a new version of the
request; every version names the filter that made it and points to the version before it. The
memory of a redirect context belongs to the version that names it.

## Main definitions

* `IocpProxy.ConnectRequest` : one version.
* `IocpProxy.Connection` : a connect request with all its versions.
* `IocpProxy.ConnectRequest.publishedContext` : the bytes a process gets that asks for the redirect
  context.
-/

namespace IocpProxy

/-- Memory from the pool: its address and what is stored there. -/
structure Block where
  addr : ℕ
  bytes : List UInt8
  deriving DecidableEq

/-- `FWPS_CONNECT_REQUEST0`, without the pointer to the version before. -/
structure ConnectRequest where
  localAddressAndPort : SockAddrStorage
  remoteAddressAndPort : SockAddrStorage
  portReservationToken : UInt64
  localRedirectTargetPID : UInt32
  modifierFilterId : UInt64
  /-- Zero when `NULL`. -/
  localRedirectHandle : ℕ
  localRedirectContext : Option Block
  localRedirectContextSize : ℕ
  deriving DecidableEq

/-- The first `localRedirectContextSize` bytes of the redirect context. -/
def ConnectRequest.publishedContext (r : ConnectRequest) : List UInt8 :=
  match r.localRedirectContext with
  | none => []
  | some b => b.bytes.take r.localRedirectContextSize

/-- A connect request as the application made it, and the versions applied since, the newest
first. -/
structure Connection where
  original : ConnectRequest
  versions : List ConnectRequest
  deriving DecidableEq

namespace Connection

/-- The newest version. -/
def latest (c : Connection) : ConnectRequest := c.versions.headD c.original

/-- All versions in the order of the `previousVersion` pointers. -/
def history (c : Connection) : List ConnectRequest := c.versions ++ [c.original]

/-- A filter applies a new version. -/
def push (c : Connection) (r : ConnectRequest) : Connection :=
  { c with versions := r :: c.versions }

@[simp] theorem history_push (c : Connection) (r : ConnectRequest) :
    (c.push r).history = r :: c.history := rfl

/-- The data a filter gets to write to: a copy of the newest version in its own name. -/
def writableLayer (c : Connection) (filterId : UInt64) : ConnectRequest :=
  { c.latest with modifierFilterId := filterId }

end Connection

/-! ### A request to port 80 -/

/-- The address 93.184.216.34:80. -/
def webServer : SockAddrStorage := fun i => [2, 0, 0, 80, 93, 184, 216, 34].getD i 0

/-- A request to the web server that no filter has changed. -/
def webRequest : ConnectRequest where
  localAddressAndPort := fun _ => 0
  remoteAddressAndPort := webServer
  portReservationToken := 0
  localRedirectTargetPID := 0
  modifierFilterId := 0
  localRedirectHandle := 0
  localRedirectContext := none
  localRedirectContextSize := 0

end IocpProxy
