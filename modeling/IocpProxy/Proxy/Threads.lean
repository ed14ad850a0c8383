import IocpProxy.Library.TransitionSystem
import IocpProxy.Proxy.State
import IocpProxy.Proxy.InitRemoteConnection

/-!
# The threads of the proxy service

One step of the system is a step of the main thread, of the accept thread, of a worker, or of the
network. A step of a thread is a piece of its code up to the next point where another thread can
tell the difference; the outcome of the calls it makes is part of the action.

`Send` is cut after its `ZeroMemory`, and `Forward` before each of its two look-ups of the buddy.
The two calls of `SetBuddySocketContext` in `AcceptConnection` are one step, since no other thread
knows the two contexts yet. So are `WSAAccept` with the `SetSocket` after it, and
`InitRemoteConnection`: until they return, the new socket is in a local of the accept thread alone.

## Main definitions

* `IocpProxy.acceptStep` : `AcceptThread` and `AcceptConnection`.
* `IocpProxy.workerStep` : `WorkerThread`, `Forward`, `Send` and `Recv`.
* `IocpProxy.mainStep` : `main`, `CleanUp`.
* `IocpProxy.netStep` : what Winsock does with posted operations.
* `IocpProxy.proxy` : the transition system.
-/

namespace IocpProxy

/-! ### Actions -/

/-- What the calls of a step of the accept thread do. -/
inductive AcceptOutcome
  | ok
  | fail
  /-- `WSAAccept` returns a socket with this number. -/
  | socket (v : ℕ)
  /-- The by-value parameter of `AssociateWithIOCP` is at this address. -/
  | slot (a : Slot)
  /-- The calls of `InitRemoteConnection`. -/
  | remote (k : InitCalls)
  deriving DecidableEq

/-- What the calls of a step of a worker do. -/
inductive WorkerOutcome
  | ok
  | fail
  /-- `GetQueuedCompletionStatus` returns the completion of an operation, and its key leads to the
  context `c`. -/
  | dequeue (o : Op) (c : CtxId)
  deriving DecidableEq

/-- What the calls of a step of the main thread do. -/
inductive MainOutcome
  | ok
  | fail
  /-- `WSASocket` returns a socket with this number. -/
  | socket (v : ℕ)
  deriving DecidableEq

/-- What Winsock does with a posted operation. -/
inductive NetAction
  /-- The bytes `bs` are stored in the receive buffer; none at all when the peer has closed. -/
  | receive (o : Op) (bs : List UInt8)
  /-- The next `k` bytes of the send buffer are transmitted. -/
  | transmit (o : Op) (k : ℕ)
  /-- The completion of a send is queued, with the number of bytes transmitted. -/
  | complete (o : Op)
  /-- The operation fails. -/
  | fail (o : Op)
  deriving DecidableEq

/-- An action of the system with `n` workers. -/
inductive Action (n : ℕ)
  | main (o : MainOutcome)
  | accept (o : AcceptOutcome)
  | worker (w : Fin n) (o : WorkerOutcome)
  | net (a : NetAction)
  deriving DecidableEq

variable {n : ℕ}

/-! ### The accept thread -/

/-- The label after `AssociateWithIOCP` returned true for a side. -/
def afterAssoc : Side → AcceptPc
  | .client => .assoc .remote
  | .remote => .add .client

/-- The label after `AddToClientList` of a side. -/
def afterAdd : Side → AcceptPc
  | .client => .add .remote
  | .remote => .recv .client

/-- The label after `Recv` of a side returned true. -/
def afterRecv : Side → AcceptPc
  | .client => .recv .remote
  | .remote => .ret

/-- The label after the local of a side was set to `nullptr` on the exit path. -/
def afterNull : Side → AcceptPc
  | .client => .exitRemove .remote
  | .remote => .ret

namespace State

/-- The accept thread moves to another label. -/
def acceptAt (s : State n) (pc : AcceptPc) : State n :=
  { s with accept := { s.accept with pc := pc } }

/-- The run ends with a fault. -/
def fail (s : State n) (f : Fault) : State n := { s with fault := some f }

/-- `WSAAccept` returns `INVALID_SOCKET`. -/
def acceptFailed (s : State n) : State n :=
  { s with
    calls := s.calls + 1
    accept := { s.accept with pc := .exitClose, socket := some none } }

/-- `WSAAccept` returns a socket, and a context is made for it. -/
def accepted (s : State n) (v : ℕ) : State n :=
  { s.make { SocketContext.new with socket := some (s.handles.fresh v), conn := s.calls + 1 } with
    calls := s.calls + 1
    handles := s.handles.open v
    accept :=
      { s.accept with
        pc := .initRemote, socket := some (some (s.handles.fresh v)), client := some s.next } }

/-- `InitRemoteConnection` returns a context. -/
def remoteMade (s : State n) (T : HandleTable) (h : Handle) : State n :=
  { s.make { SocketContext.new with socket := some h, proxySocket := true, conn := s.calls } with
    handles := T
    accept := { s.accept with pc := .link, remote := some s.next } }

/-- `InitRemoteConnection` returns `nullptr`. -/
def remoteFailed (s : State n) (T : HandleTable) : State n :=
  { s with handles := T, accept := { s.accept with pc := .exitClose } }

/-- The two contexts are linked. -/
def linked (s : State n) (c r : CtxId) : State n :=
  ((s.setBuddySocketContext c r).setBuddySocketContext r c).acceptAt (.assoc .client)

/-- `AssociateWithIOCP` is entered for the context `x`. -/
def enterAssociate (s : State n) (d : Side) (a : Slot) (x : CtxId) : State n :=
  { s with accept := { s.accept with pc := .assocRet d, param := some (a, x) } }

/-- `CreateIoCompletionPort` succeeds with the address `a` as key, and `AssociateWithIOCP`
returns. -/
def associated (s : State n) (d : Side) (a : Slot) (x : CtxId) : State n :=
  { s with
    key := Function.update s.key x (some a)
    accept := { s.accept with pc := afterAssoc d, param := none } }

/-- `CreateIoCompletionPort` fails, and `AssociateWithIOCP` returns. -/
def associateFailed (s : State n) (x : CtxId) : State n :=
  { s.removeFromClientList (some x) with
    accept := { s.accept with pc := .exitClose, param := none } }

/-- `closesocket` on a handle some contexts may still use: their pending operations fail. -/
def closeSocket (s : State n) (h : Option Handle) : State n :=
  { s with
    handles := s.handles.close h
    ops := s.ops.map fun o => if h ≠ none ∧ (s.ctx o.ctx).socket = h then o.abort else o
    broken := fun x => s.broken x || decide (h ≠ none ∧ (s.ctx x).socket = h) }

/-- The start of the exit path: close `Socket` unless it is `NULL`. -/
def exitClosed (s : State n) : State n :=
  let s' := match s.accept.socket with
    | none => s
    | some h => s.closeSocket h
  { s' with
    accept :=
      { s.accept with
        socket := none
        pc := if s.accept.client = none ∧ s.accept.remote = none then .ret
          else .exitRemove .client } }

/-- On the exit path, the local of a side is set to `nullptr`. -/
def exitNulled (s : State n) (d : Side) : State n :=
  ({ s with accept := { s.accept.clear d with pc := afterNull d } } : State n).releaseOpt
    (s.accept.side d)

/-- `AcceptConnection` returns; its locals go out of scope, the last one first. -/
def acceptReturned (s : State n) : State n :=
  let s₁ : State n := { s with accept := { s.accept with remote := none } }
  let s₂ := s₁.releaseOpt s.accept.remote
  let s₃ : State n :=
    { s₂ with accept := { s₂.accept with client := none, socket := none, pc := .loop } }
  s₃.releaseOpt s.accept.client

end State

/-- A step of the accept thread. -/
def acceptStep (s : State n) (o : AcceptOutcome) : Option (State n) :=
  match s.accept.pc, o with
  | .loop, .ok => if s.shutdown then some (s.acceptAt .done) else none
  | .loop, .fail => some s.acceptFailed
  | .loop, .socket v => if s.handles.owner v = none then some (s.accepted v) else none
  | .initRemote, .remote k =>
    if ∀ v ∈ k.socket, s.handles.owner v = none then
      let r := initRemoteConnection s.handles k
      match r.remote with
      | none => some (s.remoteFailed r.handles)
      | some h => some (s.remoteMade r.handles h)
    else none
  | .link, .ok =>
    s.accept.client.bind fun c => s.accept.remote.map fun r => s.linked c r
  | .assoc d, .slot a => (s.accept.side d).map fun x => s.enterAssociate d a x
  | .assocRet d, .ok => s.accept.param.map fun p => s.associated d p.1 p.2
  | .assocRet _, .fail => s.accept.param.map fun p => s.associateFailed p.2
  | .add d, .ok =>
    (s.accept.side d).map fun x => (s.addToClientList x).acceptAt (afterAdd d)
  | .recv d, o =>
    (s.accept.side d).bind fun x =>
      match s.target x, o with
      | .own, .ok | .foreign, .ok => some ((s.postRecv x).acceptAt (afterRecv d))
      | _, .fail => some ((s.resetRecv x).acceptAt .exitClose)
      | _, _ => none
  | .exitClose, .ok => some s.exitClosed
  | .exitRemove d, .ok =>
    some ((s.removeFromClientList (s.accept.side d)).acceptAt (.exitNull d))
  | .exitNull d, .ok => some (s.exitNulled d)
  | .ret, .ok => some s.acceptReturned
  | _, _ => none

/-! ### The workers -/

namespace State

/-- The context a completion key leads to: the variable at its address, if that is alive. What is
read through the address of a dead variable is left open. -/
def Resolves (s : State n) (x c : CtxId) : Prop :=
  ∀ a ∈ s.key x, ∀ p ∈ s.accept.param, p.1 = a → c = p.2

instance (s : State n) (x c : CtxId) : Decidable (s.Resolves x c) :=
  inferInstanceAs (Decidable (∀ a ∈ s.key x, ∀ p ∈ s.accept.param, p.1 = a → c = p.2))

/-- The completion of `o` is handed to a worker, with the context `c`. -/
def dequeued (s : State n) (w : Fin n) (o : Op) (c : CtxId) (ok : Bool) (bytes : ℕ) : State n :=
  { s with
    worker := Function.update s.worker w
      (.busy ⟨c, o.ctx, o.kind, ok, bytes, (s.reads o.ctx).length⟩ .dispatch)
    ops := s.ops.erase o
    reads := if o.kind = .recv ∧ ok = true ∧ 0 < bytes then
        Function.update s.reads o.ctx (s.reads o.ctx ++ [bytes])
      else s.reads }

/-- `pIoData->IoType`. -/
def ioTypeOf (s : State n) (j : Job) : UInt8 :=
  match j.kind with
  | .recv => (s.ctx j.owner).ioRecv.ioType
  | .send => (s.ctx j.owner).ioSend.ioType

/-- Where a worker goes from the check of the completion. -/
def dispatch (s : State n) (j : Job) : Stage :=
  if j.Gone then .failed else if s.ioTypeOf j = opRead then .forward else .finish

/-- The end of the loop body: `pClientContext` goes out of scope. -/
def finished (s : State n) (w : Fin n) (j : Job) : State n :=
  (({ s with torn := if j.Gone then insert j.ctx s.torn else s.torn } : State n).setWorker w
    .waiting).release j.ctx

end State

/-- A step of a worker. -/
def workerStep (s : State n) (w : Fin n) (o : WorkerOutcome) : Option (State n) :=
  match s.worker w, o with
  | .waiting, .ok => if s.shutdown then some (s.setWorker w .exited) else none
  | .waiting, .dequeue op c =>
    match op.status with
    | .pending => none
    | .done ok bytes =>
      if op ∈ s.ops ∧ s.Resolves op.ctx c then
        -- the record is read only when the completion is successful and has bytes
        if c ∈ s.live ∧ (op.ctx ∈ s.live ∨ ok = false ∨ bytes = 0) then
          some (s.dequeued w op c ok bytes)
        else some (s.fail .deadContext)
      else none
  | .busy j .dispatch, .ok => some (s.setWorker w (.busy j (s.dispatch j)))
  | .busy j .forward, .ok =>
    some (s.setWorker w
      (.busy j (if s.getBuddySocketContext j.ctx = none then .failed else .forwardSend)))
  | .busy j .forwardSend, .ok =>
    match s.getBuddySocketContext j.ctx with
    | none => some (s.fail .nullBuddy)
    | some b => some (s.setWorker w (.busy j (.send b)))
  | .busy j (.send b), .ok => some ((s.storeSend b .zero).setWorker w (.busy j (.fill b)))
  | .busy j (.fill b), o =>
    match (s.ctx b).ioSend.fill (s.ctx j.ctx).ioRecv.buffer (UInt16.ofNat j.bytes) with
    | none => some (s.fail .overrun)
    | some io =>
      match s.target b, o with
      | .own, .ok | .foreign, .ok =>
        some (((s.postSend b io ⟨j.ctx, j.seq, io.dataBufLen⟩).setWorker w
          (.busy j .recv)).release b)
      | _, .fail => some (((s.storeSend b io).setWorker w (.busy j .failed)).release b)
      | _, _ => none
  | .busy j .recv, o =>
    match s.target j.ctx, o with
    | .own, .ok | .foreign, .ok => some ((s.postRecv j.ctx).setWorker w (.busy j .finish))
    | _, .fail => some ((s.resetRecv j.ctx).setWorker w (.busy j .failed))
    | _, _ => none
  | .busy j .failed, .ok =>
    some ((s.removeFromClientList (some j.ctx)).setWorker w (.busy j .finish))
  | .busy j .finish, .ok => some (s.finished w j)
  | _, _ => none

/-! ### The main thread -/

/-- `MAXIMUM_WAIT_OBJECTS`. -/
def maximumWaitObjects : ℕ := 64

namespace State

/-- The main thread moves to another label. -/
def mainAt (s : State n) (pc : MainPc) : State n := { s with main := pc }

/-- `closesocket(ListenSocket)`. -/
def closeListen (s : State n) (pc : MainPc) : State n :=
  { s with handles := s.handles.close s.listenSocket, main := pc }

end State

/-- A step of the main thread. -/
def mainStep (s : State n) (o : MainOutcome) : Option (State n) :=
  match s.main, o with
  | .init, .ok => some (s.mainAt .socket)
  | .init, .fail => some (s.mainAt .exited)
  | .socket, .socket v =>
    if s.handles.owner v = none then
      some { s with
        handles := s.handles.open v, listenSocket := some (s.handles.fresh v), main := .bind }
    else none
  | .socket, .fail => some (s.mainAt .error)
  | .bind, .ok => some (s.mainAt .listen)
  | .bind, .fail => some (s.closeListen .error)
  | .listen, .ok => some (s.mainAt .createEvent)
  | .listen, .fail => some (s.closeListen .error)
  | .createEvent, .ok => some (s.mainAt .eventSelect)
  | .createEvent, .fail => some (s.mainAt .error)
  | .eventSelect, .ok => some (s.mainAt .createThread)
  | .eventSelect, .fail => some (s.mainAt .error)
  | .createThread, .ok => some ((s.acceptAt .loop).mainAt .serving)
  | .createThread, .fail => some (s.mainAt .serving)
  | .serving, .ok => some { s with shutdown := true, main := .waitAccept }
  | .waitAccept, .ok =>
    if s.accept.pc = .done ∨ s.accept.pc = .notStarted then some (s.mainAt .waitWorkers) else none
  | .waitWorkers, .ok =>
    -- the wait fails at once when there are too many handles
    if maximumWaitObjects < n ∨ ∀ w, s.worker w = .exited then
      some (s.cleanClientList.mainAt .closeListen)
    else none
  | .closeListen, .ok | .error, .ok => some (s.closeListen .exited)
  | _, _ => none

/-! ### The network -/

namespace State

/-- Bytes arrive for a pending receive. -/
def arrived (s : State n) (o : Op) (bs : List UInt8) : State n :=
  let c := s.ctx o.ctx
  { (s.replaceOp o { o with status := .done true bs.length }).setCtx o.ctx
      { c with ioRecv := { c.ioRecv with buffer := c.ioRecv.buffer.receive bs } } with
    received := Function.update s.received o.ctx (s.received o.ctx ++ bs) }

/-- The next bytes of a pending send leave the send buffer. -/
def transmitted (s : State n) (o : Op) (k : ℕ) : State n :=
  { s.replaceOp o { o with off := o.off + k } with
    sent := Function.update s.sent o.ctx
      (s.sent o.ctx ++ (s.ctx o.ctx).ioSend.buffer.slice o.off k) }

/-- A pending operation fails; after a failed send nothing more is transmitted. -/
def opFailed (s : State n) (o : Op) : State n :=
  { s.replaceOp o { o with status := .done false 0 } with
    broken := fun x => s.broken x || decide (o.kind = .send ∧ x = o.ctx) }

end State

/-- A step of the network. -/
def netStep (s : State n) : NetAction → Option (State n)
  | .receive o bs =>
    if o ∈ s.ops ∧ o.kind = .recv ∧ o.status = .pending ∧ bs.length ≤ o.len then
      some (s.arrived o bs)
    else none
  | .transmit o k =>
    if o ∈ s.ops ∧ o.kind = .send ∧ o.status = .pending ∧ o.off + k ≤ o.len ∧
        s.broken o.ctx = false then
      some (s.transmitted o k)
    else none
  | .complete o =>
    if o ∈ s.ops ∧ o.kind = .send ∧ o.status = .pending then
      some (s.replaceOp o { o with status := .done true o.off })
    else none
  | .fail o =>
    if o ∈ s.ops ∧ o.status = .pending then some (s.opFailed o) else none

/-! ### The system -/

/-- A step of the system. Nothing happens after a fault, or once `main` has returned. -/
def step (s : State n) (a : Action n) : Option (State n) :=
  if s.fault = none ∧ s.main ≠ .exited then
    match a with
    | .main o => mainStep s o
    | .accept o => acceptStep s o
    | .worker w o => workerStep s w o
    | .net b => netStep s b
  else none

/-- The proxy service with `n` worker threads. -/
def proxy (n : ℕ) : TransitionSystem (State n) (Action n) where
  init := .initial n
  step := step

end IocpProxy
