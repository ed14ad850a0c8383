import IocpProxy.Proxy.SocketContext

/-!
# The state of the proxy service

The proxy runs one main thread, one accept thread and `n` worker threads over shared memory: the
contexts, the list `g_ClientContext`, the handles of the process and the completion port. This
file has the state and the operations on it that several threads use: giving up a reference,
linking two contexts, posting a receive or a send, and removing a context from the list.

An overlapped operation is in `ops` from the call that posts it until a worker dequeues its
completion. The order of the completions is left open.

A thread may run into behaviour that the program does not survive (`Fault`): a copy that leaves
its buffers, a call through a null buddy, or a read through a completion of a context that was
destroyed. Such a step ends the run. A failed or zero-byte completion of a destroyed context is
handled without such a read. A call on a handle that was closed and handed out again reaches the
socket that has its number by now and succeeds or fails like any other; its operation is counted
for the context in whose record it lies.

Some fields record history the program does not store: `added`, `calls`, `received`, `sent`,
`reads`, `sends` and `torn`.

## Main definitions

* `IocpProxy.Op`, `IocpProxy.Job`, `IocpProxy.Worker`, `IocpProxy.AcceptThread`,
  `IocpProxy.MainPc`, `IocpProxy.State`.
* `IocpProxy.State.Root`, `IocpProxy.State.release` : references and their release.
* `IocpProxy.State.getBuddySocketContext`, `IocpProxy.State.setBuddySocketContext`.
* `IocpProxy.State.postRecv`, `IocpProxy.State.postSend` : the `WSARecv` and `WSASend` of a context.
* `IocpProxy.State.removeFromClientList`, `IocpProxy.State.cleanClientList`.
-/

namespace IocpProxy

/-! ### Operations and threads -/

/-- Which record of a context an operation uses. -/
inductive OpKind
  | recv
  | send
  deriving DecidableEq

/-- An operation is pending until its completion is queued, with the result and the number of
bytes that `GetQueuedCompletionStatus` will return. -/
inductive OpStatus
  | pending
  | done (ok : Bool) (bytes : ℕ)
  deriving DecidableEq

/-- An overlapped operation on a record of the context `ctx`, posted with a `WSABUF` of `len`
bytes, of which the first `off` bytes have been transmitted. -/
structure Op where
  ctx : CtxId
  kind : OpKind
  len : ℕ
  off : ℕ
  status : OpStatus
  deriving DecidableEq

/-- A posted operation. -/
def Op.posted (x : CtxId) (k : OpKind) (len : ℕ) : Op := ⟨x, k, len, 0, .pending⟩

/-- The operation after its socket was closed: a pending one fails. -/
def Op.abort (o : Op) : Op := if o.status = .pending then { o with status := .done false 0 } else o

/-- A dequeued completion: the context the completion key led to (`pClientContext`), the record
that the returned `OVERLAPPED` belongs to (`pIoData`), the result and the byte count. `seq` counts
the positive-length read completions of the record's context dequeued before. -/
structure Job where
  ctx : CtxId
  owner : CtxId
  kind : OpKind
  ok : Bool
  bytes : ℕ
  seq : ℕ
  deriving DecidableEq

/-- The completion is failed or has no bytes: the connection is gone. -/
def Job.Gone (j : Job) : Prop := j.ok = false ∨ j.bytes = 0

instance (j : Job) : Decidable j.Gone := inferInstanceAs (Decidable (_ ∨ _))

/-- Where a worker is with a completion. -/
inductive Stage
  /-- The context is copied from the key; the result is not yet checked. -/
  | dispatch
  /-- In `Forward`, before the first `GetBuddySocketContext`. -/
  | forward
  /-- In `Forward`, before the second `GetBuddySocketContext`. -/
  | forwardSend
  /-- At the start of `Send` on the context `b`. -/
  | send (b : CtxId)
  /-- In `Send` on the context `b`, after `ZeroMemory`. -/
  | fill (b : CtxId)
  /-- Before `Recv`. -/
  | recv
  /-- At `Exit` with `status` false. -/
  | failed
  /-- At the end of the loop body. -/
  | finish
  deriving DecidableEq

/-- A worker thread. -/
inductive Worker
  /-- At the loop head or in `GetQueuedCompletionStatus`. -/
  | waiting
  | busy (j : Job) (st : Stage)
  | exited
  deriving DecidableEq

/-- The contexts a worker refers to: its local `pClientContext`, and during `Send` the pointer
that `GetBuddySocketContext` returned. -/
def Worker.Holds : Worker → CtxId → Prop
  | .busy j (.send b), x | .busy j (.fill b), x => j.ctx = x ∨ b = x
  | .busy j _, x => j.ctx = x
  | _, _ => False

instance : (v : Worker) → (x : CtxId) → Decidable (v.Holds x)
  | .busy j (.send b), x | .busy j (.fill b), x => inferInstanceAs (Decidable (j.ctx = x ∨ b = x))
  | .busy j .dispatch, x | .busy j .forward, x | .busy j .forwardSend, x | .busy j .recv, x
  | .busy j .failed, x | .busy j .finish, x => inferInstanceAs (Decidable (j.ctx = x))
  | .waiting, _ | .exited, _ => instDecidableFalse

/-- The two sides of a connection. -/
inductive Side
  | client
  | remote
  deriving DecidableEq

/-- An address of the accept thread's stack. -/
abbrev Slot := ℕ

/-- Where the accept thread is. The labels from `initRemote` on are in `AcceptConnection`. -/
inductive AcceptPc
  | notStarted
  | loop
  | initRemote
  | link
  | assoc (d : Side)
  | assocRet (d : Side)
  | add (d : Side)
  | recv (d : Side)
  | exitClose
  | exitRemove (d : Side)
  | exitNull (d : Side)
  | ret
  | done
  deriving DecidableEq

/-- The accept thread, with the locals of `AcceptConnection`: `Socket` (missing when `NULL`, and
missing inside when `INVALID_SOCKET`), `pClientContext`, `pRemoteSocketContext`; and the by-value
parameter of `AssociateWithIOCP` with its address, while that function runs. -/
structure AcceptThread where
  pc : AcceptPc
  socket : Option (Option Handle)
  client : Option CtxId
  remote : Option CtxId
  param : Option (Slot × CtxId)
  deriving DecidableEq

/-- The local that holds the context of a side. -/
def AcceptThread.side (t : AcceptThread) : Side → Option CtxId
  | .client => t.client
  | .remote => t.remote

/-- Set the local of a side to `nullptr`. -/
def AcceptThread.clear (t : AcceptThread) : Side → AcceptThread
  | .client => { t with client := none }
  | .remote => { t with remote := none }

/-- The contexts the accept thread refers to. -/
def AcceptThread.Holds (t : AcceptThread) (x : CtxId) : Prop :=
  t.client = some x ∨ t.remote = some x

instance (t : AcceptThread) (x : CtxId) : Decidable (t.Holds x) :=
  inferInstanceAs (Decidable (_ ∨ _))

/-- Where the main thread is. -/
inductive MainPc
  | init
  | socket
  | bind
  | listen
  | createEvent
  | eventSelect
  | createThread
  | serving
  | waitAccept
  | waitWorkers
  | closeListen
  | error
  | exited
  deriving DecidableEq

/-- Behaviour that ends the run. -/
inductive Fault
  /-- A copy left its buffers. -/
  | overrun
  /-- A call through a null pointer to the buddy. -/
  | nullBuddy
  /-- A completion whose context, or whose record, was destroyed is looked into. -/
  | deadContext
  deriving DecidableEq

/-- A posted `WSASend`: the context whose `Forward` posted it, the position of the read completion
it handled, and the length. -/
structure SendRecord where
  src : CtxId
  seq : ℕ
  len : ℕ
  deriving DecidableEq

/-- The state of the proxy with `n` worker threads. -/
structure State (n : ℕ) where
  /-- The memory of the contexts; ids from `next` on are not yet used. -/
  ctx : CtxId → SocketContext
  next : CtxId
  /-- The contexts that have not been destroyed. -/
  live : Finset CtxId
  /-- `g_ClientContext`. -/
  clientContext : List CtxId
  /-- The contexts that `AddToClientList` was called with so far. -/
  added : Finset CtxId
  accept : AcceptThread
  /-- The number of calls of `AcceptConnection` so far. -/
  calls : ℕ
  worker : Fin n → Worker
  /-- The operations whose completion is not yet dequeued. -/
  ops : List Op
  handles : HandleTable
  main : MainPc
  /-- `ListenSocket`; missing when `INVALID_SOCKET`. -/
  listenSocket : Option Handle
  /-- `g_hShutdownEvent`. -/
  shutdown : Bool
  /-- The completion keys: the address given for the socket of a context. -/
  key : CtxId → Option Slot
  fault : Option Fault
  /-- The bytes the receives of a context delivered. -/
  received : CtxId → List UInt8
  /-- The bytes the sends of a context transmitted. -/
  sent : CtxId → List UInt8
  /-- The socket transmits nothing any more. -/
  broken : CtxId → Bool
  /-- The byte counts of the positive-length read completions dequeued so far. -/
  reads : CtxId → List ℕ
  /-- The sends posted so far. -/
  sends : CtxId → List SendRecord
  /-- The contexts of which a worker finished handling a failed or zero-byte completion. -/
  torn : Finset CtxId

namespace State

variable {n : ℕ}

/-- The state in which `main` starts. -/
def initial (n : ℕ) : State n where
  ctx := fun _ => .new
  next := 0
  live := ∅
  clientContext := []
  added := ∅
  accept := ⟨.notStarted, none, none, none, none⟩
  calls := 0
  worker := fun _ => .waiting
  ops := []
  handles := .empty
  main := .init
  listenSocket := none
  shutdown := false
  key := fun _ => none
  fault := none
  received := fun _ => []
  sent := fun _ => []
  broken := fun _ => false
  reads := fun _ => []
  sends := fun _ => []
  torn := ∅

/-! ### References -/

/-- The owning buddy pointer of a context. -/
def strongOf (s : State n) (x : CtxId) : Option CtxId := (s.ctx x).buddy.strong

/-- A variable other than a buddy pointer refers to `x`: an entry of the list, a local of the
accept thread or of a worker. -/
def Root (s : State n) (x : CtxId) : Prop :=
  x ∈ s.clientContext ∨ s.accept.Holds x ∨ ∃ w, (s.worker w).Holds x

instance (s : State n) : DecidablePred s.Root := fun x =>
  inferInstanceAs (Decidable (x ∈ s.clientContext ∨ s.accept.Holds x ∨ ∃ w, (s.worker w).Holds x))

/-- Some strong reference to `x` exists. -/
def Owned (s : State n) (x : CtxId) : Prop := Ownership.Owned s.strongOf s.Root s.live x

/-- `~SocketContext` for the contexts of a list, in order: their operations are cancelled, their
sockets closed. -/
def destroy (s : State n) (L : List CtxId) : State n :=
  { s with
    live := s.live.filter (· ∉ L)
    ops := s.ops.map fun o => if o.ctx ∈ L then o.abort else o
    broken := fun x => s.broken x || decide (x ∈ L)
    handles := L.foldl (fun T x => T.close (s.ctx x).socket) s.handles }

/-- The contexts destroyed when a reference to `x` is given up. -/
def doomed (s : State n) (x : CtxId) : List CtxId :=
  Ownership.cascade s.strongOf s.Root s.live.card s.live x

/-- A reference to `x` has been given up. -/
def release (s : State n) (x : CtxId) : State n := s.destroy (s.doomed x)

/-- A possibly null reference has been given up. -/
def releaseOpt (s : State n) : Option CtxId → State n
  | none => s
  | some x => s.release x

/-- Change the memory of one context. -/
def setCtx (s : State n) (x : CtxId) (c : SocketContext) : State n :=
  { s with ctx := Function.update s.ctx x c }

/-- Change the state of one worker. -/
def setWorker (s : State n) (w : Fin n) (v : Worker) : State n :=
  { s with worker := Function.update s.worker w v }

/-- Store a new context. -/
def make (s : State n) (c : SocketContext) : State n :=
  { s with ctx := Function.update s.ctx s.next c, live := insert s.next s.live, next := s.next + 1 }

/-! ### Buddies -/

/-- `GetBuddySocketContext`. -/
def getBuddySocketContext (s : State n) (x : CtxId) : Option CtxId := (s.ctx x).buddy.get s.live

/-- `SetBuddySocketContext`, that is `BuddySocketContextPtr::Set`: own the new buddy unless it has
a buddy itself. What the pointer owned before is given up. -/
def setBuddySocketContext (s : State n) (x sc : CtxId) : State n :=
  (s.setCtx x { s.ctx x with
    buddy := if s.getBuddySocketContext sc = none then ⟨some sc, none⟩ else ⟨none, some sc⟩
    }).releaseOpt (s.strongOf x)

/-! ### Posting operations -/

/-- What the number of a context's socket handle stands for. -/
inductive Target
  | own
  | closed
  | foreign
  deriving DecidableEq

/-- Look the handle of a context up. -/
def target (s : State n) (x : CtxId) : Target :=
  match (s.ctx x).socket with
  | none => .closed
  | some h =>
    match s.handles.owner h.value with
    | none => .closed
    | some g => if g = h.gen then .own else .foreign

/-- The memory of `Recv` on `x` before its `WSARecv`. -/
def resetRecv (s : State n) (x : CtxId) : State n :=
  s.setCtx x { s.ctx x with ioRecv := .forRecv }

/-- `WSARecv` succeeds. -/
def postRecv (s : State n) (x : CtxId) : State n :=
  { s.resetRecv x with ops := .posted x .recv maxBufferLen :: s.ops }

/-- The memory of `Send` on `b` before its `WSASend`. -/
def storeSend (s : State n) (b : CtxId) (io : IoOperationData) : State n :=
  s.setCtx b { s.ctx b with ioSend := io }

/-- `WSASend` on `b` succeeds; `r` records who posted it. -/
def postSend (s : State n) (b : CtxId) (io : IoOperationData) (r : SendRecord) : State n :=
  { s.storeSend b io with
    ops := .posted b .send io.dataBufLen :: s.ops
    sends := Function.update s.sends b (s.sends b ++ [r]) }

/-- Replace an operation by its next form. -/
def replaceOp (s : State n) (o o' : Op) : State n := { s with ops := o' :: s.ops.erase o }

/-! ### The client list -/

/-- `AddToClientList`. -/
def addToClientList (s : State n) (x : CtxId) : State n :=
  { s with clientContext := s.clientContext ++ [x], added := insert x s.added }

/-- `RemoveFromClientListAndCleanUpMemory`: erase the first entry that is the given context. -/
def removeFromClientList (s : State n) : Option CtxId → State n
  | none => s
  | some x => { s with clientContext := s.clientContext.erase x }

/-- `CleanClientList`: every entry is set to `nullptr` in turn. -/
def cleanClientList (s : State n) : State n :=
  s.clientContext.foldl
    (fun s x => { s with clientContext := s.clientContext.erase x }.release x) s

/-! ### What the operations leave unchanged -/

/-- What destroying contexts leaves unchanged. -/
@[simp] theorem release_frame (s : State n) (x : CtxId) :
    (s.release x).ctx = s.ctx ∧
    (s.release x).next = s.next ∧
    (s.release x).clientContext = s.clientContext ∧
    (s.release x).added = s.added ∧
    (s.release x).accept = s.accept ∧
    (s.release x).calls = s.calls ∧
    (s.release x).worker = s.worker ∧
    (s.release x).main = s.main ∧
    (s.release x).listenSocket = s.listenSocket ∧
    (s.release x).shutdown = s.shutdown ∧
    (s.release x).key = s.key ∧
    (s.release x).fault = s.fault ∧
    (s.release x).received = s.received ∧
    (s.release x).sent = s.sent ∧
    (s.release x).reads = s.reads ∧
    (s.release x).sends = s.sends ∧
    (s.release x).torn = s.torn :=
  ⟨rfl, rfl, rfl, rfl, rfl, rfl, rfl, rfl, rfl, rfl, rfl, rfl, rfl, rfl, rfl, rfl, rfl⟩

/-- What giving up a possibly null reference leaves unchanged. -/
@[simp] theorem releaseOpt_frame (s : State n) (x : Option CtxId) :
    (s.releaseOpt x).ctx = s.ctx ∧
    (s.releaseOpt x).next = s.next ∧
    (s.releaseOpt x).clientContext = s.clientContext ∧
    (s.releaseOpt x).added = s.added ∧
    (s.releaseOpt x).accept = s.accept ∧
    (s.releaseOpt x).calls = s.calls ∧
    (s.releaseOpt x).worker = s.worker ∧
    (s.releaseOpt x).main = s.main ∧
    (s.releaseOpt x).listenSocket = s.listenSocket ∧
    (s.releaseOpt x).shutdown = s.shutdown ∧
    (s.releaseOpt x).key = s.key ∧
    (s.releaseOpt x).fault = s.fault ∧
    (s.releaseOpt x).received = s.received ∧
    (s.releaseOpt x).sent = s.sent ∧
    (s.releaseOpt x).reads = s.reads ∧
    (s.releaseOpt x).sends = s.sends ∧
    (s.releaseOpt x).torn = s.torn := by
  cases x <;>
    exact ⟨rfl, rfl, rfl, rfl, rfl, rfl, rfl, rfl, rfl, rfl, rfl, rfl, rfl, rfl, rfl, rfl, rfl⟩

/-- What removing an entry of the list leaves unchanged. -/
@[simp] theorem removeFromClientList_frame (s : State n) (x : Option CtxId) :
    (s.removeFromClientList x).ctx = s.ctx ∧
    (s.removeFromClientList x).live = s.live ∧
    (s.removeFromClientList x).next = s.next ∧
    (s.removeFromClientList x).added = s.added ∧
    (s.removeFromClientList x).accept = s.accept ∧
    (s.removeFromClientList x).calls = s.calls ∧
    (s.removeFromClientList x).worker = s.worker ∧
    (s.removeFromClientList x).main = s.main ∧
    (s.removeFromClientList x).listenSocket = s.listenSocket ∧
    (s.removeFromClientList x).shutdown = s.shutdown ∧
    (s.removeFromClientList x).key = s.key ∧
    (s.removeFromClientList x).fault = s.fault ∧
    (s.removeFromClientList x).received = s.received ∧
    (s.removeFromClientList x).sent = s.sent ∧
    (s.removeFromClientList x).reads = s.reads ∧
    (s.removeFromClientList x).sends = s.sends ∧
    (s.removeFromClientList x).torn = s.torn ∧
    (s.removeFromClientList x).ops = s.ops ∧
    (s.removeFromClientList x).handles = s.handles ∧
    (s.removeFromClientList x).broken = s.broken := by
  cases x <;>
    exact ⟨rfl, rfl, rfl, rfl, rfl, rfl, rfl, rfl, rfl, rfl, rfl, rfl, rfl, rfl, rfl, rfl, rfl, rfl,
      rfl, rfl⟩

/-- What cleaning the list leaves unchanged. -/
@[simp] theorem cleanClientList_frame (s : State n) :
    s.cleanClientList.ctx = s.ctx ∧
    s.cleanClientList.next = s.next ∧
    s.cleanClientList.added = s.added ∧
    s.cleanClientList.accept = s.accept ∧
    s.cleanClientList.calls = s.calls ∧
    s.cleanClientList.worker = s.worker ∧
    s.cleanClientList.main = s.main ∧
    s.cleanClientList.listenSocket = s.listenSocket ∧
    s.cleanClientList.shutdown = s.shutdown ∧
    s.cleanClientList.key = s.key ∧
    s.cleanClientList.fault = s.fault ∧
    s.cleanClientList.received = s.received ∧
    s.cleanClientList.sent = s.sent ∧
    s.cleanClientList.reads = s.reads ∧
    s.cleanClientList.sends = s.sends ∧
    s.cleanClientList.torn = s.torn := by
  unfold cleanClientList
  generalize s.clientContext = l
  induction l generalizing s with
  | nil => exact ⟨rfl, rfl, rfl, rfl, rfl, rfl, rfl, rfl, rfl, rfl, rfl, rfl, rfl, rfl, rfl, rfl⟩
  | cons x l ih => exact ih _

end State

end IocpProxy
