import IocpProxy.Driver.Ioctl
import IocpProxy.Proxy.Threads

/-!
# A host with several instances of the proxy

Every instance is a process with its own id. In `main` it first sends its id to the driver
(`UpdateKernelWithUserAppProcessId`), and then runs the proxy service, in which it binds the port
and listens. The driver keeps one id: the one it stored last.

The instances send nothing else to the driver, and nobody else sends
`IOCTL_WFP_SET_DEVICE_CONTEXT_DATA`. The port is bound by one instance at a time, as long as the
listen socket of that instance is open. A process may end at any time, except while the driver
handles a request of it.

The fields `sender` and `stored` record history that neither the driver nor the instances store.

## Main definitions

* `IocpProxy.InstancePc`, `IocpProxy.Host`, `IocpProxy.HostAction`.
* `IocpProxy.Host.Listening` : an instance is bound to the port and listens.
* `IocpProxy.host` : the transition system.
* `IocpProxy.HostMove` : what a step can do.

## Main results

* `IocpProxy.hostStep_move` : every step is a move.
-/

namespace IocpProxy

/-- Where a process is in `main`. -/
inductive InstancePc
  /-- In `UpdateKernelWithUserAppProcessId`, before `CreateFileW`. -/
  | createFile
  /-- Before `DeviceIoControl`. -/
  | deviceIoControl
  /-- In `DeviceIoControl`, which waits for the request `r`. -/
  | pending (r : ReqId)
  /-- After `UpdateKernelWithUserAppProcessId`. -/
  | serve
  | ended
  deriving DecidableEq

/-- The driver and the instances of the proxy, each with `n` workers. -/
structure Host (ι : Type) (n : ℕ) where
  device : DeviceState
  pc : ι → InstancePc
  proxy : ι → State n
  /-- The instance bound to the port. -/
  port : Option ι
  /-- The instance that sent a request. -/
  sender : ReqId → Option ι
  /-- The instances whose id the driver stored, in order. -/
  stored : List ι

/-- An action on the host. -/
inductive HostAction (ι : Type) (n : ℕ)
  /-- `CreateFileW` succeeds or fails. -/
  | createFile (i : ι) (ok : Bool)
  /-- `DeviceIoControl` sends the request, or fails before that. -/
  | deviceIoControl (i : ι) (ok : Bool)
  /-- `DeviceIoControl` returns when the request is completed. -/
  | result (i : ι)
  /-- A step of the service of an instance. -/
  | serve (i : ι) (a : Action n)
  /-- A step of the driver, or a request from elsewhere. -/
  | device (a : DeviceAction)
  /-- The process ends. -/
  | terminate (i : ι)
  deriving DecidableEq

/-- The request of `UpdateKernelWithUserAppProcessId`. -/
def registration (processId : UInt32) : Request where
  ioControlCode := ioctlWfpSetDeviceContextData
  inputBufferLength := sizeofInBuf
  outputBufferLength := 0
  input := ⟨0, 0, processId.toInt32⟩

/-- The request whose process id the driver stores in a step. -/
def DeviceState.stores (s : DeviceState) : DeviceAction → Option ReqId
  | .handler h .ok =>
    match (s.handler h).pc with
    | .exchange _ => some h
    | _ => none
  | _ => none

/-- Not a registration from elsewhere. -/
def DeviceAction.Elsewhere : DeviceAction → Prop
  | .deliver req => req.ioControlCode ≠ ioctlWfpSetDeviceContextData
  | _ => True

instance : DecidablePred DeviceAction.Elsewhere
  | .deliver req => inferInstanceAs (Decidable (req.ioControlCode ≠ ioctlWfpSetDeviceContextData))
  | .handler _ _ | .cancel _ => instDecidableTrue

/-- `ListenSocket` is open. -/
def State.ListenOpen {n : ℕ} (s : State n) : Prop := ∃ h ∈ s.listenSocket, s.handles.IsOpen h

instance {n : ℕ} (s : State n) : Decidable s.ListenOpen :=
  match hs : s.listenSocket with
  | none => isFalse fun ⟨_, hm, _⟩ => by simp [hs] at hm
  | some h => decidable_of_iff (s.handles.IsOpen h) (by simp [State.ListenOpen, hs])

/-- The step of the service is the successful `bind`. -/
def State.Binds {n : ℕ} (s : State n) (a : Action n) : Prop := s.main = .bind ∧ a = .main .ok

instance {n : ℕ} (s : State n) (a : Action n) : Decidable (s.Binds a) :=
  inferInstanceAs (Decidable (_ ∧ _))

namespace Host

variable {ι : Type} [DecidableEq ι] {n : ℕ}

/-- An instance is bound to the port and listens. -/
def Listening (s : Host ι n) (i : ι) : Prop := s.port = some i ∧ (s.proxy i).main ≠ .listen

instance (s : Host ι n) (i : ι) : Decidable (s.Listening i) := inferInstanceAs (Decidable (_ ∧ _))

/-- An instance moves to another label. -/
def pcAt (s : Host ι n) (i : ι) (pc : InstancePc) : Host ι n :=
  { s with pc := Function.update s.pc i pc }

/-- The request of an instance is sent to the driver. -/
def sent (s : Host ι n) (i : ι) (processId : UInt32) : Host ι n :=
  { s.pcAt i (.pending s.device.next) with
    device := s.device.deliver (registration processId)
    sender := Function.update s.sender s.device.next (some i) }

/-- The service of an instance goes on; the port is free once `ListenSocket` is closed. -/
def served (s : Host ι n) (i : ι) (a : Action n) (t : State n) : Host ι n :=
  { s with
    proxy := Function.update s.proxy i t
    port := if t.ListenOpen then if (s.proxy i).Binds a then some i else s.port
      else if s.port = some i then none else s.port }

/-- The driver goes on. -/
def driven (s : Host ι n) (a : DeviceAction) (d : DeviceState) : Host ι n :=
  { s with
    device := d
    stored := s.stored ++ ((s.device.stores a).bind s.sender).toList }

/-- A process ends, and its handles are closed. -/
def terminated (s : Host ι n) (i : ι) : Host ι n :=
  { s.pcAt i .ended with port := if s.port = some i then none else s.port }

end Host

variable {ι : Type} [DecidableEq ι] (pid : ι → UInt32) {n : ℕ}

/-- A step of the host, on which the instance `i` has the process id `pid i`. -/
def hostStep (s : Host ι n) : HostAction ι n → Option (Host ι n)
  | .createFile i ok =>
    if s.pc i = .createFile then some (s.pcAt i (if ok then .deviceIoControl else .ended))
    else none
  | .deviceIoControl i ok =>
    if s.pc i = .deviceIoControl then
      some (if ok then s.sent i (pid i) else s.pcAt i .ended)
    else none
  | .result i =>
    match s.pc i with
    | .pending r =>
      (s.device.completions.find? (·.request = r)).map fun c =>
        s.pcAt i (if NtSuccess c.status then .serve else .ended)
    | _ => none
  | .serve i a =>
    if s.pc i = .serve ∧ ((s.proxy i).Binds a → s.port = none) then
      (step (s.proxy i) a).map (s.served i a)
    else none
  | .device a =>
    if a.Elsewhere then (deviceStep s.device a).map (s.driven a) else none
  | .terminate i =>
    match s.pc i with
    | .pending _ | .ended => none
    | _ => some (s.terminated i)

/-- The host before any instance is started. -/
def host (n : ℕ) : TransitionSystem (Host ι n) (HostAction ι n) where
  init := ⟨.initializeQueue, fun _ => .createFile, fun _ => .initial n, none, fun _ => none, []⟩
  step := hostStep pid

/-! ### What a step can do -/

/-- The moves of the host. -/
inductive HostMove (s : Host ι n) : HostAction ι n → Host ι n → Prop
  | created {i : ι} {ok : Bool} (h : s.pc i = .createFile) :
      HostMove s (.createFile i ok) (s.pcAt i (if ok then .deviceIoControl else .ended))
  | sent {i : ι} (h : s.pc i = .deviceIoControl) :
      HostMove s (.deviceIoControl i true) (s.sent i (pid i))
  | notSent {i : ι} (h : s.pc i = .deviceIoControl) :
      HostMove s (.deviceIoControl i false) (s.pcAt i .ended)
  | registered {i : ι} {r : ReqId} {c : Completion} (h : s.pc i = .pending r)
      (hc : c ∈ s.device.completions) (hr : c.request = r) (hst : NtSuccess c.status) :
      HostMove s (.result i) (s.pcAt i .serve)
  | notRegistered {i : ι} {r : ReqId} (h : s.pc i = .pending r) :
      HostMove s (.result i) (s.pcAt i .ended)
  | served {i : ι} {a : Action n} {t : State n} (h : s.pc i = .serve)
      (hb : (s.proxy i).Binds a → s.port = none) (ht : step (s.proxy i) a = some t) :
      HostMove s (.serve i a) (s.served i a t)
  | driven {a : DeviceAction} {d : DeviceState} (ha : a.Elsewhere)
      (hd : deviceStep s.device a = some d) : HostMove s (.device a) (s.driven a d)
  | terminated {i : ι} (h : ∀ r, s.pc i ≠ .pending r) :
      HostMove s (.terminate i) (s.terminated i)

variable {pid}

/-- Every step is a move. -/
theorem hostStep_move {s s' : Host ι n} {a : HostAction ι n}
    (h : (host pid n).step s a = some s') : HostMove pid s a s' := by
  change hostStep pid s a = some s' at h
  unfold hostStep at h
  cases a with
  | createFile i ok =>
    obtain ⟨hpc, ⟨⟩⟩ := Option.ite_none_right_eq_some.mp h
    exact .created hpc
  | deviceIoControl i ok =>
    obtain ⟨hpc, ⟨⟩⟩ := Option.ite_none_right_eq_some.mp h
    cases ok
    · exact .notSent hpc
    · exact .sent hpc
  | result i =>
    dsimp only at h
    split at h
    next r hpc =>
      obtain ⟨c, hc, rfl⟩ := Option.map_eq_some_iff.mp h
      split_ifs with hst
      · have hr : c.request = r := by simpa using List.find?_some hc
        exact .registered hpc (List.mem_of_find?_eq_some hc) hr hst
      · exact .notRegistered hpc
    next => cases h
  | serve i a =>
    obtain ⟨⟨hpc, hb⟩, h⟩ := Option.ite_none_right_eq_some.mp h
    obtain ⟨t, ht, rfl⟩ := Option.map_eq_some_iff.mp h
    exact .served hpc hb ht
  | device a =>
    obtain ⟨ha, h⟩ := Option.ite_none_right_eq_some.mp h
    obtain ⟨d, hd, rfl⟩ := Option.map_eq_some_iff.mp h
    exact .driven ha hd
  | terminate i =>
    dsimp only at h
    split at h
    · cases h
    · cases h
    next hp he =>
      cases h
      exact .terminated hp

end IocpProxy
