import IocpProxy.Library.TransitionSystem

/-!
# Device-control requests

The framework calls `EvtIoDeviceControl` for every device-control request, for several requests at
the same time. A request is completed by the call it was delivered to, or forwarded to the
notification queue, where a call of `WfpNotify` made for another request finds it.

Every framework call is a step of its own, and so is every access to the device context. A request
is named by the position of its delivery, and so is the call of `EvtIoDeviceControl` for it. The
framework may cancel a request while it is in the notification queue.

When `WdfRequestRetrieveInputBuffer` fails, the pointer to the input buffer stays uninitialised and
is followed all the same; what is found there is left open.

The fields `forwarded`, `issued` and `completions` record history the driver does not store.

## Main definitions

* `IocpProxy.Request`, `IocpProxy.HandlerPc`, `IocpProxy.DeviceState`.
* `IocpProxy.handlerStep`, `IocpProxy.wfpNotifyStep` : `EvtIoDeviceControl` and `WfpNotify`.
* `IocpProxy.device` : the device from `InitializeQueue` on.
* `IocpProxy.HandlerMove` : what a step of a handler can do.

## Main results

* `IocpProxy.handlerStep_move` : every step of a handler is a move.
-/

namespace IocpProxy

/-! ### Requests -/

/-- `NTSTATUS`. -/
abbrev NtStatus := Int32

/-- `NT_SUCCESS`. -/
def NtSuccess (status : NtStatus) : Prop := 0 ≤ status

instance : DecidablePred NtSuccess := fun status => inferInstanceAs (Decidable (0 ≤ status))

/-- `STATUS_SUCCESS`. -/
def statusSuccess : NtStatus := 0

/-- `STATUS_INVALID_PARAMETER`, the code `0xC000000D`. -/
def statusInvalidParameter : NtStatus := -1073741811

/-- `STATUS_CANCELLED`, the code `0xC0000120`. -/
def statusCancelled : NtStatus := -1073741536

/-- `CTL_CODE` with `METHOD_BUFFERED` and `FILE_ANY_ACCESS`, which are both 0. -/
def ctlCode (deviceType function : UInt32) : UInt32 := deviceType <<< 16 ||| function <<< 2

/-- `FILE_DEVICE_WFP`. -/
def fileDeviceWfp : UInt32 := 0xCF54

/-- `IOCTL_WFP_NOTIFICATION`. -/
def ioctlWfpNotification : UInt32 := ctlCode fileDeviceWfp 2049

/-- `IOCTL_WFP_SIMULATE_EVENT`. -/
def ioctlWfpSimulateEvent : UInt32 := ctlCode fileDeviceWfp 2050

/-- `IOCTL_WFP_SET_DEVICE_CONTEXT_DATA`. -/
def ioctlWfpSetDeviceContextData : UInt32 := ctlCode fileDeviceWfp 2051

/-- `USERAPP_IOCTL_IN_BUF`. -/
structure UserAppIoctlInBuf where
  sequence : Int32
  success : Int32
  userModeAppProcessId : Int32
  deriving DecidableEq

/-- `sizeof(USERAPP_IOCTL_IN_BUF)`. -/
def sizeofInBuf : ℕ := 12

/-- `sizeof(LONG)`. -/
def sizeofLong : ℕ := 4

/-- A device-control request. `input` is what the input buffer holds, if it is long enough. -/
structure Request where
  ioControlCode : UInt32
  inputBufferLength : ℕ
  outputBufferLength : ℕ
  input : UserAppIoctlInBuf
  deriving DecidableEq

/-- A request is named by the position of its delivery. -/
abbrev ReqId := ℕ

/-! ### Handlers -/

/-- Where a call of `WfpNotify` is; `r` is `notifyRequest`. -/
inductive NotifyPc
  | retrieveNext
  | retrieveOutput (r : ReqId)
  | exchangeAdd (r : ReqId)
  | store (r : ReqId) (valueToReturn : Int32)
  | complete (r : ReqId) (bytesReturned : ℕ)
  deriving DecidableEq

/-- Where a call of `EvtIoDeviceControl` is. -/
inductive HandlerPc
  | entry
  | retrieveInput
  /-- At the use of the pointer `buffer`, which is missing when it is uninitialised. -/
  | useInput (buffer : Option UserAppIoctlInBuf)
  | exchange (processId : Int32)
  | forward
  | notify (p : NotifyPc)
  /-- At the common completion. -/
  | complete
  /-- The request is forwarded or completed, and the call is about to return. -/
  | exit
  | returned
  deriving DecidableEq

/-- A call of `EvtIoDeviceControl`, with its local `status`. -/
structure Handler where
  pc : HandlerPc
  status : NtStatus
  deriving DecidableEq

/-- The request that a call of `WfpNotify` has dequeued and not yet completed. -/
def NotifyPc.dequeued : NotifyPc → Option ReqId
  | .retrieveNext => none
  | .retrieveOutput r | .exchangeAdd r | .store r _ | .complete r _ => some r

/-- The request dequeued in the call of `WfpNotify` that a handler is in. -/
def HandlerPc.dequeued : HandlerPc → Option ReqId
  | .notify p => p.dequeued
  | _ => none

/-- The handler is done with its request. -/
def HandlerPc.Over (pc : HandlerPc) : Prop := pc = .exit ∨ pc = .returned

/-- Who called `WdfRequestCompleteWithInformation`. -/
inductive Completer
  | evtIoDeviceControl
  | wfpNotify
  | framework
  deriving DecidableEq

/-- A completion of a request. `value` is the number that the output buffer holds, when one is
handed back. -/
structure Completion where
  request : ReqId
  status : NtStatus
  information : ℕ
  value : Option Int32
  completer : Completer
  deriving DecidableEq

/-- The device, with its context and the calls of `EvtIoDeviceControl`. -/
structure DeviceState where
  request : ReqId → Request
  /-- The number of requests delivered so far. -/
  next : ReqId
  handler : ReqId → Handler
  notificationQueue : List ReqId
  sequence : Int32
  userModeAppProcessId : Int32
  /-- What `WfpNotify` stored in the output buffers. -/
  output : ReqId → Option Int32
  /-- The requests that were forwarded to the notification queue. -/
  forwarded : Finset ReqId
  /-- The numbers taken from `Sequence`, each with the request it was taken for. -/
  issued : List (ReqId × Int32)
  completions : List Completion

namespace DeviceState

/-- The device after `InitializeQueue`. -/
def initializeQueue : DeviceState where
  request := fun _ => ⟨0, 0, 0, ⟨0, 0, 0⟩⟩
  next := 0
  handler := fun _ => ⟨.returned, 0⟩
  notificationQueue := []
  sequence := 1
  userModeAppProcessId := 0
  output := fun _ => none
  forwarded := ∅
  issued := []
  completions := []

/-- Change the state of one handler. -/
def setHandler (s : DeviceState) (h : ReqId) (v : Handler) : DeviceState :=
  { s with handler := Function.update s.handler h v }

/-- A handler moves to another label. -/
def handlerAt (s : DeviceState) (h : ReqId) (pc : HandlerPc) : DeviceState :=
  s.setHandler h { s.handler h with pc := pc }

/-- `WdfRequestCompleteWithInformation`. -/
def complete (s : DeviceState) (r : ReqId) (status : NtStatus) (information : ℕ)
    (c : Completer) : DeviceState :=
  { s with
    completions := s.completions ++
      [⟨r, status, information, if information = sizeofLong then s.output r else none, c⟩] }

/-- A request is put into the notification queue. -/
def enqueue (s : DeviceState) (r : ReqId) : DeviceState :=
  { s with
    notificationQueue := s.notificationQueue ++ [r]
    forwarded := insert r s.forwarded }

/-- A request is taken out of the notification queue. -/
def dequeue (s : DeviceState) (r : ReqId) : DeviceState :=
  { s with notificationQueue := s.notificationQueue.erase r }

/-- `InterlockedExchangeAdd` on `Sequence`, for the request `r`. -/
def exchangeAdd (s : DeviceState) (r : ReqId) : DeviceState :=
  { s with sequence := s.sequence + 1, issued := s.issued ++ [(r, s.sequence)] }

/-- A request is delivered. -/
def deliver (s : DeviceState) (req : Request) : DeviceState :=
  { s with
    request := Function.update s.request s.next req
    handler := Function.update s.handler s.next ⟨.entry, 0⟩
    next := s.next + 1 }

end DeviceState

/-! ### Steps -/

/-- What the calls of a step of a handler do. -/
inductive HandlerOutcome
  | ok
  /-- A framework call returns this status. -/
  | status (st : NtStatus)
  /-- `WdfIoQueueRetrieveNextRequest` returns a request. -/
  | retrieved (r : ReqId)
  /-- An uninitialised pointer leads here. -/
  | found (data : UserAppIoctlInBuf)
  deriving DecidableEq

/-- An action of the device. -/
inductive DeviceAction
  | deliver (req : Request)
  | handler (h : ReqId) (o : HandlerOutcome)
  | cancel (r : ReqId)
  deriving DecidableEq

/-- The `switch` of `EvtIoDeviceControl`, up to the first framework call. -/
def Request.dispatch (req : Request) : HandlerPc :=
  if req.ioControlCode = ioctlWfpNotification then
    if sizeofInBuf ≤ req.inputBufferLength then .retrieveInput
    else if req.outputBufferLength < sizeofLong then .complete
    else .forward
  else if req.ioControlCode = ioctlWfpSimulateEvent then .notify .retrieveNext
  else if req.ioControlCode = ioctlWfpSetDeviceContextData then
    if sizeofInBuf ≤ req.inputBufferLength then .retrieveInput else .complete
  else .complete

/-- The use of the data that the pointer to the input buffer leads to. A notification request only
prints it. -/
def Request.use (req : Request) (data : UserAppIoctlInBuf) : HandlerPc :=
  if req.ioControlCode = ioctlWfpSetDeviceContextData then .exchange data.userModeAppProcessId
  else .complete

/-- A step of the call of `WfpNotify` that is made in the handler of the request `h`. -/
def wfpNotifyStep (s : DeviceState) (h : ReqId) (p : NotifyPc) (o : HandlerOutcome) :
    Option DeviceState :=
  match p, o with
  | .retrieveNext, .status st =>
    if NtSuccess st then none else some (s.setHandler h ⟨.complete, statusSuccess⟩)
  | .retrieveNext, .retrieved r =>
    if r ∈ s.notificationQueue then
      some ((s.dequeue r).handlerAt h (.notify (.retrieveOutput r)))
    else none
  | .retrieveOutput r, .status st =>
    some (s.handlerAt h (.notify (if NtSuccess st then .exchangeAdd r else .complete r 0)))
  | .exchangeAdd r, .ok =>
    some ((s.exchangeAdd r).handlerAt h (.notify (.store r s.sequence)))
  | .store r value, .ok =>
    some (({ s with output := Function.update s.output r (some value) } : DeviceState).handlerAt h
      (.notify (.complete r sizeofLong)))
  | .complete r bytes, .ok =>
    some ((s.complete r statusSuccess bytes .wfpNotify).setHandler h ⟨.complete, statusSuccess⟩)
  | _, _ => none

/-- A step of the call of `EvtIoDeviceControl` for the request `h`. -/
def handlerStep (s : DeviceState) (h : ReqId) (o : HandlerOutcome) : Option DeviceState :=
  match (s.handler h).pc, o with
  | .entry, .ok => some (s.setHandler h ⟨(s.request h).dispatch, statusInvalidParameter⟩)
  | .retrieveInput, .status st =>
    some (s.setHandler h
      ⟨.useInput (if NtSuccess st then some (s.request h).input else none), st⟩)
  | .useInput buffer, .found data =>
    some (s.handlerAt h ((s.request h).use (buffer.getD data)))
  | .exchange pid, .ok =>
    some (({ s with userModeAppProcessId := pid } : DeviceState).setHandler h
      ⟨.complete, statusSuccess⟩)
  | .forward, .status st =>
    some (if NtSuccess st then (s.enqueue h).setHandler h ⟨.exit, st⟩
      else s.setHandler h ⟨.complete, st⟩)
  | .notify p, o => wfpNotifyStep s h p o
  | .complete, .ok =>
    some ((s.complete h (s.handler h).status 0 .evtIoDeviceControl).handlerAt h .exit)
  | .exit, .ok => some (s.handlerAt h .returned)
  | _, _ => none

/-- A step of the device. -/
def deviceStep (s : DeviceState) : DeviceAction → Option DeviceState
  | .deliver req => some (s.deliver req)
  | .handler h o => handlerStep s h o
  | .cancel r =>
    if r ∈ s.notificationQueue then some ((s.dequeue r).complete r statusCancelled 0 .framework)
    else none

/-- The device from `InitializeQueue` on. -/
def device : TransitionSystem DeviceState DeviceAction where
  init := .initializeQueue
  step := deviceStep

/-! ### What a step can do -/

/-- The moves of the call of `EvtIoDeviceControl` for the request `h`. -/
inductive HandlerMove (s : DeviceState) (h : ReqId) : HandlerOutcome → DeviceState → Prop
  | dispatched (hpc : (s.handler h).pc = .entry) :
      HandlerMove s h .ok (s.setHandler h ⟨(s.request h).dispatch, statusInvalidParameter⟩)
  | inputRetrieved {st : NtStatus} (hpc : (s.handler h).pc = .retrieveInput) :
      HandlerMove s h (.status st) (s.setHandler h
        ⟨.useInput (if NtSuccess st then some (s.request h).input else none), st⟩)
  | inputUsed {buffer : Option UserAppIoctlInBuf} {data : UserAppIoctlInBuf}
      (hpc : (s.handler h).pc = .useInput buffer) :
      HandlerMove s h (.found data) (s.handlerAt h ((s.request h).use (buffer.getD data)))
  | exchanged {pid : Int32} (hpc : (s.handler h).pc = .exchange pid) :
      HandlerMove s h .ok (({ s with userModeAppProcessId := pid } : DeviceState).setHandler h
        ⟨.complete, statusSuccess⟩)
  | forwarded {st : NtStatus} (hpc : (s.handler h).pc = .forward) (hst : NtSuccess st) :
      HandlerMove s h (.status st) ((s.enqueue h).setHandler h ⟨.exit, st⟩)
  | notForwarded {st : NtStatus} (hpc : (s.handler h).pc = .forward) (hst : ¬ NtSuccess st) :
      HandlerMove s h (.status st) (s.setHandler h ⟨.complete, st⟩)
  | noneRetrieved {st : NtStatus} (hpc : (s.handler h).pc = .notify .retrieveNext)
      (hst : ¬ NtSuccess st) :
      HandlerMove s h (.status st) (s.setHandler h ⟨.complete, statusSuccess⟩)
  | retrieved {r : ReqId} (hpc : (s.handler h).pc = .notify .retrieveNext)
      (hr : r ∈ s.notificationQueue) :
      HandlerMove s h (.retrieved r) ((s.dequeue r).handlerAt h (.notify (.retrieveOutput r)))
  | outputRetrieved {r : ReqId} {st : NtStatus}
      (hpc : (s.handler h).pc = .notify (.retrieveOutput r)) (hst : NtSuccess st) :
      HandlerMove s h (.status st) (s.handlerAt h (.notify (.exchangeAdd r)))
  | noOutput {r : ReqId} {st : NtStatus} (hpc : (s.handler h).pc = .notify (.retrieveOutput r))
      (hst : ¬ NtSuccess st) :
      HandlerMove s h (.status st) (s.handlerAt h (.notify (.complete r 0)))
  | numbered {r : ReqId} (hpc : (s.handler h).pc = .notify (.exchangeAdd r)) :
      HandlerMove s h .ok ((s.exchangeAdd r).handlerAt h (.notify (.store r s.sequence)))
  | stored {r : ReqId} {value : Int32} (hpc : (s.handler h).pc = .notify (.store r value)) :
      HandlerMove s h .ok
        (({ s with output := Function.update s.output r (some value) } : DeviceState).handlerAt h
          (.notify (.complete r sizeofLong)))
  | notified {r : ReqId} {bytes : ℕ} (hpc : (s.handler h).pc = .notify (.complete r bytes)) :
      HandlerMove s h .ok ((s.complete r statusSuccess bytes .wfpNotify).setHandler h
        ⟨.complete, statusSuccess⟩)
  | completed (hpc : (s.handler h).pc = .complete) :
      HandlerMove s h .ok
        ((s.complete h (s.handler h).status 0 .evtIoDeviceControl).handlerAt h .exit)
  | returned (hpc : (s.handler h).pc = .exit) : HandlerMove s h .ok (s.handlerAt h .returned)

theorem wfpNotifyStep_move {s s' : DeviceState} {h : ReqId} {p : NotifyPc} {o : HandlerOutcome}
    (hpc : (s.handler h).pc = .notify p) (hstep : wfpNotifyStep s h p o = some s') :
    HandlerMove s h o s' := by
  unfold wfpNotifyStep at hstep
  split at hstep
  · split_ifs at hstep with hst
    cases hstep
    exact .noneRetrieved hpc hst
  · split_ifs at hstep with hr
    cases hstep
    exact .retrieved hpc hr
  · cases hstep
    split_ifs with hst
    · exact .outputRetrieved hpc hst
    · exact .noOutput hpc hst
  · cases hstep
    exact .numbered hpc
  · cases hstep
    exact .stored hpc
  · cases hstep
    exact .notified hpc
  · cases hstep

/-- Every step of a handler is a move. -/
theorem handlerStep_move {s s' : DeviceState} {h : ReqId} {o : HandlerOutcome}
    (hstep : handlerStep s h o = some s') : HandlerMove s h o s' := by
  unfold handlerStep at hstep
  cases hpc : (s.handler h).pc with
  | entry =>
    rw [hpc] at hstep
    cases o <;> cases hstep
    exact .dispatched hpc
  | retrieveInput =>
    rw [hpc] at hstep
    cases o <;> cases hstep
    exact .inputRetrieved hpc
  | useInput buffer =>
    rw [hpc] at hstep
    cases o <;> cases hstep
    exact .inputUsed hpc
  | exchange pid =>
    rw [hpc] at hstep
    cases o <;> cases hstep
    exact .exchanged hpc
  | forward =>
    rw [hpc] at hstep
    cases o <;> cases hstep
    split_ifs with hst
    · exact .forwarded hpc hst
    · exact .notForwarded hpc hst
  | notify p =>
    rw [hpc] at hstep
    exact wfpNotifyStep_move hpc hstep
  | complete =>
    rw [hpc] at hstep
    cases o <;> cases hstep
    exact .completed hpc
  | exit =>
    rw [hpc] at hstep
    cases o <;> cases hstep
    exact .returned hpc
  | returned =>
    rw [hpc] at hstep
    cases hstep

/-- A handler leaves the requests and the other handlers alone. -/
theorem HandlerMove.frame {s s' : DeviceState} {k : ReqId} {o : HandlerOutcome}
    (hm : HandlerMove s k o s') :
    s'.request = s.request ∧ s'.next = s.next ∧ ∀ r ≠ k, s'.handler r = s.handler r := by
  cases hm <;> exact ⟨rfl, rfl, fun r hr => Function.update_of_ne hr _ _⟩

end IocpProxy
