import IocpProxy.Driver.Requests

/-!
# What the requests do to the device context

`EvtIoDeviceControl` stores the process id of the proxy in the device context. It looks at the
status of `WdfRequestRetrieveInputBuffer` only to print a message, and then follows the pointer to
the input buffer in any case. So a call does what it should exactly when that function succeeds.

## Main definitions

* `IocpProxy.CallRecord`, `IocpProxy.Audit`, `IocpProxy.audited` : the device, with a record of
  what each call of `EvtIoDeviceControl` did.
* `IocpProxy.Request.Intact` : what a call should do.
* `IocpProxy.Request.Outcome` : what a call does.
* `IocpProxy.Request.Stores` : a call has stored a process id.

## Main results

* `IocpProxy.Audit.reachable_device` : every run of `audited` is one of `device`.
* `IocpProxy.Audit.stores_of_reachable` : where the id in the device context comes from.
* `IocpProxy.deviceContext_iff`, `IocpProxy.deviceContext_fails`.
-/

namespace IocpProxy

/-! ### Records -/

/-- What a call of `EvtIoDeviceControl` has done so far. -/
structure CallRecord where
  /-- What `WdfRequestRetrieveInputBuffer` returned. -/
  retrieval : Option NtStatus
  /-- The pointer to the input buffer was followed. -/
  read : Bool
  /-- What was stored in `UserModeAppProcessId`. -/
  stored : List Int32
  /-- What the request was completed with. -/
  status : Option NtStatus
  deriving DecidableEq

/-- Nothing done yet. -/
def CallRecord.empty : CallRecord := ⟨none, false, [], none⟩

/-- The record after a step of the call. -/
def CallRecord.after (v : CallRecord) (c : Handler) (o : HandlerOutcome) : CallRecord :=
  match c.pc, o with
  | .retrieveInput, .status st => { v with retrieval := some st }
  | .useInput _, .found _ => { v with read := true }
  | .exchange p, .ok => { v with stored := v.stored ++ [p] }
  | .complete, .ok => { v with status := some c.status }
  | _, _ => v

/-- What a call has stored stays in its record. -/
theorem CallRecord.mem_stored_after {v : CallRecord} {p : Int32} (h : p ∈ v.stored) (c : Handler)
    (o : HandlerOutcome) : p ∈ (v.after c o).stored := by
  obtain ⟨pc, status⟩ := c
  cases pc with
  | exchange =>
    cases o with
    | ok => exact List.mem_append_left _ h
    | _ => exact h
  | _ => cases o <;> exact h

/-- The device with the records of all calls. -/
structure Audit where
  device : DeviceState
  record : ReqId → CallRecord

/-- The records after a step. -/
def Audit.after (s : Audit) (a : DeviceAction) : ReqId → CallRecord :=
  match a with
  | .handler h o => Function.update s.record h ((s.record h).after (s.device.handler h) o)
  | .deliver _ | .cancel _ => s.record

/-- The device from `InitializeQueue` on, with the records. -/
def audited : TransitionSystem Audit DeviceAction where
  init := ⟨.initializeQueue, fun _ => .empty⟩
  step s a := (deviceStep s.device a).map fun d => ⟨d, s.after a⟩

/-- The records do not change what the device does. -/
theorem Audit.reachable_device {G : Audit → DeviceAction → Prop} {s : Audit}
    (hs : audited.Reachable G s) : IocpProxy.device.Reachable (fun _ _ => True) s.device := by
  refine hs.simulate (f := Audit.device) rfl fun s a s' _ hstep => ?_
  obtain ⟨d, hd, rfl⟩ := Option.map_eq_some_iff.mp hstep
  exact .inr ⟨a, trivial, hd⟩

/-! ### What a call should do -/

namespace Request

/-- The call asks for the input buffer. -/
def TakesInput (req : Request) : Prop :=
  sizeofInBuf ≤ req.inputBufferLength ∧
    (req.ioControlCode = ioctlWfpNotification ∨ req.ioControlCode = ioctlWfpSetDeviceContextData)

/-- The call is to store the process id it was sent. -/
def Sets (req : Request) (v : CallRecord) : Prop :=
  req.ioControlCode = ioctlWfpSetDeviceContextData ∧ sizeofInBuf ≤ req.inputBufferLength ∧
    ∃ st ∈ v.retrieval, NtSuccess st

/-- The call is to fail without a look at the input buffer. -/
def Fails (req : Request) (v : CallRecord) : Prop :=
  (req.ioControlCode = ioctlWfpNotification ∨ req.ioControlCode = ioctlWfpSetDeviceContextData) ∧
      (∃ st ∈ v.retrieval, ¬ NtSuccess st) ∨
    req.ioControlCode = ioctlWfpSetDeviceContextData ∧ req.inputBufferLength < sizeofInBuf

/-- The call changes `UserModeAppProcessId` only when it is to, and to what it was sent; the status
it completes its request with tells whether it did. -/
structure Intact (req : Request) (v : CallRecord) : Prop where
  stores : req.Sets v → v.stored = [req.input.userModeAppProcessId] ∧ v.status = some statusSuccess
  unchanged : ¬ req.Sets v → v.stored = []
  fails : req.Fails v → v.read = false ∧ ∃ st ∈ v.status, ¬ NtSuccess st

/-! ### What a call does -/

/-- What a call has done when it completes its request with a status. -/
inductive Outcome (req : Request) : CallRecord → NtStatus → Prop
  | withoutInput {st : NtStatus} (h : ¬ req.TakesInput)
      (hst : req.ioControlCode = ioctlWfpSetDeviceContextData → st = statusInvalidParameter) :
      Outcome req .empty st
  | printed {st : NtStatus} (h : req.TakesInput)
      (hcode : req.ioControlCode ≠ ioctlWfpSetDeviceContextData) :
      Outcome req ⟨some st, true, [], none⟩ st
  | stored {st : NtStatus} {p : Int32} (h : req.TakesInput)
      (hcode : req.ioControlCode = ioctlWfpSetDeviceContextData)
      (hp : NtSuccess st → p = req.input.userModeAppProcessId) :
      Outcome req ⟨some st, true, [p], none⟩ statusSuccess

/-- What a call has done at each of its labels. -/
def Recorded (req : Request) (c : Handler) (v : CallRecord) : Prop :=
  match c.pc with
  | .entry => v = .empty
  | .retrieveInput => req.TakesInput ∧ v = .empty
  | .useInput buffer => req.TakesInput ∧ v = ⟨some c.status, false, [], none⟩ ∧
      buffer = if NtSuccess c.status then some req.input else none
  | .exchange p => req.TakesInput ∧ req.ioControlCode = ioctlWfpSetDeviceContextData ∧
      ∃ st, v = ⟨some st, true, [], none⟩ ∧ (NtSuccess st → p = req.input.userModeAppProcessId)
  | .forward | .notify _ =>
      ¬ req.TakesInput ∧ req.ioControlCode ≠ ioctlWfpSetDeviceContextData ∧ v = .empty
  | .complete => req.Outcome v c.status
  | .exit | .returned =>
      (¬ req.TakesInput ∧ req.ioControlCode ≠ ioctlWfpSetDeviceContextData ∧ v = .empty) ∨
        ∃ v₀ st, req.Outcome v₀ st ∧ v = { v₀ with status := some st }

theorem recorded_dispatch (req : Request) :
    req.Recorded ⟨req.dispatch, statusInvalidParameter⟩ .empty := by
  have hsim : ioctlWfpSimulateEvent ≠ ioctlWfpSetDeviceContextData := by decide
  have hnot : ioctlWfpNotification ≠ ioctlWfpSetDeviceContextData := by decide
  unfold dispatch
  split_ifs with hn hlen hout he hset hlen
  · exact ⟨⟨hlen, .inl hn⟩, rfl⟩
  · exact .withoutInput (fun h => hlen h.1) fun _ => rfl
  · exact ⟨fun h => hlen h.1, hn ▸ hnot, rfl⟩
  · refine ⟨fun h => ?_, he ▸ hsim, rfl⟩
    rcases h.2 with h | h
    · exact hn h
    · exact hsim (he.symm.trans h)
  · exact ⟨⟨hlen, .inr hset⟩, rfl⟩
  · exact .withoutInput (fun h => hlen h.1) fun _ => rfl
  · exact .withoutInput (fun h => h.2.elim hn hset) fun h => absurd h hset

theorem recorded_use {req : Request} {c : Handler} {buffer : Option UserAppIoctlInBuf}
    {v : CallRecord} (hpc : c.pc = .useInput buffer) (h : req.Recorded c v)
    (data : UserAppIoctlInBuf) :
    req.Recorded { c with pc := req.use (buffer.getD data) } { v with read := true } := by
  simp only [Recorded, hpc] at h
  obtain ⟨htakes, rfl, rfl⟩ := h
  unfold use
  split_ifs with hcode hst
  · exact ⟨htakes, hcode, c.status, rfl, fun _ => rfl⟩
  · exact ⟨htakes, hcode, c.status, rfl, fun hs => absurd hs hst⟩
  · exact .printed htakes hcode

/-- The call is one to set the process id, with an input buffer that is long enough, and has stored
`p`: what it was sent, if the input buffer was retrieved. -/
structure Stores (req : Request) (v : CallRecord) (p : Int32) : Prop where
  code : req.ioControlCode = ioctlWfpSetDeviceContextData
  length : sizeofInBuf ≤ req.inputBufferLength
  stored : v.stored = [p]
  input : ∀ st ∈ v.retrieval, NtSuccess st → p = req.input.userModeAppProcessId

theorem Outcome.stores {req : Request} {v : CallRecord} {st : NtStatus} {p : Int32}
    (h : req.Outcome v st) (hp : p ∈ v.stored) : req.Stores v p := by
  cases h with
  | withoutInput | printed => exact absurd hp List.not_mem_nil
  | stored htakes hcode hsent =>
    obtain rfl := List.mem_singleton.mp hp
    refine ⟨hcode, htakes.1, rfl, ?_⟩
    rintro st ⟨⟩ hst
    exact hsent hst

/-- Only a call that is to set the process id stores one. -/
theorem Recorded.stores {req : Request} {c : Handler} {v : CallRecord} {p : Int32}
    (h : req.Recorded c v) (hp : p ∈ v.stored) : req.Stores v p := by
  cases hpc : c.pc with
  | entry =>
    simp only [Recorded, hpc] at h
    exact absurd (h ▸ hp) List.not_mem_nil
  | retrieveInput =>
    simp only [Recorded, hpc] at h
    exact absurd (h.2 ▸ hp) List.not_mem_nil
  | useInput =>
    simp only [Recorded, hpc] at h
    exact absurd (h.2.1 ▸ hp) List.not_mem_nil
  | exchange =>
    simp only [Recorded, hpc] at h
    obtain ⟨-, -, st, rfl, -⟩ := h
    exact absurd hp List.not_mem_nil
  | forward | notify =>
    simp only [Recorded, hpc] at h
    exact absurd (h.2.2 ▸ hp) List.not_mem_nil
  | complete =>
    simp only [Recorded, hpc] at h
    exact h.stores hp
  | exit | returned =>
    simp only [Recorded, hpc] at h
    rcases h with ⟨-, -, rfl⟩ | ⟨v₀, st, hout, rfl⟩
    · exact absurd hp List.not_mem_nil
    · obtain ⟨hcode, hlen, hstored, hinput⟩ := hout.stores hp
      exact ⟨hcode, hlen, hstored, hinput⟩

/-- A call that did what it should has read its input only after the buffer was retrieved. -/
theorem Intact.success {req : Request} {v : CallRecord} (hin : req.Intact v)
    (htakes : req.TakesInput) (hread : v.read = true) {st : NtStatus} (hst : st ∈ v.retrieval) :
    NtSuccess st := by
  by_contra hfail
  have hfails : req.Fails v := .inl ⟨htakes.2, st, hst, hfail⟩
  exact absurd hread (by simp [(hin.fails hfails).1])

/-- A call that has returned did what it should exactly when the input buffer was retrieved, if the
call asked for it. -/
theorem Recorded.intact_iff {req : Request} {c : Handler} {v : CallRecord} (h : req.Recorded c v)
    (hpc : c.pc = .returned) : req.Intact v ↔ ∀ st ∈ v.retrieval, NtSuccess st := by
  simp only [Recorded, hpc] at h
  rcases h with ⟨hno, hcode, rfl⟩ | ⟨v₀, st, hout, rfl⟩
  · have hnone : ∀ st, st ∉ CallRecord.empty.retrieval := by simp [CallRecord.empty]
    refine iff_of_true ⟨fun hs => absurd hs.1 hcode, fun _ => rfl, fun hf => ?_⟩
      fun st hst => absurd hst (hnone st)
    rcases hf with ⟨-, st, hst, -⟩ | ⟨hset, -⟩
    · exact absurd hst (hnone st)
    · exact absurd hset hcode
  · cases hout with
    | withoutInput hno hst =>
      have hnone : ∀ st, st ∉ CallRecord.empty.retrieval := by simp [CallRecord.empty]
      refine iff_of_true ⟨fun hs => ?_, fun _ => rfl, fun hf => ?_⟩
        fun st hst => absurd hst (hnone st)
      · obtain ⟨-, -, st, hst, -⟩ := hs
        exact absurd hst (hnone st)
      · rcases hf with ⟨-, st, hst, -⟩ | ⟨hset, -⟩
        · exact absurd hst (hnone st)
        · exact ⟨rfl, st, rfl, by rw [hst hset]; decide⟩
    | printed htakes hcode =>
      refine ⟨fun hin st' hst' => hin.success htakes rfl hst', fun hok => ?_⟩
      refine ⟨fun hs => absurd hs.1 hcode, fun _ => rfl, fun hf => ?_⟩
      rcases hf with ⟨-, st', hst', hfail⟩ | ⟨hset, -⟩
      · exact absurd (hok st' hst') hfail
      · exact absurd hset hcode
    | @stored st p htakes hcode hp =>
      refine ⟨fun hin st' hst' => hin.success htakes rfl hst', fun hok => ?_⟩
      have hsucc := hok st rfl
      refine ⟨fun _ => ⟨by rw [hp hsucc], rfl⟩, fun hs => ?_, fun hf => ?_⟩
      · exact absurd ⟨hcode, htakes.1, st, rfl, hsucc⟩ hs
      · rcases hf with ⟨-, st', hst', hfail⟩ | ⟨-, hlen⟩
        · exact absurd (hok st' hst') hfail
        · exact absurd htakes.1 (not_le.mpr hlen)

end Request

/-- A step of a call keeps the record right. -/
theorem HandlerMove.recorded {s s' : DeviceState} {k : ReqId} {o : HandlerOutcome} {v : CallRecord}
    (hm : HandlerMove s k o s') (h : (s.request k).Recorded (s.handler k) v) :
    (s.request k).Recorded (s'.handler k) (v.after (s.handler k) o) := by
  unfold CallRecord.after
  cases hm with
  | dispatched hpc =>
    simp only [Request.Recorded, hpc] at h
    rw [h, DeviceState.setHandler_self, hpc]
    exact (s.request k).recorded_dispatch
  | inputRetrieved hpc =>
    simp only [Request.Recorded, hpc] at h
    rw [h.2, DeviceState.setHandler_self, hpc]
    exact ⟨h.1, rfl, rfl⟩
  | @inputUsed buffer data hpc =>
    rw [DeviceState.handlerAt, DeviceState.setHandler_self, hpc]
    exact Request.recorded_use hpc h data
  | exchanged hpc =>
    simp only [Request.Recorded, hpc] at h
    obtain ⟨htakes, hcode, st, rfl, hp⟩ := h
    rw [DeviceState.setHandler_self, hpc]
    exact .stored htakes hcode hp
  | forwarded hpc =>
    simp only [Request.Recorded, hpc] at h
    rw [DeviceState.setHandler_self, hpc]
    exact .inl h
  | notForwarded hpc | noneRetrieved hpc =>
    simp only [Request.Recorded, hpc] at h
    obtain ⟨hno, hcode, rfl⟩ := h
    rw [DeviceState.setHandler_self, hpc]
    exact .withoutInput hno fun hset => absurd hset hcode
  | retrieved hpc | outputRetrieved hpc | noOutput hpc | numbered hpc | stored hpc =>
    simp only [Request.Recorded, hpc] at h
    rw [DeviceState.handlerAt, DeviceState.setHandler_self, hpc]
    exact h
  | notified hpc =>
    simp only [Request.Recorded, hpc] at h
    obtain ⟨hno, hcode, rfl⟩ := h
    rw [DeviceState.setHandler_self, hpc]
    exact .withoutInput hno fun hset => absurd hset hcode
  | completed hpc =>
    simp only [Request.Recorded, hpc] at h
    rw [DeviceState.handlerAt, DeviceState.setHandler_self, hpc]
    exact .inr ⟨v, _, h, rfl⟩
  | returned hpc =>
    simp only [Request.Recorded, hpc] at h
    rw [DeviceState.handlerAt, DeviceState.setHandler_self, hpc]
    exact h

/-- A request that is about to be completed has not been. -/
theorem Request.Outcome.status_eq_none {req : Request} {v : CallRecord} {st : NtStatus}
    (h : req.Outcome v st) : v.status = none := by
  cases h <;> rfl

/-- A step completes the request of the call, or nothing by the call itself. -/
theorem HandlerMove.completions_eq {s s' : DeviceState} {k : ReqId} {o : HandlerOutcome}
    (hm : HandlerMove s k o s') (v : CallRecord) :
    ((s.handler k).pc = .complete ∧
        (v.after (s.handler k) o).status = some (s.handler k).status ∧
        ∃ c, s'.completions = s.completions ++ [c] ∧ c.request = k ∧
          c.status = (s.handler k).status ∧ c.completer = .evtIoDeviceControl) ∨
      (v.after (s.handler k) o).status = v.status ∧
        ∃ L, s'.completions = s.completions ++ L ∧ ∀ c ∈ L, c.completer ≠ .evtIoDeviceControl := by
  unfold CallRecord.after
  cases hm with
  | completed hpc =>
    rw [hpc]
    exact .inl ⟨rfl, rfl, _, rfl, rfl, rfl, rfl⟩
  | notified hpc =>
    rw [hpc]
    refine .inr ⟨rfl, _, rfl, fun c hc => ?_⟩
    simp [List.mem_singleton.mp hc]
  | _ hpc =>
    rw [hpc]
    exact .inr ⟨rfl, [], (List.append_nil _).symm, fun c hc => absurd hc List.not_mem_nil⟩

namespace Audit

variable {s s' : Audit} {a : DeviceAction}

/-- The records are right, and have the statuses that `EvtIoDeviceControl` completed the requests
with. -/
structure Kept (s : Audit) : Prop where
  fresh : ∀ r, s.device.next ≤ r → s.record r = .empty
  delivered : ∀ r < s.device.next, (s.device.request r).Recorded (s.device.handler r) (s.record r)
  status : ∀ r st, (s.record r).status = some st ↔
    ∃ c ∈ s.device.completions, c.request = r ∧ c.status = st ∧ c.completer = .evtIoDeviceControl

section HandlerStep

variable {k : ReqId} {o : HandlerOutcome} {d : DeviceState}

theorem after_handler_self :
    s.after (.handler k o) k = (s.record k).after (s.device.handler k) o :=
  Function.update_self _ _ _

theorem after_handler_of_ne {r : ReqId} (hr : r ≠ k) : s.after (.handler k o) r = s.record r :=
  Function.update_of_ne hr _ _

/-- A step of a call keeps the statuses in the records those of the completed requests. -/
theorem Kept.status_step (h : s.Kept) (hlt : k < s.device.next) (hm : HandlerMove s.device k o d)
    (r : ReqId) (st : NtStatus) :
    (s.after (.handler k o) r).status = some st ↔
      ∃ c ∈ d.completions, c.request = r ∧ c.status = st ∧
        c.completer = .evtIoDeviceControl := by
  rcases hm.completions_eq (s.record k) with ⟨hpc, hst, c₀, hc, hck, hcst, hcev⟩ | ⟨hst, L, hc, hL⟩
  · have hnone : (s.record k).status = none := by
      have hrec := h.delivered k hlt
      simp only [Request.Recorded, hpc] at hrec
      exact hrec.status_eq_none
    by_cases hrk : r = k
    · subst hrk
      rw [after_handler_self, hst, hc]
      constructor
      · intro he
        exact ⟨c₀, List.mem_append_right _ (List.mem_singleton_self _), hck,
          hcst.trans (Option.some.inj he), hcev⟩
      · rintro ⟨c, hm', hcr, hcs, hce⟩
        rcases List.mem_append.mp hm' with hm' | hm'
        · have hsome := (h.status r st).mpr ⟨c, hm', hcr, hcs, hce⟩
          cases hnone.symm.trans hsome
        · obtain rfl := List.mem_singleton.mp hm'
          rw [← hcs, hcst]
    · rw [after_handler_of_ne hrk, hc, h.status r st]
      have hnot : c₀.request ≠ r := fun e => hrk (e.symm.trans hck)
      simp [or_and_right, exists_or, hnot]
  · have hsame : (s.after (.handler k o) r).status = (s.record r).status := by
      by_cases hrk : r = k
      · subst hrk
        rw [after_handler_self, hst]
      · rw [after_handler_of_ne hrk]
    rw [hsame, hc, h.status r st]
    constructor
    · rintro ⟨c, hm', hrest⟩
      exact ⟨c, List.mem_append_left _ hm', hrest⟩
    · rintro ⟨c, hm', hcr, hcs, hce⟩
      rcases List.mem_append.mp hm' with hm' | hm'
      · exact ⟨c, hm', hcr, hcs, hce⟩
      · exact absurd hce (hL c hm')

/-- The step of a call. -/
theorem Kept.handler_step (h : s.Kept) (hp : s.device.Placed) (hm : HandlerMove s.device k o d) :
    (⟨d, s.after (.handler k o)⟩ : Audit).Kept := by
  obtain ⟨hreq, hnext, hother⟩ := hm.frame
  have hlt : k < s.device.next := (hp.each k).lt_next (by cases hm <;> simp [*])
  refine ⟨fun r hr => ?_, fun r hr => ?_, h.status_step hlt hm⟩
  · have hr' : s.device.next ≤ r := hnext.ge.trans hr
    exact (after_handler_of_ne (hlt.trans_le hr').ne').trans (h.fresh r hr')
  · have hr' : r < s.device.next := hr.trans_eq hnext
    dsimp only
    rw [hreq]
    by_cases hrk : r = k
    · subst hrk
      rw [after_handler_self]
      exact hm.recorded (h.delivered r hr')
    · rw [after_handler_of_ne hrk, hother r hrk]
      exact h.delivered r hr'

end HandlerStep

theorem Kept.step (h : s.Kept) (hp : s.device.Placed) (hstep : audited.step s a = some s') :
    s'.Kept := by
  obtain ⟨d, hd, rfl⟩ := Option.map_eq_some_iff.mp hstep
  cases a with
  | deliver req =>
    obtain rfl := Option.some.inj hd
    refine ⟨fun r hr => h.fresh r (Nat.le_of_succ_le hr), fun r hr => ?_, h.status⟩
    by_cases hrn : r = s.device.next
    · subst hrn
      simp only [DeviceState.deliver, Function.update_self, Request.Recorded]
      exact h.fresh _ le_rfl
    · simp only [DeviceState.deliver, Function.update_of_ne hrn]
      exact h.delivered r (lt_of_le_of_ne (Nat.le_of_lt_succ hr) hrn)
  | handler k o => exact h.handler_step hp (handlerStep_move hd)
  | cancel r₀ =>
    simp only [deviceStep] at hd
    split_ifs at hd
    obtain rfl := Option.some.inj hd
    refine ⟨h.fresh, h.delivered, fun r st => (h.status r st).trans ?_⟩
    simp [DeviceState.complete, DeviceState.dequeue, or_and_right, exists_or]

theorem kept_of_reachable {G : Audit → DeviceAction → Prop} (hs : audited.Reachable G s) :
    s.Kept := by
  refine hs.invariant_step ⟨fun _ _ => rfl, fun r hr => absurd hr (Nat.not_lt_zero r), ?_⟩
    fun s a s' hr h _ hstep => h.step (DeviceState.placed_of_reachable (reachable_device hr)) hstep
  simp [audited, CallRecord.empty, DeviceState.initializeQueue]

/-- The id in the device context changes only when a call stores another. -/
theorem processId_step (hstep : audited.step s a = some s') :
    s'.device.userModeAppProcessId = s.device.userModeAppProcessId ∨
      ∃ h, a = .handler h .ok ∧
        (s'.record h).stored = (s.record h).stored ++ [s'.device.userModeAppProcessId] := by
  obtain ⟨d, hd, rfl⟩ := Option.map_eq_some_iff.mp hstep
  cases a with
  | deliver req =>
    obtain rfl := Option.some.inj hd
    exact .inl rfl
  | handler k o =>
    cases handlerStep_move hd with
    | @exchanged p hpc =>
      refine .inr ⟨k, rfl, ?_⟩
      dsimp only
      rw [after_handler_self]
      unfold CallRecord.after
      rw [hpc]
      rfl
    | _ => exact .inl rfl
  | cancel r₀ =>
    simp only [deviceStep] at hd
    split_ifs at hd
    obtain rfl := Option.some.inj hd
    exact .inl rfl

/-- What a call has stored stays in its record. -/
theorem mem_stored_after {r : ReqId} {p : Int32} (h : p ∈ (s.record r).stored)
    (a : DeviceAction) : p ∈ (s.after a r).stored := by
  cases a with
  | deliver | cancel => exact h
  | handler k o =>
    rcases eq_or_ne r k with rfl | hrk
    · rw [after_handler_self]
      exact CallRecord.mem_stored_after h _ _
    · rwa [after_handler_of_ne hrk]

/-- The id in the device context is the one that `InitializeQueue` stores, or a call has stored
it. -/
def FromCall (s : Audit) : Prop :=
  s.device.userModeAppProcessId ≠ 0 → ∃ r, s.device.userModeAppProcessId ∈ (s.record r).stored

theorem FromCall.step (h : s.FromCall) (hstep : audited.step s a = some s') : s'.FromCall := by
  intro hid
  rcases processId_step hstep with hsame | ⟨k, -, hk⟩
  · obtain ⟨d, -, rfl⟩ := Option.map_eq_some_iff.mp hstep
    rw [hsame] at hid ⊢
    obtain ⟨r, hr⟩ := h hid
    exact ⟨r, mem_stored_after hr a⟩
  · exact ⟨k, hk ▸ List.mem_append_right _ (List.mem_singleton_self _)⟩

theorem fromCall_of_reachable {G : Audit → DeviceAction → Prop} (hs : audited.Reachable G s) :
    s.FromCall :=
  hs.invariant (fun hid => absurd rfl hid) fun _ _ _ h _ hstep => h.step hstep

/-- A nonzero id in the device context was stored by a call for a request to set it. -/
theorem stores_of_reachable {G : Audit → DeviceAction → Prop} (hs : audited.Reachable G s)
    (hid : s.device.userModeAppProcessId ≠ 0) : ∃ r < s.device.next,
      (s.device.request r).Stores (s.record r) s.device.userModeAppProcessId := by
  have hkept := kept_of_reachable hs
  obtain ⟨r, hr⟩ := fromCall_of_reachable hs hid
  have hlt : r < s.device.next := by
    by_contra hge
    rw [hkept.fresh r (not_lt.mp hge)] at hr
    exact absurd hr List.not_mem_nil
  exact ⟨r, hlt, (hkept.delivered r hlt).stores hr⟩

end Audit

/-- The id in the device context changes only when a call stores another. Each call that has
returned did what it should, and has its record completed with that status, exactly when the
function that retrieves the input buffer succeeded, if the call asked for it. -/
theorem deviceContext_iff {s : Audit} (hs : audited.Reachable (fun _ _ => True) s) :
    (∀ a s', audited.step s a = some s' →
      s'.device.userModeAppProcessId = s.device.userModeAppProcessId ∨
        ∃ h, a = .handler h .ok ∧
          (s'.record h).stored = (s.record h).stored ++ [s'.device.userModeAppProcessId]) ∧
    (∀ h st, (s.record h).status = some st ↔
      ∃ c ∈ s.device.completions, c.request = h ∧ c.status = st ∧
        c.completer = .evtIoDeviceControl) ∧
    ∀ h < s.device.next, (s.device.handler h).pc = .returned →
      ((s.device.request h).Intact (s.record h) ↔
        ∀ st ∈ (s.record h).retrieval, NtSuccess st) := by
  have hkept := Audit.kept_of_reachable hs
  exact ⟨fun a s' hstep => Audit.processId_step hstep, hkept.status,
    fun h hlt hpc => (hkept.delivered h hlt).intact_iff hpc⟩

/-- The request with the process id 42. -/
def setRequest : Request := ⟨ioctlWfpSetDeviceContextData, sizeofInBuf, 0, ⟨0, 0, 42⟩⟩

/-- The request is delivered, `WdfRequestRetrieveInputBuffer` returns a status, and the call goes
on to its return. -/
def setContext (st : NtStatus) : List DeviceAction :=
  [.deliver setRequest, .handler 0 .ok, .handler 0 (.status st), .handler 0 (.found ⟨0, 0, 7⟩),
    .handler 0 .ok, .handler 0 .ok, .handler 0 .ok]

theorem deviceContext_iff_run :
    ∃ s, audited.Reachable (fun _ _ => True) s ∧ s.device.userModeAppProcessId = 42 ∧
      (s.device.request 0).Intact (s.record 0) := by
  obtain ⟨s, hs, hlt, hpc, hid, hret⟩ : ∃ s, audited.Reachable (fun _ _ => True) s ∧
      0 < s.device.next ∧ (s.device.handler 0).pc = .returned ∧
        s.device.userModeAppProcessId = 42 ∧ (s.record 0).retrieval = some statusSuccess :=
    TransitionSystem.exists_reachable_of_runChecked (setContext statusSuccess) (by decide +kernel)
  refine ⟨s, hs, hid, ((deviceContext_iff hs).2.2 0 hlt hpc).mpr fun st hst => ?_⟩
  obtain rfl := Option.some.inj (hret.symm.trans hst)
  decide

/-- The input buffer is not retrieved: what the uninitialised pointer leads to is stored, and the
request is completed with success. -/
theorem deviceContext_fails :
    ∃ s, audited.Reachable (fun _ _ => True) s ∧ s.device.request 0 = setRequest ∧
      (s.device.handler 0).pc = .returned ∧ (s.record 0).status = some statusSuccess ∧
      s.device.userModeAppProcessId = 7 ∧ ¬ (s.device.request 0).Intact (s.record 0) := by
  obtain ⟨s, hs, hreq, hpc, hst, hid, hret, hread⟩ : ∃ s, audited.Reachable (fun _ _ => True) s ∧
      s.device.request 0 = setRequest ∧ (s.device.handler 0).pc = .returned ∧
        (s.record 0).status = some statusSuccess ∧ s.device.userModeAppProcessId = 7 ∧
        (s.record 0).retrieval = some statusInvalidParameter ∧ (s.record 0).read = true :=
    TransitionSystem.exists_reachable_of_runChecked (setContext statusInvalidParameter)
      (by decide +kernel)
  refine ⟨s, hs, hreq, hpc, hst, hid, fun hin => ?_⟩
  have hcode : (s.device.request 0).ioControlCode = ioctlWfpSetDeviceContextData := by
    rw [hreq]
    rfl
  have hfails : (s.device.request 0).Fails (s.record 0) :=
    .inl ⟨.inr hcode, statusInvalidParameter, hret, by decide⟩
  exact absurd (hin.fails hfails).1 (by simp [hread])

end IocpProxy
