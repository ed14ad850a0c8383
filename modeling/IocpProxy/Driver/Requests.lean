import IocpProxy.Driver.Ioctl

/-!
# Every request is completed once

A request is with its handler, in the notification queue, dequeued by a call of `WfpNotify`, or
completed. A handler is done with its request once it has forwarded or completed it, and only
forwarded requests are in the queue; so a request is never in two of these places.

## Main definitions

* `IocpProxy.Place`, `IocpProxy.DeviceState.At` : where a request is.
* `IocpProxy.DeviceState.Placed` : the invariant.

## Main results

* `IocpProxy.completed_once`.
-/

namespace IocpProxy

variable {s s' : DeviceState}

/-! ### Places -/

/-- Where a request is; a dequeued one is with the call of `WfpNotify` in the handler of `h`. -/
inductive Place
  | owned
  | queued
  | dequeued (h : ReqId)
  | completed
  deriving DecidableEq

namespace DeviceState

/-- The requests completed so far, in order. -/
def completed (s : DeviceState) : List ReqId := s.completions.map Completion.request

/-- The handler of `r` still runs, and has neither forwarded nor completed `r`. -/
def Owned (s : DeviceState) (r : ReqId) : Prop :=
  (s.handler r).pc ≠ .returned ∧ r ∉ s.forwarded ∧ r ∉ s.completed

/-- The call of `WfpNotify` in the handler of `h` has dequeued `r` and not yet completed it. -/
def Dequeued (s : DeviceState) (h r : ReqId) : Prop := (s.handler h).pc.dequeued = some r

/-- The request `r` is at a place. -/
def At (s : DeviceState) (r : ReqId) : Place → Prop
  | .owned => s.Owned r
  | .queued => r ∈ s.notificationQueue
  | .dequeued h => s.Dequeued h r
  | .completed => r ∈ s.completed

/-- A request that was delivered is in one place, and its handler is done with it once it was
forwarded or completed. -/
structure PlacedAt (s : DeviceState) (r : ReqId) : Prop where
  fresh : s.next ≤ r → (s.handler r).pc = .returned ∧ r ∉ s.forwarded ∧ r ∉ s.completed
  finished : r < s.next → ((s.handler r).pc.Over ↔ r ∈ s.forwarded ∨ r ∈ s.completed)
  forwarded : r ∈ s.forwarded → r ∈ s.notificationQueue ∨ (∃ h, s.Dequeued h r) ∨ r ∈ s.completed
  queued : r ∈ s.notificationQueue → r ∈ s.forwarded ∧ (∀ h, ¬ s.Dequeued h r) ∧ r ∉ s.completed
  dequeued : ∀ h, s.Dequeued h r →
    r ∈ s.forwarded ∧ r ∉ s.completed ∧ ∀ h', s.Dequeued h' r → h' = h

/-- Where the requests are. -/
structure Placed (s : DeviceState) : Prop where
  each : ∀ r, s.PlacedAt r
  nodup_queue : s.notificationQueue.Nodup
  nodup_completed : s.completed.Nodup

/-! ### Handlers -/

@[simp] theorem setHandler_self (s : DeviceState) (h : ReqId) (v : Handler) :
    (s.setHandler h v).handler h = v :=
  Function.update_self _ _ _

theorem setHandler_of_ne (s : DeviceState) {h h' : ReqId} (hne : h' ≠ h) (v : Handler) :
    (s.setHandler h v).handler h' = s.handler h' :=
  Function.update_of_ne hne _ _

@[simp] theorem completed_complete (s : DeviceState) (r : ReqId) (st : NtStatus) (info : ℕ)
    (c : Completer) : (s.complete r st info c).completed = s.completed ++ [r] := by
  simp [complete, completed]

theorem dispatch_dequeued (req : Request) :
    req.dispatch.dequeued = none ∧ ¬ req.dispatch.Over := by
  unfold Request.dispatch
  split_ifs <;> simp [HandlerPc.dequeued, NotifyPc.dequeued, HandlerPc.Over]

theorem use_dequeued (req : Request) (data : UserAppIoctlInBuf) :
    (req.use data).dequeued = none ∧ ¬ (req.use data).Over := by
  unfold Request.use
  split_ifs <;> simp [HandlerPc.dequeued, HandlerPc.Over]

/-! ### Steps -/

namespace PlacedAt

variable {r k : ReqId} {v : Handler}

theorem lt_next (h : s.PlacedAt r) (hr : (s.handler r).pc ≠ .returned) : r < s.next := by
  by_contra hge
  exact hr (h.fresh (not_lt.mp hge)).1

/-- A request whose handler is not done with it is neither forwarded nor completed. -/
theorem untouched (h : s.PlacedAt r) (hr : ¬ (s.handler r).pc.Over) :
    r ∉ s.forwarded ∧ r ∉ s.completed := by
  have hlt := h.lt_next fun e => hr (.inr e)
  have hnot := mt (h.finished hlt).mpr hr
  rwa [not_or] at hnot

/-- The place of a completed request. -/
theorem of_completed (hlt : r < s.next) (hover : (s.handler r).pc.Over) (hc : r ∈ s.completed)
    (hq : r ∉ s.notificationQueue) (hno : ∀ a, ¬ s.Dequeued a r) : s.PlacedAt r where
  fresh hge := absurd hlt (not_lt.mpr hge)
  finished _ := iff_of_true hover (.inr hc)
  forwarded _ := .inr (.inr hc)
  queued hm := absurd hm hq
  dequeued a ha := absurd ha (hno a)

/-- A forwarded request was delivered, and its handler is done with it. -/
theorem of_forwarded (h : s.PlacedAt r) (hf : r ∈ s.forwarded) :
    r < s.next ∧ (s.handler r).pc.Over := by
  have hlt : r < s.next := by
    by_contra hge
    exact (h.fresh (not_lt.mp hge)).2.1 hf
  exact ⟨hlt, (h.finished hlt).mpr (.inl hf)⟩

/-- A step that leaves the request where it is. -/
theorem congr (h : s.PlacedAt r) (hn : s'.next = s.next)
    (hret : (s.handler r).pc = .returned → (s'.handler r).pc = .returned)
    (hover : (s'.handler r).pc.Over ↔ (s.handler r).pc.Over)
    (hd : ∀ a, s'.Dequeued a r ↔ s.Dequeued a r) (hf : r ∈ s'.forwarded ↔ r ∈ s.forwarded)
    (hq : r ∈ s'.notificationQueue ↔ r ∈ s.notificationQueue)
    (hc : r ∈ s'.completed ↔ r ∈ s.completed) : s'.PlacedAt r where
  fresh hge := by
    obtain ⟨hpc, hrf, hrc⟩ := h.fresh (hn ▸ hge)
    exact ⟨hret hpc, mt hf.mp hrf, mt hc.mp hrc⟩
  finished hlt := by rw [hover, hf, hc, h.finished (hn ▸ hlt)]
  forwarded := by simpa only [hf, hq, hd, hc] using h.forwarded
  queued := by simpa only [hf, hq, hd, hc] using h.queued
  dequeued := by simpa only [hf, hd, hc] using h.dequeued

/-- What a call of `WfpNotify` holds after the step of a handler. -/
theorem dequeued_update (hk : s'.handler = Function.update s.handler k v) (a : ReqId) :
    s'.Dequeued a r ↔ if a = k then v.pc.dequeued = some r else s.Dequeued a r := by
  by_cases ha : a = k
  · subst ha
    rw [Dequeued, hk, Function.update_self, if_pos rfl]
  · rw [Dequeued, hk, Function.update_of_ne ha, if_neg ha, Dequeued]

/-- The step of a handler that leaves the request where it is. -/
theorem congr_update (h : s.PlacedAt r) (hk : s'.handler = Function.update s.handler k v)
    (hr : (s.handler k).pc ≠ .returned) (ho : r = k → (v.pc.Over ↔ (s.handler k).pc.Over))
    (hd : v.pc.dequeued = some r ↔ s.Dequeued k r) (hn : s'.next = s.next)
    (hf : r ∈ s'.forwarded ↔ r ∈ s.forwarded)
    (hq : r ∈ s'.notificationQueue ↔ r ∈ s.notificationQueue)
    (hc : r ∈ s'.completed ↔ r ∈ s.completed) : s'.PlacedAt r := by
  refine h.congr hn (fun hret => ?_) ?_ (fun a => ?_) hf hq hc
  · have hne : r ≠ k := fun e => hr (e ▸ hret)
    rw [hk, Function.update_of_ne hne]
    exact hret
  · by_cases hrk : r = k
    · rw [hk, hrk, Function.update_self, ho hrk]
    · rw [hk, Function.update_of_ne hrk]
  · rw [dequeued_update hk]
    by_cases ha : a = k
    · rw [if_pos ha, hd, ha]
    · rw [if_neg ha]

end PlacedAt

namespace Placed

variable {k r₀ : ReqId}

/-- The step of a handler that leaves every request where it is. -/
theorem internal (h : s.Placed) {v : Handler} (hk : s'.handler = Function.update s.handler k v)
    (hr : (s.handler k).pc ≠ .returned) (ho : v.pc.Over ↔ (s.handler k).pc.Over)
    (hd : v.pc.dequeued = (s.handler k).pc.dequeued) (hn : s'.next = s.next)
    (hf : s'.forwarded = s.forwarded) (hq : s'.notificationQueue = s.notificationQueue)
    (hc : s'.completed = s.completed) : s'.Placed where
  each r := (h.each r).congr_update hk hr (fun _ => ho) (by rw [hd, Dequeued]) hn (by rw [hf])
    (by rw [hq]) (by rw [hc])
  nodup_queue := hq ▸ h.nodup_queue
  nodup_completed := hc ▸ h.nodup_completed

/-- What is in the queue is neither dequeued nor completed; what is dequeued is not completed. -/
theorem not_queued (h : s.Placed) {r : ReqId} (hr : r ∉ s.forwarded) : r ∉ s.notificationQueue :=
  fun hm => hr ((h.each r).queued hm).1

theorem nodup_append (h : s.Placed) {r : ReqId} (hr : r ∉ s.completed) :
    (s.completed ++ [r]).Nodup := by
  rw [← List.concat_eq_append]
  exact h.nodup_completed.concat hr

/-- A handler forwards its request. -/
theorem enqueue (h : s.Placed) {st : NtStatus} (hpc : (s.handler k).pc = .forward) :
    ((s.enqueue k).setHandler k ⟨.exit, st⟩).Placed := by
  have hlt := (h.each k).lt_next (by simp [hpc])
  obtain ⟨hf, hc⟩ := (h.each k).untouched (by simp [hpc, HandlerPc.Over])
  have hq := h.not_queued hf
  refine ⟨fun r => ?_, ?_, h.nodup_completed⟩
  · by_cases hrk : r = k
    · subst hrk
      have hno : ∀ a, ¬ ((s.enqueue r).setHandler r ⟨.exit, st⟩).Dequeued a r := by
        intro a ha
        rw [PlacedAt.dequeued_update rfl] at ha
        split_ifs at ha
        · cases ha
        · exact hf ((h.each r).dequeued a ha).1
      have hrf : r ∈ (s.enqueue r).forwarded := Finset.mem_insert_self _ _
      have hrq : r ∈ (s.enqueue r).notificationQueue :=
        List.mem_append_right _ (List.mem_singleton_self _)
      exact ⟨fun hge => absurd hlt (not_lt.mpr hge),
        fun _ => iff_of_true (by simp [HandlerPc.Over]) (.inl hrf), fun _ => .inl hrq,
        fun _ => ⟨hrf, hno, hc⟩, fun a ha => absurd ha (hno a)⟩
    · exact (h.each r).congr_update rfl (by simp [hpc]) (fun e => absurd e hrk)
        (by simp [Dequeued, hpc, HandlerPc.dequeued]) rfl
        (by simp [DeviceState.enqueue, setHandler, hrk])
        (by simp [DeviceState.enqueue, setHandler, hrk]) Iff.rfl
  · show (s.notificationQueue ++ [k]).Nodup
    rw [← List.concat_eq_append]
    exact h.nodup_queue.concat hq

/-- A call of `WfpNotify` dequeues a request. -/
theorem retrieved (h : s.Placed) (hpc : (s.handler k).pc = .notify .retrieveNext)
    (hr₀ : r₀ ∈ s.notificationQueue) :
    ((s.dequeue r₀).handlerAt k (.notify (.retrieveOutput r₀))).Placed := by
  obtain ⟨hf, hno, hc⟩ := (h.each r₀).queued hr₀
  have hne : r₀ ≠ k := by
    rintro rfl
    exact ((h.each r₀).untouched (by simp [hpc, HandlerPc.Over])).1 hf
  refine ⟨fun r => ?_, h.nodup_queue.erase _, h.nodup_completed⟩
  by_cases hrr : r = r₀
  · subst hrr
    have hdeq : ∀ a, ((s.dequeue r).handlerAt k (.notify (.retrieveOutput r))).Dequeued a r ↔
        a = k := by
      intro a
      rw [PlacedAt.dequeued_update rfl]
      split_ifs with ha
      · exact iff_of_true rfl ha
      · exact iff_of_false (hno a) ha
    have hq : r ∉ s.notificationQueue.erase r := h.nodup_queue.not_mem_erase
    have hsame : ((s.dequeue r).handlerAt k (.notify (.retrieveOutput r))).handler r =
        s.handler r := setHandler_of_ne _ hne _
    exact ⟨fun hge => hsame ▸ (h.each r).fresh hge, fun hlt => hsame ▸ (h.each r).finished hlt,
      fun _ => .inr (.inl ⟨k, (hdeq k).mpr rfl⟩), fun hm => absurd hm hq,
      fun a ha => ⟨hf, hc, fun b hb => ((hdeq b).mp hb).trans ((hdeq a).mp ha).symm⟩⟩
  · exact (h.each r).congr_update rfl (by simp [hpc]) (fun _ => by simp [hpc, HandlerPc.Over])
      (by simp [Dequeued, hpc, HandlerPc.dequeued, NotifyPc.dequeued, Ne.symm hrr]) rfl Iff.rfl
      (List.mem_erase_of_ne hrr) Iff.rfl

/-- A call of `WfpNotify` completes the request it dequeued. -/
theorem notified (h : s.Placed) {bytes : ℕ}
    (hpc : (s.handler k).pc = .notify (.complete r₀ bytes)) :
    ((s.complete r₀ statusSuccess bytes .wfpNotify).setHandler k
      ⟨.complete, statusSuccess⟩).Placed := by
  have hcomp := completed_complete s r₀ statusSuccess bytes .wfpNotify
  have hheld : s.Dequeued k r₀ := by rw [Dequeued, hpc]; rfl
  obtain ⟨hf, hc, huniq⟩ := (h.each r₀).dequeued k hheld
  obtain ⟨hlt, hover⟩ := (h.each r₀).of_forwarded hf
  have hne : r₀ ≠ k := by
    rintro rfl
    simp [hpc, HandlerPc.Over] at hover
  refine ⟨fun r => ?_, h.nodup_queue, hcomp ▸ h.nodup_append hc⟩
  by_cases hrr : r = r₀
  · subst hrr
    refine .of_completed hlt ?_ (hcomp ▸ List.mem_append_right _ (List.mem_singleton_self r))
      (fun hm => ((h.each r).queued hm).2.1 k hheld) fun a ha => ?_
    · rw [setHandler_of_ne _ hne]
      exact hover
    · rw [PlacedAt.dequeued_update rfl] at ha
      split_ifs at ha with hak
      · cases ha
      · exact hak (huniq a ha)
  · refine (h.each r).congr_update rfl (by simp [hpc]) (fun _ => by simp [hpc, HandlerPc.Over])
      ?_ rfl Iff.rfl Iff.rfl (hcomp ▸ by simp [hrr])
    simp [Dequeued, hpc, HandlerPc.dequeued, NotifyPc.dequeued, Ne.symm hrr]

/-- A handler completes its own request. -/
theorem completed (h : s.Placed) (hpc : (s.handler k).pc = .complete) :
    ((s.complete k (s.handler k).status 0 .evtIoDeviceControl).handlerAt k .exit).Placed := by
  have hcomp := completed_complete s k (s.handler k).status 0 .evtIoDeviceControl
  have hlt := (h.each k).lt_next (by simp [hpc])
  obtain ⟨hf, hc⟩ := (h.each k).untouched (by simp [hpc, HandlerPc.Over])
  refine ⟨fun r => ?_, h.nodup_queue, hcomp ▸ h.nodup_append hc⟩
  by_cases hrk : r = k
  · subst hrk
    refine .of_completed hlt ?_ (hcomp ▸ List.mem_append_right _ (List.mem_singleton_self r))
      (h.not_queued hf) fun a ha => ?_
    · rw [handlerAt, setHandler_self]
      exact .inl rfl
    · rw [PlacedAt.dequeued_update rfl] at ha
      split_ifs at ha
      · cases ha
      · exact hf ((h.each r).dequeued a ha).1
  · exact (h.each r).congr_update rfl (by simp [hpc]) (fun e => absurd e hrk)
      (by simp [Dequeued, hpc, HandlerPc.dequeued]) rfl Iff.rfl Iff.rfl (hcomp ▸ by simp [hrk])

/-- The framework cancels a queued request. -/
theorem cancelled (h : s.Placed) (hr₀ : r₀ ∈ s.notificationQueue) :
    ((s.dequeue r₀).complete r₀ statusCancelled 0 .framework).Placed := by
  have hcomp := completed_complete (s.dequeue r₀) r₀ statusCancelled 0 .framework
  obtain ⟨hf, hno, hc⟩ := (h.each r₀).queued hr₀
  obtain ⟨hlt, hover⟩ := (h.each r₀).of_forwarded hf
  refine ⟨fun r => ?_, h.nodup_queue.erase _, hcomp ▸ h.nodup_append hc⟩
  by_cases hrr : r = r₀
  · subst hrr
    exact .of_completed hlt hover (hcomp ▸ List.mem_append_right _ (List.mem_singleton_self r))
      h.nodup_queue.not_mem_erase hno
  · refine (h.each r).congr rfl id Iff.rfl (fun _ => Iff.rfl) Iff.rfl (List.mem_erase_of_ne hrr) ?_
    rw [hcomp, List.mem_append, List.mem_singleton, or_iff_left hrr]
    rfl

/-- A request is delivered. -/
theorem deliver (h : s.Placed) (req : Request) : (s.deliver req).Placed := by
  obtain ⟨hpc, hf, hc⟩ := (h.each s.next).fresh le_rfl
  have hno : ∀ r, ¬ s.Dequeued s.next r := by simp [Dequeued, hpc, HandlerPc.dequeued]
  have hdeq : ∀ a r, (s.deliver req).Dequeued a r ↔ s.Dequeued a r := by
    intro a r
    rw [PlacedAt.dequeued_update rfl]
    split_ifs with ha
    · exact iff_of_false (by simp [HandlerPc.dequeued]) (ha ▸ hno r)
    · rfl
  refine ⟨fun r => ?_, h.nodup_queue, h.nodup_completed⟩
  by_cases hr : r = s.next
  · subst hr
    have hself : ((s.deliver req).handler s.next).pc = .entry := by
      simp only [DeviceState.deliver, Function.update_self]
    exact ⟨fun hge => absurd hge (not_le.mpr (Nat.lt_succ_self _)),
      fun _ => iff_of_false (by simp [hself, HandlerPc.Over]) (not_or.mpr ⟨hf, hc⟩),
      fun hm => absurd hm hf, fun hm => absurd hm (h.not_queued hf),
      fun a ha => absurd ((h.each s.next).dequeued a ((hdeq a _).mp ha)).1 hf⟩
  · have hother : (s.deliver req).handler r = s.handler r := Function.update_of_ne hr _ _
    exact ⟨fun hge => hother ▸ (h.each r).fresh (Nat.le_of_succ_le hge),
      fun hlt => hother ▸ (h.each r).finished (lt_of_le_of_ne (Nat.le_of_lt_succ hlt) hr),
      by simp only [hdeq]; exact (h.each r).forwarded,
      by simp only [hdeq]; exact (h.each r).queued,
      by simp only [hdeq]; exact (h.each r).dequeued⟩

end Placed

end DeviceState

theorem HandlerMove.placed {k : ReqId} {o : HandlerOutcome} (hm : HandlerMove s k o s')
    (h : s.Placed) : s'.Placed := by
  cases hm with
  | dispatched hpc =>
    obtain ⟨hd, ho⟩ := DeviceState.dispatch_dequeued (s.request k)
    exact h.internal rfl (by simp [hpc])
      (iff_of_false ho (by simp [hpc, HandlerPc.Over])) (by rw [hd, hpc]; rfl) rfl rfl rfl rfl
  | @inputUsed buffer data hpc =>
    obtain ⟨hd, ho⟩ := DeviceState.use_dequeued (s.request k) (buffer.getD data)
    exact h.internal rfl (by simp [hpc])
      (iff_of_false ho (by simp [hpc, HandlerPc.Over])) (by rw [hd, hpc]; rfl) rfl rfl rfl rfl
  | forwarded hpc => exact h.enqueue hpc
  | retrieved hpc hr => exact h.retrieved hpc hr
  | notified hpc => exact h.notified hpc
  | completed hpc => exact h.completed hpc
  | inputRetrieved hpc | exchanged hpc | notForwarded hpc | noneRetrieved hpc | outputRetrieved hpc
  | noOutput hpc | numbered hpc | stored hpc | returned hpc =>
    exact h.internal rfl (by simp [hpc]) (by simp [hpc, HandlerPc.Over]) (by rw [hpc]; rfl)
      rfl rfl rfl rfl

namespace DeviceState

theorem placed_initializeQueue : initializeQueue.Placed where
  each r := ⟨fun _ => ⟨rfl, Finset.notMem_empty r, List.not_mem_nil⟩,
    fun hlt => absurd hlt (Nat.not_lt_zero r), fun hm => absurd hm (Finset.notMem_empty r),
    fun hm => absurd hm List.not_mem_nil, fun a ha => absurd ha (by simp [Dequeued, initializeQueue,
      HandlerPc.dequeued])⟩
  nodup_queue := List.nodup_nil
  nodup_completed := List.nodup_nil

theorem Placed.step {a : DeviceAction} (h : s.Placed) (hstep : device.step s a = some s') :
    s'.Placed := by
  cases a with
  | deliver req => exact Option.some.inj hstep ▸ h.deliver req
  | handler k o => exact (handlerStep_move hstep).placed h
  | cancel r =>
    simp only [device, deviceStep] at hstep
    split_ifs at hstep with hr
    exact Option.some.inj hstep ▸ h.cancelled hr

theorem placed_of_reachable {G : DeviceState → DeviceAction → Prop} (hs : device.Reachable G s) :
    s.Placed :=
  hs.invariant placed_initializeQueue fun _ _ _ h _ hstep => h.step hstep

/-- A delivered request is in exactly one place. -/
theorem PlacedAt.existsUnique_place {r : ReqId} (h : s.PlacedAt r) (hlt : r < s.next) :
    ∃! p, s.At r p := by
  by_cases hf : r ∈ s.forwarded
  · have howned : ¬ s.Owned r := fun ho => ho.2.1 hf
    rcases h.forwarded hf with hq | ⟨k, hk⟩ | hc
    · obtain ⟨-, hno, hc⟩ := h.queued hq
      refine ⟨.queued, hq, fun p hp => ?_⟩
      cases p with
      | owned => exact absurd hp howned
      | queued => rfl
      | dequeued a => exact absurd hp (hno a)
      | completed => exact absurd hp hc
    · obtain ⟨-, hc, huniq⟩ := h.dequeued k hk
      refine ⟨.dequeued k, hk, fun p hp => ?_⟩
      cases p with
      | owned => exact absurd hp howned
      | queued => exact absurd hk ((h.queued hp).2.1 k)
      | dequeued a => exact congrArg _ (huniq a hp)
      | completed => exact absurd hp hc
    · refine ⟨.completed, hc, fun p hp => ?_⟩
      cases p with
      | owned => exact absurd hp howned
      | queued => exact absurd hc (h.queued hp).2.2
      | dequeued a => exact absurd hc (h.dequeued a hp).2.1
      | completed => rfl
  · have hq : r ∉ s.notificationQueue := fun hm => hf (h.queued hm).1
    have hno : ∀ a, ¬ s.Dequeued a r := fun a ha => hf (h.dequeued a ha).1
    by_cases hc : r ∈ s.completed
    · refine ⟨.completed, hc, fun p hp => ?_⟩
      cases p with
      | owned => exact absurd hc hp.2.2
      | queued => exact absurd hp hq
      | dequeued a => exact absurd hp (hno a)
      | completed => rfl
    · have hover : ¬ (s.handler r).pc.Over := fun ho =>
        ((h.finished hlt).mp ho).elim hf hc
      refine ⟨.owned, ⟨fun e => hover (.inr e), hf, hc⟩, fun p hp => ?_⟩
      cases p with
      | owned => rfl
      | queued => exact absurd hp hq
      | dequeued a => exact absurd hp (hno a)
      | completed => exact absurd hp hc

end DeviceState

/-- The step of a handler leaves the other handlers alone. -/
theorem HandlerMove.handler_of_ne {k : ReqId} {o : HandlerOutcome} (hm : HandlerMove s k o s')
    {h : ReqId} (hne : h ≠ k) : s'.handler h = s.handler h := by
  cases hm <;> exact Function.update_of_ne hne _ _

/-- Only a request to set the device context comes to the exchange. -/
theorem HandlerMove.exchange {k : ReqId} {o : HandlerOutcome} {p : Int32}
    (hm : HandlerMove s k o s') (h : (s'.handler k).pc = .exchange p) :
    (s.request k).ioControlCode = ioctlWfpSetDeviceContextData := by
  cases hm with
  | dispatched =>
    rw [DeviceState.setHandler_self] at h
    unfold Request.dispatch at h
    split_ifs at h
  | @inputUsed buffer data =>
    rw [DeviceState.handlerAt, DeviceState.setHandler_self] at h
    by_contra hne
    simp [Request.use, hne] at h
  | _ => simp [DeviceState.handlerAt] at h

/-- A call of `WfpNotify` gives up the request it dequeued by completing it. -/
theorem HandlerMove.mem_completed {k : ReqId} {o : HandlerOutcome} (hm : HandlerMove s k o s')
    {r : ReqId} (hr : s.Dequeued k r) (hr' : ¬ s'.Dequeued k r) : r ∈ s'.completed := by
  rw [DeviceState.Dequeued] at hr
  cases hm with
  | notified hpc =>
    rw [hpc] at hr
    obtain rfl : _ = r := Option.some.inj hr
    exact (DeviceState.completed_complete s _ statusSuccess _ .wfpNotify) ▸
      List.mem_append_right _ (List.mem_singleton_self _)
  | outputRetrieved hpc | noOutput hpc | numbered hpc | stored hpc =>
    rw [hpc] at hr
    refine absurd ?_ hr'
    rw [DeviceState.PlacedAt.dequeued_update rfl, if_pos rfl]
    exact hr
  | _ hpc => simp [hpc, HandlerPc.dequeued, NotifyPc.dequeued] at hr

/-- In every reachable state every delivered request is in exactly one place, no request has been
completed twice, a handler has returned only when its request is somewhere else, and a call of
`WfpNotify` lets go of the request it dequeued only by completing it. -/
theorem completed_once (hs : device.Reachable (fun _ _ => True) s) :
    (∀ r < s.next, ∃! p, s.At r p) ∧ s.completed.Nodup ∧
      (∀ r < s.next, (s.handler r).pc = .returned →
        r ∈ s.notificationQueue ∨ (∃ h, s.Dequeued h r) ∨ r ∈ s.completed) ∧
      ∀ a s', device.step s a = some s' →
        ∀ h r, s.Dequeued h r → ¬ s'.Dequeued h r → r ∈ s'.completed := by
  have hplaced := DeviceState.placed_of_reachable hs
  refine ⟨fun r hr => (hplaced.each r).existsUnique_place hr, hplaced.nodup_completed,
    fun r hr hret => ?_, fun a s' hstep h r hd hd' => ?_⟩
  · rcases ((hplaced.each r).finished hr).mp (.inr hret) with hf | hc
    · exact (hplaced.each r).forwarded hf
    · exact .inr (.inr hc)
  · cases a with
    | deliver req =>
      obtain rfl := Option.some.inj hstep
      have hne : h ≠ s.next := by
        rintro rfl
        simp [DeviceState.Dequeued, ((hplaced.each s.next).fresh le_rfl).1,
          HandlerPc.dequeued] at hd
      refine absurd ?_ hd'
      rw [DeviceState.PlacedAt.dequeued_update rfl, if_neg hne]
      exact hd
    | handler k o =>
      have hm := handlerStep_move hstep
      by_cases hk : h = k
      · subst hk
        exact hm.mem_completed hd hd'
      · refine absurd ?_ hd'
        rw [DeviceState.Dequeued, hm.handler_of_ne hk]
        exact hd
    | cancel q =>
      simp only [device, deviceStep] at hstep
      split_ifs at hstep
      obtain rfl := Option.some.inj hstep
      exact absurd hd hd'

/-- A notification request with room for a number, the request `h`, is put into the queue. -/
def waitForNotification (h : ReqId) : List DeviceAction :=
  [.deliver ⟨ioctlWfpNotification, 0, 4, ⟨0, 0, 0⟩⟩, .handler h .ok, .handler h (.status 0)]

/-- An event, the request `h`, notifies the queued request `r`. -/
def simulateEvent (h r : ReqId) : List DeviceAction :=
  [.deliver ⟨ioctlWfpSimulateEvent, 0, 0, ⟨0, 0, 0⟩⟩, .handler h .ok, .handler h (.retrieved r),
    .handler h (.status 0)] ++ List.replicate 5 (.handler h .ok)

/-- The handler of the first request has not returned yet when an event completes the request. -/
theorem completed_once_run :
    ∃ s : DeviceState, (s.handler 0).pc = .exit ∧ s.completed = [0, 1] ∧ s.completed.Nodup ∧
      ∃! p, s.At 0 p := by
  obtain ⟨s, hs, hpc, hc, hn⟩ : ∃ s : DeviceState, device.Reachable (fun _ _ => True) s ∧
      (s.handler 0).pc = .exit ∧ s.completed = [0, 1] ∧ s.next = 2 :=
    TransitionSystem.exists_reachable_of_runChecked
      (waitForNotification 0 ++ simulateEvent 1 0) (by decide +kernel)
  obtain ⟨hplace, hnodup, -⟩ := completed_once hs
  exact ⟨s, hpc, hc, hnodup, hplace 0 (hn ▸ Nat.zero_lt_two)⟩

end IocpProxy
