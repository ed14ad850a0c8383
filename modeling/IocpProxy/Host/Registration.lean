import IocpProxy.Driver.Requests
import IocpProxy.Host.Instances
import IocpProxy.Proxy.Invariant

/-!
# The registered process id

The driver takes the process whose id it stored last for the proxy. An instance registers before
it binds the port, and never takes its registration back. So an instance that registers while
another one listens, and then fails to bind, leaves the driver with its own id; so does one that
registers between the registration of another instance and its `listen`.

## Main definitions

* `IocpProxy.Host.Registered` : the driver has the id of the instance that listens.
* `IocpProxy.InputRetrieved` : what the framework promises.
* `IocpProxy.RegistersAlone` : the condition on the steps.
* `IocpProxy.Host.Tracked` : the invariant.

## Main results

* `IocpProxy.registered_iff`, `IocpProxy.registered_fails`.
-/

namespace IocpProxy

variable {ι : Type} {pid : ι → UInt32} {n : ℕ} {s s' : Host ι n}

/-- Whoever is bound to the port and listens is the process the driver takes for the proxy. -/
def Host.Registered (pid : ι → UInt32) (s : Host ι n) : Prop :=
  ∀ i, s.Listening i → s.device.userModeAppProcessId = (pid i).toInt32

/-- `WdfRequestRetrieveInputBuffer` succeeds when the input buffer is large enough. -/
def InputRetrieved (s : Host ι n) : HostAction ι n → Prop
  | .device (.handler h (.status st)) =>
    (s.device.handler h).pc = .retrieveInput →
      sizeofLong ≤ (s.device.request h).inputBufferLength → NtSuccess st
  | _ => True

instance (s : Host ι n) : DecidablePred (InputRetrieved s)
  | .device (.handler h (.status st)) =>
    inferInstanceAs (Decidable ((s.device.handler h).pc = .retrieveInput →
      sizeofLong ≤ (s.device.request h).inputBufferLength → NtSuccess st))
  | .device (.handler _ .ok) | .device (.handler _ (.retrieved _))
  | .device (.handler _ (.found _)) | .device (.deliver _) | .device (.cancel _)
  | .createFile _ _ | .deviceIoControl _ _ | .result _ | .serve _ _ | .terminate _ =>
    instDecidableTrue

/-- While an instance listens, only its own id is stored; and an instance comes to listen only if
its id was stored last. -/
def RegistersAlone (s : Host ι n) : HostAction ι n → Prop
  | .device a => ∀ h ∈ s.device.stores a, ∀ i, s.Listening i → s.sender h = some i
  | .serve i (.main .ok) =>
    (s.proxy i).main = .listen → s.port = some i → s.stored.getLast? = some i
  | _ => True

/-! ### The request of an instance -/

/-- On the way from the delivery of a registration to the exchange, with the id `p`. -/
def HandlerPc.Registering (p : Int32) : HandlerPc → Prop
  | .entry | .retrieveInput => True
  | .useInput buffer => buffer = some ⟨0, 0, p⟩
  | .exchange q => q = p
  | _ => False

/-- The request that is completed, or about to be. -/
def HandlerPc.Completing (pc : HandlerPc) : Prop := pc = .complete ∨ pc.Over

theorem DeviceState.stores_eq_some {d : DeviceState} {a : DeviceAction} {h : ReqId} :
    d.stores a = some h ↔ a = .handler h .ok ∧ ∃ p, (d.handler h).pc = .exchange p := by
  constructor
  · intro hst
    unfold DeviceState.stores at hst
    split at hst
    · split at hst
      next hp =>
        cases hst
        exact ⟨rfl, _, hp⟩
      next => cases hst
    · cases hst
  · rintro ⟨rfl, p, hp⟩
    simp [DeviceState.stores, hp]

/-- The id changes in the exchange only. -/
theorem HandlerMove.processId_eq {d d' : DeviceState} {k : ReqId} {o : HandlerOutcome}
    (hm : HandlerMove d k o d') (hno : d.stores (.handler k o) = none) :
    d'.userModeAppProcessId = d.userModeAppProcessId := by
  cases hm with
  | @exchanged p hpc =>
    have hsome := DeviceState.stores_eq_some.mpr ⟨rfl, p, hpc⟩
    simp [hno] at hsome
  | _ => rfl

/-- The exchange stores the id. -/
theorem HandlerMove.processId_of_exchange {d d' : DeviceState} {k : ReqId} {p : Int32}
    (hm : HandlerMove d k .ok d') (hp : (d.handler k).pc = .exchange p) :
    d'.userModeAppProcessId = p := by
  cases hm <;> simp_all [DeviceState.setHandler]

/-- A step of the handler of a registration goes on towards the exchange, makes it, or comes
after it. -/
theorem HandlerMove.registering {d d' : DeviceState} {k : ReqId} {o : HandlerOutcome} {p : UInt32}
    (hm : HandlerMove d k o d') (hreq : d.request k = registration p)
    (hin : ∀ st, o = .status st → (d.handler k).pc = .retrieveInput → NtSuccess st)
    (hpc : (d.handler k).pc.Registering p.toInt32) :
    (d'.handler k).pc.Registering p.toInt32 ∨
      d.stores (.handler k o) = some k ∧ (d'.handler k).pc.Completing := by
  cases hm with
  | dispatched =>
    left
    rw [DeviceState.setHandler_self, hreq]
    trivial
  | @inputRetrieved st h =>
    left
    rw [DeviceState.setHandler_self, if_pos (hin st rfl h), hreq]
    rfl
  | @inputUsed buffer data h =>
    left
    rw [h] at hpc
    obtain rfl : buffer = some ⟨0, 0, p.toInt32⟩ := hpc
    rw [DeviceState.handlerAt, DeviceState.setHandler_self, hreq]
    rfl
  | @exchanged q h =>
    rw [h] at hpc
    obtain rfl : q = p.toInt32 := hpc
    refine .inr ⟨DeviceState.stores_eq_some.mpr ⟨rfl, _, h⟩, ?_⟩
    rw [DeviceState.setHandler_self]
    exact .inl rfl
  | forwarded h | notForwarded h | noneRetrieved h | retrieved h | outputRetrieved h | noOutput h
  | numbered h | stored h | notified h | completed h | returned h =>
    rw [h] at hpc
    exact hpc.elim

/-- A handler that has passed the exchange does not come back to it. -/
theorem HandlerMove.completing {d d' : DeviceState} {k : ReqId} {o : HandlerOutcome}
    (hm : HandlerMove d k o d') (hpc : (d.handler k).pc.Completing) :
    (d'.handler k).pc.Completing := by
  cases hm with
  | completed | returned =>
    rw [DeviceState.handlerAt, DeviceState.setHandler_self]
    exact .inr (by simp [HandlerPc.Over])
  | dispatched h | inputRetrieved h | inputUsed h | exchanged h | forwarded h | notForwarded h
  | noneRetrieved h | retrieved h | outputRetrieved h | noOutput h | numbered h | stored h
  | notified h => simp [HandlerPc.Completing, HandlerPc.Over, h] at hpc

namespace Host

/-! ### What has been stored -/

/-- Where the registrations are, and what the instances and the driver know of them. -/
structure Tracked (pid : ι → UInt32) (s : Host ι n) : Prop where
  sent : ∀ r i, s.sender r = some i → r < s.device.next ∧
    s.device.request r = registration (pid i) ∧
      ((s.device.handler r).pc.Registering (pid i).toInt32 ∨
        (s.device.handler r).pc.Completing ∧ i ∈ s.stored)
  other : ∀ r, s.sender r = none →
    (s.device.request r).ioControlCode ≠ ioctlWfpSetDeviceContextData ∧
      ∀ p, (s.device.handler r).pc ≠ .exchange p
  word : ∀ i, s.stored.getLast? = some i → s.device.userModeAppProcessId = (pid i).toInt32
  pending : ∀ i r, s.pc i = .pending r → s.sender r = some i
  serve : ∀ i, s.pc i = .serve → i ∈ s.stored

/-- A step that concerns no registration. -/
theorem Tracked.congr (h : s.Tracked pid) (hn : s'.device.next = s.device.next)
    (hreq : s'.device.request = s.device.request) (hh : s'.device.handler = s.device.handler)
    (hw : s'.device.userModeAppProcessId = s.device.userModeAppProcessId)
    (hs : s'.sender = s.sender) (hst : s'.stored = s.stored)
    (hp : ∀ i r, s'.pc i = .pending r → s.pc i = .pending r)
    (hserve : ∀ i, s'.pc i = .serve → i ∈ s.stored) : s'.Tracked pid where
  sent := by simpa only [hn, hreq, hh, hs, hst] using h.sent
  other := by simpa only [hreq, hh, hs] using h.other
  word := by simpa only [hw, hst] using h.word
  pending i r hi := hs ▸ h.pending i r (hp i r hi)
  serve i hi := hst ▸ hserve i hi

/-- A request is delivered, from an instance or from elsewhere. -/
theorem Tracked.deliver (h : s.Tracked pid) {req : Request} {f : ReqId → Option ι}
    (hf : ∀ r ≠ s.device.next, f r = s.sender r)
    (hnew : (∃ i, f s.device.next = some i ∧ req = registration (pid i)) ∨
      f s.device.next = none ∧ req.ioControlCode ≠ ioctlWfpSetDeviceContextData) :
    ({ s with device := s.device.deliver req, sender := f } : Host ι n).Tracked pid where
  sent r i hr := by
    by_cases hrn : r = s.device.next
    · subst hrn
      rcases hnew with ⟨j, hj, rfl⟩ | ⟨hnone, -⟩
      · obtain rfl : j = i := Option.some.inj (hj.symm.trans hr)
        refine ⟨Nat.lt_succ_self _, Function.update_self _ _ _, .inl ?_⟩
        simp only [DeviceState.deliver, Function.update_self]
        trivial
      · cases hnone.symm.trans hr
    · obtain ⟨hlt, hreq, hpc⟩ := h.sent r i ((hf r hrn).symm.trans hr)
      refine ⟨Nat.lt_succ_of_lt hlt, (Function.update_of_ne hrn _ _).trans hreq, ?_⟩
      simpa only [DeviceState.deliver, Function.update_of_ne hrn] using hpc
  other r hr := by
    by_cases hrn : r = s.device.next
    · subst hrn
      rcases hnew with ⟨j, hj, -⟩ | ⟨-, hcode⟩
      · cases hj.symm.trans hr
      · simpa [DeviceState.deliver] using hcode
    · simpa only [DeviceState.deliver, Function.update_of_ne hrn] using
        h.other r ((hf r hrn).symm.trans hr)
  word := h.word
  pending i r hi := by
    have hs := h.pending i r hi
    have hrn : r ≠ s.device.next := (h.sent r i hs).1.ne
    exact (hf r hrn).trans hs
  serve := h.serve

/-- The handler of a request goes on. -/
theorem Tracked.driver_step (h : s.Tracked pid) {k : ReqId} {o : HandlerOutcome} {d : DeviceState}
    (hG : InputRetrieved s (.device (.handler k o))) (hm : HandlerMove s.device k o d) :
    (s.driven (.handler k o) d).Tracked pid := by
  obtain ⟨hreq, hnext, hother⟩ := hm.frame
  have hstored : ∀ i ∈ s.stored, i ∈ (s.driven (.handler k o) d).stored := fun i hi =>
    List.mem_append_left _ hi
  refine ⟨fun r i hr => ?_, fun r hr => ?_, fun i hlast => ?_, h.pending,
    fun i hi => hstored i (h.serve i hi)⟩
  · obtain ⟨hlt, hri, hpc⟩ := h.sent r i hr
    refine ⟨hnext.symm ▸ hlt, (congrFun hreq r).trans hri, ?_⟩
    by_cases hrk : r = k
    · subst hrk
      rcases hpc with hpc | ⟨hpc, hi⟩
      · have hin : ∀ st, o = .status st → (s.device.handler r).pc = .retrieveInput →
            NtSuccess st := by
          rintro st rfl hret
          have hlen : sizeofLong ≤ sizeofInBuf := by decide
          exact hG hret (by rwa [hri])
        refine (hm.registering hri hin hpc).imp_right fun ⟨hst, hdone⟩ => ⟨hdone, ?_⟩
        exact List.mem_append_right _ (by simpa [hst, driven] using hr)
      · exact .inr ⟨hm.completing hpc, hstored i hi⟩
    · change (d.handler r).pc.Registering _ ∨ (d.handler r).pc.Completing ∧ _
      rw [hother r hrk]
      exact hpc.imp_right fun ⟨hc, hi⟩ => ⟨hc, hstored i hi⟩
  · refine ⟨hreq.symm ▸ (h.other r hr).1, fun p hp => ?_⟩
    by_cases hrk : r = k
    · subst hrk
      exact (h.other r hr).1 (hm.exchange hp)
    · exact (h.other r hr).2 p (hother r hrk ▸ hp)
  · change (s.stored ++ ((s.device.stores (.handler k o)).bind s.sender).toList).getLast? = _
      at hlast
    change d.userModeAppProcessId = _
    cases hst : s.device.stores (.handler k o) with
    | none =>
      rw [hst] at hlast
      rw [hm.processId_eq hst]
      exact h.word i (by simpa using hlast)
    | some r =>
      obtain ⟨he, p, hp⟩ := DeviceState.stores_eq_some.mp hst
      cases he
      cases hsend : s.sender k with
      | none => exact absurd hp ((h.other k hsend).2 p)
      | some j =>
        obtain rfl : j = i := by simpa [hst, hsend] using hlast
        obtain ⟨-, -, hreg | ⟨hc, -⟩⟩ := h.sent k j hsend
        · rw [hp] at hreg
          exact (hm.processId_of_exchange hp).trans hreg
        · simp [HandlerPc.Completing, HandlerPc.Over, hp] at hc

/-- Two instances with the id that is stored are one. -/
theorem Tracked.eq_of_processId (h : s.Tracked pid) (hpid : Function.Injective pid) {i j : ι}
    (hlast : s.stored.getLast? = some j) (hi : s.device.userModeAppProcessId = (pid i).toInt32) :
    j = i := by
  have hword := congrArg Int32.toUInt32 ((h.word j hlast).symm.trans hi)
  rw [UInt32.toUInt32_toInt32, UInt32.toUInt32_toInt32] at hword
  exact hpid hword

variable [DecidableEq ι]

/-- After a move of an instance the others are where they were. -/
theorem pcAt_pc_eq {i j : ι} {pc pc' : InstancePc} (h : (s.pcAt i pc).pc j = pc') :
    i = j ∧ pc = pc' ∨ s.pc j = pc' := by
  by_cases hji : j = i
  · subst hji
    exact .inl ⟨rfl, (Function.update_self _ _ _).symm.trans h⟩
  · exact .inr ((Function.update_of_ne hji _ _).symm.trans h)

theorem Tracked.pcAt (h : s.Tracked pid) {i : ι} {pc : InstancePc} (hp : ∀ r, pc ≠ .pending r)
    (hserve : pc = .serve → i ∈ s.stored) : (s.pcAt i pc).Tracked pid := by
  refine h.congr rfl rfl rfl rfl rfl rfl (fun j r hj => ?_) fun j hj => ?_
  · exact (pcAt_pc_eq hj).resolve_left fun hpc => hp r hpc.2
  · rcases pcAt_pc_eq hj with ⟨rfl, hpc⟩ | hpc
    · exact hserve hpc
    · exact h.serve j hpc

theorem Tracked.step {a : HostAction ι n} (h : s.Tracked pid) (hp : s.device.Placed)
    (hG : InputRetrieved s a) (hm : HostMove pid s a s') : s'.Tracked pid := by
  cases hm with
  | created => exact h.pcAt (by intro r; split_ifs <;> simp) (by split_ifs <;> simp)
  | @sent i hpc =>
    have hdel : ({ s with
        device := s.device.deliver (registration (pid i))
        sender := Function.update s.sender s.device.next (some i) } : Host ι n).Tracked pid :=
      h.deliver (fun r hr => Function.update_of_ne hr _ _)
        (.inl ⟨i, Function.update_self _ _ _, rfl⟩)
    refine ⟨hdel.sent, hdel.other, hdel.word, fun j r hj => ?_, fun j hj => ?_⟩
    · rcases pcAt_pc_eq hj with ⟨rfl, hr⟩ | hr
      · cases hr
        exact Function.update_self _ _ _
      · exact hdel.pending j r hr
    · exact h.serve j ((pcAt_pc_eq hj).resolve_left fun hpc => by cases hpc.2)
  | notSent => exact h.pcAt (by simp) (by simp)
  | @registered i r c hpc hc hr =>
    refine h.pcAt (by simp) fun _ => ?_
    obtain ⟨hlt, -, hreg | ⟨-, hst⟩⟩ := h.sent r i (h.pending i r hpc)
    · -- a completed request has left its handler
      have hcomp : r ∈ s.device.completed := List.mem_map.mpr ⟨c, hc, hr⟩
      have hover := ((hp.each r).finished hlt).mpr (.inr hcomp)
      rcases hover with hover | hover <;> simp [hover, HandlerPc.Registering] at hreg
    · exact hst
  | notRegistered => exact h.pcAt (by simp) (by simp)
  | served => exact h.congr rfl rfl rfl rfl rfl rfl (fun _ _ => id) h.serve
  | @driven b d ha hd =>
    cases b with
    | deliver req =>
      obtain rfl := Option.some.inj hd
      have hnone : s.sender s.device.next = none := by
        by_contra hne
        obtain ⟨i, hi⟩ := Option.ne_none_iff_exists'.mp hne
        exact absurd (h.sent _ i hi).1 (lt_irrefl _)
      have hdel : ({ s with device := s.device.deliver req } : Host ι n).Tracked pid :=
        h.deliver (fun _ _ => rfl) (.inr ⟨hnone, ha⟩)
      exact hdel.congr rfl rfl rfl rfl rfl (List.append_nil _) (fun _ _ => id) hdel.serve
    | handler k o => exact h.driver_step hG (handlerStep_move hd)
    | cancel r =>
      simp only [deviceStep] at hd
      split_ifs at hd
      obtain rfl := Option.some.inj hd
      exact h.congr rfl rfl rfl rfl rfl (List.append_nil _) (fun _ _ => id) h.serve
  | @terminated i hi =>
    have hend : (s.pcAt i .ended).Tracked pid := h.pcAt (by simp) (by simp)
    exact hend.congr rfl rfl rfl rfl rfl rfl (fun _ _ => id) hend.serve

theorem tracked_of_reachable (hs : (host pid n).Reachable InputRetrieved s) : s.Tracked pid := by
  refine hs.invariant_step ?_ fun s a s' hr h hG hstep => ?_
  · have hcode : (0 : UInt32) ≠ ioctlWfpSetDeviceContextData := by decide
    exact ⟨by simp [host], fun r _ => ⟨hcode, by simp [host, DeviceState.initializeQueue]⟩,
      by simp [host], by simp [host], by simp [host]⟩
  · have hdev : IocpProxy.device.Reachable (fun _ _ => True) s.device :=
      hr.simulate (f := Host.device) rfl fun s a s' _ hstep => by
        cases hostStep_move hstep with
        | sent => exact .inr ⟨DeviceAction.deliver _, trivial, rfl⟩
        | driven _ hd => exact .inr ⟨_, trivial, hd⟩
        | _ => exact .inl rfl
    exact h.step (DeviceState.placed_of_reachable hdev) hG (hostStep_move hstep)

end Host

/-! ### Who listens -/

/-- The successful `bind` leads to `listen`. -/
theorem State.main_of_bind {s t : State n} {a : Action n} (hb : s.Binds a)
    (hstep : step s a = some t) : t.main = .listen := by
  obtain ⟨hmain, rfl⟩ := hb
  unfold step at hstep
  split_ifs at hstep
  simp only [mainStep, hmain, Option.some.injEq] at hstep
  exact hstep ▸ rfl

theorem State.not_listenOpen_closeListen (s : State n) (pc : MainPc) :
    ¬ (s.closeListen pc).ListenOpen := by
  rintro ⟨h, hh, hopen⟩
  have hsock : s.listenSocket = some h := hh
  rw [State.closeListen, hsock, HandleTable.isOpen_close_iff] at hopen
  exact hopen.2 rfl

theorem State.step_listen {s t : State n} (hmain : s.main = .listen)
    (hstep : step s (.main .ok) = some t) : t = s.mainAt .createEvent := by
  unfold step at hstep
  split_ifs at hstep
  simp only [mainStep, hmain, Option.some.injEq] at hstep
  exact hstep.symm

/-- `listen` succeeds, or the socket is closed. -/
theorem State.listen_cases {s t : State n} {a : Action n} (hmain : s.main = .listen)
    (hstep : step s a = some t) (hne : t.main ≠ .listen) :
    a = .main .ok ∨ ¬ t.ListenOpen := by
  rcases (step_move hstep).2.2.main_eq_or with hsame | ⟨o, rfl, -⟩
  · exact absurd (hsame.trans hmain) hne
  · unfold step at hstep
    split_ifs at hstep
    cases o with
    | ok =>
      simp only [mainStep, hmain, Option.some.injEq] at hstep
      exact .inl rfl
    | fail =>
      simp only [mainStep, hmain, Option.some.injEq] at hstep
      exact .inr (hstep ▸ s.not_listenOpen_closeListen .error)
    | socket v => simp [mainStep, hmain] at hstep

namespace Host

variable [DecidableEq ι]

/-- The port after a step of a service. -/
theorem served_port {i j : ι} {a : Action n} {t : State n} (h : (s.served i a t).port = some j) :
    (s.port = some j ∨ i = j ∧ (s.proxy i).Binds a) ∧ (i = j → t.ListenOpen) := by
  unfold served at h
  dsimp only at h
  split_ifs at h with hopen hb hp
  · exact ⟨.inr ⟨Option.some.inj h, hb⟩, fun _ => hopen⟩
  · exact ⟨.inl h, fun _ => hopen⟩
  · refine ⟨.inl h, ?_⟩
    rintro rfl
    exact absurd h hp

/-- The listen socket of the instance bound to the port is open. -/
theorem listenOpen_of_reachable {G : Host ι n → HostAction ι n → Prop}
    (hs : (host pid n).Reachable G s) : ∀ i, s.port = some i → (s.proxy i).ListenOpen := by
  refine hs.invariant (I := fun s => ∀ i, s.port = some i → (s.proxy i).ListenOpen)
    (by simp [host]) fun s a s' h _ hstep i hi => ?_
  cases hostStep_move hstep with
  | @served i₀ b t =>
    obtain ⟨hport, hopen⟩ := served_port hi
    by_cases hii : i₀ = i
    · subst hii
      simpa [Host.served] using hopen rfl
    · have hold := h i (hport.resolve_right fun hb => hii hb.1)
      simpa [Host.served, Function.update_of_ne (Ne.symm hii)] using hold
  | @terminated i₀ =>
    unfold Host.terminated at hi
    dsimp only at hi
    split_ifs at hi
    exact h i hi
  | _ => exact h i hi

/-- An instance comes to listen in its successful `listen`. -/
theorem listening_of_step {a : HostAction ι n} (hm : HostMove pid s a s') {i : ι}
    (hi : s'.Listening i) (hn : ¬ s.Listening i) :
    a = .serve i (.main .ok) ∧ (s.proxy i).main = .listen ∧ s.port = some i := by
  obtain ⟨hp, hmain⟩ := hi
  cases hm with
  | @served i₀ b t hpc hb ht =>
    obtain ⟨hport, hopen⟩ := served_port hp
    by_cases hii : i₀ = i
    · subst hii
      have hmain' : t.main ≠ .listen := by simpa [Host.served] using hmain
      rcases hport with hport | ⟨-, hbind⟩
      · have hlisten : (s.proxy i₀).main = .listen := by
          by_contra hne
          exact hn ⟨hport, hne⟩
        rcases State.listen_cases hlisten ht hmain' with rfl | hclosed
        · exact ⟨rfl, hlisten, hport⟩
        · exact absurd (hopen rfl) hclosed
      · exact absurd (State.main_of_bind hbind ht) hmain'
    · refine absurd ⟨hport.resolve_right fun hb => hii hb.1, ?_⟩ hn
      simpa [Host.served, Function.update_of_ne (Ne.symm hii)] using hmain
  | @terminated i₀ =>
    unfold Host.terminated at hp
    dsimp only at hp
    split_ifs at hp
    exact absurd ⟨hp, hmain⟩ hn
  | _ => exact absurd ⟨hp, hmain⟩ hn

/-- In a run that meets the condition, the instance that listens has its id stored last. -/
theorem getLast_of_listening
    (hs : (host pid n).Reachable (fun s a => InputRetrieved s a ∧ RegistersAlone s a) s) :
    ∀ i, s.Listening i → s.stored.getLast? = some i := by
  refine hs.invariant (I := fun s => ∀ i, s.Listening i → s.stored.getLast? = some i)
    (by simp [host, Listening]) fun s a s' h ⟨_, hG⟩ hstep i hi => ?_
  have hm := hostStep_move hstep
  by_cases hold : s.Listening i
  · cases hm with
    | @driven b d ha hd =>
      change (s.stored ++ ((s.device.stores b).bind s.sender).toList).getLast? = some i
      cases hst : s.device.stores b with
      | none => simpa using h i hold
      | some r => simp [hG r hst i hold]
    | _ => exact h i hold
  · obtain ⟨rfl, hmain, hport⟩ := listening_of_step hm hi hold
    cases hm with
    | served => exact hG hmain hport

/-- A step after which the process that listens is the registered one meets the condition. -/
theorem registersAlone_of_registered {a : HostAction ι n} (hpid : Function.Injective pid)
    (h : s.Tracked pid) (h' : s'.Tracked pid)
    (hopen : ∀ i, s.port = some i → (s.proxy i).ListenOpen) (hm : HostMove pid s a s')
    (hreg : s'.Registered pid) : RegistersAlone s a := by
  cases hm with
  | @driven b d ha hd =>
    intro r hst i hi
    have hword : d.userModeAppProcessId = (pid i).toInt32 := hreg i hi
    obtain ⟨-, p, hp⟩ := DeviceState.stores_eq_some.mp hst
    cases hsend : s.sender r with
    | none => exact absurd hp ((h.other r hsend).2 p)
    | some j =>
      have hlast : (s.driven b d).stored.getLast? = some j := by
        simp [driven, Option.mem_def.mp hst, hsend]
      exact congrArg some (h'.eq_of_processId hpid hlast hword)
  | @served i b t hpc hb ht =>
    rcases b with o | _ | _ | _
    · cases o with
      | ok =>
        intro hmain hport
        obtain rfl := State.step_listen hmain ht
        have hi : (s.served i (.main .ok) ((s.proxy i).mainAt .createEvent)).Listening i := by
          have hnb : ¬ (s.proxy i).Binds (.main .ok) := fun ⟨hb, _⟩ => by simp [hmain] at hb
          have hopen' : ((s.proxy i).mainAt .createEvent).ListenOpen := hopen i hport
          refine ⟨?_, ?_⟩
          · simp only [served, if_pos hopen', if_neg hnb, hport]
          · simp [served, State.mainAt]
        obtain ⟨j, hj⟩ := Option.ne_none_iff_exists'.mp
          (mt List.getLast?_eq_none_iff.mp (List.ne_nil_of_mem (h.serve i hpc)))
        rw [hj, h.eq_of_processId hpid hj (hreg i hi)]
      | _ => trivial
    · trivial
    · trivial
    · trivial
  | _ => trivial

end Host

/-- In every state of a run the process that listens on the port is the registered one if and only
if while an instance listens only its own id is stored, and an instance comes to listen only if its
id was stored last. -/
theorem registered_iff [DecidableEq ι] (hpid : Function.Injective pid) {as : List (HostAction ι n)}
    {t : Host ι n} (hrun : (host pid n).run as = some t)
    (hin : (host pid n).StepsMeet as InputRetrieved) :
    (host pid n).Along as (Host.Registered pid) ↔ (host pid n).StepsMeet as RegistersAlone := by
  constructor
  · intro halong k s a hs ha
    obtain ⟨s', hstep, hs'⟩ := TransitionSystem.exists_step_of_run hrun hs ha
    have htrack := Host.tracked_of_reachable
      (TransitionSystem.reachable_of_stepsMeet hin (k + 1) s' hs')
    exact Host.registersAlone_of_registered hpid
      (Host.tracked_of_reachable (TransitionSystem.reachable_of_stepsMeet hin k s hs)) htrack
      (Host.listenOpen_of_reachable (TransitionSystem.reachable_of_run hs)) (hostStep_move hstep)
      (halong (k + 1) s' hs')
  · intro hG k s hs i hi
    have hboth : (host pid n).StepsMeet as fun s a => InputRetrieved s a ∧ RegistersAlone s a :=
      fun k s a hs ha => ⟨hin k s a hs ha, hG k s a hs ha⟩
    have hlast := Host.getLast_of_listening
      (TransitionSystem.reachable_of_stepsMeet hboth k s hs) i hi
    exact (Host.tracked_of_reachable
      (TransitionSystem.reachable_of_stepsMeet hin k s hs)).word i hlast

/-- Two processes. -/
def twoPids : Bool → UInt32
  | false => 1000
  | true => 2000

theorem twoPids_injective : Function.Injective twoPids := by decide

/-- The registration of an instance, with the request `r`. -/
def registers (i : Bool) (r : ReqId) : List (HostAction Bool 2) :=
  [.createFile i true, .deviceIoControl i true, .device (.handler r .ok),
    .device (.handler r (.status statusSuccess)), .device (.handler r (.found ⟨0, 0, 0⟩)),
    .device (.handler r .ok), .device (.handler r .ok), .device (.handler r .ok), .result i]

/-- An instance goes on to its `bind`, which succeeds or fails, and one step further. -/
def binds (i : Bool) (o : MainOutcome) : List (HostAction Bool 2) :=
  [.serve i (.main .ok), .serve i (.main (.socket 10)), .serve i (.main o), .serve i (.main .ok)]

theorem registered_iff_alone :
    ∃ t, (host twoPids 2).run (registers false 0 ++ binds false .ok) = some t ∧
      ((host twoPids 2).Along (registers false 0 ++ binds false .ok) (Host.Registered twoPids) ↔
        (host twoPids 2).StepsMeet (registers false 0 ++ binds false .ok) RegistersAlone) := by
  obtain ⟨t, ht⟩ : ∃ t, (host twoPids 2).runChecked InputRetrieved (host twoPids 2).init
      (registers false 0 ++ binds false .ok) = some t :=
    Option.isSome_iff_exists.mp (by decide +kernel)
  obtain ⟨hrun, hin⟩ := TransitionSystem.run_of_runChecked ht
  exact ⟨t, hrun, registered_iff twoPids_injective hrun hin⟩

/-- One instance listens. Another one registers, fails to bind the port, and exits. -/
theorem registered_fails :
    ∃ t, (host twoPids 2).Reachable InputRetrieved t ∧
      t.Listening false ∧ (t.proxy true).main = .exited ∧ ¬ t.Registered twoPids := by
  obtain ⟨t, ht, hi, hex, hword⟩ : ∃ t, (host twoPids 2).Reachable InputRetrieved t ∧
      t.Listening false ∧ (t.proxy true).main = .exited ∧
        t.device.userModeAppProcessId = (twoPids true).toInt32 :=
    TransitionSystem.exists_reachable_of_runChecked
      (registers false 0 ++ binds false .ok ++ registers true 1 ++ binds true .fail)
      (by decide +kernel)
  refine ⟨t, ht, hi, hex, fun hreg => ?_⟩
  have hsame := hword.symm.trans (hreg false hi)
  exact absurd hsame (by decide)

end IocpProxy
