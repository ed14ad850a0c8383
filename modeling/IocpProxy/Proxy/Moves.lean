import IocpProxy.Proxy.Threads

/-!
# What a step can do

`Move s a s'` lists the steps of the system, one constructor for each branch of the step
functions, with the conditions under which the branch is taken and the state it leads to. Every
step is a move (`step_move`), so a statement about all steps is proved by cases on the move and
never unfolds the step functions.

## Main definitions

* `IocpProxy.MainMove`, `IocpProxy.AcceptMove`, `IocpProxy.WorkerMove`, `IocpProxy.NetMove`,
  `IocpProxy.Move`.

## Main results

* `IocpProxy.step_move` : every step is a move.
-/

namespace IocpProxy

variable {n : ℕ}

/-- The moves of the main thread that only change its label. -/
def mainQuiet : List (MainPc × MainPc) :=
  [(.init, .socket), (.init, .exited), (.bind, .listen), (.listen, .createEvent),
    (.createEvent, .eventSelect), (.createEvent, .error), (.eventSelect, .createThread),
    (.eventSelect, .error), (.createThread, .serving)]

/-- The moves of the main thread. -/
inductive MainMove (s : State n) : MainOutcome → State n → Prop
  | quiet {o : MainOutcome} {pc : MainPc} (h : (s.main, pc) ∈ mainQuiet) :
      MainMove s o (s.mainAt pc)
  | opened {v : ℕ} (h : s.main = .socket) (hv : s.handles.owner v = none) :
      MainMove s (.socket v) { s with
        handles := s.handles.open v, listenSocket := some (s.handles.fresh v), main := .bind }
  | noSocket (h : s.main = .socket) : MainMove s .fail (s.mainAt .error)
  | bindFailed (h : s.main = .bind ∨ s.main = .listen) : MainMove s .fail (s.closeListen .error)
  | started (h : s.main = .createThread) :
      MainMove s .ok ((s.acceptAt .loop).mainAt .serving)
  | stop (h : s.main = .serving) :
      MainMove s .ok { s with shutdown := true, main := .waitAccept }
  | acceptDone (h : s.main = .waitAccept) (hd : s.accept.pc = .done ∨ s.accept.pc = .notStarted) :
      MainMove s .ok (s.mainAt .waitWorkers)
  | sweep (h : s.main = .waitWorkers)
      (hw : maximumWaitObjects < n ∨ ∀ w, s.worker w = .exited) :
      MainMove s .ok (s.cleanClientList.mainAt .closeListen)
  | closed (h : s.main = .closeListen ∨ s.main = .error) :
      MainMove s .ok (s.closeListen .exited)

/-- The moves of the accept thread. -/
inductive AcceptMove (s : State n) : AcceptOutcome → State n → Prop
  | stop (h : s.accept.pc = .loop) (hs : s.shutdown = true) : AcceptMove s .ok (s.acceptAt .done)
  | failed (h : s.accept.pc = .loop) : AcceptMove s .fail s.acceptFailed
  | accepted {v : ℕ} (h : s.accept.pc = .loop) (hv : s.handles.owner v = none) :
      AcceptMove s (.socket v) (s.accepted v)
  | remoteFailed {k : InitCalls} (h : s.accept.pc = .initRemote)
      (hk : ∀ v ∈ k.socket, s.handles.owner v = none)
      (hr : (initRemoteConnection s.handles k).remote = none) :
      AcceptMove s (.remote k) (s.remoteFailed (initRemoteConnection s.handles k).handles)
  | remoteMade {k : InitCalls} {v : ℕ} (h : s.accept.pc = .initRemote)
      (hv : s.handles.owner v = none)
      (hr : (initRemoteConnection s.handles k).remote = some (s.handles.fresh v)) :
      AcceptMove s (.remote k) (s.remoteMade (s.handles.open v) (s.handles.fresh v))
  | linked {c r : CtxId} (h : s.accept.pc = .link) (hc : s.accept.client = some c)
      (hr : s.accept.remote = some r) : AcceptMove s .ok (s.linked c r)
  | enter {d : Side} {a : Slot} {x : CtxId} (h : s.accept.pc = .assoc d)
      (hx : s.accept.side d = some x) : AcceptMove s (.slot a) (s.enterAssociate d a x)
  | associated {d : Side} {a : Slot} {x : CtxId} (h : s.accept.pc = .assocRet d)
      (hp : s.accept.param = some (a, x)) : AcceptMove s .ok (s.associated d a x)
  | associateFailed {d : Side} {a : Slot} {x : CtxId} (h : s.accept.pc = .assocRet d)
      (hp : s.accept.param = some (a, x)) : AcceptMove s .fail (s.associateFailed x)
  | added {d : Side} {x : CtxId} (h : s.accept.pc = .add d) (hx : s.accept.side d = some x) :
      AcceptMove s .ok ((s.addToClientList x).acceptAt (afterAdd d))
  | posted {d : Side} {x : CtxId} (h : s.accept.pc = .recv d) (hx : s.accept.side d = some x)
      (ht : s.target x ≠ .closed) : AcceptMove s .ok ((s.postRecv x).acceptAt (afterRecv d))
  | notPosted {d : Side} {x : CtxId} (h : s.accept.pc = .recv d) (hx : s.accept.side d = some x) :
      AcceptMove s .fail ((s.resetRecv x).acceptAt .exitClose)
  | exitClosed (h : s.accept.pc = .exitClose) : AcceptMove s .ok s.exitClosed
  | exitRemoved {d : Side} (h : s.accept.pc = .exitRemove d) :
      AcceptMove s .ok ((s.removeFromClientList (s.accept.side d)).acceptAt (.exitNull d))
  | exitNulled {d : Side} (h : s.accept.pc = .exitNull d) : AcceptMove s .ok (s.exitNulled d)
  | returned (h : s.accept.pc = .ret) : AcceptMove s .ok s.acceptReturned

/-- The moves of the worker `w`. -/
inductive WorkerMove (s : State n) (w : Fin n) : WorkerOutcome → State n → Prop
  | exit (h : s.worker w = .waiting) (hs : s.shutdown = true) :
      WorkerMove s w .ok (s.setWorker w .exited)
  | dequeued {op : Op} {c : CtxId} {ok : Bool} {bytes : ℕ} (h : s.worker w = .waiting)
      (ho : op ∈ s.ops) (hst : op.status = .done ok bytes) (hr : s.Resolves op.ctx c)
      (hc : c ∈ s.live) (hl : op.ctx ∈ s.live ∨ ok = false ∨ bytes = 0) :
      WorkerMove s w (.dequeue op c) (s.dequeued w op c ok bytes)
  | dead {op : Op} {c : CtxId} (h : s.worker w = .waiting) (ho : op ∈ s.ops)
      (hd : ¬ (c ∈ s.live ∧ op.ctx ∈ s.live)) :
      WorkerMove s w (.dequeue op c) (s.fail .deadContext)
  | dispatched {j : Job} (h : s.worker w = .busy j .dispatch) :
      WorkerMove s w .ok (s.setWorker w (.busy j (s.dispatch j)))
  | noBuddy {j : Job} (h : s.worker w = .busy j .forward)
      (hb : s.getBuddySocketContext j.ctx = none) :
      WorkerMove s w .ok (s.setWorker w (.busy j .failed))
  | buddy {j : Job} (h : s.worker w = .busy j .forward)
      (hb : s.getBuddySocketContext j.ctx ≠ none) :
      WorkerMove s w .ok (s.setWorker w (.busy j .forwardSend))
  | nullBuddy {j : Job} (h : s.worker w = .busy j .forwardSend)
      (hb : s.getBuddySocketContext j.ctx = none) :
      WorkerMove s w .ok (s.fail .nullBuddy)
  | sending {j : Job} {b : CtxId} (h : s.worker w = .busy j .forwardSend)
      (hb : s.getBuddySocketContext j.ctx = some b) :
      WorkerMove s w .ok (s.setWorker w (.busy j (.send b)))
  | zeroed {j : Job} {b : CtxId} (h : s.worker w = .busy j (.send b)) :
      WorkerMove s w .ok ((s.storeSend b .zero).setWorker w (.busy j (.fill b)))
  | overrun {j : Job} {b : CtxId} {o : WorkerOutcome} (h : s.worker w = .busy j (.fill b))
      (hf : (s.ctx b).ioSend.fill (s.ctx j.ctx).ioRecv.buffer (UInt16.ofNat j.bytes) = none) :
      WorkerMove s w o (s.fail .overrun)
  | sent {j : Job} {b : CtxId} {io : IoOperationData} (h : s.worker w = .busy j (.fill b))
      (hf : (s.ctx b).ioSend.fill (s.ctx j.ctx).ioRecv.buffer (UInt16.ofNat j.bytes) = some io)
      (ht : s.target b ≠ .closed) :
      WorkerMove s w .ok (((s.postSend b io ⟨j.ctx, j.seq, io.dataBufLen⟩).setWorker w
        (.busy j .recv)).release b)
  | notSent {j : Job} {b : CtxId} {io : IoOperationData} (h : s.worker w = .busy j (.fill b))
      (hf : (s.ctx b).ioSend.fill (s.ctx j.ctx).ioRecv.buffer (UInt16.ofNat j.bytes) = some io) :
      WorkerMove s w .fail (((s.storeSend b io).setWorker w (.busy j .failed)).release b)
  | received {j : Job} (h : s.worker w = .busy j .recv) (ht : s.target j.ctx ≠ .closed) :
      WorkerMove s w .ok ((s.postRecv j.ctx).setWorker w (.busy j .finish))
  | notReceived {j : Job} (h : s.worker w = .busy j .recv) :
      WorkerMove s w .fail ((s.resetRecv j.ctx).setWorker w (.busy j .failed))
  | removed {j : Job} (h : s.worker w = .busy j .failed) :
      WorkerMove s w .ok ((s.removeFromClientList (some j.ctx)).setWorker w (.busy j .finish))
  | finished {j : Job} (h : s.worker w = .busy j .finish) : WorkerMove s w .ok (s.finished w j)

/-- The moves of the network. -/
inductive NetMove (s : State n) : NetAction → State n → Prop
  | arrived {o : Op} {bs : List UInt8} (ho : o ∈ s.ops) (hk : o.kind = .recv)
      (hst : o.status = .pending) (hl : bs.length ≤ o.len) :
      NetMove s (.receive o bs) (s.arrived o bs)
  | transmitted {o : Op} {k : ℕ} (ho : o ∈ s.ops) (hk : o.kind = .send)
      (hst : o.status = .pending) (hl : o.off + k ≤ o.len) (hb : s.broken o.ctx = false) :
      NetMove s (.transmit o k) (s.transmitted o k)
  | completed {o : Op} (ho : o ∈ s.ops) (hk : o.kind = .send) (hst : o.status = .pending) :
      NetMove s (.complete o) (s.replaceOp o { o with status := .done true o.off })
  | failed {o : Op} (ho : o ∈ s.ops) (hst : o.status = .pending) :
      NetMove s (.fail o) (s.opFailed o)

/-- The moves of the system. -/
inductive Move (s : State n) : Action n → State n → Prop
  | main {o : MainOutcome} {s' : State n} (h : MainMove s o s') : Move s (.main o) s'
  | accept {o : AcceptOutcome} {s' : State n} (h : AcceptMove s o s') : Move s (.accept o) s'
  | worker {w : Fin n} {o : WorkerOutcome} {s' : State n} (h : WorkerMove s w o s') :
      Move s (.worker w o) s'
  | net {a : NetAction} {s' : State n} (h : NetMove s a s') : Move s (.net a) s'

/-! ### Every step is a move -/

/-- A quiet step of the main thread. -/
private theorem quiet_of_eq {s s' : State n} {o : MainOutcome} {pc pc' : MainPc}
    (hm : s.main = pc) (h : some (s.mainAt pc') = some s')
    (hq : (pc, pc') ∈ mainQuiet := by decide) : MainMove s o s' := by
  cases h
  exact .quiet (hm ▸ hq)

theorem mainStep_move {s s' : State n} {o : MainOutcome} (h : mainStep s o = some s') :
    MainMove s o s' := by
  unfold mainStep at h
  split at h <;> rename_i hm
  · exact quiet_of_eq hm h
  · exact quiet_of_eq hm h
  · split_ifs at h with hv
    cases h
    exact .opened hm hv
  · cases h
    exact .noSocket hm
  · exact quiet_of_eq hm h
  · cases h
    exact .bindFailed (.inl hm)
  · exact quiet_of_eq hm h
  · cases h
    exact .bindFailed (.inr hm)
  · exact quiet_of_eq hm h
  · exact quiet_of_eq hm h
  · exact quiet_of_eq hm h
  · exact quiet_of_eq hm h
  · cases h
    exact .started hm
  · exact quiet_of_eq hm h
  · cases h
    exact .stop hm
  · split_ifs at h with hd
    cases h
    exact .acceptDone hm hd
  · split_ifs at h with hw
    cases h
    exact .sweep hm hw
  · cases h
    exact .closed (.inl hm)
  · cases h
    exact .closed (.inr hm)
  · cases h

theorem acceptStep_move {s s' : State n} {o : AcceptOutcome} (h : acceptStep s o = some s') :
    AcceptMove s o s' := by
  unfold acceptStep at h
  split at h <;> rename_i hpc
  · split_ifs at h with hs
    cases h
    exact .stop hpc hs
  · cases h
    exact .failed hpc
  · split_ifs at h with hv
    cases h
    exact .accepted hpc hv
  · rename_i k
    split_ifs at h with hk
    cases hr : (initRemoteConnection s.handles k).remote with
    | none =>
      simp only [hr, Option.some.injEq] at h
      subst h
      exact .remoteFailed hpc hk hr
    | some x =>
      obtain ⟨v, bs, hv, -, rfl, hT, -⟩ := initRemoteConnection_remote hr
      simp only [hr, hT, Option.some.injEq] at h
      subst h
      exact .remoteMade hpc (hk v hv) hr
  · obtain ⟨c, hc, h⟩ := Option.bind_eq_some_iff.mp h
    obtain ⟨r, hr, rfl⟩ := Option.map_eq_some_iff.mp h
    exact .linked hpc hc hr
  · obtain ⟨x, hx, rfl⟩ := Option.map_eq_some_iff.mp h
    exact .enter hpc hx
  · obtain ⟨p, hp, rfl⟩ := Option.map_eq_some_iff.mp h
    exact .associated hpc hp
  · obtain ⟨p, hp, rfl⟩ := Option.map_eq_some_iff.mp h
    exact .associateFailed hpc hp
  · obtain ⟨x, hx, rfl⟩ := Option.map_eq_some_iff.mp h
    exact .added hpc hx
  · obtain ⟨x, hx, hm⟩ := Option.bind_eq_some_iff.mp h
    clear h
    split at hm <;> rename_i ht <;> cases hm
    · exact .posted hpc hx (by simp [ht])
    · exact .posted hpc hx (by simp [ht])
    · exact .notPosted hpc hx
  · cases h
    exact .exitClosed hpc
  · cases h
    exact .exitRemoved hpc
  · cases h
    exact .exitNulled hpc
  · cases h
    exact .returned hpc
  · cases h

theorem workerStep_move {s s' : State n} {w : Fin n} {o : WorkerOutcome}
    (h : workerStep s w o = some s') : WorkerMove s w o s' := by
  unfold workerStep at h
  split at h <;> rename_i hw
  · split_ifs at h with hs
    cases h
    exact .exit hw hs
  · rename_i op c
    cases hst : op.status with
    | pending => simp [hst] at h
    | done ok bytes =>
      simp only [hst] at h
      split_ifs at h with ho hl <;> cases h
      · exact .dequeued hw ho.1 hst ho.2 hl.1 hl.2
      · exact .dead hw ho.1 fun hd => hl (hd.imp_right .inl)
  · cases h
    exact .dispatched hw
  · cases h
    split_ifs with hb
    · exact .noBuddy hw hb
    · exact .buddy hw hb
  · split at h <;> rename_i hb <;> cases h
    · exact .nullBuddy hw hb
    · exact .sending hw hb
  · cases h
    exact .zeroed hw
  · split at h <;> rename_i hf
    · cases h
      exact .overrun hw hf
    · split at h <;> rename_i ht <;> cases h
      · exact .sent hw hf (by simp [ht])
      · exact .sent hw hf (by simp [ht])
      · exact .notSent hw hf
  · split at h <;> rename_i ht <;> cases h
    · exact .received hw (by simp [ht])
    · exact .received hw (by simp [ht])
    · exact .notReceived hw
  · cases h
    exact .removed hw
  · cases h
    exact .finished hw
  · cases h

theorem netStep_move {s s' : State n} {a : NetAction} (h : netStep s a = some s') :
    NetMove s a s' := by
  cases a <;> simp only [netStep] at h <;> split_ifs at h with hc <;> cases h
  · exact .arrived hc.1 hc.2.1 hc.2.2.1 hc.2.2.2
  · exact .transmitted hc.1 hc.2.1 hc.2.2.1 hc.2.2.2.1 hc.2.2.2.2
  · exact .completed hc.1 hc.2.1 hc.2.2
  · exact .failed hc.1 hc.2

/-- Every step is a move, and starts in a state that has not faulted. -/
theorem step_move {s s' : State n} {a : Action n} (h : (proxy n).step s a = some s') :
    s.fault = none ∧ s.main ≠ .exited ∧ Move s a s' := by
  change step s a = some s' at h
  unfold step at h
  split_ifs at h with hs
  refine ⟨hs.1, hs.2, ?_⟩
  cases a with
  | main o => exact .main (mainStep_move h)
  | accept o => exact .accept (acceptStep_move h)
  | worker w o => exact .worker (workerStep_move h)
  | net a => exact .net (netStep_move h)

/-! ### The stages of a worker -/

/-- The stage that follows a stage of a worker handling the completion `j`. -/
inductive Stage.Next (s : State n) (j : Job) : Stage → Stage → Prop
  | dispatch : Next s j .dispatch (s.dispatch j)
  | noBuddy (h : s.getBuddySocketContext j.ctx = none) : Next s j .forward .failed
  | buddy (h : s.getBuddySocketContext j.ctx ≠ none) : Next s j .forward .forwardSend
  | sending {b : CtxId} (h : s.getBuddySocketContext j.ctx = some b) :
      Next s j .forwardSend (.send b)
  | zeroed (b : CtxId) : Next s j (.send b) (.fill b)
  | sent (b : CtxId) : Next s j (.fill b) .recv
  | notSent (b : CtxId) : Next s j (.fill b) .failed
  | received : Next s j .recv .finish
  | notReceived : Next s j .recv .failed
  | removed : Next s j .failed .finish

/-- A worker handling a completion after its step has just dequeued it, or handled it before; it
then went to the next stage, unless the run ended. -/
theorem WorkerMove.busy {s s' : State n} {w : Fin n} {o : WorkerOutcome}
    (hm : WorkerMove s w o s') {j : Job} {st : Stage} (h : s'.worker w = .busy j st) :
    (∃ op c ok bytes, s.worker w = .waiting ∧ o = .dequeue op c ∧ op ∈ s.ops ∧
      op.status = .done ok bytes ∧ st = .dispatch ∧
      j = ⟨c, op.ctx, op.kind, ok, bytes, (s.reads op.ctx).length⟩ ∧
      s' = s.dequeued w op c ok bytes) ∨
    ∃ st₀, s.worker w = .busy j st₀ ∧ (s'.fault ≠ none ∧ st = st₀ ∨ st₀.Next s j st) := by
  have next : ∀ {j' st₀ st₁}, s.worker w = .busy j' st₀ → s'.worker w = .busy j' st₁ →
      st₀.Next s j' st₁ →
      ∃ st₀, s.worker w = .busy j st₀ ∧ (s'.fault ≠ none ∧ st = st₀ ∨ st₀.Next s j st) := by
    intro j' st₀ st₁ hw hw' hn
    rw [h, Worker.busy.injEq] at hw'
    obtain ⟨rfl, rfl⟩ := hw'
    exact ⟨st₀, hw, .inr hn⟩
  have idle : s'.worker w ≠ .waiting ∧ s'.worker w ≠ .exited := by simp [h]
  cases hm with
  | exit => exact absurd (Function.update_self _ _ _) idle.2
  | finished => exact absurd (Function.update_self _ _ _) idle.1
  | @dequeued op c ok bytes hw ho hst hr hc hl =>
    have hw' : (s.dequeued w op c ok bytes).worker w =
        .busy ⟨c, op.ctx, op.kind, ok, bytes, (s.reads op.ctx).length⟩ .dispatch :=
      Function.update_self _ _ _
    rw [h, Worker.busy.injEq] at hw'
    exact .inl ⟨op, c, ok, bytes, hw, rfl, ho, hst, hw'.2, hw'.1, rfl⟩
  | dead | nullBuddy | overrun =>
    exact .inr ⟨st, h, .inl ⟨by simp [State.fail], rfl⟩⟩
  | dispatched hw => exact .inr (next hw (Function.update_self _ _ _) .dispatch)
  | noBuddy hw hb => exact .inr (next hw (Function.update_self _ _ _) (.noBuddy hb))
  | buddy hw hb => exact .inr (next hw (Function.update_self _ _ _) (.buddy hb))
  | sending hw hb => exact .inr (next hw (Function.update_self _ _ _) (.sending hb))
  | zeroed hw => exact .inr (next hw (Function.update_self _ _ _) (.zeroed _))
  | sent hw => exact .inr (next hw (Function.update_self _ _ _) (.sent _))
  | notSent hw => exact .inr (next hw (Function.update_self _ _ _) (.notSent _))
  | received hw => exact .inr (next hw (Function.update_self _ _ _) .received)
  | notReceived hw => exact .inr (next hw (Function.update_self _ _ _) .notReceived)
  | removed hw => exact .inr (next hw (Function.update_self _ _ _) .removed)

end IocpProxy
