import IocpProxy.Proxy.Links

/-!
# The accept thread, and what always holds

`Sound` collects what holds of every reachable state, whatever the completion keys lead to: the
buddy pointers are paired, the contexts alive are those referred to, and the locals of
`AcceptConnection` hold the two contexts of its call, linked and put on the list as far as its
label says.

## Main definitions

* `IocpProxy.State.Fresh`, `IocpProxy.State.AcceptOk`, `IocpProxy.State.Sound`.

## Main results

* `IocpProxy.WorkerMove.frame`, `IocpProxy.NetMove.frame` : what the other threads leave alone.
* `IocpProxy.State.sound_of_reachable`.
-/

namespace IocpProxy

open State

variable {n : ℕ} {s s' : State n}

/-! ### What the moves leave alone -/

/-- A worker changes the contexts only in their records. -/
theorem WorkerMove.sameLinks {w : Fin n} {o : WorkerOutcome} (h : WorkerMove s w o s') :
    s.SameLinks s' := by
  cases h with
  | zeroed => exact (SameLinks.storeSend _ _).trans (.of_ctx rfl rfl)
  | sent => exact (SameLinks.storeSend _ _).trans (.of_ctx rfl rfl)
  | notSent => exact (SameLinks.storeSend _ _).trans (.of_ctx rfl rfl)
  | received => exact (SameLinks.resetRecv _).trans (.of_ctx rfl rfl)
  | notReceived => exact (SameLinks.resetRecv _).trans (.of_ctx rfl rfl)
  | _ => exact .of_ctx rfl rfl

/-- Where the exit path goes after the socket is closed. -/
theorem State.exitClosed_accept_eq (s : State n) :
    s.exitClosed.accept = { s.accept with
      socket := none
      pc := if s.accept.client = none ∧ s.accept.remote = none then .ret
        else .exitRemove .client } := by
  unfold exitClosed
  cases s.accept.socket <;> rfl

/-- The exit path of `AcceptConnection` starts by closing, then goes on with the locals or
returns. -/
theorem State.exitClosed_accept (s : State n) :
    ∃ pc, (pc = .ret ∨ pc = .exitRemove .client) ∧
      s.exitClosed.accept = { s.accept with pc := pc, socket := none } := by
  rw [exitClosed_accept_eq]
  by_cases hc : s.accept.client = none ∧ s.accept.remote = none
  · rw [if_pos hc]
    exact ⟨.ret, .inl rfl, rfl⟩
  · rw [if_neg hc]
    exact ⟨.exitRemove .client, .inr rfl, rfl⟩

/-- What the start of the exit path leaves unchanged. -/
@[simp] theorem State.exitClosed_frame (s : State n) :
    s.exitClosed.ctx = s.ctx ∧ s.exitClosed.next = s.next ∧ s.exitClosed.live = s.live ∧
      s.exitClosed.clientContext = s.clientContext ∧ s.exitClosed.added = s.added ∧
      s.exitClosed.calls = s.calls ∧ s.exitClosed.worker = s.worker ∧
      s.exitClosed.main = s.main ∧ s.exitClosed.listenSocket = s.listenSocket ∧
      s.exitClosed.key = s.key ∧ s.exitClosed.fault = s.fault ∧
      s.exitClosed.received = s.received ∧ s.exitClosed.sent = s.sent ∧
      s.exitClosed.reads = s.reads ∧ s.exitClosed.sends = s.sends ∧
      s.exitClosed.torn = s.torn := by
  unfold exitClosed
  cases s.accept.socket <;>
    exact ⟨rfl, rfl, rfl, rfl, rfl, rfl, rfl, rfl, rfl, rfl, rfl, rfl, rfl, rfl, rfl, rfl⟩

theorem WorkerMove.frame {w : Fin n} {o : WorkerOutcome} (h : WorkerMove s w o s') :
    s'.accept = s.accept ∧ s'.calls = s.calls ∧ s'.added = s.added ∧ s'.key = s.key ∧
      s'.main = s.main ∧ s'.listenSocket = s.listenSocket ∧ s'.received = s.received ∧
      s'.sent = s.sent := by
  cases h <;> exact ⟨rfl, rfl, rfl, rfl, rfl, rfl, rfl, rfl⟩

/-- A worker leaves the others alone. -/
theorem WorkerMove.worker_of_ne {w : Fin n} {o : WorkerOutcome} (h : WorkerMove s w o s')
    {w' : Fin n} (hw : w' ≠ w) : s'.worker w' = s.worker w' := by
  cases h with
  | dead | nullBuddy | overrun => rfl
  | _ => exact Function.update_of_ne hw _ _

theorem NetMove.sameLinks {a : NetAction} (h : NetMove s a s') : s.SameLinks s' := by
  cases h with
  | @arrived o bs =>
    have store : s.SameLinks (s.setCtx o.ctx { s.ctx o.ctx with
      ioRecv := { (s.ctx o.ctx).ioRecv with
        buffer := (s.ctx o.ctx).ioRecv.buffer.receive bs } }) := .setCtx rfl rfl rfl rfl
    exact store.trans (.of_ctx rfl rfl)
  | _ => exact .of_ctx rfl rfl

theorem NetMove.frame {a : NetAction} (h : NetMove s a s') :
    s'.accept = s.accept ∧ s'.calls = s.calls ∧ s'.added = s.added ∧ s'.key = s.key ∧
      s'.main = s.main ∧ s'.listenSocket = s.listenSocket ∧ s'.worker = s.worker ∧
      s'.live = s.live ∧ s'.clientContext = s.clientContext ∧ s'.handles = s.handles ∧
      s'.reads = s.reads ∧ s'.sends = s.sends ∧ s'.torn = s.torn := by
  cases h <;> exact ⟨rfl, rfl, rfl, rfl, rfl, rfl, rfl, rfl, rfl, rfl, rfl, rfl, rfl⟩

theorem MainMove.frame {o : MainOutcome} (h : MainMove s o s') :
    s'.ctx = s.ctx ∧ s'.next = s.next ∧ s'.calls = s.calls ∧ s'.added = s.added ∧
      s'.key = s.key ∧ s'.worker = s.worker ∧ s'.received = s.received ∧ s'.sent = s.sent ∧
      s'.reads = s.reads ∧ s'.sends = s.sends ∧ s'.torn = s.torn := by
  cases h with
  | sweep =>
    obtain ⟨hctx, hnext, hadded, -, hcalls, hworker, -, -, -, hkey, -, hrec, hsent, hreads,
      hsends, htorn⟩ := s.cleanClientList_frame
    exact ⟨hctx, hnext, hcalls, hadded, hkey, hworker, hrec, hsent, hreads, hsends, htorn⟩
  | _ => exact ⟨rfl, rfl, rfl, rfl, rfl, rfl, rfl, rfl, rfl, rfl, rfl⟩

/-- The accept thread leaves the workers alone. -/
theorem AcceptMove.frame {o : AcceptOutcome} (h : AcceptMove s o s') :
    s'.worker = s.worker ∧ s'.main = s.main ∧ s'.listenSocket = s.listenSocket ∧
      s'.received = s.received ∧ s'.sent = s.sent ∧ s'.reads = s.reads ∧ s'.sends = s.sends ∧
      s'.torn = s.torn := by
  cases h with
  | linked h hc hr => simp [State.linked, State.setBuddySocketContext, State.acceptAt, State.setCtx]
  | exitClosed => simp
  | exitRemoved => simp [State.acceptAt]
  | exitNulled => simp [State.exitNulled]
  | returned => simp [State.acceptReturned]
  | _ => exact ⟨rfl, rfl, rfl, rfl, rfl, rfl, rfl, rfl⟩

/-- A worker that is changed by a step took that step itself. -/
theorem Move.worker_eq_or {a : Action n} (hm : Move s a s') (w : Fin n) :
    s'.worker w = s.worker w ∨ ∃ o, a = .worker w o ∧ WorkerMove s w o s' := by
  rcases hm with hm | hm | hm | hm
  · exact .inl (congrFun hm.frame.2.2.2.2.2.1 w)
  · exact .inl (congrFun hm.frame.1 w)
  · rename_i v o
    by_cases hw : w = v
    · subst hw
      exact .inr ⟨o, rfl, hm⟩
    · exact .inl (hm.worker_of_ne hw)
  · exact .inl (congrFun hm.frame.2.2.2.2.2.2.1 w)

/-- A step that moves the main thread is its own. -/
theorem Move.main_eq_or {a : Action n} (hm : Move s a s') :
    s'.main = s.main ∨ ∃ o, a = .main o ∧ MainMove s o s' := by
  cases hm with
  | main hm => exact .inr ⟨_, rfl, hm⟩
  | accept hm => exact .inl hm.frame.2.1
  | worker hm => exact .inl hm.frame.2.2.2.2.1
  | net hm => exact .inl hm.frame.2.2.2.2.1

/-- A worker handling a completion after a step of the system did so before, has just dequeued it,
or went on from the stage before. -/
theorem Move.busy {a : Action n} (hm : Move s a s') {w : Fin n} {j : Job} {st : Stage}
    (h : s'.worker w = .busy j st) :
    s.worker w = .busy j st ∨
      (∃ op c ok bytes, a = .worker w (.dequeue op c) ∧ op ∈ s.ops ∧ op.status = .done ok bytes ∧
        st = .dispatch ∧ j = ⟨c, op.ctx, op.kind, ok, bytes, (s.reads op.ctx).length⟩) ∨
      ∃ o st₀, a = .worker w o ∧ s.worker w = .busy j st₀ ∧ st₀.Next s j st := by
  rcases hm.worker_eq_or w with hw | ⟨o, rfl, hmw⟩
  · exact .inl (hw ▸ h)
  · rcases hmw.busy h with ⟨op, c, ok, bytes, -, rfl, ho, hst, hd, hj, -⟩ | ⟨st₀, hw, ⟨-, rfl⟩ | hn⟩
    · exact .inr (.inl ⟨op, c, ok, bytes, rfl, ho, hst, hd, hj⟩)
    · exact .inl hw
    · exact .inr (.inr ⟨o, st₀, rfl, hw, hn⟩)

/-- `Send` is entered on the buddy that was looked up. -/
theorem Move.target {a : Action n} (hm : Move s a s') {w : Fin n} {j : Job} {st : Stage} {b : CtxId}
    (h : s'.worker w = .busy j st) (hst : st = .send b ∨ st = .fill b) :
    s.Partner j.ctx b ∨ s.worker w = .busy j (.send b) ∨ s.worker w = .busy j (.fill b) := by
  rcases hm.busy h with hw | ⟨op, c, ok, bytes, -, -, -, rfl, -⟩ | ⟨o, st₀, -, hw, hn⟩
  · rcases hst with rfl | rfl
    · exact .inr (.inl hw)
    · exact .inr (.inr hw)
  · simp at hst
  · cases hn with
    | sending hb =>
      rcases hst with hst | hst <;> cases hst
      exact .inl (Paired.partner_of_getBuddy hb)
    | zeroed c =>
      rcases hst with hst | hst <;> cases hst
      exact .inr (.inl hw)
    | dispatch =>
      unfold State.dispatch at hst
      split_ifs at hst <;> simp at hst
    | _ => simp at hst

namespace State

/-! ### The accept thread -/

/-- A context that is neither linked nor put on the list yet. -/
def Fresh (s : State n) (x : CtxId) : Prop := s.Unlinked x ∧ x ∉ s.added

/-- The locals of `AcceptConnection` hold a client and the remote it owns. -/
def Accepting (s : State n) (c r : CtxId) : Prop :=
  s.accept.client = some c ∧ s.accept.remote = some r ∧ s.strongOf c = some r

/-- Both contexts of the call were put on the list, none, or the client alone. -/
def AcceptOk (s : State n) : Prop :=
  match s.accept.pc with
  | .notStarted | .loop | .done => s.accept.client = none ∧ s.accept.remote = none
  | .initRemote => ∃ c, s.accept.client = some c ∧ s.accept.remote = none ∧ s.Fresh c ∧
      (s.ctx c).conn = s.calls ∧ ∀ x < s.next, (s.ctx x).conn = s.calls →
        (s.ctx x).proxySocket = false
  | .link => ∃ c r, s.accept.client = some c ∧ s.accept.remote = some r ∧ c ≠ r ∧ s.Fresh c ∧
      s.Fresh r ∧ (s.ctx c).conn = (s.ctx r).conn ∧ (s.ctx c).proxySocket = false ∧
      (s.ctx r).proxySocket = true
  | .assoc _ | .add .client => ∃ c r, s.Accepting c r ∧ c ∉ s.added ∧ r ∉ s.added
  | .assocRet d => (∃ c r, s.Accepting c r ∧ c ∉ s.added ∧ r ∉ s.added) ∧
      ∃ a x, s.accept.param = some (a, x) ∧ s.accept.side d = some x
  | .add .remote => ∃ c r, s.Accepting c r ∧ c ∈ s.added ∧ r ∉ s.added
  | .recv _ => ∃ c r, s.Accepting c r ∧ c ∈ s.added ∧ r ∈ s.added
  | .exitClose | .exitRemove _ | .exitNull _ | .ret => True

/-- What the accept thread relies on is not touched by the other threads. -/
theorem AcceptOk.congr (h : s.AcceptOk) (hl : s.SameLinks s') (ha : s'.accept = s.accept)
    (hd : s'.added = s.added) (hc : s'.calls = s.calls) : s'.AcceptOk := by
  have hf : ∀ x, s'.Fresh x ↔ s.Fresh x := fun x => by
    rw [Fresh, Fresh, Unlinked, Unlinked, (hl.1 x).1, hd]
  have hacc : ∀ c r, s'.Accepting c r ↔ s.Accepting c r := fun c r => by
    rw [Accepting, Accepting, ha, hl.strongOf]
  have hconn : ∀ x, (s'.ctx x).conn = (s.ctx x).conn := fun x => (hl.1 x).2.1
  have hprox : ∀ x, (s'.ctx x).proxySocket = (s.ctx x).proxySocket := fun x => (hl.1 x).2.2.1
  unfold AcceptOk at h ⊢
  simp only [ha, hf, hacc, hconn, hprox, hd, hc, hl.2]
  exact h

/-- The two contexts about to be linked are new. -/
theorem AcceptOk.at_link (h : s.AcceptOk) (hpc : s.accept.pc = .link) {c r : CtxId}
    (hc : s.accept.client = some c) (hr : s.accept.remote = some r) :
    c ≠ r ∧ s.Fresh c ∧ s.Fresh r ∧ (s.ctx c).conn = (s.ctx r).conn ∧
      (s.ctx c).proxySocket = false ∧ (s.ctx r).proxySocket = true := by
  simp only [AcceptOk, hpc] at h
  obtain ⟨c', r', hc', hr', hlink⟩ := h
  obtain rfl : c' = c := Option.some.inj (hc'.symm.trans hc)
  obtain rfl : r' = r := Option.some.inj (hr'.symm.trans hr)
  exact hlink

/-- Between two calls of `AcceptConnection` the locals hold nothing. -/
theorem AcceptOk.locals_eq_none (h : s.AcceptOk) (hpc : s.accept.pc = .loop) :
    s.accept.client = none ∧ s.accept.remote = none := by
  simpa only [AcceptOk, hpc] using h

/-! ### What always holds -/

/-- What holds of every reachable state. -/
structure Sound (s : State n) : Prop where
  paired : s.Paired
  alive : s.Alive
  acceptOk : s.AcceptOk
  /-- The accept thread is not started before the main thread serves. -/
  boot : s.main ∈ [.init, .socket, .bind, .listen, .createEvent, .eventSelect, .createThread] →
    s.accept.pc = .notStarted
  added_lt : ∀ x ∈ s.added, x < s.next
  conn_le : ∀ x < s.next, (s.ctx x).conn ≤ s.calls
  /-- One call of `AcceptConnection` makes at most one context of each side. -/
  conn_inj : ∀ x < s.next, ∀ y < s.next, (s.ctx x).conn = (s.ctx y).conn →
    (s.ctx x).proxySocket = (s.ctx y).proxySocket → x = y

/-- What is alive can be reached: a variable refers to it or to the client that owns it. -/
theorem Sound.root_of_live (h : s.Sound) {x : CtxId} (hx : x ∈ s.live) :
    s.Root x ∨ ∃ c, s.Root c ∧ s.strongOf c = some x := by
  refine (h.alive.owned_of_live x hx).imp_right fun ⟨c, hc, hcx⟩ => ⟨c, ?_, hcx⟩
  rcases h.alive.owned_of_live c hc with hroot | ⟨b, -, hbc⟩
  · exact hroot
  · have hnone : s.strongOf c = none := (h.paired.own hbc).2.1
    rw [hnone] at hcx
    cases hcx

theorem sound_initial : (initial n).Sound where
  paired := by
    constructor <;> simp [initial, strongOf, weakOf, SocketContext.new]
  alive := by
    constructor
    · rintro x ((hx | hx | ⟨w, hx⟩) | ⟨y, hy, -⟩)
      · simp [initial] at hx
      · simp [initial, AcceptThread.Holds] at hx
      · simp [initial, Worker.Holds] at hx
      · simp [initial] at hy
    · simp [initial]
    · simp [initial]
  acceptOk := by simp [AcceptOk, initial]
  boot _ := rfl
  added_lt := by simp [initial]
  conn_le := by simp [initial]
  conn_inj := by simp [initial]

/-- A buddy that is found is alive. -/
theorem Alive.live_of_getBuddy (h : s.Alive) {x b : CtxId} (hx : x ∈ s.live)
    (hb : s.getBuddySocketContext x = some b) : b ∈ s.live := by
  unfold getBuddySocketContext BuddySocketContextPtr.get at hb
  split at hb
  · rename_i hs
    exact h.live_of_owned b (.inr ⟨x, hx, hs.trans hb⟩)
  · exact of_decide_eq_true (Option.filter_eq_some_iff.mp hb).2

/-- What a worker refers to is alive. -/
theorem Alive.live_of_holds (h : s.Alive) {w : Fin n} {x : CtxId} (hx : (s.worker w).Holds x) :
    x ∈ s.live :=
  h.live_of_owned x (.inl (.inr (.inr ⟨w, hx⟩)))

/-- A worker goes on with the same references. -/
theorem Alive.worker_same (h : s.Alive) {w : Fin n} {v : Worker}
    (hr : s'.Root = (s.setWorker w v).Root) (hv : ∀ x, v.Holds x ↔ (s.worker w).Holds x)
    (hs : s.SameLinks s') (hl : s'.live = s.live) : s'.Alive :=
  h.congr (fun x => by rw [hr]; exact root_setWorker_iff (hv x)) hs.strongOf hl hs.2

/-- A worker gives up its reference to `b`, and keeps the others. -/
theorem Alive.worker_release (h : s.Alive) {w : Fin n} {v : Worker} {b : CtxId}
    (hr : s'.Root = (s.setWorker w v).Root) (hv : ∀ x, v.Holds x → (s.worker w).Holds x)
    (hv' : ∀ x, x ≠ b → (s.worker w).Holds x → v.Holds x) (hs : s.SameLinks s')
    (hl : s'.live = s.live) : (s'.release b).Alive := by
  have hb : s'.AliveBut b := by
    refine h.but (fun z hz => ?_) (fun z hzb hz => ?_) hs.strongOf hl hs.2
    · rw [hr] at hz
      exact (root_of_setWorker hz).elim id fun hv₁ => .inr (.inr ⟨w, hv z hv₁⟩)
    · rw [hr]
      exact root_setWorker (hv' z hzb) hz
  exact hb.release

end State

/-- The worker refers to the context of its completion at every stage. -/
theorem Worker.holds_ctx (j : Job) (st : Stage) : (Worker.busy j st).Holds j.ctx := by
  cases st <;> simp [Worker.Holds]

theorem WorkerMove.alive {w : Fin n} {o : WorkerOutcome} (hm : WorkerMove s w o s')
    (h : s.Alive) : s'.Alive := by
  have hs := hm.sameLinks
  cases hm with
  | exit hw => exact h.worker_same rfl (fun x => by simp [hw, Worker.Holds]) hs rfl
  | dequeued hw ho hst hr hc hl =>
    rename_i op c ok bytes
    refine h.of_root (fun x hx => ?_) (fun x hx => ?_) hs.strongOf rfl rfl
    · have hx' : (s.setWorker w (.busy ⟨c, op.ctx, op.kind, ok, bytes, (s.reads op.ctx).length⟩
        .dispatch)).Root x := hx
      rcases root_of_setWorker hx' with hx' | hx'
      · exact h.live_of_owned x (.inl hx')
      · have hxc : c = x := hx'
        exact hxc ▸ hc
    · exact root_setWorker (w := w) (by simp [hw, Worker.Holds]) hx
  | dead | nullBuddy | overrun =>
    exact h.congr (fun _ => Iff.rfl) hs.strongOf rfl rfl
  | dispatched hw =>
    refine h.worker_same rfl (fun x => ?_) hs rfl
    rw [hw, State.dispatch]
    split_ifs <;> exact Iff.rfl
  | noBuddy hw | buddy hw | notReceived hw | received hw =>
    exact h.worker_same rfl (fun x => by simp [hw, Worker.Holds]) hs rfl
  | sending hw hb =>
    rename_i j b
    have hj : j.ctx ∈ s.live := h.live_of_holds (w := w) (hw ▸ Worker.holds_ctx j _)
    refine h.of_root (fun x hx => ?_) (fun x hx => ?_) hs.strongOf rfl rfl
    · rcases root_of_setWorker hx with hx | hx
      · exact h.live_of_owned x (.inl hx)
      · rcases hx with rfl | rfl
        · exact hj
        · exact h.live_of_getBuddy hj hb
    · refine root_setWorker (fun hx' => ?_) hx
      rw [hw] at hx'
      exact .inl hx'
  | zeroed hw => exact h.worker_same rfl (fun x => by simp [hw, Worker.Holds]) hs rfl
  | sent hw | notSent hw =>
    refine h.worker_release rfl (fun x hx => ?_) (fun x hxb hx => ?_) ?_ rfl
    · rw [hw]
      exact .inl hx
    · rw [hw] at hx
      exact hx.resolve_right (Ne.symm hxb)
    · exact hs.trans (.of_ctx rfl rfl)
  | removed hw =>
    rename_i j
    have herase : ({ s with clientContext := s.clientContext.erase j.ctx } : State n).Alive :=
      h.congr (root_erase_iff (.inr ⟨w, hw ▸ Worker.holds_ctx j _⟩)) (fun _ => rfl) rfl rfl
    exact herase.worker_same rfl (fun x => by simp [hw, Worker.Holds]) (.of_ctx rfl rfl) rfl
  | finished hw =>
    refine h.worker_release rfl (fun x hx => ?_) (fun x hxb hx => ?_) (.of_ctx rfl rfl) rfl
    · simp [Worker.Holds] at hx
    · rw [hw] at hx
      exact absurd hx.symm hxb

theorem NetMove.alive {a : NetAction} (hm : NetMove s a s') (h : s.Alive) : s'.Alive := by
  have hs := hm.sameLinks
  cases hm <;> exact h.congr (fun _ => Iff.rfl) hs.strongOf rfl rfl

theorem MainMove.alive {o : MainOutcome} (hm : MainMove s o s') (h : s.Alive) : s'.Alive := by
  cases hm with
  | sweep =>
    exact h.cleanClientList.congr (fun _ => Iff.rfl) (fun _ => rfl) rfl rfl
  | _ => exact h.congr (fun _ => Iff.rfl) (fun _ => rfl) rfl rfl

theorem AcceptMove.paired {o : AcceptOutcome} (hm : AcceptMove s o s') (h : s.Sound) :
    s'.Paired := by
  have held : ∀ {x}, s.accept.Holds x → x < s.next := fun hx =>
    h.alive.live_lt _ (h.alive.live_of_owned _ (.inl (.inr (.inl hx))))
  cases hm with
  | accepted hpc hv =>
    rename_i v
    have hmake : (s.make { SocketContext.new with
        socket := some (s.handles.fresh v), conn := s.calls + 1 }).Paired := h.paired.make rfl
    exact hmake.of_ctx rfl rfl
  | remoteMade hpc hv hr =>
    rename_i k v
    have hmake : (s.make { SocketContext.new with
        socket := some (s.handles.fresh v), proxySocket := true, conn := s.calls }).Paired :=
      h.paired.make rfl
    exact hmake.of_ctx rfl rfl
  | @linked c r hpc hc hr =>
    obtain ⟨hcr, hfc, hfr, hconn, hcp, hrp⟩ := h.acceptOk.at_link hpc hc hr
    rw [linked_eq hcr hfc.1 hfr.1]
    exact (h.paired.link hcr hfc.1 hfr.1 (held (.inl hc)) (held (.inr hr)) hconn hcp hrp).of_ctx
      rfl rfl
  | posted | notPosted =>
    exact ((SameLinks.resetRecv _).paired h.paired).of_ctx rfl rfl
  | exitClosed | exitRemoved | exitNulled | returned =>
    refine h.paired.of_ctx ?_ ?_ <;>
      simp [State.acceptAt, State.exitNulled, State.acceptReturned]
  | _ => exact h.paired.of_ctx rfl rfl

/-- A side's local is one of the references of the accept thread. -/
theorem AcceptThread.holds_side {t : AcceptThread} {d : Side} {x : CtxId}
    (h : t.side d = some x) : t.Holds x := by
  cases d
  · exact .inl h
  · exact .inr h

/-- Clearing the local of a side keeps the references to other contexts. -/
theorem AcceptThread.holds_clear {t : AcceptThread} {d : Side} {x : CtxId} :
    ((t.clear d).Holds x → t.Holds x) ∧ (t.side d ≠ some x → t.Holds x → (t.clear d).Holds x) := by
  cases d <;> simp only [clear, Holds, side, reduceCtorEq, false_or, or_false]
  · exact ⟨.inr, fun hn h => h.resolve_left hn⟩
  · exact ⟨.inl, fun hn h => h.resolve_right hn⟩

theorem AcceptMove.alive {o : AcceptOutcome} (hm : AcceptMove s o s') (h : s.Sound) :
    s'.Alive := by
  have erase : ∀ {x}, s.accept.Holds x →
      ({ s with clientContext := s.clientContext.erase x } : State n).Alive := fun hx =>
    h.alive.congr (root_erase_iff (.inl hx)) (fun _ => rfl) rfl rfl
  cases hm with
  | accepted hpc hv =>
    obtain ⟨hc, hr⟩ := h.acceptOk.locals_eq_none hpc
    refine h.alive.make (c := { SocketContext.new with
      socket := some (s.handles.fresh _), conn := s.calls + 1 }) rfl (fun x => ?_) rfl rfl rfl
    simp only [Root, State.accepted, AcceptThread.Holds, hc, hr, State.make, reduceCtorEq, or_false,
      false_or, Option.some.injEq]
    rw [eq_comm (a := s.next)]
    tauto
  | remoteMade hpc hv hr =>
    have hok := h.acceptOk
    simp only [AcceptOk, hpc] at hok
    obtain ⟨c, hc, hrn, -⟩ := hok
    refine h.alive.make (c := { SocketContext.new with
      socket := some (s.handles.fresh _), proxySocket := true, conn := s.calls }) rfl
      (fun x => ?_) rfl rfl rfl
    simp only [Root, State.remoteMade, AcceptThread.Holds, hc, hrn, State.make, reduceCtorEq,
      or_false, Option.some.injEq]
    rw [eq_comm (a := s.next)]
    tauto
  | @linked c r hpc hc hr =>
    obtain ⟨hcr, hfc, hfr, -⟩ := h.acceptOk.at_link hpc hc hr
    rw [linked_eq hcr hfc.1 hfr.1]
    exact (h.alive.link hcr hfc.1 hfr.1 (.inr (.inl (.inr hr)))).congr (fun _ => Iff.rfl)
      (fun _ => rfl) rfl rfl
  | associateFailed hpc hp =>
    have hok := h.acceptOk
    simp only [AcceptOk, hpc] at hok
    obtain ⟨-, a', x', hp', hx⟩ := hok
    rw [hp', Option.some.injEq, Prod.mk.injEq] at hp
    exact (erase (AcceptThread.holds_side (hp.2 ▸ hx))).congr (fun _ => Iff.rfl) (fun _ => rfl)
      rfl rfl
  | added hpc hx =>
    rename_i d x
    refine h.alive.congr (fun z => ⟨fun hz => ?_, fun hz => ?_⟩) (fun _ => rfl) rfl rfl
    · rcases hz with hz | hz
      · rcases List.mem_append.mp hz with hz | hz
        · exact .inl hz
        · rw [List.mem_singleton] at hz
          exact .inr (.inl (hz ▸ AcceptThread.holds_side hx))
      · exact .inr hz
    · exact hz.imp_left (List.mem_append_left _)
  | posted | notPosted =>
    exact h.alive.congr (fun _ => Iff.rfl) (SameLinks.resetRecv _).strongOf rfl rfl
  | exitClosed =>
    unfold State.exitClosed
    cases s.accept.socket <;> exact h.alive.congr (fun _ => Iff.rfl) (fun _ => rfl) rfl rfl
  | exitRemoved hpc =>
    rename_i d
    cases hx : s.accept.side d with
    | none => exact h.alive.congr (fun _ => Iff.rfl) (fun _ => rfl) rfl rfl
    | some x =>
      exact (erase (AcceptThread.holds_side hx)).congr (fun _ => Iff.rfl) (fun _ => rfl) rfl rfl
  | exitNulled hpc =>
    refine h.alive.releaseOpt (fun z hz => ?_) (fun z hne hz => ?_) (fun _ => rfl) rfl rfl
    · exact hz.imp_right (Or.imp_left AcceptThread.holds_clear.1)
    · exact hz.imp_right (Or.imp_left (AcceptThread.holds_clear.2 hne))
  | returned hpc =>
    have h₂ : (({ s with accept := { s.accept with remote := none } } : State n).releaseOpt
        s.accept.remote).Alive := by
      refine h.alive.releaseOpt (fun z hz => ?_) (fun z hne hz => ?_) (fun _ => rfl) rfl rfl
      · exact hz.imp_right (Or.imp_left (AcceptThread.holds_clear (d := .remote)).1)
      · exact hz.imp_right (Or.imp_left ((AcceptThread.holds_clear (d := .remote)).2 hne))
    refine h₂.releaseOpt (fun z hz => ?_) (fun z hne hz => ?_) (fun _ => rfl) rfl rfl
    · exact hz.imp_right (Or.imp_left (AcceptThread.holds_clear (d := .client)).1)
    · refine hz.imp_right (Or.imp_left ((AcceptThread.holds_clear (d := .client)).2 ?_))
      simpa [AcceptThread.side] using hne
  | _ => exact h.alive.congr (fun _ => Iff.rfl) (fun _ => rfl) rfl rfl

/-- The context made for a client that was accepted is new. -/
theorem State.Sound.acceptOk_accepted (h : s.Sound) (hpc : s.accept.pc = .loop) (v : ℕ) :
    (s.accepted v).AcceptOk := by
  refine ⟨s.next, rfl, (h.acceptOk.locals_eq_none hpc).2, ⟨?_, fun hx => ?_⟩, ?_, fun x hx => ?_⟩
  · simp [Unlinked, State.accepted, State.make, SocketContext.new]
  · exact absurd (h.added_lt _ hx) (lt_irrefl _)
  · simp [State.accepted, State.make]
  · simp only [State.accepted, State.make, Function.update_apply]
    split_ifs with hxn
    · exact fun _ => rfl
    · have hlt : x < s.next := lt_of_le_of_ne (Nat.le_of_lt_succ hx) hxn
      have hle := h.conn_le x hlt
      exact fun hconn => absurd hconn (Nat.lt_succ_of_le hle).ne

/-- The context made for the remote is another new one, of the same call. -/
theorem State.Sound.acceptOk_remoteMade (h : s.Sound) (hpc : s.accept.pc = .initRemote)
    (T : HandleTable) (k : Handle) : (s.remoteMade T k).AcceptOk := by
  have hok := h.acceptOk
  simp only [AcceptOk, hpc] at hok
  obtain ⟨c, hc, -, hf, hconn, hprox⟩ := hok
  have hlive : c ∈ s.live := h.alive.live_of_owned c (.inl (.inr (.inl (.inl hc))))
  have hlt : c < s.next := h.alive.live_lt c hlive
  have hcn : c ≠ s.next := hlt.ne
  refine ⟨c, s.next, hc, rfl, hcn, ⟨?_, hf.2⟩, ⟨?_, fun hx => ?_⟩, ?_, ?_, ?_⟩
  · have hu := hf.1
    simpa [Unlinked, State.remoteMade, State.make, hcn] using hu
  · simp [Unlinked, State.remoteMade, State.make, SocketContext.new]
  · exact absurd (h.added_lt _ hx) (lt_irrefl _)
  · simp [State.remoteMade, State.make, hcn, hconn]
  · simp [State.remoteMade, State.make, hcn, hprox c hlt hconn]
  · simp [State.remoteMade, State.make]

/-- The client is put on the list before the remote. -/
theorem State.Sound.acceptOk_added (h : s.Sound) {d : Side} (hpc : s.accept.pc = .add d)
    {x : CtxId} (hx : s.accept.side d = some x) :
    ((s.addToClientList x).acceptAt (afterAdd d)).AcceptOk := by
  have hok := h.acceptOk
  cases d with
  | client =>
    simp only [AcceptOk, hpc] at hok
    obtain ⟨c, r, hacc, hc, hr⟩ := hok
    obtain rfl : c = x := Option.some.inj (hacc.1.symm.trans hx)
    have hne : r ≠ c := (h.paired.partner_ne (.inl hacc.2.2)).symm
    refine ⟨c, r, hacc, Finset.mem_insert_self _ _, ?_⟩
    simp [State.addToClientList, State.acceptAt, hne, hr]
  | remote =>
    simp only [AcceptOk, hpc] at hok
    obtain ⟨c, r, hacc, hc, hr⟩ := hok
    obtain rfl : r = x := Option.some.inj (hacc.2.1.symm.trans hx)
    exact ⟨c, r, hacc, Finset.mem_insert_of_mem hc, Finset.mem_insert_self _ _⟩

/-- The locals, the list and the links are as the next label says. -/
theorem AcceptMove.acceptOk {o : AcceptOutcome} (hm : AcceptMove s o s') (h : s.Sound) :
    s'.AcceptOk := by
  have hok := h.acceptOk
  cases hm with
  | stop hpc =>
    simp only [AcceptOk, hpc] at hok
    exact hok
  | accepted hpc hv => exact h.acceptOk_accepted hpc _
  | remoteMade hpc hv hr => exact h.acceptOk_remoteMade hpc _ _
  | @linked c r hpc hc hr =>
    obtain ⟨hcr, hfc, hfr, -⟩ := hok.at_link hpc hc hr
    rw [linked_eq hcr hfc.1 hfr.1]
    refine ⟨c, r, ⟨hc, hr, ?_⟩, hfc.2, hfr.2⟩
    have hs := strongOf_linkedCtx (s := s) hcr c
    rwa [if_pos rfl] at hs
  | enter hpc hx =>
    simp only [AcceptOk, hpc] at hok
    exact ⟨hok, _, _, rfl, hx⟩
  | @associated d a x hpc hp =>
    simp only [AcceptOk, hpc] at hok
    cases d <;> exact hok.1
  | added hpc hx => exact h.acceptOk_added hpc hx
  | @posted d x hpc hx ht =>
    simp only [AcceptOk, hpc] at hok
    cases d with
    | client =>
      obtain ⟨c, r, hacc, hadd⟩ := hok
      exact ⟨c, r, ⟨hacc.1, hacc.2.1, ((SameLinks.resetRecv x).strongOf c).trans hacc.2.2⟩, hadd⟩
    | remote => trivial
  | exitClosed hpc =>
    unfold State.exitClosed AcceptOk
    split_ifs <;> trivial
  | @exitNulled d hpc => cases d <;> simp [AcceptOk, State.exitNulled, afterNull]
  | returned hpc => simp [AcceptOk, State.acceptReturned]
  | _ => trivial

theorem MainMove.acceptOk {o : MainOutcome} (hm : MainMove s o s') (h : s.Sound) :
    s'.AcceptOk := by
  have hl : s.SameLinks s' := .of_ctx hm.frame.1 hm.frame.2.1
  cases hm with
  | started hm =>
    have hpc := h.boot (by simp [hm])
    have hok := h.acceptOk
    simp only [AcceptOk, hpc] at hok
    exact hok
  | sweep =>
    have hf := s.cleanClientList_frame
    exact h.acceptOk.congr hl hf.2.2.2.1 hf.2.2.1 hf.2.2.2.2.1
  | _ => exact h.acceptOk.congr hl rfl rfl rfl

/-- Linking changes nothing of a context but its buddy pointer. -/
theorem State.linked_fields (s : State n) (c r x : CtxId) :
    ((s.linked c r).ctx x).conn = (s.ctx x).conn ∧
      ((s.linked c r).ctx x).proxySocket = (s.ctx x).proxySocket ∧
      ((s.linked c r).ctx x).socket = (s.ctx x).socket ∧
      ((s.linked c r).ctx x).ioRecv = (s.ctx x).ioRecv ∧
      ((s.linked c r).ctx x).ioSend = (s.ctx x).ioSend := by
  have hset : ∀ (t : State n) (u v : CtxId),
      ((t.setBuddySocketContext u v).ctx x).conn = (t.ctx x).conn ∧
      ((t.setBuddySocketContext u v).ctx x).proxySocket = (t.ctx x).proxySocket ∧
      ((t.setBuddySocketContext u v).ctx x).socket = (t.ctx x).socket ∧
      ((t.setBuddySocketContext u v).ctx x).ioRecv = (t.ctx x).ioRecv ∧
      ((t.setBuddySocketContext u v).ctx x).ioSend = (t.ctx x).ioSend := by
    intro t u v
    simp only [setBuddySocketContext, releaseOpt_frame, setCtx]
    by_cases hxu : x = u
    · subst hxu
      simp only [Function.update_self, and_self]
    · simp only [Function.update_of_ne hxu, and_self]
  obtain ⟨h₁, h₂, h₃, h₄, h₅⟩ := hset s c r
  obtain ⟨k₁, k₂, k₃, k₄, k₅⟩ := hset (s.setBuddySocketContext c r) r c
  exact ⟨k₁.trans h₁, k₂.trans h₂, k₃.trans h₃, k₄.trans h₄, k₅.trans h₅⟩

/-- The fields of the state that linking leaves alone. -/
theorem State.linked_frame (s : State n) (c r : CtxId) :
    (s.linked c r).next = s.next ∧ (s.linked c r).added = s.added ∧
      (s.linked c r).calls = s.calls ∧ (s.linked c r).clientContext = s.clientContext ∧
      (s.linked c r).key = s.key := by
  simp [linked, acceptAt, setBuddySocketContext, setCtx]

/-- No context is made. -/
theorem State.Sound.conn_congr (h : s.Sound)
    (hf : ∀ x, (s'.ctx x).conn = (s.ctx x).conn ∧ (s'.ctx x).proxySocket = (s.ctx x).proxySocket)
    (hn : s'.next = s.next) (hc : s.calls ≤ s'.calls) :
    (∀ x < s'.next, (s'.ctx x).conn ≤ s'.calls) ∧
      ∀ x < s'.next, ∀ y < s'.next, (s'.ctx x).conn = (s'.ctx y).conn →
        (s'.ctx x).proxySocket = (s'.ctx y).proxySocket → x = y := by
  simp only [hf, hn]
  exact ⟨fun x hx => (h.conn_le x hx).trans hc, h.conn_inj⟩

/-- A context is made, the first one of its side in its call. -/
theorem State.Sound.conn_make (h : s.Sound) {c : SocketContext} (hx : s'.ctx = (s.make c).ctx)
    (hn : s'.next = s.next + 1) (hc : s.calls ≤ s'.calls) (hcc : c.conn ≤ s'.calls)
    (hnew : ∀ x < s.next, (s.ctx x).conn = c.conn → (s.ctx x).proxySocket ≠ c.proxySocket) :
    (∀ x < s'.next, (s'.ctx x).conn ≤ s'.calls) ∧
      ∀ x < s'.next, ∀ y < s'.next, (s'.ctx x).conn = (s'.ctx y).conn →
        (s'.ctx x).proxySocket = (s'.ctx y).proxySocket → x = y := by
  simp only [hx, hn, State.make, Function.update_apply]
  have hlt : ∀ {x}, x < s.next + 1 → x ≠ s.next → x < s.next := fun hx hne =>
    lt_of_le_of_ne (Nat.le_of_lt_succ hx) hne
  refine ⟨fun x hx => ?_, fun x hx y hy hxy hp => ?_⟩
  · split_ifs with hxn
    · exact hcc
    · exact (h.conn_le x (hlt hx hxn)).trans hc
  · split_ifs at hxy hp with hxn hyn hyn
    · exact hxn.trans hyn.symm
    · exact absurd hp.symm (hnew y (hlt hy hyn) hxy.symm)
    · exact absurd hp (hnew x (hlt hx hxn) hxy)
    · exact h.conn_inj x (hlt hx hxn) y (hlt hy hyn) hxy hp

theorem AcceptMove.conn {o : AcceptOutcome} (hm : AcceptMove s o s') (h : s.Sound) :
    (∀ x < s'.next, (s'.ctx x).conn ≤ s'.calls) ∧
      ∀ x < s'.next, ∀ y < s'.next, (s'.ctx x).conn = (s'.ctx y).conn →
        (s'.ctx x).proxySocket = (s'.ctx y).proxySocket → x = y := by
  cases hm with
  | accepted hpc hv =>
    rename_i v
    refine h.conn_make (c := { SocketContext.new with
      socket := some (s.handles.fresh v), conn := s.calls + 1 }) rfl rfl (Nat.le_succ _) le_rfl
      fun x hx hconn => ?_
    have hle := h.conn_le x hx
    exact absurd hconn (Nat.lt_succ_of_le hle).ne
  | remoteMade hpc hv hr =>
    rename_i k v
    have hok := h.acceptOk
    simp only [AcceptOk, hpc] at hok
    obtain ⟨c, -, -, -, -, hprox⟩ := hok
    refine h.conn_make (c := { SocketContext.new with
      socket := some (s.handles.fresh v), proxySocket := true, conn := s.calls }) rfl rfl le_rfl
      le_rfl fun x hx hconn => ?_
    simp [hprox x hx hconn]
  | linked hpc hc hr =>
    have hf := s.linked_fields
    have hfr := s.linked_frame
    exact h.conn_congr (fun x => ⟨(hf _ _ x).1, (hf _ _ x).2.1⟩) (hfr _ _).1 (hfr _ _).2.2.1.ge
  | @posted d x | @notPosted d x =>
    have hsame : s.SameLinks (s.resetRecv x) := .resetRecv x
    exact h.conn_congr (fun z => ⟨(hsame.1 z).2.1, (hsame.1 z).2.2.1⟩) rfl le_rfl
  | failed hpc => exact h.conn_congr (fun _ => ⟨rfl, rfl⟩) rfl (Nat.le_succ _)
  | exitClosed | exitRemoved | exitNulled | returned =>
    refine h.conn_congr (fun x => ⟨?_, ?_⟩) ?_ ?_ <;>
      simp [State.acceptAt, State.exitNulled, State.acceptReturned]
  | _ => exact h.conn_congr (fun _ => ⟨rfl, rfl⟩) rfl le_rfl

/-- Only existing contexts are put on the list. -/
theorem AcceptMove.added_lt {o : AcceptOutcome} (hm : AcceptMove s o s') (h : s.Sound) :
    ∀ x ∈ s'.added, x < s'.next := by
  cases hm with
  | accepted | remoteMade => exact fun x hx => Nat.lt_succ_of_lt (h.added_lt x hx)
  | linked hpc hc hr =>
    rename_i c r
    rw [(s.linked_frame c r).1, (s.linked_frame c r).2.1]
    exact h.added_lt
  | added hpc hx =>
    rename_i d x
    intro z hz
    rcases Finset.mem_insert.mp hz with rfl | hz
    · have hlive := h.alive.live_of_owned z (.inl (.inr (.inl (AcceptThread.holds_side hx))))
      exact h.alive.live_lt z hlive
    · exact h.added_lt z hz
  | exitClosed | exitRemoved | exitNulled | returned =>
    simpa [State.acceptAt, State.exitNulled, State.acceptReturned] using h.added_lt
  | _ => exact h.added_lt

theorem AcceptMove.pc_ne {o : AcceptOutcome} (hm : AcceptMove s o s') :
    s.accept.pc ≠ .notStarted := by
  rintro hpc
  cases hm <;> simp_all

/-- The accept thread does not go on from its end. -/
theorem AcceptMove.pc_ne_done {o : AcceptOutcome} (hm : AcceptMove s o s') :
    s.accept.pc ≠ .done := by
  rintro hpc
  cases hm <;> simp_all

/-! ### Every reachable state -/

/-- Every step keeps what always holds. -/
theorem State.Sound.step {a : Action n} (h : s.Sound) (hm : Move s a s') : s'.Sound := by
  cases hm with
  | main hm =>
    obtain ⟨hctx, hnext, hcalls, hadded, -⟩ := hm.frame
    obtain ⟨hle, hinj⟩ :=
      h.conn_congr (fun x => by rw [hctx]; exact ⟨rfl, rfl⟩) hnext hcalls.ge
    refine ⟨h.paired.of_ctx hctx hnext, hm.alive h.alive, hm.acceptOk h, fun hb => ?_, ?_,
      hle, hinj⟩
    · cases hm with
      | quiet hq =>
        refine h.boot ?_
        simp only [mainQuiet, List.mem_cons, Prod.mk.injEq, List.not_mem_nil, or_false] at hq
        rcases hq with ⟨hm, -⟩ | ⟨hm, -⟩ | ⟨hm, -⟩ | ⟨hm, -⟩ | ⟨hm, -⟩ | ⟨hm, -⟩ | ⟨hm, -⟩ |
          ⟨hm, -⟩ | ⟨hm, -⟩ <;> simp [hm]
      | opened hm => exact h.boot (by simp [hm])
      | _ => simp [mainAt, closeListen] at hb
    · rw [hadded, hnext]
      exact h.added_lt
  | accept hm =>
    obtain ⟨hle, hinj⟩ := hm.conn h
    refine ⟨hm.paired h, hm.alive h, hm.acceptOk h, fun hb => ?_, hm.added_lt h, hle, hinj⟩
    rw [hm.frame.2.1] at hb
    exact absurd (h.boot hb) hm.pc_ne
  | worker hm =>
    have hl := hm.sameLinks
    obtain ⟨hacc, hcalls, hadded, -, hmain, -⟩ := hm.frame
    obtain ⟨hle, hinj⟩ :=
      h.conn_congr (fun x => ⟨(hl.1 x).2.1, (hl.1 x).2.2.1⟩) hl.2 hcalls.ge
    refine ⟨hl.paired h.paired, hm.alive h.alive, h.acceptOk.congr hl hacc hadded hcalls, ?_, ?_,
      hle, hinj⟩
    · rw [hmain, hacc]
      exact h.boot
    · rw [hadded, hl.2]
      exact h.added_lt
  | net hm =>
    have hl := hm.sameLinks
    obtain ⟨hacc, hcalls, hadded, -, hmain, -⟩ := hm.frame
    obtain ⟨hle, hinj⟩ :=
      h.conn_congr (fun x => ⟨(hl.1 x).2.1, (hl.1 x).2.2.1⟩) hl.2 hcalls.ge
    refine ⟨hl.paired h.paired, hm.alive h.alive, h.acceptOk.congr hl hacc hadded hcalls, ?_, ?_,
      hle, hinj⟩
    · rw [hmain, hacc]
      exact h.boot
    · rw [hadded, hl.2]
      exact h.added_lt

/-- What always holds, holds in every reachable state. -/
theorem State.sound_of_reachable {G : State n → Action n → Prop}
    (hs : (proxy n).Reachable G s) : s.Sound :=
  hs.invariant sound_initial fun _ _ _ h _ hstep => h.step (step_move hstep).2.2

end IocpProxy
