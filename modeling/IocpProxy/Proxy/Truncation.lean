import IocpProxy.Proxy.Delivery

/-!
# What becomes of bytes after a zero

`Send` copies a chunk as a zero-terminated string, and transmits as many bytes as were received. So
the bytes after the first zero of a chunk come out as zeros. This is all the relay does to the
bytes: a run in which the peers send arbitrary chunks goes like the run in which they send the
chunks cut at their first zero, in every step and up to the contents of the receive buffers.

## Main definitions

* `IocpProxy.State.mapRecv` : the state with other contents of the receive buffers.
* `IocpProxy.Indistinct` : the contents that make no difference.
* `IocpProxy.Action.cut` : the action with its chunk cut.
* `IocpProxy.chunks`, `IocpProxy.cutReceived` : the chunks delivered to a context in a run, and what
  they are when cut.
* `IocpProxy.RelayBounded` : the condition on the steps.

## Main results

* `IocpProxy.step_cut` : cutting the chunks commutes with the steps.
* `IocpProxy.path_cut` : a run goes like the run with the chunks cut.
* `IocpProxy.relay_truncates`.
-/

namespace IocpProxy

open State

variable {n : ℕ} {s s' : State n}

/-! ### Other contents of the receive buffers -/

/-- The context with other contents of its receive buffer. -/
def SocketContext.mapRecv (g : Buffer → Buffer) (c : SocketContext) : SocketContext :=
  { c with ioRecv := { c.ioRecv with buffer := g c.ioRecv.buffer } }

/-- The state with other contents of the receive buffers, and other bytes received. -/
def State.mapRecv (g : Buffer → Buffer) (r : CtxId → List UInt8) (s : State n) : State n :=
  { s with ctx := fun x => (s.ctx x).mapRecv g, received := r }

/-- A copy cannot tell the contents apart; an empty buffer is left empty, and is filled by the cut
chunk. -/
structure Indistinct (g : Buffer → Buffer) : Prop where
  zero : g 0 = 0
  strcpy : ∀ dst src, CString.strcpy dst (g src) = CString.strcpy dst src
  receive : ∀ bs, g (Buffer.receive 0 bs) = Buffer.receive 0 (CString.cutList bs)

namespace State

variable {g : Buffer → Buffer} {r : CtxId → List UInt8}

theorem update_mapRecv (x : CtxId) (c : SocketContext) :
    (fun y => (Function.update s.ctx x c y).mapRecv g) =
      Function.update (fun y => (s.ctx y).mapRecv g) x (c.mapRecv g) := by
  funext y
  by_cases hy : y = x
  · subst hy
    simp
  · simp [hy]

theorem setCtx_mapRecv (x : CtxId) (c : SocketContext) :
    (s.setCtx x c).mapRecv g r = (s.mapRecv g r).setCtx x (c.mapRecv g) := by
  simp only [mapRecv, setCtx, update_mapRecv]

theorem mapRecv_new (hg : Indistinct g) (h : Option Handle) (p : Bool) (k : ℕ) :
    SocketContext.mapRecv g { SocketContext.new with socket := h, proxySocket := p, conn := k } =
      { SocketContext.new with socket := h, proxySocket := p, conn := k } := by
  have hz : g SocketContext.new.ioRecv.buffer = SocketContext.new.ioRecv.buffer := hg.zero
  simp only [SocketContext.mapRecv, hz]

theorem make_mapRecv {c : SocketContext} (hc : c.mapRecv g = c) :
    (s.make c).mapRecv g r = (s.mapRecv g r).make c := by
  simp only [mapRecv, make, update_mapRecv, hc]

theorem releaseOpt_mapRecv (x : Option CtxId) :
    (s.releaseOpt x).mapRecv g r = (s.mapRecv g r).releaseOpt x := by
  cases x <;> rfl

theorem cleanClientList_mapRecv :
    s.cleanClientList.mapRecv g r = (s.mapRecv g r).cleanClientList := by
  unfold cleanClientList
  change _ = List.foldl _ (s.mapRecv g r) s.clientContext
  generalize s.clientContext = l
  induction l generalizing s with
  | nil => rfl
  | cons x l ih => exact ih

theorem removeFromClientList_mapRecv (x : Option CtxId) :
    (s.removeFromClientList x).mapRecv g r = (s.mapRecv g r).removeFromClientList x := by
  cases x <;> rfl

theorem setBuddySocketContext_mapRecv (x y : CtxId) :
    (s.setBuddySocketContext x y).mapRecv g r = (s.mapRecv g r).setBuddySocketContext x y := by
  unfold setBuddySocketContext
  rw [releaseOpt_mapRecv, setCtx_mapRecv]
  rfl

theorem resetRecv_mapRecv (hg : Indistinct g) (x : CtxId) :
    (s.resetRecv x).mapRecv g r = (s.mapRecv g r).resetRecv x := by
  have hz : g IoOperationData.forRecv.buffer = IoOperationData.forRecv.buffer := hg.zero
  rw [resetRecv, setCtx_mapRecv]
  simp only [SocketContext.mapRecv, hz]
  rfl

theorem postRecv_mapRecv (hg : Indistinct g) (x : CtxId) :
    (s.postRecv x).mapRecv g r = (s.mapRecv g r).postRecv x := by
  have hreset := s.resetRecv_mapRecv (r := r) hg x
  simp only [postRecv, ← hreset]
  rfl

theorem storeSend_mapRecv (x : CtxId) (io : IoOperationData) :
    (s.storeSend x io).mapRecv g r = (s.mapRecv g r).storeSend x io := by
  rw [storeSend, setCtx_mapRecv]
  rfl

theorem postSend_mapRecv (x : CtxId) (io : IoOperationData) (d : SendRecord) :
    (s.postSend x io d).mapRecv g r = (s.mapRecv g r).postSend x io d := by
  have hstore := s.storeSend_mapRecv (g := g) (r := r) x io
  simp only [postSend, ← hstore]
  rfl

theorem accepted_mapRecv (hg : Indistinct g) (v : ℕ) :
    (s.accepted v).mapRecv g r = (s.mapRecv g r).accepted v := by
  have hmake := s.make_mapRecv (r := r)
    (mapRecv_new hg (some (s.handles.fresh v)) false (s.calls + 1))
  unfold accepted
  exact congrArg (fun t : State n => { t with
    calls := s.calls + 1
    handles := s.handles.open v
    accept := { s.accept with
      pc := .initRemote, socket := some (some (s.handles.fresh v)), client := some s.next } }) hmake

theorem remoteMade_mapRecv (hg : Indistinct g) (T : HandleTable) (h : Handle) :
    (s.remoteMade T h).mapRecv g r = (s.mapRecv g r).remoteMade T h := by
  have hmake := s.make_mapRecv (r := r) (mapRecv_new hg (some h) true s.calls)
  unfold remoteMade
  exact congrArg (fun t : State n => { t with
    handles := T
    accept := { s.accept with pc := .link, remote := some s.next } }) hmake

theorem linked_mapRecv (x y : CtxId) :
    (s.linked x y).mapRecv g r = (s.mapRecv g r).linked x y := by
  unfold linked
  rw [← setBuddySocketContext_mapRecv, ← setBuddySocketContext_mapRecv]
  rfl

theorem exitClosed_mapRecv : s.exitClosed.mapRecv g r = (s.mapRecv g r).exitClosed := by
  have hacc : (s.mapRecv g r).accept = s.accept := rfl
  unfold exitClosed
  rw [hacc]
  cases s.accept.socket <;> rfl

theorem exitNulled_mapRecv (d : Side) :
    (s.exitNulled d).mapRecv g r = (s.mapRecv g r).exitNulled d := releaseOpt_mapRecv _

theorem acceptReturned_mapRecv :
    s.acceptReturned.mapRecv g r = (s.mapRecv g r).acceptReturned := by
  have hremote := releaseOpt_mapRecv (g := g) (r := r)
    (s := { s with accept := { s.accept with remote := none } }) s.accept.remote
  unfold acceptReturned
  dsimp only
  rw [releaseOpt_mapRecv]
  exact congrArg (fun t : State n => ({ t with
    accept := { t.accept with client := none, socket := none, pc := .loop } } : State n).releaseOpt
      s.accept.client) hremote

/-- In an empty buffer, the cut chunk arrives. -/
theorem arrived_mapRecv (hg : Indistinct g) {o : Op} (h : (s.ctx o.ctx).ioRecv.buffer = 0)
    (bs : List UInt8) :
    (s.arrived o bs).mapRecv g (Function.update r o.ctx (r o.ctx ++ CString.cutList bs)) =
      (s.mapRecv g r).arrived o (CString.cutList bs) := by
  have hbuf : g ((s.ctx o.ctx).ioRecv.buffer.receive bs) =
      Buffer.receive (g (s.ctx o.ctx).ioRecv.buffer) (CString.cutList bs) := by
    rw [h, hg.zero, hg.receive]
  simp only [arrived, replaceOp, mapRecv, setCtx, update_mapRecv, CString.length_cutList]
  congr 2
  simp only [SocketContext.mapRecv, hbuf]

/-- The other contents fill a send record in the same way. -/
theorem fill_mapRecv (hg : Indistinct g) (io : IoOperationData) (x : CtxId) (len : UInt16) :
    io.fill ((s.mapRecv g r).ctx x).ioRecv.buffer len = io.fill (s.ctx x).ioRecv.buffer len := by
  have hcopy := hg.strcpy io.buffer (s.ctx x).ioRecv.buffer
  exact congrArg (Option.map _) hcopy

end State

section Steps

variable {g : Buffer → Buffer} {r : CtxId → List UInt8}

theorem mainStep_mapRecv (o : MainOutcome) :
    mainStep (s.mapRecv g r) o = (mainStep s o).map (·.mapRecv g r) := by
  have hmain : (s.mapRecv g r).main = s.main := rfl
  unfold mainStep
  rw [hmain]
  split <;> try rfl
  · rename_i v _
    change (if s.handles.owner v = none then _ else none) = _
    split_ifs <;> rfl
  · change (if s.accept.pc = .done ∨ s.accept.pc = .notStarted then _ else none) = _
    split_ifs <;> rfl
  · change (if maximumWaitObjects < n ∨ ∀ w, s.worker w = .exited then _ else none) = _
    rw [← cleanClientList_mapRecv]
    split_ifs <;> rfl

theorem acceptStep_mapRecv (hg : Indistinct g) (o : AcceptOutcome) :
    acceptStep (s.mapRecv g r) o = (acceptStep s o).map (·.mapRecv g r) := by
  have hacc : (s.mapRecv g r).accept = s.accept := rfl
  unfold acceptStep
  rw [hacc]
  split <;> try rfl
  · change (if s.shutdown then _ else none) = _
    split_ifs <;> rfl
  · rename_i v _
    change (if s.handles.owner v = none then _ else none) = _
    split_ifs
    · rw [Option.map_some, accepted_mapRecv hg]
    · rfl
  · rename_i k _
    have hh : (s.mapRecv g r).handles = s.handles := rfl
    rw [hh]
    split_ifs
    · dsimp only
      cases (initRemoteConnection s.handles k).remote with
      | none => rfl
      | some h =>
        rw [Option.map_some, remoteMade_mapRecv hg]
    · rfl
  · cases s.accept.client with
    | none => rfl
    | some c =>
      cases s.accept.remote with
      | none => rfl
      | some r' =>
        simp only [Option.bind_some, Option.map_some, linked_mapRecv]
  · rename_i d a _
    cases s.accept.side d <;> rfl
  · cases s.accept.param <;> rfl
  · cases s.accept.param <;> rfl
  · rename_i d _
    cases s.accept.side d <;> rfl
  · rename_i d _
    cases s.accept.side d with
    | none => rfl
    | some x =>
      have ht : (s.mapRecv g r).target x = s.target x := rfl
      rw [Option.bind_some, Option.bind_some, ht]
      split
      · rw [Option.map_some, ← postRecv_mapRecv hg]
        rfl
      · rw [Option.map_some, ← postRecv_mapRecv hg]
        rfl
      · rw [Option.map_some, ← resetRecv_mapRecv hg]
        rfl
      · rfl
  · rw [Option.map_some, exitClosed_mapRecv]
  · rename_i d _
    rw [Option.map_some, ← removeFromClientList_mapRecv]
    rfl
  · rw [Option.map_some, exitNulled_mapRecv]
  · rw [Option.map_some, acceptReturned_mapRecv]

theorem workerStep_mapRecv (hg : Indistinct g) (w : Fin n) (o : WorkerOutcome) :
    workerStep (s.mapRecv g r) w o = (workerStep s w o).map (·.mapRecv g r) := by
  have hw : (s.mapRecv g r).worker = s.worker := rfl
  unfold workerStep
  rw [hw]
  split <;> try rfl
  · change (if s.shutdown then _ else none) = _
    split_ifs <;> rfl
  · rename_i op c _
    cases op.status with
    | pending => rfl
    | done ok bytes =>
      change (if op ∈ s.ops ∧ s.Resolves op.ctx c then
        if c ∈ s.live ∧ (op.ctx ∈ s.live ∨ ok = false ∨ bytes = 0) then _ else _ else none) = _
      dsimp only
      split_ifs <;> rfl
  · rename_i j _
    have hbuddy : (s.mapRecv g r).getBuddySocketContext j.ctx = s.getBuddySocketContext j.ctx := rfl
    rw [hbuddy]
    cases s.getBuddySocketContext j.ctx <;> rfl
  · rename_i j b _
    rw [Option.map_some, ← storeSend_mapRecv]
    rfl
  · rename_i j b _
    have hsend : ((s.mapRecv g r).ctx b).ioSend = (s.ctx b).ioSend := rfl
    have ht : (s.mapRecv g r).target b = s.target b := rfl
    rw [fill_mapRecv hg, hsend, ht]
    split
    · rfl
    · split
      · rw [Option.map_some, ← postSend_mapRecv]
        rfl
      · rw [Option.map_some, ← postSend_mapRecv]
        rfl
      · rw [Option.map_some, ← storeSend_mapRecv]
        rfl
      · rfl
  · rename_i j _
    have ht : (s.mapRecv g r).target j.ctx = s.target j.ctx := rfl
    rw [ht]
    split
    · rw [Option.map_some, ← postRecv_mapRecv hg]
      rfl
    · rw [Option.map_some, ← postRecv_mapRecv hg]
      rfl
    · rw [Option.map_some, ← resetRecv_mapRecv hg]
      rfl
    · rfl

theorem netStep_mapRecv {b : NetAction} (hb : ∀ o bs, b ≠ .receive o bs) :
    netStep (s.mapRecv g r) b = (netStep s b).map (·.mapRecv g r) := by
  cases b with
  | receive o bs => exact absurd rfl (hb o bs)
  | transmit o k =>
    change (if o ∈ s.ops ∧ o.kind = .send ∧ o.status = .pending ∧ o.off + k ≤ o.len ∧
      s.broken o.ctx = false then _ else none) = Option.map _ (ite _ _ _)
    split_ifs <;> rfl
  | complete o =>
    change (if o ∈ s.ops ∧ o.kind = .send ∧ o.status = .pending then _ else none) =
      Option.map _ (ite _ _ _)
    split_ifs <;> rfl
  | fail o =>
    change (if o ∈ s.ops ∧ o.status = .pending then _ else none) = Option.map _ (ite _ _ _)
    split_ifs <;> rfl

/-- The contents of the receive buffers make no difference to a step that receives nothing. -/
theorem step_mapRecv (hg : Indistinct g) {a : Action n} (ha : ∀ o bs, a ≠ .net (.receive o bs)) :
    step (s.mapRecv g r) a = (step s a).map (·.mapRecv g r) := by
  change (if s.fault = none ∧ s.main ≠ .exited then _ else none) = Option.map _ (ite _ _ _)
  split_ifs
  · cases a with
    | main o => exact mainStep_mapRecv o
    | accept o => exact acceptStep_mapRecv hg o
    | worker w o => exact workerStep_mapRecv hg w o
    | net b => exact netStep_mapRecv fun o bs e => ha o bs (congrArg _ e)
  · rfl

end Steps

/-! ### Cutting the chunks -/

/-- A cut chunk lies in the zeroed buffer as the buffer with the chunk, cut. -/
theorem Buffer.cut_receive (bs : List UInt8) :
    CString.cut ((0 : Buffer).receive bs) = (0 : Buffer).receive (CString.cutList bs) := by
  funext i
  have hget : ∀ j : Fin maxBufferLen, (0 : Buffer).receive bs j = bs.getD j 0 := fun _ => rfl
  change _ = (CString.cutList bs).getD i 0
  rw [CString.getD_cutList, CString.cut]
  split_ifs with hbuf hlist hlist
  · rfl
  · -- the zero in the buffer lies behind the chunk
    obtain ⟨j, hj, h0⟩ := hbuf
    have hj' : (j : ℕ) < i := hj
    have hlen : bs.length ≤ j := by
      by_contra hlt
      rw [hget, List.getD_eq_getElem _ _ (not_le.mp hlt)] at h0
      exact hlist ⟨j, hj', (List.getElem?_eq_getElem (not_le.mp hlt)).trans (congrArg some h0)⟩
    rw [List.getD_eq_default _ _ (hlen.trans hj'.le)]
  · obtain ⟨j, hj, h0⟩ := hlist
    refine absurd ⟨⟨j, hj.trans i.isLt⟩, hj, ?_⟩ hbuf
    rw [hget, List.getD_eq_getElem?_getD, h0]
    rfl
  · exact hget i

theorem indistinct_cut : Indistinct CString.cut :=
  ⟨CString.cut_zero, CString.strcpy_cut, Buffer.cut_receive⟩

/-- The action with the chunk cut. -/
def Action.cut : Action n → Action n
  | .net (.receive o bs) => .net (.receive o (CString.cutList bs))
  | a => a

/-- The chunk that an action delivers to `x`. -/
def Action.chunk (x : CtxId) : Action n → Option (List UInt8)
  | .net (.receive o bs) => if o.ctx = x then some bs else none
  | _ => none

/-- The chunks that a run delivers to `x`. -/
def chunks (x : CtxId) (as : List (Action n)) : List (List UInt8) := as.filterMap (Action.chunk x)

/-- What a run delivers when each of its chunks has zeros after its first zero. -/
def cutReceived (as : List (Action n)) (x : CtxId) : List UInt8 :=
  ((chunks x as).map CString.cutList).flatten

theorem chunks_cut (x : CtxId) (as : List (Action n)) :
    chunks x (as.map Action.cut) = (chunks x as).map CString.cutList := by
  have hchunk : ∀ a : Action n, a.cut.chunk x = (a.chunk x).map CString.cutList := by
    intro a
    unfold Action.cut
    split
    · rename_i o bs
      simp only [Action.chunk]
      split_ifs <;> rfl
    · rename_i hne
      unfold Action.chunk
      split
      · rename_i o bs
        exact absurd rfl (hne o bs)
      · rfl
  simp only [chunks, List.filterMap_map, List.map_filterMap, Function.comp_def, hchunk]

/-- Only the network delivers bytes. -/
theorem Move.received_eq {a : Action n} (hm : Move s a s') (x : CtxId) :
    s'.received x = s.received x ++ ((a.chunk x).toList).flatten := by
  have same : s'.received = s.received → a.chunk x = none →
      s'.received x = s.received x ++ ((a.chunk x).toList).flatten := by
    intro hr hc
    simp [hr, hc]
  rcases hm with hm | hm | hm | hm
  · exact same hm.frame.2.2.2.2.2.2.1 rfl
  · exact same hm.frame.2.2.2.1 rfl
  · exact same hm.frame.2.2.2.2.2.2.1 rfl
  · cases hm with
    | @arrived o bs =>
      by_cases hx : o.ctx = x
      · subst hx
        simp [State.arrived, Action.chunk]
      · simp [State.arrived, Action.chunk, hx, Function.update_of_ne (Ne.symm hx)]
    | transmitted | completed | failed => exact same rfl rfl

/-- What was received are the chunks of the run. -/
theorem received_of_path {G : State n → Action n → Prop} {as : List (Action n)}
    (hp : (proxy n).Path G s as s') (x : CtxId) :
    s'.received x = s.received x ++ (chunks x as).flatten := by
  induction hp with
  | nil => simp [chunks]
  | @cons s s₁ t a as hG h _ ih =>
    have hm := (step_move h).2.2
    have hstep := hm.received_eq x
    rw [ih, hstep, List.append_assoc]
    congr 1
    cases hc : a.chunk x <;> simp [chunks, hc]

/-! ### Pending receives -/

/-- An operation that closing a socket leaves pending was left alone. -/
theorem State.Kept.mem_of_pending (hk : s.Kept s') {o : Op} (ho : o ∈ s'.ops)
    (hst : o.status = .pending) : o ∈ s.ops := by
  obtain ⟨f, hf, hfo⟩ := hk.exists_map
  rw [hf] at ho
  obtain ⟨p, hp, rfl⟩ := List.mem_map.mp ho
  rcases (hfo p hp).2.2 with e | ⟨e, -⟩
  · rwa [e]
  · rw [e] at hst ⊢
    by_cases hpend : p.status = .pending
    · simp [Op.abort, hpend] at hst
    · rwa [Op.abort, if_neg hpend]

/-- A receive is pending since it was posted, until something is received. -/
theorem Move.pending_cases {a : Action n} (hm : Move s a s') (hs : s.Orderly) {o : Op}
    (ho : o ∈ s'.ops) (hk : o.kind = .recv) (hst : o.status = .pending) :
    o ∈ s.ops ∧ (∀ o₁ bs, a = .net (.receive o₁ bs) → o₁.ctx ≠ o.ctx) ∨
      s.posts a = some (.recv, o.ctx) := by
  rcases hm with hm | hm | hm | hm
  · exact .inl ⟨hm.kept.mem_of_pending ho hst, by simp⟩
  · rcases hm.ops_eq with ⟨hkept, -⟩ | ⟨x, hp, -, hops⟩
    · exact .inl ⟨hkept.mem_of_pending ho hst, by simp⟩
    · rw [hops] at ho
      rcases List.mem_cons.mp ho with rfl | ho
      · exact .inr hp
      · exact .inl ⟨ho, by simp⟩
  · rcases hm.ops_eq with hkept | ⟨op, c, -, -, -, -, hops⟩ | ⟨j, hw, rfl, -, hops⟩ |
      ⟨j, b, io, -, -, -, hkept⟩
    · exact .inl ⟨hkept.mem_of_pending ho hst, by simp⟩
    · exact .inl ⟨List.mem_of_mem_erase (hops ▸ ho), by simp⟩
    · rw [hops] at ho
      rcases List.mem_cons.mp ho with rfl | ho
      · exact .inr (by simp [posts, hw, Op.posted])
      · exact .inl ⟨ho, by simp⟩
    · rcases List.mem_cons.mp (hkept.mem_of_pending ho hst) with rfl | ho
      · cases hk
      · exact .inl ⟨ho, by simp⟩
  · cases hm with
    | @arrived o₁ bs hmem hk₁ hst₁ =>
      rcases List.mem_cons.mp ho with rfl | ho
      · cases hst
      · refine .inl ⟨List.mem_of_mem_erase ho, fun o₂ bs₂ e hc => ?_⟩
        obtain ⟨rfl, -⟩ := NetAction.receive.inj (Action.net.inj e)
        have hle : s.outstanding o₁.kind o₁.ctx ≤ 1 := by
          rw [hk₁]
          exact (Nat.le_add_right _ _).trans (hs.single.load_le o₁.ctx)
        exact not_mem_erase hle hmem hc.symm (hk.trans hk₁.symm) ho
    | transmitted hmem hk₁ | completed hmem hk₁ =>
      rcases List.mem_cons.mp ho with rfl | ho
      · cases hk.symm.trans hk₁
      · exact .inl ⟨List.mem_of_mem_erase ho, by simp⟩
    | failed hmem =>
      rcases List.mem_cons.mp ho with rfl | ho
      · cases hst
      · exact .inl ⟨List.mem_of_mem_erase ho, by simp⟩

namespace State

/-- The buffer of a pending receive is empty. -/
def Blank (s : State n) : Prop :=
  ∀ o ∈ s.ops, o.kind = .recv → o.status = .pending → (s.ctx o.ctx).ioRecv.buffer = 0

theorem Blank.step {a : Action n} (h : s.Blank) (ho : s.Orderly) (hm : Move s a s') :
    s'.Blank := by
  intro o hmem hk hst
  rcases hm.pending_cases ho hmem hk hst with ⟨hold, hne⟩ | hp
  · rcases ho.ioRecv_cases hm o.ctx with e | ⟨-, e⟩ | ⟨o₁, bs, ha, -, hx, -⟩
    · rw [e]
      exact h o hold hk hst
    · exact e
    · exact absurd hx (hne o₁ bs ha)
  · exact hm.ioRecv_of_posts hp

end State

section Simulation

variable {g : Buffer → Buffer}

theorem Action.cut_eq_self {a : Action n} (ha : ∀ o bs, a ≠ .net (.receive o bs)) :
    a.cut = a := by
  unfold Action.cut
  split
  · rename_i o bs
    exact absurd rfl (ha o bs)
  · rfl

/-- Cutting the chunks commutes with the steps. -/
theorem step_cut (hg : Indistinct g) {a : Action n} (hb : s.Blank)
    (h : (proxy n).step s a = some s') (r : CtxId → List UInt8) :
    ∃ r', (proxy n).step (s.mapRecv g r) a.cut = some (s'.mapRecv g r') := by
  by_cases ha : ∃ o bs, a = .net (.receive o bs)
  · obtain ⟨o, bs, rfl⟩ := ha
    obtain ⟨hf, hmain, hm⟩ := step_move h
    obtain hm | hm | hm | hm := hm
    cases hm with
    | arrived hmem hk hst hlen =>
      refine ⟨Function.update r o.ctx (r o.ctx ++ CString.cutList bs), ?_⟩
      rw [arrived_mapRecv hg (hb o hmem hk hst)]
      refine (if_pos ⟨hf, hmain⟩).trans (if_pos ⟨hmem, hk, hst, ?_⟩)
      rwa [CString.length_cutList]
  · have hne : ∀ o bs, a ≠ .net (.receive o bs) := fun o bs e => ha ⟨o, bs, e⟩
    refine ⟨r, ?_⟩
    rw [Action.cut_eq_self hne]
    exact (step_mapRecv hg hne).trans (congrArg _ h)

/-! ### The condition on the steps -/

/-- Like `Undisturbed`, for chunks with zeros anywhere: a chunk that fills the buffer has one. -/
def Bounded (s : State n) : Action n → Prop
  | .net (.receive _ bs) => bs.length < maxBufferLen ∨ 0 ∈ bs
  | a => Undisturbed s a

instance (s : State n) : DecidablePred (Bounded s)
  | .net (.receive _ bs) => inferInstanceAs (Decidable (bs.length < maxBufferLen ∨ 0 ∈ bs))
  | .net (.transmit o k) => inferInstanceAs (Decidable (Undisturbed s (.net (.transmit o k))))
  | .net (.complete o) => inferInstanceAs (Decidable (Undisturbed s (.net (.complete o))))
  | .net (.fail o) => inferInstanceAs (Decidable (Undisturbed s (.net (.fail o))))
  | .worker w o => inferInstanceAs (Decidable (Undisturbed s (.worker w o)))
  | .accept o => inferInstanceAs (Decidable (Undisturbed s (.accept o)))
  | .main o => inferInstanceAs (Decidable (Undisturbed s (.main o)))

/-- `RelayReady`, for chunks with zeros anywhere. -/
def RelayBounded (s : State n) (a : Action n) : Prop :=
  IdealKeys s a ∧ TypeSafe s a ∧ Survives s a ∧ Bounded s a

/-- The cut chunks survive the copy. -/
theorem RelayBounded.cut {a : Action n} (h : RelayBounded s a) (r : CtxId → List UInt8) :
    RelayReady (s.mapRecv g r) a.cut := by
  obtain ⟨hkey, htype, hsurv, hbound⟩ := h
  cases a with
  | net b =>
    cases b with
    | receive o bs =>
      refine ⟨trivial, fun w o j e => (by cases e), trivial, CString.pairwise_cutList bs, ?_⟩
      rw [CString.length_cutList]
      exact hbound.imp_right CString.mem_cutList
    | _ => exact ⟨hkey, htype, hsurv, hbound⟩
  | _ => exact ⟨hkey, htype, hsurv, hbound⟩

theorem initial_mapRecv (hg : Indistinct g) :
    (initial n).mapRecv g (fun _ => []) = initial n := by
  have hnew : SocketContext.new.mapRecv g = SocketContext.new := mapRecv_new hg none false 0
  simp only [mapRecv, initial, hnew]

/-- A run goes like the run with the chunks cut. -/
theorem path_cut (hg : Indistinct g) {as : List (Action n)}
    (hp : (proxy n).Path RelayBounded (initial n) as s) :
    (proxy n).Path RelayReady (initial n) (as.map Action.cut) (s.mapRecv g (cutReceived as)) := by
  have himage := hp.simulate (N := proxy n) (H := RelayReady) (f := Action.cut) (u := initial n)
    (R := fun s u => s.Orderly ∧ s.Blank ∧ ∃ r, u = s.mapRecv g r) ?_
    ⟨orderly_initial, by simp [Blank, initial], fun _ => [], (initial_mapRecv hg).symm⟩
  · obtain ⟨_, hpath, -, -, r, rfl⟩ := himage
    have hr : r = cutReceived as := by
      funext x
      have hrec : r x = (chunks x (as.map Action.cut)).flatten := received_of_path hpath x
      rw [hrec, chunks_cut, cutReceived]
    rwa [← hr]
  · rintro s _ a s' ⟨ho, hb, r, rfl⟩ hG hstep
    obtain ⟨r', hstep'⟩ := step_cut hg hb hstep r
    have hm := (step_move hstep).2.2
    exact ⟨_, hG.cut r, hstep', ho.step hG.1 hG.2.1 hm, hb.step ho hm, r', rfl⟩

/-- What the run with the chunks cut says of the run. -/
theorem relayed_of_path (hg : Indistinct g) {as : List (Action n)}
    (hp : (proxy n).Path RelayBounded (initial n) as s) :
    (s.fault = none ∨ s.fault = some .nullBuddy) ∧ ∀ x y, s.Partner x y →
      s.sent y <+: cutReceived as x ∧
      (s.broken y = false → x ∈ s.clientContext → s.Still x y → s.sent y = cutReceived as x) := by
  have hs : (proxy n).Reachable RelayReady (s.mapRecv g (cutReceived as)) :=
    (path_cut hg hp).reachable .init fun _ _ h => h
  obtain ⟨-, -, -, h⟩ := relayed_of_reachable hs
  exact ⟨h.fault, fun x y hxy => ⟨(h.flow x y hxy).1, h.sent_eq hs hxy⟩⟩

end Simulation

/-- A run whose chunks are shorter than the buffer or hold a zero goes step by step like the run
with the chunks cut, up to the contents of the receive buffers: what was transmitted on a socket is
the beginning of the chunks its buddy received, each with zeros after its first zero, so every byte
comes out at its place, or as a zero. When nothing is on its way, all of it was transmitted, if the
socket still transmits and its buddy is on the client list. -/
theorem relay_truncates {as : List (Action n)}
    (hp : (proxy n).Path RelayBounded (initial n) as s) :
    (proxy n).Path RelayReady (initial n) (as.map Action.cut)
      (s.mapRecv CString.cut (cutReceived as)) ∧
    (s.fault = none ∨ s.fault = some .nullBuddy) ∧ ∀ x y, s.Partner x y →
      s.received x = (chunks x as).flatten ∧ s.sent y <+: cutReceived as x ∧
      (∀ (i : ℕ) b, (s.sent y)[i]? = some b → b = 0 ∨ (s.received x)[i]? = some b) ∧
      (s.broken y = false → x ∈ s.clientContext → s.Still x y → s.sent y = cutReceived as x) := by
  obtain ⟨hf, h⟩ := relayed_of_path indistinct_cut hp
  refine ⟨path_cut indistinct_cut hp, hf, fun x y hxy => ?_⟩
  have hrec : s.received x = (chunks x as).flatten := received_of_path hp x
  obtain ⟨hpre, hall⟩ := h x y hxy
  refine ⟨hrec, hpre, fun i b hi => ?_, hall⟩
  obtain ⟨rest, hrest⟩ := hpre
  rw [hrec]
  refine CString.getElem?_flatten_cutList ?_
  rw [← cutReceived, ← hrest, List.getElem?_append_left (List.getElem?_eq_some_iff.mp hi).1]
  exact hi

set_option maxRecDepth 10000 in
/-- What follows the zero of the first chunk comes out as zeros, the second chunk as it is. -/
theorem relay_truncates_run :
    ∃ s : State 2, s.received 0 = [65, 0, 66, 67, 68] ∧ s.sent 1 = [65, 0, 0, 67, 68] ∧
      ∃ r, (proxy 2).Reachable RelayReady (s.mapRecv CString.cut r) := by
  let as : List (Action 2) := startUp ++ connection 11 12 ++ relay 0 0 [65, 0, 66] ++
    sendDone 1 1 3 ++ relay 1 0 [67, 68] ++ sendDone 0 1 2
  have hrun : ((proxy 2).runChecked (fun s a => KeyedAtomic s a ∧ Survives s a ∧ Bounded s a)
      (initial 2) as).any (fun s => (s.ctx 0).buddy.strong = some 1 ∧ s.broken 1 = false ∧
        0 ∈ s.clientContext ∧ s.Still 0 1) = true := by decide +kernel
  obtain ⟨s, hs, hend⟩ := (Option.any_eq_true _ _).mp hrun
  obtain ⟨hp, hb, hmem, hstill⟩ := of_decide_eq_true hend
  have hpath : (proxy 2).Path RelayBounded (initial 2) as s :=
    (TransitionSystem.Path.of_runChecked hs).mono fun s a ⟨hkey, hrest⟩ =>
      ⟨hkey.1, hkey.2.typeSafe, hrest⟩
  obtain ⟨hcut, -, h⟩ := relay_truncates hpath
  obtain ⟨hrec, -, -, hall⟩ := h 0 1 (.inl hp)
  exact ⟨s, hrec, hall hb hmem hstill, _, hcut.reachable .init fun _ _ h => h⟩

end IocpProxy
