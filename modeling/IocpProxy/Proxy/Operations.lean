import IocpProxy.Proxy.Invariant

/-!
# Outstanding operations

How many operations of a kind are outstanding on a context, and how the parts of a step change
that number. Closing sockets and destroying contexts fail pending operations, but their
completions are still to come, so the number stays.

## Main definitions

* `IocpProxy.State.outstanding` : the number of operations of a kind on a context.
* `IocpProxy.State.Kept` : the operations are as before, or failed with their socket.
* `IocpProxy.State.posts` : the operation an action posts.

## Main results

* `IocpProxy.State.Kept.outstanding`, `IocpProxy.State.outstanding_erase`,
  `IocpProxy.State.outstanding_replaceOp`.
* `IocpProxy.MainMove.kept`, `IocpProxy.AcceptMove.ops_eq`, `IocpProxy.WorkerMove.ops_eq`.
* `IocpProxy.Move.outstanding_pos`.
-/

namespace IocpProxy

variable {n : ℕ} {s s' : State n}

@[simp] theorem Op.ctx_abort (o : Op) : o.abort.ctx = o.ctx := by
  unfold Op.abort
  split_ifs <;> rfl

@[simp] theorem Op.kind_abort (o : Op) : o.abort.kind = o.kind := by
  unfold Op.abort
  split_ifs <;> rfl

/-- Closing a socket fails its operations without bytes. -/
theorem Op.len_abort (o : Op) : o.abort.len = o.len := by
  unfold Op.abort
  split_ifs <;> rfl

theorem Op.status_abort {o : Op} {ok : Bool} {bytes : ℕ} (h : o.abort.status = .done ok bytes) :
    o.status = .done ok bytes ∨ ok = false ∧ bytes = 0 := by
  unfold Op.abort at h
  split_ifs at h
  · rw [OpStatus.done.injEq] at h
    exact .inr ⟨h.1.symm, h.2.symm⟩
  · exact .inl h

namespace State

/-- The number of operations of a kind on a context whose completion is not yet dequeued. -/
def outstanding (s : State n) (k : OpKind) (x : CtxId) : ℕ :=
  s.ops.countP fun o => o.ctx = x ∧ o.kind = k

theorem outstanding_pos_iff {k : OpKind} {x : CtxId} :
    0 < s.outstanding k x ↔ ∃ o ∈ s.ops, o.ctx = x ∧ o.kind = k := by
  simp only [outstanding, List.countP_pos_iff, decide_eq_true_eq]

theorem outstanding_pos {o : Op} (ho : o ∈ s.ops) : 0 < s.outstanding o.kind o.ctx :=
  outstanding_pos_iff.mpr ⟨o, ho, rfl, rfl⟩

/-! ### Operations that are kept -/

/-- Operations are kept, or failed because the socket was closed; a closed socket stays so. -/
def Kept (s s' : State n) : Prop :=
  (∃ f : Op → Op, s'.ops = s.ops.map f ∧
    ∀ o ∈ s.ops, f o = o ∨ f o = o.abort ∧ s'.broken o.ctx = true) ∧
    ∀ x, s.broken x = true → s'.broken x = true

theorem Kept.of_eq (ho : s'.ops = s.ops) (hb : s'.broken = s.broken) : s.Kept s' :=
  ⟨⟨id, by rw [ho, List.map_id], fun _ _ => .inl rfl⟩, fun _ h => hb ▸ h⟩

/-- The operations of some contexts fail. -/
theorem Kept.abort (P : CtxId → Prop) [DecidablePred P]
    (ho : s'.ops = s.ops.map fun o => if P o.ctx then o.abort else o)
    (hb : s'.broken = fun x => s.broken x || decide (P x)) : s.Kept s' := by
  refine ⟨⟨_, ho, fun o _ => ?_⟩, fun x hx => by simp [hb, hx]⟩
  by_cases hP : P o.ctx
  · exact .inr ⟨if_pos hP, by simp [hb, hP]⟩
  · exact .inl (if_neg hP)

theorem Kept.trans {s'' : State n} (h : s.Kept s') (h' : s'.Kept s'') : s.Kept s'' := by
  obtain ⟨⟨f, hf, hfo⟩, hb⟩ := h
  obtain ⟨⟨g, hg, hgo⟩, hb'⟩ := h'
  have habort : ∀ o : Op, o.abort.abort = o.abort := fun o => by
    unfold Op.abort
    split_ifs <;> simp_all
  refine ⟨⟨g ∘ f, by rw [hg, hf, List.map_map], fun o ho => ?_⟩, fun x hx => hb' x (hb x hx)⟩
  have hmem : f o ∈ s'.ops := hf ▸ List.mem_map_of_mem ho
  rw [Function.comp_apply]
  rcases hfo o ho with e | ⟨e, hbr⟩ <;> rcases hgo (f o) hmem with e' | ⟨e', hbr'⟩ <;>
    rw [e', e]
  · exact .inl rfl
  · exact .inr ⟨rfl, e ▸ hbr'⟩
  · exact .inr ⟨rfl, hb' _ hbr⟩
  · exact .inr ⟨habort o, hb' _ hbr⟩

theorem Kept.release (x : CtxId) : s.Kept (s.release x) := .abort (· ∈ s.doomed x) rfl rfl

theorem Kept.releaseOpt (x : Option CtxId) : s.Kept (s.releaseOpt x) := by
  cases x with
  | none => exact .of_eq rfl rfl
  | some x => exact .release x

theorem Kept.closeSocket (h : Option Handle) : s.Kept (s.closeSocket h) :=
  .abort (fun x => h ≠ none ∧ (s.ctx x).socket = h) rfl rfl

theorem Kept.cleanClientList : s.Kept s.cleanClientList := by
  unfold State.cleanClientList
  generalize s.clientContext = l
  induction l generalizing s with
  | nil => exact .of_eq rfl rfl
  | cons x l ih =>
    have hx : s.Kept ({ s with clientContext := s.clientContext.erase x } : State n) :=
      .of_eq rfl rfl
    exact (hx.trans (.release x)).trans ih

theorem Kept.removeFromClientList (x : Option CtxId) : s.Kept (s.removeFromClientList x) := by
  cases x <;> exact .of_eq rfl rfl

theorem Kept.linked (c r : CtxId) : s.Kept (s.linked c r) := by
  have hset : ∀ (t : State n) (u v : CtxId), t.Kept (t.setBuddySocketContext u v) :=
    fun t u v => (Kept.of_eq rfl rfl : t.Kept (t.setCtx u _)).trans (.releaseOpt _)
  exact ((hset s c r).trans (hset _ r c)).trans (.of_eq rfl rfl)

/-- Kept operations are operations of the same kind on the same contexts. -/
theorem Kept.exists_map (hk : s.Kept s') : ∃ f : Op → Op, s'.ops = s.ops.map f ∧
    ∀ o ∈ s.ops, (f o).ctx = o.ctx ∧ (f o).kind = o.kind ∧
      (f o = o ∨ f o = o.abort ∧ s'.broken o.ctx = true) := by
  obtain ⟨⟨f, hf, hfo⟩, -⟩ := hk
  refine ⟨f, hf, fun o ho => ?_⟩
  rcases hfo o ho with e | ⟨e, hb⟩ <;> rw [e]
  · exact ⟨rfl, rfl, .inl rfl⟩
  · exact ⟨o.ctx_abort, o.kind_abort, .inr ⟨rfl, hb⟩⟩

/-- A property that failing an operation keeps. -/
theorem Kept.forall_ops {p : Op → Prop} (hk : s.Kept s') (hp : ∀ o, p o → p o.abort)
    (h : ∀ o ∈ s.ops, p o) : ∀ o ∈ s'.ops, p o := by
  obtain ⟨f, hf, hfo⟩ := hk.exists_map
  intro o ho
  obtain ⟨o₀, ho₀, rfl⟩ := List.mem_map.mp (hf ▸ ho)
  rcases (hfo o₀ ho₀).2.2 with e | ⟨e, -⟩ <;> rw [e]
  · exact h o₀ ho₀
  · exact hp o₀ (h o₀ ho₀)

/-- The operations on a socket that is not closed stay as they are. -/
theorem Kept.mem_iff (hk : s.Kept s') {o : Op} (hb : s'.broken o.ctx = false) :
    o ∈ s'.ops ↔ o ∈ s.ops := by
  obtain ⟨f, hf, hfo⟩ := hk.exists_map
  rw [hf, List.mem_map]
  constructor
  · rintro ⟨o₀, ho₀, rfl⟩
    obtain ⟨hc, -, e | ⟨-, hb'⟩⟩ := hfo o₀ ho₀
    · exact e.symm ▸ ho₀
    · rw [hc, hb'] at hb
      cases hb
  · intro ho
    rcases (hfo o ho).2.2 with e | ⟨-, hb'⟩
    · exact ⟨o, ho, e⟩
    · rw [hb'] at hb
      cases hb

theorem Kept.outstanding (hk : s.Kept s') (k : OpKind) (x : CtxId) :
    s'.outstanding k x = s.outstanding k x := by
  obtain ⟨f, hf, hfo⟩ := hk.exists_map
  rw [State.outstanding, State.outstanding, hf, List.countP_map]
  refine List.countP_congr fun o ho => ?_
  obtain ⟨hc, hkind, -⟩ := hfo o ho
  rw [Function.comp_apply, hc, hkind]

@[simp] theorem outstanding_release (y : CtxId) (k : OpKind) (x : CtxId) :
    (s.release y).outstanding k x = s.outstanding k x :=
  (Kept.release y).outstanding k x

/-! ### Operations that are posted, dequeued or replaced -/

/-- A posted operation is outstanding. -/
theorem outstanding_cons {o : Op} (h : s'.ops = o :: s.ops) (k : OpKind) (x : CtxId) :
    s'.outstanding k x = s.outstanding k x + if o.ctx = x ∧ o.kind = k then 1 else 0 := by
  simp only [outstanding, h, List.countP_cons, decide_eq_true_eq]

theorem outstanding_posted {y : CtxId} {k' : OpKind} {len : ℕ}
    (h : s'.ops = .posted y k' len :: s.ops) (k : OpKind) (x : CtxId) :
    s'.outstanding k x = s.outstanding k x + if some (k', y) = some (k, x) then 1 else 0 := by
  rw [outstanding_cons h]
  refine congrArg _ (if_congr ?_ rfl rfl)
  simp [Op.posted, and_comm]

/-- A dequeued operation is no longer outstanding. -/
theorem outstanding_erase {o : Op} (ho : o ∈ s.ops) (h : s'.ops = s.ops.erase o) (k : OpKind)
    (x : CtxId) :
    s'.outstanding k x + (if o.ctx = x ∧ o.kind = k then 1 else 0) = s.outstanding k x := by
  have hperm := (List.perm_cons_erase ho).countP_eq fun o => decide (o.ctx = x ∧ o.kind = k)
  rw [outstanding, outstanding, h, hperm, List.countP_cons]
  simp only [decide_eq_true_eq]

/-- Besides the one outstanding operation of a kind on a context there is no other. -/
theorem not_mem_erase {o o' : Op} (h : s.outstanding o.kind o.ctx ≤ 1) (ho : o ∈ s.ops)
    (hc : o'.ctx = o.ctx) (hk : o'.kind = o.kind) : o' ∉ s.ops.erase o := by
  intro hmem
  let t : State n := { s with ops := s.ops.erase o }
  have herase : t.outstanding o.kind o.ctx + _ = s.outstanding o.kind o.ctx :=
    outstanding_erase ho rfl o.kind o.ctx
  rw [if_pos ⟨rfl, rfl⟩] at herase
  have hpos : 0 < t.outstanding o.kind o.ctx := outstanding_pos_iff.mpr ⟨o', hmem, hc, hk⟩
  omega

/-- Two operations of a kind on a context are one when at most one is outstanding. -/
theorem eq_of_outstanding_le_one {o o' : Op} (h : s.outstanding o.kind o.ctx ≤ 1)
    (ho : o ∈ s.ops) (ho' : o' ∈ s.ops) (hc : o'.ctx = o.ctx) (hk : o'.kind = o.kind) :
    o' = o := by
  by_contra hne
  exact not_mem_erase h ho hc hk ((List.mem_erase_of_ne hne).mpr ho')

/-- An operation replaced by its next form. -/
theorem outstanding_replaceOp {o : Op} (ho : o ∈ s.ops) (o' : Op) (hc : o'.ctx = o.ctx)
    (hk : o'.kind = o.kind) (k : OpKind) (x : CtxId) :
    (s.replaceOp o o').outstanding k x = s.outstanding k x := by
  let t : State n := { s with ops := s.ops.erase o }
  have herase : t.outstanding k x + _ = s.outstanding k x := outstanding_erase ho rfl k x
  have hcons : (s.replaceOp o o').outstanding k x = t.outstanding k x + _ :=
    outstanding_cons rfl k x
  rw [hc, hk] at hcons
  exact hcons.trans herase

end State

open State

theorem NetMove.outstanding {a : NetAction} (hm : NetMove s a s') (k : OpKind) (x : CtxId) :
    s'.outstanding k x = s.outstanding k x := by
  cases hm with
  | @arrived o bs ho =>
    exact outstanding_replaceOp ho { o with status := .done true bs.length } rfl rfl k x
  | @transmitted o j ho => exact outstanding_replaceOp ho { o with off := o.off + j } rfl rfl k x
  | @completed o ho =>
    exact outstanding_replaceOp ho { o with status := .done true o.off } rfl rfl k x
  | @failed o ho =>
    exact outstanding_replaceOp ho { o with status := .done false 0 } rfl rfl k x

theorem MainMove.kept {o : MainOutcome} (hm : MainMove s o s') : s.Kept s' := by
  cases hm with
  | sweep => exact Kept.cleanClientList.trans (.of_eq rfl rfl)
  | _ => exact .of_eq rfl rfl

theorem MainMove.outstanding {o : MainOutcome} (hm : MainMove s o s') (k : OpKind) (x : CtxId) :
    s'.outstanding k x = s.outstanding k x :=
  hm.kept.outstanding k x

/-- The operation that an action posts if its call succeeds. -/
def State.posts (s : State n) : Action n → Option (OpKind × CtxId)
  | .accept .ok =>
    match s.accept.pc with
    | .recv d => (s.accept.side d).map fun x => (.recv, x)
    | _ => none
  | .worker w .ok =>
    match s.worker w with
    | .busy j (.fill b) =>
      if ((s.ctx b).ioSend.fill (s.ctx j.ctx).ioRecv.buffer (UInt16.ofNat j.bytes)).isSome then
        some (.send, b)
      else none
    | .busy j .recv => some (.recv, j.ctx)
    | _ => none
  | _ => none

/-- Who posts an operation: the accept thread before the first reads of its pair, or a worker in
`Send` or `Recv`. -/
theorem State.posts_eq_some {a : Action n} {k : OpKind} {x : CtxId}
    (h : s.posts a = some (k, x)) :
    (∃ d, a = .accept .ok ∧ s.accept.pc = .recv d ∧ s.accept.side d = some x ∧ k = .recv) ∨
      (∃ w j io, a = .worker w .ok ∧ s.worker w = .busy j (.fill x) ∧ k = .send ∧
        (s.ctx x).ioSend.fill (s.ctx j.ctx).ioRecv.buffer (UInt16.ofNat j.bytes) = some io) ∨
      ∃ w j, a = .worker w .ok ∧ s.worker w = .busy j .recv ∧ x = j.ctx ∧ k = .recv := by
  cases a with
  | accept o =>
    cases o with
    | ok =>
      cases hpc : s.accept.pc with
      | recv d =>
        simp only [State.posts, hpc, Option.map_eq_some_iff, Prod.mk.injEq] at h
        obtain ⟨y, hy, rfl, rfl⟩ := h
        exact .inl ⟨d, rfl, rfl, hy, rfl⟩
      | _ => simp [State.posts, hpc] at h
    | _ => simp [State.posts] at h
  | worker w o =>
    cases o with
    | ok =>
      cases hw : s.worker w with
      | busy j st =>
        cases st with
        | fill b =>
          simp only [State.posts, hw] at h
          split_ifs at h with hf
          obtain ⟨rfl, rfl⟩ := Prod.mk.inj (Option.some.inj h)
          obtain ⟨io, hio⟩ := Option.isSome_iff_exists.mp hf
          exact .inr (.inl ⟨w, j, io, rfl, hw, rfl, hio⟩)
        | recv =>
          simp only [State.posts, hw, Option.some.injEq, Prod.mk.injEq] at h
          obtain ⟨rfl, rfl⟩ := h
          exact .inr (.inr ⟨w, j, rfl, hw, rfl, rfl⟩)
        | _ => simp [State.posts, hw] at h
      | _ => simp [State.posts, hw] at h
    | _ => simp [State.posts] at h
  | _ => simp [State.posts] at h

/-- The accept thread keeps the operations, or posts a first read. -/
theorem AcceptMove.ops_eq {o : AcceptOutcome} (hm : AcceptMove s o s') :
    (s.Kept s' ∧ s.posts (.accept o) = none) ∨
      ∃ x, s.posts (.accept o) = some (.recv, x) ∧ s'.broken = s.broken ∧
        s'.ops = .posted x .recv maxBufferLen :: s.ops := by
  cases hm with
  | posted hpc hx ht => exact .inr ⟨_, by simp [State.posts, hpc, hx], rfl, rfl⟩
  | linked hpc => exact .inl ⟨.linked _ _, by simp [State.posts, hpc]⟩
  | stop hpc | associated hpc | added hpc =>
    exact .inl ⟨.of_eq rfl rfl, by simp [State.posts, hpc]⟩
  | exitClosed hpc =>
    refine .inl ⟨?_, by simp [State.posts, hpc]⟩
    unfold State.exitClosed
    cases s.accept.socket with
    | none => exact .of_eq rfl rfl
    | some h => exact (Kept.closeSocket h).trans (.of_eq rfl rfl)
  | exitRemoved hpc =>
    exact .inl ⟨(Kept.removeFromClientList _).trans (.of_eq rfl rfl), by simp [State.posts, hpc]⟩
  | @exitNulled d hpc =>
    have hclear : s.Kept ({ s with accept := { s.accept.clear d with pc := afterNull d } } :
        State n) := .of_eq rfl rfl
    exact .inl ⟨hclear.trans (.releaseOpt _), by simp [State.posts, hpc]⟩
  | returned hpc =>
    let s₁ : State n := { s with accept := { s.accept with remote := none } }
    let s₂ := s₁.releaseOpt s.accept.remote
    let s₃ : State n :=
      { s₂ with accept := { s₂.accept with client := none, socket := none, pc := .loop } }
    have h₁ : s.Kept s₁ := .of_eq rfl rfl
    have h₃ : s₂.Kept s₃ := .of_eq rfl rfl
    exact .inl ⟨((h₁.trans (.releaseOpt _)).trans h₃).trans (.releaseOpt _),
      by simp [State.posts, hpc]⟩
  | _ => exact .inl ⟨.of_eq rfl rfl, rfl⟩

theorem AcceptMove.outstanding {o : AcceptOutcome} (hm : AcceptMove s o s') (k : OpKind)
    (x : CtxId) :
    s'.outstanding k x =
      s.outstanding k x + if s.posts (.accept o) = some (k, x) then 1 else 0 := by
  rcases hm.ops_eq with ⟨hk, hp⟩ | ⟨y, hp, -, hops⟩
  · rw [hp, hk.outstanding]
    exact (Nat.add_zero _).symm
  · rw [hp]
    exact outstanding_posted hops k x

theorem WorkerMove.outstanding {w : Fin n} {o : WorkerOutcome} (hm : WorkerMove s w o s')
    (k : OpKind) (x : CtxId) :
    s'.outstanding k x ≤
      s.outstanding k x + if s.posts (.worker w o) = some (k, x) then 1 else 0 := by
  cases hm with
  | @dequeued op c ok bytes hw ho =>
    have herase : (s.dequeued w op c ok bytes).outstanding k x + _ = s.outstanding k x :=
      outstanding_erase ho rfl k x
    omega
  | sent hw hf ht =>
    rename_i j b io
    have hposts : s.posts (.worker w .ok) = some (.send, b) := by simp [State.posts, hw, hf]
    rw [outstanding_release, hposts]
    exact (outstanding_posted (by rfl) k x).le
  | received hw ht =>
    rename_i j
    have hposts : s.posts (.worker w .ok) = some (.recv, j.ctx) := by simp [State.posts, hw]
    rw [hposts]
    exact (outstanding_posted (by rfl) k x).le
  | notSent | finished => exact (outstanding_release _ k x).le.trans (Nat.le_add_right _ _)
  | _ => exact Nat.le_add_right _ _

/-- An operation of a kind is outstanding on a context only if it was already, or if the action
posts one. -/
theorem Move.outstanding_pos {a : Action n} (hm : Move s a s') {k : OpKind} {x : CtxId}
    (h : 0 < s'.outstanding k x) : 0 < s.outstanding k x ∨ s.posts a = some (k, x) := by
  by_contra hn
  rw [not_or] at hn
  rcases hm with hm | hm | hm | hm
  · have heq := hm.outstanding k x
    omega
  · have heq := hm.outstanding k x
    rw [if_neg hn.2] at heq
    omega
  · have hle := hm.outstanding k x
    rw [if_neg hn.2] at hle
    omega
  · have heq := hm.outstanding k x
    omega

/-! ### What becomes of an operation -/

/-- A worker keeps the operations, takes one of them, or posts one. -/
theorem WorkerMove.ops_eq {w : Fin n} {o : WorkerOutcome} (hm : WorkerMove s w o s') :
    s.Kept s' ∨
      (∃ op c, o = .dequeue op c ∧ op ∈ s.ops ∧ op.status ≠ .pending ∧
        s'.broken = s.broken ∧ s'.ops = s.ops.erase op) ∨
      (∃ j, s.worker w = .busy j .recv ∧ o = .ok ∧ s'.broken = s.broken ∧
        s'.ops = .posted j.ctx .recv maxBufferLen :: s.ops) ∨
      ∃ j b io, s.worker w = .busy j (.fill b) ∧ o = .ok ∧
        (s.ctx b).ioSend.fill (s.ctx j.ctx).ioRecv.buffer (UInt16.ofNat j.bytes) = some io ∧
        ((s.postSend b io ⟨j.ctx, j.seq, io.dataBufLen⟩).setWorker w (.busy j .recv)).Kept s' := by
  cases hm with
  | dequeued hw ho hst => exact .inr (.inl ⟨_, _, rfl, ho, by simp [hst], rfl, rfl⟩)
  | received hw ht => exact .inr (.inr (.inl ⟨_, hw, rfl, rfl, rfl⟩))
  | sent hw hf ht => exact .inr (.inr (.inr ⟨_, _, _, hw, rfl, hf, .release _⟩))
  | @notSent j b io hw hf =>
    have hstore : s.Kept ((s.storeSend b io).setWorker w (.busy j .failed)) := .of_eq rfl rfl
    exact .inl (hstore.trans (.release _))
  | removed hw => exact .inl (.of_eq rfl rfl)
  | @finished j hw =>
    have hset : s.Kept (({ s with torn := if j.Gone then insert j.ctx s.torn else s.torn } :
        State n).setWorker w .waiting) := .of_eq rfl rfl
    exact .inl (hset.trans (.release _))
  | _ => exact .inl (.of_eq rfl rfl)

end IocpProxy
