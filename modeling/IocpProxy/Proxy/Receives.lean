import IocpProxy.Proxy.Records

/-!
# One receive at a time

A context has at most one receive outstanding or being handled by a worker. The argument needs
that a worker can tell a read completion from a write completion. The two are told apart by
`IoType`, which `Send` clears for a moment before it sets it to `OP_WRITE`.

## Main definitions

* `IocpProxy.TypeSafe` : no write completion is looked at in that moment.
* `IocpProxy.State.Typed`, `IocpProxy.State.Sized`, `IocpProxy.State.Single`.
* `IocpProxy.Turn` : what a step of a worker does to the flow of bytes between two contexts.

## Main results

* `IocpProxy.State.Typed.step`, `IocpProxy.State.Sized.step`, `IocpProxy.State.Single.step`.
* `IocpProxy.WorkerMove.turn`.
-/

namespace IocpProxy

open State

variable {n : ℕ} {s s' : State n}

/-! ### Read and write completions are told apart -/

/-- A worker does not look at the type of a send record while another worker has it cleared. -/
def TypeSafe (s : State n) (a : Action n) : Prop :=
  ∀ w o j, a = .worker w o → s.worker w = .busy j .dispatch → j.kind = .send →
    ∀ w' j', s.worker w' ≠ .busy j' (.fill j.owner)

/-- The stages from the check of a completion on that only read completions get to. -/
def Stage.Forwarding : Stage → Prop
  | .dispatch | .failed | .finish => False
  | _ => True

instance : DecidablePred Stage.Forwarding
  | .dispatch | .failed | .finish => instDecidableFalse
  | .forward | .forwardSend | .send _ | .fill _ | .recv => instDecidableTrue

/-- The stages before a forwarding one. -/
theorem Stage.Next.forwarding {j : Job} {st st' : Stage} (h : st.Next s j st')
    (hf : st'.Forwarding) : st = .dispatch ∧ st' = s.dispatch j ∨ st.Forwarding := by
  cases h with
  | dispatch => exact .inl ⟨rfl, rfl⟩
  | _ => first | exact .inr trivial | exact hf.elim

/-- The worker has taken a read completion of `x`, and has neither called `Recv` again nor given
up. -/
def Worker.Reading (x : CtxId) : Worker → Prop
  | .busy j st => j.owner = x ∧ j.kind = .recv ∧ st ≠ .failed ∧ st ≠ .finish
  | _ => False

instance (x : CtxId) : DecidablePred (Worker.Reading x)
  | .busy j st =>
    inferInstanceAs (Decidable (j.owner = x ∧ j.kind = .recv ∧ st ≠ .failed ∧ st ≠ .finish))
  | .waiting | .exited => instDecidableFalse

/-- A worker that goes on to a stage before `Recv` has not given up. -/
theorem Stage.Next.reading {j : Job} {st st' : Stage} (h : st.Next s j st')
    (hst : st' ≠ .failed ∧ st' ≠ .finish) : st ≠ .failed ∧ st ≠ .finish := by
  cases h with
  | removed => exact absurd rfl hst.2
  | _ => constructor <;> simp

/-- A receive asks for the bytes of the buffer, and brings no more. -/
def Op.Fits (o : Op) : Prop :=
  o.kind = .recv → o.len = maxBufferLen ∧
    ∀ ok bytes, o.status = .done ok bytes → bytes ≤ maxBufferLen

theorem Op.Fits.abort {o : Op} (h : o.Fits) : o.abort.Fits := by
  intro hk
  rw [Op.kind_abort] at hk
  obtain ⟨hlen, hdone⟩ := h hk
  refine ⟨(Op.len_abort o).trans hlen, fun ok bytes hst => ?_⟩
  rcases Op.status_abort hst with hst | ⟨-, rfl⟩
  · exact hdone ok bytes hst
  · exact Nat.zero_le _

theorem Op.Fits.posted (x : CtxId) (k : OpKind) {len : ℕ} (hl : k = .recv → len = maxBufferLen) :
    (Op.posted x k len).Fits :=
  fun hk => ⟨hl hk, fun _ _ hst => nomatch hst⟩

namespace State

/-- The types of the records, and what the workers know from them. -/
structure Typed (s : State n) : Prop where
  recvType : ∀ x, (s.ctx x).ioRecv.ioType = opRead
  sendType : ∀ x, (s.ctx x).ioSend.ioType = opWrite ∨ ∃ w j, s.worker w = .busy j (.fill x)
  stage : ∀ w j st, s.worker w = .busy j st → st.Forwarding → j.kind = .recv ∧ ¬ j.Gone

/-- A positive-length completion whose record has the type of a read is a read. -/
theorem Typed.dispatch (h : s.Typed) {w : Fin n} {o : WorkerOutcome} {j : Job}
    (ht : TypeSafe s (.worker w o)) (hw : s.worker w = .busy j .dispatch)
    (hst : (s.dispatch j).Forwarding) : j.kind = .recv ∧ ¬ j.Gone := by
  unfold State.dispatch at hst
  split_ifs at hst with hg hr
  · exact hst.elim
  · refine ⟨?_, hg⟩
    cases hk : j.kind with
    | recv => rfl
    | send =>
      rcases h.sendType j.owner with hsend | ⟨w', j', hw'⟩
      · simp only [ioTypeOf, hk, hsend] at hr
        exact absurd hr (by decide)
      · exact absurd hw' (ht w o j rfl hw hk w' j')
  · exact hst.elim

/-- The workers go on as they are, and the records keep their types. -/
theorem Typed.of_records (h : s.Typed) (hw : s'.worker = s.worker)
    (hr : ∀ x, (s'.ctx x).ioRecv.ioType = (s.ctx x).ioRecv.ioType ∨
      (s'.ctx x).ioRecv.ioType = opRead)
    (hsend : ∀ x, (s'.ctx x).ioSend = (s.ctx x).ioSend ∨ (s'.ctx x).ioSend.ioType = opWrite) :
    s'.Typed where
  recvType x := (hr x).elim (fun e => e.trans (h.recvType x)) id
  sendType x := by
    rw [hw]
    rcases hsend x with e | e
    · rw [e]
      exact h.sendType x
    · exact .inl e
  stage := hw ▸ h.stage

theorem Typed.step {a : Action n} (h : s.Typed) (ht : TypeSafe s a) (hm : Move s a s') :
    s'.Typed := by
  rcases hm with hm | hm | hm | hm
  · refine h.of_records hm.frame.2.2.2.2.2.1 (fun x => ?_) fun x => ?_ <;> rw [hm.frame.1]
    · exact .inl rfl
    · exact .inl rfl
  · refine h.of_records hm.frame.1 (fun x => ?_) fun x => ?_
    · rcases (hm.records_eq x).2 with e | ⟨-, e⟩ | ⟨-, -, -, e⟩ <;> rw [e]
      · exact .inl rfl
      · exact .inr rfl
      · exact .inr rfl
    · rcases (hm.records_eq x).1 with e | ⟨-, e⟩
      · exact .inl e
      · exact .inr (e ▸ rfl)
  · rename_i w o
    refine ⟨fun x => ?_, fun x => ?_, fun w' j st hj hst => ?_⟩
    · rcases hm.ioRecv_eq x with e | ⟨-, -, -, e⟩ <;> rw [e]
      · exact h.recvType x
      · rfl
    · rcases hm.ioSend_eq x with ⟨e, hfill⟩ | ⟨j, -, hw, -⟩ | ⟨j, -, hf⟩
      · rw [e]
        refine (h.sendType x).imp_right fun ⟨w', j, hj⟩ => ⟨w', j, ?_⟩
        by_cases hw : w' = w
        · exact hw ▸ hfill j (hw ▸ hj)
        · rw [hm.worker_of_ne hw, hj]
      · exact .inr ⟨w, j, hw⟩
      · exact .inl (IoOperationData.fill_eq_some hf).2.1
    · rcases (Move.worker hm).busy hj with hw | ⟨op, c, ok, bytes, -, -, -, rfl, -⟩ |
        ⟨o', st₀, ha, hw, hn⟩
      · exact h.stage w' j st hw hst
      · exact hst.elim
      · cases ha
        rcases hn.forwarding hst with ⟨rfl, rfl⟩ | hst₀
        · exact h.dispatch ht hw hst
        · exact h.stage _ j st₀ hw hst₀
  · refine h.of_records hm.frame.2.2.2.2.2.2.1 (fun x => ?_) fun x => .inl (hm.records_eq x).1
    rcases (hm.records_eq x).2 with e | ⟨o, bs, -, -, -, -, -, e⟩ <;> rw [e] <;> exact .inl rfl

/-! ### Byte counts -/

/-- No receive asks for, or brings, more bytes than the buffer has. -/
structure Sized (s : State n) : Prop where
  ops : ∀ o ∈ s.ops, o.Fits
  job : ∀ w j st, s.worker w = .busy j st → j.kind = .recv → j.bytes ≤ maxBufferLen

theorem Sized.step {a : Action n} (h : s.Sized) (hm : Move s a s') : s'.Sized := by
  have cons : ∀ {t : State n} {o'}, t.ops = o' :: s.ops → o'.Fits → ∀ o ∈ t.ops, o.Fits := by
    intro t o' hops hnew o ho
    rw [hops] at ho
    rcases List.mem_cons.mp ho with rfl | ho
    · exact hnew
    · exact h.ops o ho
  have replaced : ∀ {o₀ o' : Op}, s'.ops = o' :: s.ops.erase o₀ → o'.Fits →
      ∀ o ∈ s'.ops, o.Fits := by
    intro o₀ o' hops hnew o ho
    rw [hops] at ho
    rcases List.mem_cons.mp ho with rfl | ho
    · exact hnew
    · exact h.ops o (List.mem_of_mem_erase ho)
  have job : ∀ w j st, s'.worker w = .busy j st → j.kind = .recv → j.bytes ≤ maxBufferLen := by
    intro w j st hj hk
    rcases hm.busy hj with hw | ⟨op, c, ok, bytes, -, ho, hst, -, rfl⟩ | ⟨o, st₀, -, hw, -⟩
    · exact h.job w j st hw hk
    · exact (h.ops op ho hk).2 ok bytes hst
    · exact h.job w j st₀ hw hk
  rcases hm with hm | hm | hm | hm
  · exact ⟨hm.kept.forall_ops (fun _ => Op.Fits.abort) h.ops, job⟩
  · refine ⟨?_, job⟩
    rcases hm.ops_eq with ⟨hk, -⟩ | ⟨x, -, -, hops⟩
    · exact hk.forall_ops (fun _ => Op.Fits.abort) h.ops
    · exact cons hops (.posted x .recv fun _ => rfl)
  · refine ⟨?_, job⟩
    rcases hm.ops_eq with hk | ⟨op, c, -, -, -, -, hops⟩ | ⟨j, -, -, -, hops⟩ |
      ⟨j, b, io, -, -, -, hk⟩
    · exact hk.forall_ops (fun _ => Op.Fits.abort) h.ops
    · exact fun o ho => h.ops o (List.mem_of_mem_erase (hops ▸ ho))
    · exact cons hops (.posted j.ctx .recv fun _ => rfl)
    · exact hk.forall_ops (fun _ => Op.Fits.abort) (cons rfl (.posted b .send (by simp)))
  · refine ⟨?_, job⟩
    cases hm with
    | @arrived o bs ho hk hst hl =>
      refine replaced rfl fun hk => ⟨(h.ops o ho hk).1, fun ok bytes he => ?_⟩
      obtain ⟨-, rfl⟩ := OpStatus.done.inj he
      exact hl.trans (h.ops o ho hk).1.le
    | @transmitted o k ho hk | @completed o ho hk =>
      refine replaced rfl fun hk' => ?_
      rw [show o.kind = .recv from hk'] at hk
      cases hk
    | @failed o ho hst =>
      refine replaced rfl fun hk => ⟨(h.ops o ho hk).1, fun ok bytes he => ?_⟩
      obtain ⟨-, rfl⟩ := OpStatus.done.inj he
      exact Nat.zero_le _

/-! ### One receive at a time -/

/-- The receives outstanding on a context and the workers that handle one of its reads. -/
def load (s : State n) (x : CtxId) : ℕ := s.outstanding .recv x + s.workers (Worker.Reading x)

/-- The accept thread is about to post the first read of `x`. -/
def First (s : State n) (x : CtxId) : Prop :=
  s.accept.pc = .recv .client ∧ s.accept.Holds x ∨
    s.accept.pc = .recv .remote ∧ s.accept.remote = some x

theorem First.of_side {d : Side} {x : CtxId} (hpc : s.accept.pc = .recv d)
    (hx : s.accept.side d = some x) : s.First x := by
  cases d
  · exact .inl ⟨hpc, .inl hx⟩
  · exact .inr ⟨hpc, hx⟩

/-- A context has one receive, or one worker handling a read, and none before its first read. -/
structure Single (s : State n) : Prop where
  load_le : ∀ x, s.load x ≤ 1
  first : ∀ x, s.First x → s.load x = 0

end State

/-- A worker calls `Recv` only for a read it was handling. -/
theorem WorkerMove.load_le {w : Fin n} {o : WorkerOutcome} (hm : WorkerMove s w o s')
    (hv : s.Served) (ht : s.Typed) (x : CtxId) : s'.load x ≤ s.load x := by
  have hcount := hm.workers (P := Worker.Reading x)
  have hout := hm.outstanding .recv x
  unfold State.load
  by_cases hp : s.posts (.worker w o) = some (.recv, x)
  · rcases posts_eq_some hp with ⟨d, ha, -⟩ | ⟨w', j, -, -, -, hk, -⟩ | ⟨w', j, ha, hw, rfl, -⟩
    · cases ha
    · cases hk
    · obtain ⟨rfl, rfl⟩ := Action.worker.inj ha
      have hold : (s.worker w).Reading j.ctx := by
        rw [hw]
        exact ⟨(hv.jobs w j _ hw).1, (ht.stage w j _ hw trivial).1, (by simp), (by simp)⟩
      have hnew : ¬ (s'.worker w).Reading j.ctx := by
        cases hm with
        | received hw' => simp [setWorker, Worker.Reading]
        | _ => simp_all
      rw [if_pos hold, if_neg hnew] at hcount
      rw [if_pos hp] at hout
      omega
  · rw [if_neg hp] at hout
    by_cases hnew : (s'.worker w).Reading x
    · cases hj : s'.worker w with
      | busy j st =>
        have hread : j.owner = x ∧ j.kind = .recv ∧ st ≠ .failed ∧ st ≠ .finish := by
          have hnew' := hnew
          rwa [hj] at hnew'
        rcases hm.busy hj with ⟨op, c, ok, bytes, hw, -, ho, -, -, rfl, rfl⟩ | ⟨st₀, hw, hn⟩
        · have herase : (s.dequeued w op c ok bytes).outstanding .recv x + _ =
            s.outstanding .recv x := outstanding_erase ho rfl .recv x
          have hold : ¬ (s.worker w).Reading x := by simp [hw, Worker.Reading]
          rw [if_pos ⟨hread.1, hread.2.1⟩] at herase
          rw [if_pos hnew, if_neg hold] at hcount
          omega
        · have hold : (s.worker w).Reading x := by
            rw [hw]
            refine ⟨hread.1, hread.2.1, ?_⟩
            rcases hn with ⟨-, rfl⟩ | hn
            · exact hread.2.2
            · exact hn.reading hread.2.2
          rw [if_pos hnew, if_pos hold] at hcount
          omega
      | _ => simp [hj, Worker.Reading] at hnew
    · rw [if_neg hnew] at hcount
      omega

theorem MainMove.load_eq {o : MainOutcome} (hm : MainMove s o s') (x : CtxId) :
    s'.load x = s.load x := by
  rw [load, load, hm.outstanding, workers_congr hm.frame.2.2.2.2.2.1]

theorem NetMove.load_eq {a : NetAction} (hm : NetMove s a s') (x : CtxId) :
    s'.load x = s.load x := by
  rw [load, load, hm.outstanding, workers_congr hm.frame.2.2.2.2.2.2.1]

theorem AcceptMove.load_eq {o : AcceptOutcome} (hm : AcceptMove s o s') (x : CtxId) :
    s'.load x = s.load x + if s.posts (.accept o) = some (.recv, x) then 1 else 0 := by
  rw [load, load, hm.outstanding, workers_congr hm.frame.1]
  omega

/-- The main thread does not take the accept thread to a first read. -/
theorem MainMove.first {o : MainOutcome} (hm : MainMove s o s') {x : CtxId} (hx : s'.First x) :
    s.First x := by
  cases hm with
  | started hm => simp [First, acceptAt, mainAt] at hx
  | sweep =>
    have hacc := s.cleanClientList_frame.2.2.2.1
    simpa only [First, mainAt, hacc] using hx
  | _ => exact hx

namespace State

/-- A context that was not put on the list with its buddy has no operations and no workers. -/
theorem Served.load_eq_zero (hv : s.Served) {x : CtxId} (hx : ¬ s.Settled x) : s.load x = 0 := by
  have hout : s.outstanding .recv x = 0 := by
    by_contra hne
    exact hx (hv.ops _ x (Nat.pos_of_ne_zero hne))
  have hw : s.workers (Worker.Reading x) = 0 := by
    by_contra hne
    obtain ⟨w, hw⟩ := workers_pos_iff.mp (Nat.pos_of_ne_zero hne)
    cases hj : s.worker w with
    | busy j st =>
      rw [hj] at hw
      obtain ⟨ho, hset⟩ := hv.jobs w j st hj
      exact hx (hw.1 ▸ ho ▸ hset)
    | _ => simp [hj, Worker.Reading] at hw
  rw [load, hout, hw]

end State

/-- The accept thread comes to the first read of a context once it has put both contexts of the
call on the list. -/
theorem AcceptMove.first_cases {o : AcceptOutcome} (hm : AcceptMove s o s') (hs : s.Sound)
    {x : CtxId} (hx : s'.First x) :
    (s.First x ∨ ¬ s.Settled x) ∧ s.posts (.accept o) ≠ some (.recv, x) := by
  cases hm with
  | @added d y hpc hy =>
    cases d with
    | client => simp [First, acceptAt, afterAdd] at hx
    | remote =>
      refine ⟨.inr fun hset => ?_, by simp [posts, hpc]⟩
      have hok := hs.acceptOk
      simp only [AcceptOk, hpc] at hok
      obtain ⟨c, r, hacc, hc, hr⟩ := hok
      have hx' : s.accept.Holds x := by
        rcases hx with ⟨-, hx⟩ | ⟨hpc', -⟩
        · exact hx
        · cases hpc'
      obtain ⟨hadd, z, hz, hza⟩ := hset
      rcases hx' with hx' | hx'
      · obtain rfl : x = c := Option.some.inj (hx'.symm.trans hacc.1)
        exact hr (hs.paired.partner_unique (.inl hacc.2.2) hz ▸ hza)
      · obtain rfl : x = r := Option.some.inj (hx'.symm.trans hacc.2.1)
        exact hr hadd
  | @posted d y hpc hy ht =>
    cases d with
    | client =>
      have hx' : s.accept.remote = some x := by
        rcases hx with ⟨hpc', -⟩ | ⟨-, hx⟩
        · cases hpc'
        · exact hx
      have hok := hs.acceptOk
      simp only [AcceptOk, hpc] at hok
      obtain ⟨c, r, hacc, -⟩ := hok
      obtain rfl : x = r := Option.some.inj (hx'.symm.trans hacc.2.1)
      obtain rfl : y = c := Option.some.inj (hy.symm.trans hacc.1)
      refine ⟨.inl (.inl ⟨hpc, .inr hx'⟩), ?_⟩
      have hne : y ≠ x := hs.paired.partner_ne (.inl hacc.2.2)
      simpa [posts, hpc, hy] using hne
    | remote => simp [First, acceptAt, afterRecv] at hx
  | exitClosed hpc =>
    obtain ⟨pc, hpc', hacc⟩ := s.exitClosed_accept
    rw [First, hacc] at hx
    rcases hpc' with rfl | rfl <;> simp at hx
  | @enter d | @associated d | @exitNulled d =>
    cases d <;> simp [First, enterAssociate, State.associated, afterAssoc, State.exitNulled,
      afterNull] at hx
  | linked | exitRemoved | returned =>
    simp [First, State.linked, acceptAt, acceptReturned] at hx
  | _ =>
    simp [First, acceptAt, acceptFailed, State.accepted, State.remoteFailed, State.remoteMade,
      State.associateFailed] at hx

namespace State

theorem Single.step {a : Action n} (h : s.Single) (hs : s.Sound) (hv : s.Served) (ht : s.Typed)
    (hm : Move s a s') : s'.Single := by
  have quiet : s'.accept = s.accept → (∀ x, s'.load x ≤ s.load x) → s'.Single := by
    refine fun ha hl => ⟨fun x => (hl x).trans (h.load_le x), fun x hx => ?_⟩
    rw [First, ha] at hx
    exact Nat.le_zero.mp ((hl x).trans (h.first x hx).le)
  rcases hm with hm | hm | hm | hm
  · refine ⟨fun x => (hm.load_eq x).le.trans (h.load_le x), fun x hx => ?_⟩
    rw [hm.load_eq]
    exact h.first x (hm.first hx)
  · refine ⟨fun x => ?_, fun x hx => ?_⟩
    · rw [hm.load_eq]
      split_ifs with hp
      · rcases posts_eq_some hp with ⟨d, -, hpc, hx, -⟩ | ⟨w, j, -, ha, -⟩ | ⟨w, j, ha, -⟩
        · rw [h.first x (.of_side hpc hx)]
        · cases ha
        · cases ha
      · exact h.load_le x
    · obtain ⟨hfirst, hp⟩ := hm.first_cases hs hx
      rw [hm.load_eq, if_neg hp, hfirst.elim (h.first x) hv.load_eq_zero]
  · exact quiet hm.frame.1 (hm.load_le hv ht)
  · exact quiet hm.frame.1 fun x => (hm.load_eq x).le

end State

/-! ### What a worker does to a pair -/

/-- The stages at which a worker has not yet forwarded the bytes of its read. -/
def Stage.Carrying : Stage → Prop
  | .recv | .failed | .finish => False
  | _ => True

instance : DecidablePred Stage.Carrying
  | .recv | .failed | .finish => instDecidableFalse
  | .dispatch | .forward | .forwardSend | .send _ | .fill _ => instDecidableTrue

/-- The positive-length read completion of `x` that a worker has not yet forwarded. -/
def Worker.carries (x : CtxId) : Worker → Option Job
  | .busy j st => if j.owner = x ∧ j.kind = .recv ∧ ¬ j.Gone ∧ st.Carrying then some j else none
  | _ => none

theorem Worker.carries_eq_some {x : CtxId} {v : Worker} {j : Job} (h : v.carries x = some j) :
    ∃ st, v = .busy j st ∧ j.owner = x ∧ j.kind = .recv ∧ ¬ j.Gone ∧ st.Carrying := by
  cases v with
  | busy j' st =>
    simp only [Worker.carries] at h
    split_ifs at h with hc
    obtain rfl := Option.some.inj h
    exact ⟨st, rfl, hc⟩
  | _ => cases h

/-- Who carries a read of `x` handles it. -/
theorem Worker.reading_of_carries {x : CtxId} {v : Worker} {j : Job}
    (h : v.carries x = some j) : v.Reading x := by
  obtain ⟨st, rfl, ho, hk, -, hst⟩ := carries_eq_some h
  refine ⟨ho, hk, ?_, ?_⟩ <;> rintro rfl <;> exact hst

/-- A read is carried by the worker that carried it before, or that has just dequeued it. -/
theorem WorkerMove.carries_cases {w : Fin n} {o : WorkerOutcome} (hm : WorkerMove s w o s')
    {w' : Fin n} {x : CtxId} {j : Job} (hj : (s'.worker w').carries x = some j) :
    (s.worker w').carries x = some j ∨ w' = w ∧ s.worker w = .waiting ∧
      ∃ op c, o = .dequeue op c ∧ op ∈ s.ops ∧ op.ctx = x ∧ op.kind = .recv ∧
        op.status = .done true j.bytes ∧ 0 < j.bytes := by
  by_cases hw : w' = w
  · subst hw
    obtain ⟨st, hst, hown, hk, hg, hcar⟩ := Worker.carries_eq_some hj
    rcases hm.busy hst with ⟨op, c, ok, bytes, hw, rfl, hmem, hstat, -, rfl, rfl⟩ | ⟨st₀, hw, hn⟩
    · simp only [Job.Gone, not_or, Bool.not_eq_false] at hg
      exact .inr ⟨rfl, hw, op, c, rfl, hmem, hown, hk, hg.1 ▸ hstat, Nat.pos_of_ne_zero hg.2⟩
    · have hst₀ : st₀.Carrying := by
        rcases hn with ⟨-, rfl⟩ | hn
        · exact hcar
        · cases hn <;> trivial
      refine .inl ?_
      rw [hw]
      exact if_pos ⟨hown, hk, hg, hst₀⟩
  · rw [hm.worker_of_ne hw] at hj
    exact .inl hj

/-- What a step of the worker `w` does to the flow of bytes from `x` to its partner `y`. -/
inductive Turn (s s' : State n) (w : Fin n) (o : WorkerOutcome) (x y : CtxId) : Prop
  /-- The worker goes on, or has nothing to do with the reads of `x`. -/
  | other (hc : (s'.worker w).carries x = (s.worker w).carries x)
      (hr : (s'.worker w).Reading x ↔ (s.worker w).Reading x)
      (hreads : s'.reads x = s.reads x) (hsends : s'.sends y = s.sends y)
      (hout : s'.outstanding .recv x = s.outstanding .recv x)
  /-- It takes a read completion with bytes. -/
  | took (j : Job) (hc : (s'.worker w).carries x = some j) (hw : s.worker w = .waiting)
      (hseq : j.seq = (s.reads x).length) (hreads : s'.reads x = s.reads x ++ [j.bytes])
      (hsends : s'.sends y = s.sends y)
      (hout : s'.outstanding .recv x + 1 = s.outstanding .recv x)
  /-- It takes a read completion without bytes. -/
  | tookEnd (hc : (s'.worker w).carries x = none) (hr : (s'.worker w).Reading x)
      (hw : s.worker w = .waiting) (hreads : s'.reads x = s.reads x)
      (hsends : s'.sends y = s.sends y)
      (hout : s'.outstanding .recv x + 1 = s.outstanding .recv x)
  /-- It posts the send of the bytes it carries. -/
  | forwarded (j : Job) (io : IoOperationData) (hc : (s.worker w).carries x = some j)
      (hw : s.worker w = .busy j (.fill y)) (hw' : s'.worker w = .busy j .recv)
      (hf : (s.ctx y).ioSend.fill (s.ctx x).ioRecv.buffer (UInt16.ofNat j.bytes) = some io)
      (hreads : s'.reads x = s.reads x)
      (hsends : s'.sends y = s.sends y ++ [⟨x, j.seq, io.dataBufLen⟩])
      (hout : s'.outstanding .recv x = s.outstanding .recv x) (ho : o = .ok)
  /-- It posts the next receive. -/
  | reposted (hc : (s.worker w).carries x = none) (hr : (s.worker w).Reading x)
      (hr' : ¬ (s'.worker w).Reading x) (hreads : s'.reads x = s.reads x)
      (hsends : s'.sends y = s.sends y)
      (hout : s'.outstanding .recv x = s.outstanding .recv x + 1)
  /-- It gives up. -/
  | gaveUp (hr : (s.worker w).Reading x) (hr' : ¬ (s'.worker w).Reading x)
      (hreads : s'.reads x = s.reads x) (hsends : s'.sends y = s.sends y)
      (hout : s'.outstanding .recv x = s.outstanding .recv x)

namespace Turn

variable {w : Fin n} {o : WorkerOutcome} {x y : CtxId} {j : Job} {st st' : Stage}

/-- The worker handles something else than a read of `x`. -/
theorem idle (hw : s.worker w = .busy j st) (hw' : s'.worker w = .busy j st')
    (hj : ¬ (j.owner = x ∧ j.kind = .recv)) (hreads : s'.reads x = s.reads x)
    (hsends : s'.sends y = s.sends y) (hout : s'.outstanding .recv x = s.outstanding .recv x) :
    Turn s s' w o x y := by
  have hno : ∀ st, (Worker.busy j st).carries x = none ∧ ¬ (Worker.busy j st).Reading x :=
    fun st => ⟨by simp [Worker.carries, ← and_assoc, hj], fun hr => hj ⟨hr.1, hr.2.1⟩⟩
  refine .other ?_ ?_ hreads hsends hout <;> rw [hw, hw']
  · rw [(hno st).1, (hno st').1]
  · exact iff_of_false (hno st').2 (hno st).2

/-- The worker goes on carrying what it carries. -/
theorem goOn (hw : s.worker w = .busy j st) (hw' : s'.worker w = .busy j st')
    (hst : st.Carrying) (hst' : st'.Carrying) (hreads : s'.reads x = s.reads x)
    (hsends : s'.sends y = s.sends y) (hout : s'.outstanding .recv x = s.outstanding .recv x) :
    Turn s s' w o x y := by
  have hread : ∀ {st : Stage}, st.Carrying →
      ((Worker.busy j st).Reading x ↔ j.owner = x ∧ j.kind = .recv) := fun hst =>
    ⟨fun hr => ⟨hr.1, hr.2.1⟩, fun hr => ⟨hr.1, hr.2,
      by rintro rfl; exact hst, by rintro rfl; exact hst⟩⟩
  refine .other ?_ ?_ hreads hsends hout <;> rw [hw, hw']
  · simp only [Worker.carries, hst, hst']
  · rw [hread hst, hread hst']

/-- The worker gives up what it handles. -/
theorem giveUp (hw : s.worker w = .busy j st) (hw' : s'.worker w = .busy j .failed)
    (hst : st ≠ .failed ∧ st ≠ .finish) (hreads : s'.reads x = s.reads x)
    (hsends : s'.sends y = s.sends y) (hout : s'.outstanding .recv x = s.outstanding .recv x) :
    Turn s s' w o x y := by
  by_cases hj : j.owner = x ∧ j.kind = .recv
  · refine .gaveUp ?_ ?_ hreads hsends hout
    · rw [hw]
      exact ⟨hj.1, hj.2, hst⟩
    · rw [hw']
      exact fun hr => hr.2.2.1 rfl
  · exact idle hw hw' hj hreads hsends hout

/-- The worker checks the completion: a read with bytes goes to `Forward`. -/
theorem of_dispatched (ht : s.Typed) (hw : s.worker w = .busy j .dispatch) :
    Turn s (s.setWorker w (.busy j (s.dispatch j))) w o x y := by
  have hself : (s.setWorker w (.busy j (s.dispatch j))).worker w = .busy j (s.dispatch j) :=
    Function.update_self _ _ _
  by_cases hj : j.owner = x ∧ j.kind = .recv
  · by_cases hg : j.Gone
    · have hd : s.dispatch j = .failed := if_pos hg
      rw [hd] at hself ⊢
      exact giveUp hw hself (by constructor <;> simp) rfl rfl rfl
    · have htype : s.ioTypeOf j = opRead := by
        simp only [ioTypeOf, hj.2, ht.recvType]
      have hd : s.dispatch j = .forward := by rw [State.dispatch, if_neg hg, if_pos htype]
      rw [hd] at hself ⊢
      exact goOn hw hself trivial trivial rfl rfl rfl
  · exact idle hw hself hj rfl rfl rfl

/-- The worker posts a send: that of the read it carries, on the partner of its context. -/
theorem of_sent (hs : s.Sound) (hv : s.Served) (ht : s.Typed) (hp : s.Partner x y) {b : CtxId}
    {io : IoOperationData} (hw : s.worker w = .busy j (.fill b))
    (hf : (s.ctx b).ioSend.fill (s.ctx j.ctx).ioRecv.buffer (UInt16.ofNat j.bytes) = some io) :
    Turn s (((s.postSend b io ⟨j.ctx, j.seq, io.dataBufLen⟩).setWorker w
      (.busy j .recv)).release b) w .ok x y := by
  have hself : ((s.postSend b io ⟨j.ctx, j.seq, io.dataBufLen⟩).setWorker w
      (.busy j .recv)).worker w = .busy j .recv := Function.update_self _ _ _
  obtain ⟨hown, -⟩ := hv.jobs w j _ hw
  obtain ⟨hkind, hgone⟩ := ht.stage w j _ hw trivial
  have hb := hv.targets w j b (.inr hw)
  have hout : (((s.postSend b io ⟨j.ctx, j.seq, io.dataBufLen⟩).setWorker w
      (.busy j .recv)).release b).outstanding .recv x = s.outstanding .recv x := by
    have hpost : (s.postSend b io ⟨j.ctx, j.seq, io.dataBufLen⟩).outstanding .recv x =
        s.outstanding .recv x + _ := outstanding_posted (by rfl) .recv x
    rw [outstanding_release]
    exact hpost
  by_cases hj : j.ctx = x
  · subst hj
    obtain rfl := hs.paired.partner_unique hb hp
    refine .forwarded j io ?_ hw hself hf rfl (Function.update_self _ _ _) hout rfl
    rw [hw]
    exact if_pos ⟨hown, hkind, hgone, trivial⟩
  · have hby : y ≠ b := by
      rintro rfl
      exact hj (hs.paired.partner_unique (hs.paired.partner_symm hb) (hs.paired.partner_symm hp))
    exact idle hw hself (fun h => hj (hown.symm.trans h.1)) rfl (Function.update_of_ne hby _ _) hout

/-- The worker posts the next receive on its context. -/
theorem of_received (hv : s.Served) (ht : s.Typed) (hw : s.worker w = .busy j .recv) :
    Turn s ((s.postRecv j.ctx).setWorker w (.busy j .finish)) w o x y := by
  obtain ⟨hown, -⟩ := hv.jobs w j _ hw
  obtain ⟨hkind, -⟩ := ht.stage w j _ hw trivial
  have hout : ((s.postRecv j.ctx).setWorker w (.busy j .finish)).outstanding .recv x =
      s.outstanding .recv x + _ := outstanding_posted (by rfl) .recv x
  by_cases hj : j.ctx = x
  · refine .reposted ?_ ?_ ?_ rfl rfl ?_
    · simp [hw, Worker.carries, Stage.Carrying]
    · rw [hw]
      exact ⟨hown.trans hj, hkind, by constructor <;> simp⟩
    · simp [setWorker, Worker.Reading]
    · rw [hout, hj, if_pos rfl]
  · refine idle hw (Function.update_self _ _ _) (fun h => hj (hown.symm.trans h.1)) rfl rfl ?_
    rw [hout, if_neg (by simpa using hj)]
    rfl

/-- The worker takes a completion: a read of `x` with bytes, one without, or something else. -/
theorem of_dequeued {op : Op} {c : CtxId} {ok : Bool} {bytes : ℕ}
    (hw : s.worker w = .waiting) (ho : op ∈ s.ops) :
    Turn s (s.dequeued w op c ok bytes) w o x y := by
  have hself : (s.dequeued w op c ok bytes).worker w =
    .busy ⟨c, op.ctx, op.kind, ok, bytes, (s.reads op.ctx).length⟩ .dispatch :=
    Function.update_self _ _ _
  have hout : (s.dequeued w op c ok bytes).outstanding .recv x + _ = s.outstanding .recv x :=
    outstanding_erase ho rfl .recv x
  by_cases hx : op.ctx = x ∧ op.kind = .recv
  · obtain ⟨rfl, hk⟩ := hx
    rw [if_pos ⟨rfl, hk⟩] at hout
    by_cases hpos : ok = true ∧ 0 < bytes
    · refine .took ⟨c, op.ctx, op.kind, ok, bytes, (s.reads op.ctx).length⟩ ?_ hw rfl ?_ rfl hout
      · rw [hself]
        refine if_pos ⟨rfl, hk, ?_, trivial⟩
        simp [Job.Gone, hpos.1, hpos.2.ne']
      · simp only [State.dequeued, if_pos (show op.kind = .recv ∧ ok = true ∧ 0 < bytes from
          ⟨hk, hpos⟩), Function.update_self]
    · refine .tookEnd ?_ ?_ hw ?_ rfl hout
      · rw [hself]
        refine if_neg fun h => hpos ?_
        simpa [Job.Gone, Nat.pos_iff_ne_zero] using h.2.2.1
      · rw [hself]
        exact ⟨rfl, hk, by constructor <;> simp⟩
      · simp only [State.dequeued, if_neg (show ¬ (op.kind = .recv ∧ ok = true ∧ 0 < bytes) from
          fun h => hpos h.2)]
  · rw [if_neg hx] at hout
    refine .other ?_ ?_ ?_ rfl hout
    · rw [hself, hw]
      exact if_neg fun h => hx ⟨h.1, h.2.1⟩
    · rw [hself, hw]
      exact iff_of_false (fun h => hx ⟨h.1, h.2.1⟩) id
    · simp only [State.dequeued]
      split_ifs with hrd
      · exact Function.update_of_ne (fun e => hx ⟨e.symm, hrd.1⟩) _ _
      · rfl

end Turn

theorem WorkerMove.turn {w : Fin n} {o : WorkerOutcome} (hm : WorkerMove s w o s')
    (hs : s.Sound) (hv : s.Served) (ht : s.Typed) {x y : CtxId} (hp : s.Partner x y) :
    Turn s s' w o x y := by
  have self : ∀ {v : Worker}, (s.setWorker w v).worker w = v := Function.update_self _ _ _
  cases hm with
  | exit hw =>
    refine .other ?_ ?_ rfl rfl rfl <;> simp [setWorker, Worker.carries, Worker.Reading, hw]
  | dead | nullBuddy | overrun =>
    exact .other rfl Iff.rfl rfl rfl rfl
  | dequeued hw ho => exact .of_dequeued hw ho
  | dispatched hw => exact .of_dispatched ht hw
  | noBuddy hw => exact .giveUp hw self (by constructor <;> simp) rfl rfl rfl
  | buddy hw => exact .goOn hw self trivial trivial rfl rfl rfl
  | sending hw => exact .goOn hw self trivial trivial rfl rfl rfl
  | zeroed hw => exact .goOn hw self trivial trivial rfl rfl rfl
  | sent hw hf => exact .of_sent hs hv ht hp hw hf
  | notSent hw hf =>
    exact .giveUp hw self (by constructor <;> simp) rfl rfl (outstanding_release _ _ _)
  | received hw => exact .of_received hv ht hw
  | notReceived hw => exact .giveUp hw self (by constructor <;> simp) rfl rfl rfl
  | removed hw =>
    refine .other ?_ ?_ rfl rfl rfl <;>
      simp [setWorker, Worker.carries, Worker.Reading, Stage.Carrying, hw]
  | finished hw =>
    refine .other ?_ ?_ rfl rfl (outstanding_release _ _ _) <;>
      simp [State.finished, setWorker, Worker.carries, Worker.Reading, Stage.Carrying, hw]

end IocpProxy
