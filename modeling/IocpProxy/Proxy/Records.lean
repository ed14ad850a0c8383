import IocpProxy.Proxy.Isolation

/-!
# Records, workers and history under a step

Which step changes the receive record or the send record of a context, how many workers have a
property before and after a step, and which step extends the history of a context.

## Main definitions

* `IocpProxy.State.workers` : the number of workers with a property.

## Main results

* `IocpProxy.WorkerMove.ioRecv_eq`, `IocpProxy.WorkerMove.ioSend_eq` : when a record changes.
* `IocpProxy.WorkerMove.workers`.
* `IocpProxy.WorkerMove.reads_eq`, `IocpProxy.WorkerMove.sends_eq`.
-/

namespace IocpProxy

open State

variable {n : ℕ} {s s' : State n}

/-! ### Counting workers -/

/-- The number of workers with a property. -/
def State.workers (s : State n) (P : Worker → Prop) [DecidablePred P] : ℕ :=
  (Finset.univ.filter fun w => P (s.worker w)).card

variable {P : Worker → Prop} [DecidablePred P]

theorem State.workers_congr (h : s'.worker = s.worker) : s'.workers P = s.workers P := by
  rw [State.workers, State.workers, h]

theorem State.workers_eq_sum (s : State n) :
    s.workers P = ∑ w, if P (s.worker w) then 1 else 0 :=
  Finset.card_filter _ _

theorem State.workers_pos_iff : 0 < s.workers P ↔ ∃ w, P (s.worker w) := by
  simp [State.workers, Finset.card_pos, Finset.filter_nonempty_iff]

/-- Two workers with a property are one when at most one has it. -/
theorem State.eq_of_workers_le_one (h : s.workers P ≤ 1) {w w' : Fin n} (hw : P (s.worker w))
    (hw' : P (s.worker w')) : w = w' :=
  Finset.card_le_one.mp h w (by simpa using hw) w' (by simpa using hw')

/-- A step of a worker changes the count by what changes for this worker. -/
theorem WorkerMove.workers {w : Fin n} {o : WorkerOutcome} (hm : WorkerMove s w o s') :
    s'.workers P + (if P (s.worker w) then 1 else 0) =
      s.workers P + if P (s'.worker w) then 1 else 0 := by
  have hrest : ∑ i ∈ Finset.univ.erase w, (if P (s'.worker i) then 1 else 0) =
      ∑ i ∈ Finset.univ.erase w, if P (s.worker i) then 1 else 0 :=
    Finset.sum_congr rfl fun i hi => by rw [hm.worker_of_ne (Finset.ne_of_mem_erase hi)]
  have h₁ := Finset.sum_erase_add Finset.univ (fun i => if P (s.worker i) then 1 else 0)
    (Finset.mem_univ w)
  have h₂ := Finset.sum_erase_add Finset.univ (fun i => if P (s'.worker i) then 1 else 0)
    (Finset.mem_univ w)
  rw [workers_eq_sum, workers_eq_sum]
  omega

/-! ### Records -/

/-- A worker rewrites a receive record only in `Recv`. -/
theorem WorkerMove.ioRecv_eq {w : Fin n} {o : WorkerOutcome} (hm : WorkerMove s w o s')
    (x : CtxId) :
    (s'.ctx x).ioRecv = (s.ctx x).ioRecv ∨
      ∃ j, s.worker w = .busy j .recv ∧ j.ctx = x ∧ (s'.ctx x).ioRecv = .forRecv := by
  have store : ∀ b io, ((s.storeSend b io).ctx x).ioRecv = (s.ctx x).ioRecv := fun b io => by
    simp only [storeSend, setCtx, Function.update_apply]
    split_ifs with hx
    · rw [hx]
    · rfl
  have reset : ∀ {j : Job}, s.worker w = .busy j .recv →
      ((s.resetRecv j.ctx).ctx x).ioRecv = (s.ctx x).ioRecv ∨
        ∃ j', s.worker w = .busy j' .recv ∧ j'.ctx = x ∧
          ((s.resetRecv j.ctx).ctx x).ioRecv = .forRecv := fun {j} hw => by
    by_cases hx : x = j.ctx
    · subst hx
      refine .inr ⟨j, hw, rfl, ?_⟩
      simp only [resetRecv, setCtx, Function.update_self]
    · refine .inl ?_
      simp only [resetRecv, setCtx, Function.update_of_ne hx]
  cases hm with
  | zeroed | sent | notSent => exact .inl (store _ _)
  | received hw | notReceived hw => exact reset hw
  | _ => exact .inl rfl

/-- A worker rewrites a send record in the two steps of `Send`: it is zeroed, then filled. -/
theorem WorkerMove.ioSend_eq {w : Fin n} {o : WorkerOutcome} (hm : WorkerMove s w o s')
    (x : CtxId) :
    ((s'.ctx x).ioSend = (s.ctx x).ioSend ∧
        ∀ j, s.worker w = .busy j (.fill x) → s'.worker w = .busy j (.fill x)) ∨
      (∃ j, s.worker w = .busy j (.send x) ∧ s'.worker w = .busy j (.fill x) ∧
        (s'.ctx x).ioSend = .zero) ∨
      ∃ j, s.worker w = .busy j (.fill x) ∧
        (s.ctx x).ioSend.fill (s.ctx j.ctx).ioRecv.buffer (UInt16.ofNat j.bytes) =
          some (s'.ctx x).ioSend := by
  have reset : ∀ y, ((s.resetRecv y).ctx x).ioSend = (s.ctx x).ioSend := fun y => by
    simp only [resetRecv, setCtx, Function.update_apply]
    split_ifs with hx
    · rw [hx]
    · rfl
  have fill : ∀ {j b io}, s.worker w = .busy j (.fill b) →
      (s.ctx b).ioSend.fill (s.ctx j.ctx).ioRecv.buffer (UInt16.ofNat j.bytes) = some io →
      (((s.storeSend b io).ctx x).ioSend = (s.ctx x).ioSend ∧
          ∀ j, s.worker w = .busy j (.fill x) → s'.worker w = .busy j (.fill x)) ∨
        ∃ j, s.worker w = .busy j (.fill x) ∧
          (s.ctx x).ioSend.fill (s.ctx j.ctx).ioRecv.buffer (UInt16.ofNat j.bytes) =
            some ((s.storeSend b io).ctx x).ioSend := by
    intro j b io hw hf
    by_cases hx : x = b
    · subst hx
      refine .inr ⟨j, hw, ?_⟩
      simpa only [storeSend, setCtx, Function.update_self] using hf
    · refine .inl ⟨?_, fun j' hj => ?_⟩
      · simp only [storeSend, setCtx, Function.update_of_ne hx]
      · rw [hw, Worker.busy.injEq, Stage.fill.injEq] at hj
        exact absurd hj.2.symm hx
  cases hm with
  | @zeroed j b hw =>
    by_cases hx : x = b
    · subst hx
      refine .inr (.inl ⟨j, hw, Function.update_self _ _ _, ?_⟩)
      simp only [setWorker, storeSend, setCtx, Function.update_self]
    · refine .inl ⟨?_, fun j' hj => absurd (hw.symm.trans hj) (by simp)⟩
      simp only [setWorker, storeSend, setCtx, Function.update_of_ne hx]
  | sent hw hf | notSent hw hf => exact (fill hw hf).imp_right .inr
  | received hw | notReceived hw =>
    exact .inl ⟨reset _, fun j hj => absurd (hw.symm.trans hj) (by simp)⟩
  | dead | nullBuddy | overrun => exact .inl ⟨rfl, fun _ hj => hj⟩
  | exit hw | dequeued hw | dispatched hw | noBuddy hw | buddy hw | sending hw | removed hw
  | finished hw => exact .inl ⟨rfl, fun j hj => absurd (hw.symm.trans hj) (by simp)⟩

/-- The first step of `Send` zeroes the record. -/
theorem WorkerMove.ioSend_of_send {w : Fin n} {o : WorkerOutcome} (hm : WorkerMove s w o s')
    {j : Job} {b : CtxId} (hw : s.worker w = .busy j (.send b)) : (s'.ctx b).ioSend = .zero := by
  cases hm with
  | zeroed hw' =>
    obtain ⟨-, hb⟩ := Worker.busy.inj (hw'.symm.trans hw)
    obtain rfl := Stage.send.inj hb
    simp only [setWorker, storeSend, setCtx, Function.update_self]
  | exit hw' | dequeued hw' | dead hw' | dispatched hw' | noBuddy hw' | buddy hw' | nullBuddy hw'
  | sending hw' | overrun hw' | sent hw' | notSent hw' | received hw'
  | notReceived hw' | removed hw' | finished hw' =>
    exact absurd (hw'.symm.trans hw) (by simp)

/-- The accept thread makes contexts and resets receive records, no more. -/
theorem AcceptMove.records_eq {o : AcceptOutcome} (hm : AcceptMove s o s') (x : CtxId) :
    ((s'.ctx x).ioSend = (s.ctx x).ioSend ∨
      x = s.next ∧ (s'.ctx x).ioSend = SocketContext.new.ioSend) ∧
    ((s'.ctx x).ioRecv = (s.ctx x).ioRecv ∨
      x = s.next ∧ (s'.ctx x).ioRecv = SocketContext.new.ioRecv ∨
      ∃ d, s.accept.pc = .recv d ∧ s.accept.side d = some x ∧ (s'.ctx x).ioRecv = .forRecv) := by
  have reset : ∀ {d y}, s.accept.pc = .recv d → s.accept.side d = some y →
      ((s.resetRecv y).ctx x).ioSend = (s.ctx x).ioSend ∧
        (((s.resetRecv y).ctx x).ioRecv = (s.ctx x).ioRecv ∨
          ∃ d, s.accept.pc = .recv d ∧ s.accept.side d = some x ∧
            ((s.resetRecv y).ctx x).ioRecv = .forRecv) := by
    intro d y hpc hy
    by_cases hx : x = y
    · subst hx
      simp only [resetRecv, setCtx, Function.update_self]
      exact ⟨trivial, .inr ⟨d, hpc, hy, trivial⟩⟩
    · simp only [resetRecv, setCtx, Function.update_of_ne hx]
      exact ⟨trivial, .inl trivial⟩
  have make : ∀ c, s'.ctx = Function.update s.ctx s.next c →
      c.ioSend = SocketContext.new.ioSend → c.ioRecv = SocketContext.new.ioRecv →
      ((s'.ctx x).ioSend = (s.ctx x).ioSend ∨
        x = s.next ∧ (s'.ctx x).ioSend = SocketContext.new.ioSend) ∧
      ((s'.ctx x).ioRecv = (s.ctx x).ioRecv ∨
        x = s.next ∧ (s'.ctx x).ioRecv = SocketContext.new.ioRecv) := by
    intro c hctx hsend hrecv
    rw [hctx]
    by_cases hx : x = s.next
    · subst hx
      simp only [Function.update_self]
      exact ⟨.inr ⟨trivial, hsend⟩, .inr ⟨trivial, hrecv⟩⟩
    · simp only [Function.update_of_ne hx]
      exact ⟨.inl trivial, .inl trivial⟩
  cases hm with
  | accepted | remoteMade => exact (make _ rfl rfl rfl).imp_right (Or.imp_right .inl)
  | linked =>
    obtain ⟨-, -, -, hrecv, hsend⟩ := s.linked_fields _ _ x
    exact ⟨.inl hsend, .inl hrecv⟩
  | posted hpc hx | notPosted hpc hx =>
    obtain ⟨hsend, hrecv⟩ := reset hpc hx
    exact ⟨.inl hsend, hrecv.imp_right .inr⟩
  | exitClosed | exitRemoved | exitNulled | returned =>
    simp [State.acceptAt, State.exitNulled, State.acceptReturned]
  | _ => exact ⟨.inl rfl, .inl rfl⟩

/-- The network stores received bytes and leaves the other records alone. -/
theorem NetMove.records_eq {a : NetAction} (hm : NetMove s a s') (x : CtxId) :
    (s'.ctx x).ioSend = (s.ctx x).ioSend ∧
      ((s'.ctx x).ioRecv = (s.ctx x).ioRecv ∨
        ∃ o bs, a = .receive o bs ∧ o ∈ s.ops ∧ o.ctx = x ∧ o.kind = .recv ∧
          o.status = .pending ∧ (s'.ctx x).ioRecv = { (s.ctx x).ioRecv with
            buffer := (s.ctx x).ioRecv.buffer.receive bs }) := by
  cases hm with
  | @arrived o bs ho hk hst hl =>
    by_cases hx : x = o.ctx
    · subst hx
      simp only [State.arrived, setCtx, Function.update_self]
      exact ⟨trivial, .inr ⟨o, bs, rfl, ho, rfl, hk, hst, rfl⟩⟩
    · simp only [State.arrived, setCtx, Function.update_of_ne hx]
      exact ⟨rfl, .inl rfl⟩
  | _ => exact ⟨rfl, .inl rfl⟩

/-! ### History -/

/-- The history of the read completions grows when a worker dequeues one that brought bytes. -/
theorem WorkerMove.reads_eq {w : Fin n} {o : WorkerOutcome} (hm : WorkerMove s w o s')
    (x : CtxId) :
    s'.reads x = s.reads x ∨
      ∃ op c bytes, o = .dequeue op c ∧ op ∈ s.ops ∧ op.ctx = x ∧ op.kind = .recv ∧
        op.status = .done true bytes ∧ 0 < bytes ∧ s'.reads x = s.reads x ++ [bytes] := by
  cases hm with
  | @dequeued op c ok bytes hw ho hst hr hc hl =>
    simp only [State.dequeued]
    split_ifs with hrd
    · by_cases hx : x = op.ctx
      · subst hx
        simp only [Function.update_self]
        exact .inr ⟨op, c, bytes, rfl, ho, rfl, hrd.1, hrd.2.1 ▸ hst, hrd.2.2, rfl⟩
      · simp only [Function.update_of_ne hx]
        exact .inl trivial
    · exact .inl rfl
  | _ => exact .inl rfl

/-- The history of the sends grows when a worker posts one at the end of `Send`. -/
theorem WorkerMove.sends_eq {w : Fin n} {o : WorkerOutcome} (hm : WorkerMove s w o s')
    (x : CtxId) :
    s'.sends x = s.sends x ∨
      ∃ j io, s.worker w = .busy j (.fill x) ∧ s'.worker w = .busy j .recv ∧
        (s.ctx x).ioSend.fill (s.ctx j.ctx).ioRecv.buffer (UInt16.ofNat j.bytes) = some io ∧
        s'.sends x = s.sends x ++ [⟨j.ctx, j.seq, io.dataBufLen⟩] := by
  cases hm with
  | @sent j b io hw hf ht =>
    by_cases hx : x = b
    · subst hx
      refine .inr ⟨j, io, hw, Function.update_self _ _ _, hf, ?_⟩
      simp only [release_frame, setWorker, postSend, Function.update_self]
    · refine .inl ?_
      simp only [release_frame, setWorker, postSend, Function.update_of_ne hx]
  | _ => exact .inl rfl

end IocpProxy
