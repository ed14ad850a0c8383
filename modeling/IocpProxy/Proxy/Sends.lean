import IocpProxy.Proxy.Forwarding

/-!
# The send record of a context

`Send` reuses the one send record of its context whether or not the last send has completed. The
record is used by one send at a time as long as the bytes of a read are taken up only when the
last send to the buddy has completed and its completion was handled.

## Main definitions

* `IocpProxy.State.Busy` : a send on the record is outstanding or its completion is being handled.
* `IocpProxy.SendReady` : the condition on the steps.
* `IocpProxy.State.Exclusive` : the invariant.

## Main results

* `IocpProxy.exclusive_send` : the send records are used exclusively along runs that meet the
  condition.
* `IocpProxy.exclusive_send_fails`.
-/

namespace IocpProxy

open State

variable {n : ℕ} {s s' : State n}

/-- The worker handles the completion of a send on `y`. -/
def Worker.HandlesSend (y : CtxId) : Worker → Prop
  | .busy j _ => j.owner = y ∧ j.kind = .send
  | _ => False

instance (y : CtxId) : DecidablePred (Worker.HandlesSend y)
  | .busy j _ => inferInstanceAs (Decidable (j.owner = y ∧ j.kind = .send))
  | .waiting | .exited => instDecidableFalse

namespace State

/-- The sends outstanding on a context and the workers that handle the completion of one. -/
def sendLoad (s : State n) (y : CtxId) : ℕ :=
  s.outstanding .send y + s.workers (Worker.HandlesSend y)

/-- The send record is in use: from `WSASend` until the completion has been handled. -/
def Busy (s : State n) (y : CtxId) : Prop := 0 < s.sendLoad y

instance (s : State n) (y : CtxId) : Decidable (s.Busy y) := inferInstanceAs (Decidable (_ < _))

/-- The send record of the buddy of `x` is free. -/
def BuddyFree (s : State n) (x : CtxId) : Prop :=
  (∀ y ∈ s.strongOf x, ¬ s.Busy y) ∧ ∀ y ∈ s.weakOf x, ¬ s.Busy y

instance (s : State n) (x : CtxId) : Decidable (s.BuddyFree x) :=
  inferInstanceAs (Decidable (_ ∧ _))

theorem BuddyFree.not_busy {x y : CtxId} (h : s.BuddyFree x) (hp : s.Partner x y) : ¬ s.Busy y :=
  hp.elim (h.1 y) (h.2 y)

end State

/-- The operation is a receive that brought bytes. -/
def Op.Delivers (o : Op) : Prop :=
  o.kind = .recv ∧ match o.status with
    | .done true bytes => 0 < bytes
    | _ => False

instance (o : Op) : Decidable o.Delivers :=
  @instDecidableAnd _ _ inferInstance <| match o.status with
    | .done true bytes => inferInstanceAs (Decidable (0 < bytes))
    | .done false _ | .pending => instDecidableFalse

/-- The completion keys are right, and a read completion with bytes is dequeued only when the send
record of the buddy is free. -/
def SendReady (s : State n) (a : Action n) : Prop :=
  IdealKeys s a ∧ match a with
    | .worker _ (.dequeue o _) => o.Delivers → s.BuddyFree o.ctx
    | _ => True

instance (s : State n) (a : Action n) : Decidable (SendReady s a) :=
  @instDecidableAnd _ _ inferInstance <| match a with
    | .worker _ (.dequeue o _) => inferInstanceAs (Decidable (o.Delivers → s.BuddyFree o.ctx))
    | .worker _ .ok | .worker _ .fail | .main _ | .accept _ | .net _ =>
      instDecidableTrue

namespace State

/-- A send record is used by one send, and by none while a worker carries bytes to it. -/
structure Exclusive (s : State n) : Prop where
  load_le : ∀ y, s.sendLoad y ≤ 1
  free : ∀ x y, s.Partner x y → ∀ w j, (s.worker w).carries x = some j → ¬ s.Busy y

end State

/-- A worker posts a send only for bytes it carries. -/
theorem WorkerMove.sendLoad_le {w : Fin n} {o : WorkerOutcome} (hm : WorkerMove s w o s')
    (y : CtxId) :
    s'.sendLoad y ≤ s.sendLoad y + if s.posts (.worker w o) = some (.send, y) then 1 else 0 := by
  have hcount := hm.workers (P := Worker.HandlesSend y)
  have hout := hm.outstanding .send y
  unfold State.sendLoad
  by_cases hnew : (s'.worker w).HandlesSend y
  · cases hj : s'.worker w with
    | busy j st =>
      have hsend : j.owner = y ∧ j.kind = .send := by
        have hnew' := hnew
        rwa [hj] at hnew'
      rcases hm.busy hj with ⟨op, c, ok, bytes, hw, -, ho, -, -, rfl, rfl⟩ | ⟨st₀, hw, -⟩
      · have herase : (s.dequeued w op c ok bytes).outstanding .send y + _ =
          s.outstanding .send y := outstanding_erase ho rfl .send y
        have hold : ¬ (s.worker w).HandlesSend y := by simp [hw, Worker.HandlesSend]
        rw [if_pos hsend] at herase
        rw [if_pos hnew, if_neg hold] at hcount
        omega
      · have hold : (s.worker w).HandlesSend y := by
          rw [hw]
          exact hsend
        rw [if_pos hnew, if_pos hold] at hcount
        omega
    | _ => simp [hj, Worker.HandlesSend] at hnew
  · rw [if_neg hnew] at hcount
    omega

namespace State

/-- With exclusive send records, nobody looks at the type of a record that is cleared. -/
theorem Exclusive.typeSafe (h : s.Exclusive) (ho : s.Orderly) (a : Action n) : TypeSafe s a := by
  intro w o j _ hw hk w' j' hw'
  obtain ⟨hc, hp⟩ := ho.carries_of_send (.inr hw')
  have hhandles : (s.worker w).HandlesSend j.owner := by
    rw [hw]
    exact ⟨rfl, hk⟩
  exact h.free _ _ hp w' j' hc (Nat.add_pos_right _ (workers_pos_iff.mpr ⟨w, hhandles⟩))

/-- The send record is free when an action posts a send on it. -/
theorem Exclusive.free_of_posts (h : s.Exclusive) (ho : s.Orderly) {a : Action n} {y : CtxId}
    (hp : s.posts a = some (.send, y)) : s.sendLoad y = 0 := by
  rcases posts_eq_some hp with ⟨d, -, -, -, hk⟩ | ⟨w, j, io, -, hw, -⟩ | ⟨w, j, -, -, -, hk⟩
  · cases hk
  · obtain ⟨hc, hpart⟩ := ho.carries_of_send (.inr hw)
    exact Nat.eq_zero_of_not_pos (h.free _ _ hpart w j hc)
  · cases hk

end State

/-- What a worker does that posts a send. -/
theorem WorkerMove.eq_of_posts {w : Fin n} {o : WorkerOutcome} (hm : WorkerMove s w o s')
    {y : CtxId} (hp : s.posts (.worker w o) = some (.send, y)) :
    ∃ j io, s.worker w = .busy j (.fill y) ∧
      (s.ctx y).ioSend.fill (s.ctx j.ctx).ioRecv.buffer (UInt16.ofNat j.bytes) = some io ∧
      s' = ((s.postSend y io ⟨j.ctx, j.seq, io.dataBufLen⟩).setWorker w
        (.busy j .recv)).release y := by
  rcases posts_eq_some hp with ⟨d, ha, -⟩ | ⟨v, j, io, ha, hv, -, hf⟩ | ⟨v, j, -, -, -, hk⟩
  · cases ha
  · obtain ⟨rfl, rfl⟩ := Action.worker.inj ha
    cases hm with
    | sent hw hf' =>
      obtain ⟨rfl, hb⟩ := Worker.busy.inj (hw.symm.trans hv)
      obtain rfl := Stage.fill.inj hb
      exact ⟨_, _, hv, hf', rfl⟩
    | overrun hw hf' =>
      obtain ⟨rfl, hb⟩ := Worker.busy.inj (hw.symm.trans hv)
      obtain rfl := Stage.fill.inj hb
      rw [hf] at hf'
      cases hf'
    | exit hw | dispatched hw | noBuddy hw | buddy hw | nullBuddy hw | sending hw | zeroed hw
    | received hw | removed hw | finished hw => exact absurd (hw.symm.trans hv) (by simp)
  · cases hk

/-- A worker that posts a send goes on to `Recv`. -/
theorem WorkerMove.worker_of_posts {w : Fin n} {o : WorkerOutcome} (hm : WorkerMove s w o s')
    {y : CtxId} (hp : s.posts (.worker w o) = some (.send, y)) :
    ∃ j, s'.worker w = .busy j .recv := by
  obtain ⟨j, io, -, -, rfl⟩ := hm.eq_of_posts hp
  exact ⟨j, Function.update_self _ _ _⟩

/-- A worker that takes up the bytes of a read finds the send record free, and no other worker
posts a send on it before this one does. -/
theorem WorkerMove.exclusive {w : Fin n} {o : WorkerOutcome} (hm : WorkerMove s w o s')
    (h : s.Exclusive) (ho : s.Orderly) (hG : SendReady s (.worker w o)) : s'.Exclusive := by
  refine ⟨fun y => ?_, fun x y hp w' j hj => ?_⟩
  · have hle := hm.sendLoad_le y
    split_ifs at hle with hposts
    · have hzero := h.free_of_posts ho hposts
      omega
    · exact hle.trans (h.load_le y)
  · rw [hm.sameLinks.partner_iff] at hp
    -- the record stays free unless this worker posts on it
    have stay : ¬ s.Busy y → s.posts (.worker w o) ≠ some (.send, y) → ¬ s'.Busy y := by
      intro hfree hposts
      have hle := hm.sendLoad_le y
      rw [if_neg hposts] at hle
      unfold Busy at hfree ⊢
      omega
    rcases hm.carries_cases hj with hold | ⟨rfl, hw, op, c, rfl, -, hx, hk, hst, hpos⟩
    · refine stay (h.free x y hp w' j hold) fun hposts => ?_
      obtain ⟨j', hrecv⟩ := hm.worker_of_posts hposts
      rcases posts_eq_some hposts with ⟨d, ha, -⟩ | ⟨v, j₀, io, ha, hv, -⟩ | ⟨v, j₀, -, -, -, hk⟩
      · cases ha
      · obtain ⟨rfl, -⟩ := Action.worker.inj ha
        obtain ⟨rfl, -⟩ := ho.sender_unique hp hold (.inr hv)
        simp [hrecv, Worker.carries, Stage.Carrying] at hj
      · cases hk
    · have hdel : op.Delivers := by
        refine ⟨hk, ?_⟩
        rw [hst]
        exact hpos
      have hfree : s.BuddyFree x := hx ▸ hG.2 hdel
      exact stay (hfree.not_busy hp) (by simp [posts])

namespace State

theorem Exclusive.step {a : Action n} (h : s.Exclusive) (ho : s.Orderly) (hG : SendReady s a)
    (hm : Move s a s') : s'.Exclusive := by
  have quiet : (∀ y, s'.sendLoad y = s.sendLoad y) → s'.worker = s.worker →
      (∀ {x y}, s'.Partner x y → s.Partner x y ∨ ¬ s.Settled x) → s'.Exclusive := by
    intro hl hw hp
    refine ⟨fun y => (hl y).le.trans (h.load_le y), fun x y hxy w j hj => ?_⟩
    rw [hw] at hj
    rw [Busy, hl]
    rcases hp hxy with hxy | hx
    · exact h.free x y hxy w j hj
    · have hread := Worker.reading_of_carries hj
      exact absurd (ho.served.load_eq_zero hx) (load_pos_of_reading hread).ne'
  rcases hm with hm | hm | hm | hm
  · obtain ⟨hctx, hnext, -, -, -, hw, -⟩ := hm.frame
    refine quiet (fun y => ?_) hw fun hp => .inl ?_
    · rw [sendLoad, sendLoad, hm.outstanding, workers_congr hw]
    · exact (SameLinks.of_ctx hctx hnext).partner_iff.mp hp
  · have hw := hm.frame.1
    refine quiet (fun y => ?_) hw fun hp => ?_
    · rw [sendLoad, sendLoad, hm.outstanding, workers_congr hw, if_neg, Nat.add_zero]
      intro hp
      rcases posts_eq_some hp with ⟨d, -, -, -, hk⟩ | ⟨w, j, io, ha, -⟩ | ⟨w, j, ha, -⟩
      · cases hk
      · cases ha
      · cases ha
    · exact (hm.partner_cases ho.sound hp).imp_right fun hx hset => hx.1 hset.1
  · exact hm.exclusive h ho hG
  · have hw := hm.frame.2.2.2.2.2.2.1
    refine quiet (fun y => ?_) hw fun hp => .inl (hm.sameLinks.partner_iff.mp hp)
    rw [sendLoad, sendLoad, hm.outstanding, workers_congr hw]

theorem exclusive_initial : (initial n).Exclusive where
  load_le y := by
    have hout : (initial n).outstanding .send y = 0 := rfl
    have hw : (initial n).workers (Worker.HandlesSend y) = 0 := by
      by_contra hne
      obtain ⟨w, hw⟩ := workers_pos_iff.mp (Nat.pos_of_ne_zero hne)
      exact hw
    rw [sendLoad, hout, hw]
    exact zero_le_one
  free := by simp [initial, Worker.carries]

/-- Along runs that meet the condition the relay stays in order and send records are used by one
send at a time. -/
theorem exclusive_of_reachable (hs : (proxy n).Reachable SendReady s) :
    s.Orderly ∧ s.Exclusive := by
  refine hs.invariant (I := fun s => s.Orderly ∧ s.Exclusive)
    ⟨orderly_initial, exclusive_initial⟩ fun s a s' h hG hstep => ?_
  have hm := (step_move hstep).2.2
  exact ⟨h.1.step hG.1 (h.2.typeSafe h.1 a) hm, h.2.step h.1 hG hm⟩

/-- A send record in use is not touched. -/
theorem Exclusive.ioSend_eq {a : Action n} (h : s.Exclusive) (ho : s.Orderly) (hm : Move s a s')
    {y : CtxId} (hb : s.Busy y) : (s'.ctx y).ioSend = (s.ctx y).ioSend := by
  rcases hm with hm | hm | hm | hm
  · rw [hm.frame.1]
  · rcases (hm.records_eq y).1 with e | ⟨rfl, -⟩
    · exact e
    · -- the id of a new context has no operations yet
      have hset : s.Settled s.next := by
        rcases Nat.add_pos_iff_pos_or_pos.mp hb with hout | hw
        · exact ho.served.ops _ _ hout
        · obtain ⟨w, hw⟩ := workers_pos_iff.mp hw
          cases hj : s.worker w with
          | busy j st =>
            rw [hj] at hw
            obtain ⟨he, hset⟩ := ho.served.jobs w j st hj
            exact hw.1 ▸ he ▸ hset
          | _ => simp [hj, Worker.HandlesSend] at hw
      exact absurd (ho.sound.added_lt _ hset.1) (lt_irrefl _)
  · rcases hm.ioSend_eq y with ⟨e, -⟩ | ⟨j, hw, -⟩ | ⟨j, hw, -⟩
    · exact e
    · obtain ⟨hc, hp⟩ := ho.carries_of_send (.inl hw)
      exact absurd hb (h.free _ _ hp _ j hc)
    · obtain ⟨hc, hp⟩ := ho.carries_of_send (.inr hw)
      exact absurd hb (h.free _ _ hp _ j hc)
  · exact (hm.records_eq y).1

end State

/-- In every state of a run that takes up the bytes of a read only when the buddy's send record is
free, at most one send per context is outstanding or having its completion handled, and meanwhile
no step changes the record. -/
theorem exclusive_send (hs : (proxy n).Reachable SendReady s) :
    (∀ y, s.outstanding .send y + s.workers (Worker.HandlesSend y) ≤ 1) ∧
    ∀ y a s', s.Busy y → (proxy n).step s a = some s' →
      (s'.ctx y).ioSend = (s.ctx y).ioSend := by
  obtain ⟨ho, h⟩ := exclusive_of_reachable hs
  exact ⟨h.load_le, fun y a s' hb hstep => h.ioSend_eq ho (step_move hstep).2.2 hb⟩

/-- The completion of the send of `len` bytes on `y` is queued, and the worker `w` handles it. -/
def sendDone (w : Fin 2) (y : CtxId) (len : ℕ) : List (Action 2) :=
  [.net (.transmit (.posted y .send len) len),
    .net (.complete { Op.posted y .send len with off := len }),
    .worker w (.dequeue ⟨y, .send, len, len, .done true len⟩ y)] ++
    List.replicate 2 (.worker w .ok)

set_option maxRecDepth 10000 in
/-- Two chunks are forwarded, the second one after the send of the first was handled. -/
theorem exclusive_send_run :
    ∃ s : State 2, s.sends 1 = [⟨0, 0, 2⟩, ⟨0, 1, 1⟩] ∧ s.outstanding .send 1 = 1 ∧
      s.outstanding .send 1 + s.workers (Worker.HandlesSend 1) ≤ 1 := by
  obtain ⟨s, hs, hsends, hout⟩ : ∃ s : State 2, (proxy 2).Reachable SendReady s ∧
      s.sends 1 = [⟨0, 0, 2⟩, ⟨0, 1, 1⟩] ∧ s.outstanding .send 1 = 1 :=
    TransitionSystem.exists_reachable_of_runChecked (startUp ++ connection 11 12 ++
      relay 0 0 [65, 66] ++ sendDone 1 1 2 ++ relay 1 0 [67]) (by decide +kernel)
  exact ⟨s, hsends, hout, (exclusive_send hs).1 1⟩

set_option maxRecDepth 10000 in
/-- A second chunk arrives while the send of the first one is still pending: both sends use the
one record. -/
theorem exclusive_send_fails :
    ∃ s : State 2, (proxy 2).Reachable KeyedAtomic s ∧ s.outstanding .send 1 = 2 ∧
      s.sends 1 = [⟨0, 0, 1⟩, ⟨0, 1, 1⟩] ∧ (s.ctx 1).ioSend.buffer.slice 0 1 = [66] :=
  TransitionSystem.exists_reachable_of_runChecked
    (startUp ++ connection 11 12 ++ relay 0 0 [65] ++ relay 1 0 [66]) (by decide +kernel)

end IocpProxy
