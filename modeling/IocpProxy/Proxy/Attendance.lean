import IocpProxy.Proxy.Termination

/-!
# No connection is forgotten

`Receives` shows that a context never has two receives at a time. Here is the other half: as long
as a context is on the client list somebody attends to it. A receive is outstanding, or a worker
handles a read completion of it, or the accept thread is yet to post its first receive, or one of
the two is about to take it off the list. So a connection is never left on the list without anyone
who would notice what its peer does.

## Main definitions

* `IocpProxy.Worker.Attends`, `IocpProxy.AcceptThread.Attends`, `IocpProxy.State.Attended`.
* `IocpProxy.State.ReadTyped` : the receive records keep the type of a read.
* `IocpProxy.Attendant` : the thread that attends, with the steps it has left.

## Main results

* `IocpProxy.receive_answered`.
-/

namespace IocpProxy

open State

variable {n : ℕ} {s s' : State n}

/-! ### Who attends to a context -/

/-- The worker handles a read completion of `x`, or is about to take `x` off the list. -/
def Worker.Attends (x : CtxId) : Worker → Prop
  | .busy j st => j.ctx = x ∧ st ≠ .finish ∧ (j.kind = .recv ∨ st = .failed)
  | _ => False

/-- The accept thread is yet to post the first receive of `x`, or to take `x` off the list. -/
def AcceptThread.Attends (t : AcceptThread) (x : CtxId) : Prop :=
  match t.pc with
  | .add .remote => t.client = some x
  | .recv .client | .exitClose | .exitRemove .client => t.Holds x
  | .recv .remote | .exitNull .client | .exitRemove .remote => t.remote = some x
  | _ => False

namespace State

/-- A receive of `x` is outstanding, or a thread attends to `x`. -/
def Attended (s : State n) (x : CtxId) : Prop :=
  0 < s.outstanding .recv x ∨ s.accept.Attends x ∨ ∃ w, (s.worker w).Attends x

/-- The receive records have the type of a read, also while a send record is cleared. -/
def ReadTyped (s : State n) : Prop := ∀ x, (s.ctx x).ioRecv.ioType = opRead

theorem ReadTyped.step {a : Action n} (h : s.ReadTyped) (hm : Move s a s') : s'.ReadTyped := by
  intro x
  rcases hm with hm | hm | hm | hm
  · rw [hm.frame.1]
    exact h x
  · rcases (hm.records_eq x).2 with e | ⟨-, e⟩ | ⟨-, -, -, e⟩ <;> rw [e]
    · exact h x
    · rfl
    · rfl
  · rcases hm.ioRecv_eq x with e | ⟨-, -, -, e⟩ <;> rw [e]
    · exact h x
    · rfl
  · rcases (hm.records_eq x).2 with e | ⟨o, bs, -, -, -, -, -, e⟩ <;> rw [e] <;> exact h x

/-- A read completion goes to `Forward`, or to the removal when it brought nothing. -/
theorem ReadTyped.dispatch_ne (h : s.ReadTyped) {j : Job} (hk : j.kind = .recv) :
    s.dispatch j ≠ .finish := by
  have htype : s.ioTypeOf j = opRead := by
    rw [ioTypeOf, hk]
    exact h j.owner
  unfold State.dispatch
  split_ifs <;> simp

end State

/-! ### What the threads do to a context that is attended to -/

/-- The main thread starts the accept thread, and leaves it alone from then on. -/
theorem MainMove.accept_eq_of_attends {o : MainOutcome} (hm : MainMove s o s') (hs : s.Sound)
    {x : CtxId} (h : s.accept.Attends x) : s'.accept = s.accept := by
  cases hm with
  | started hmain =>
    have hpc := hs.boot (by simp [hmain])
    simp [AcceptThread.Attends, hpc] at h
  | sweep => exact s.cleanClientList_frame.2.2.2.1
  | _ => rfl

theorem MainMove.attended {o : MainOutcome} (hm : MainMove s o s') (hs : s.Sound) {x : CtxId}
    (h : s.Attended x) : s'.Attended x := by
  rw [Attended, hm.outstanding, hm.frame.2.2.2.2.2.1]
  exact h.imp_right (.imp_left fun h => (hm.accept_eq_of_attends hs h).symm ▸ h)

/-- The accept thread attends to both contexts from when it puts them on the list until it has
posted their receives, or has taken them off again. -/
theorem AcceptMove.attends {o : AcceptOutcome} (hm : AcceptMove s o s') (hl : s.Listed)
    {x : CtxId} (hx : x ∈ s'.clientContext) (h : s.accept.Attends x ∨ x ∉ s.clientContext) :
    s'.accept.Attends x ∨ s.posts (.accept o) = some (.recv, x) := by
  have old : s'.clientContext.Sublist s.clientContext → s.accept.Attends x := fun hsub =>
    h.resolve_right fun hn => hn (hsub.subset hx)
  cases hm with
  | @added d y hpc hy =>
    have hxy : x ∉ s.clientContext → x = y := fun hn => by
      simpa [addToClientList, acceptAt, hn] using hx
    left
    cases d with
    | client =>
      rcases h with h | h
      · simp [AcceptThread.Attends, hpc] at h
      · exact hxy h ▸ hy
    | remote =>
      rcases h with h | h
      · have hclient : s.accept.client = some x := by simpa [AcceptThread.Attends, hpc] using h
        exact .inl hclient
      · exact .inr (hxy h ▸ hy)
  | @posted d y hpc hy ht =>
    have h := old (List.Sublist.refl _)
    cases d with
    | client =>
      have hx : s.accept.Holds x := by simpa [AcceptThread.Attends, hpc] using h
      rcases hx with hx | hx
      · exact .inr (by simp [posts, hpc, AcceptThread.side, hx])
      · exact .inl hx
    | remote =>
      have hx : s.accept.remote = some x := by simpa [AcceptThread.Attends, hpc] using h
      exact .inr (by simp [posts, hpc, AcceptThread.side, hx])
  | @notPosted d y hpc =>
    have h := old (List.Sublist.refl _)
    have hx : s.accept.Holds x := by
      cases d with
      | client => simpa [AcceptThread.Attends, hpc] using h
      | remote => exact .inr (by simpa [AcceptThread.Attends, hpc] using h)
    exact .inl hx
  | exitClosed hpc =>
    have h := old (by simp)
    have hx : s.accept.Holds x := by simpa [AcceptThread.Attends, hpc] using h
    have hsome : ¬ (s.accept.client = none ∧ s.accept.remote = none) := fun hnone => by
      simp [AcceptThread.Holds, hnone] at hx
    left
    rw [exitClosed_accept_eq, if_neg hsome]
    exact hx
  | @exitRemoved d hpc =>
    have h := old (s.removeFromClientList_sublist _)
    -- the context that is taken off the list was there once
    have hne : s.accept.side d ≠ some x := fun hd => by
      rw [hd] at hx
      exact hl.nodup.not_mem_erase hx
    cases d with
    | client =>
      have hx : s.accept.Holds x := by simpa [AcceptThread.Attends, hpc] using h
      have hr : s.accept.remote = some x := hx.resolve_left hne
      left
      simpa [AcceptThread.Attends, acceptAt] using hr
    | remote =>
      exact absurd (by simpa [AcceptThread.Attends, AcceptThread.side, hpc] using h) hne
  | @exitNulled d hpc =>
    have h := old (by simp [State.exitNulled])
    cases d with
    | client =>
      have hr : s.accept.remote = some x := by simpa [AcceptThread.Attends, hpc] using h
      left
      simpa [AcceptThread.Attends, State.exitNulled, AcceptThread.clear, afterNull] using hr
    | remote => simp [AcceptThread.Attends, hpc] at h
  | linked hpc =>
    have h := old (by simp [(s.linked_frame _ _).2.2.2.1])
    simp [AcceptThread.Attends, hpc] at h
  | returned hpc =>
    have h := old (by simp [acceptReturned])
    simp [AcceptThread.Attends, hpc] at h
  | associateFailed hpc =>
    have h := old (s.removeFromClientList_sublist (some _))
    simp [AcceptThread.Attends, hpc] at h
  | stop hpc | failed hpc | accepted hpc | remoteFailed hpc | remoteMade hpc | enter hpc
  | associated hpc =>
    have h := old (List.Sublist.refl _)
    simp [AcceptThread.Attends, hpc] at h

theorem AcceptMove.attended {o : AcceptOutcome} (hm : AcceptMove s o s') (hl : s.Listed)
    {x : CtxId} (hx : x ∈ s'.clientContext) (h : x ∈ s.clientContext → s.Attended x) :
    s'.Attended x := by
  have hout := hm.outstanding .recv x
  rw [Attended, hm.frame.1]
  have goOn : s.accept.Attends x ∨ x ∉ s.clientContext →
      0 < s'.outstanding .recv x ∨ s'.accept.Attends x := fun h => by
    rcases hm.attends hl hx h with h | hp
    · exact .inr h
    · rw [if_pos hp] at hout
      exact .inl (by omega)
  by_cases hold : x ∈ s.clientContext
  · rcases h hold with h | h | h
    · exact .inl (by omega)
    · exact or_assoc.mp (.inl (goOn (.inl h)))
    · exact .inr (.inr h)
  · exact or_assoc.mp (.inl (goOn (.inr hold)))

/-- A worker that attends to a context goes on, posts the next receive, or takes the context off
the list. -/
theorem WorkerMove.attends {w : Fin n} {o : WorkerOutcome} (hm : WorkerMove s w o s')
    (hl : s.Listed) (ht : s.ReadTyped) {x : CtxId} (hx : x ∈ s'.clientContext)
    (h : (s.worker w).Attends x) : (s'.worker w).Attends x ∨ 0 < s'.outstanding .recv x := by
  have self : ∀ {v : Worker}, (s.setWorker w v).worker w = v := Function.update_self _ _ _
  have goOn : ∀ {j : Job} {st st' : Stage}, s.worker w = .busy j st → s'.worker w = .busy j st' →
      st ≠ .failed → st' ≠ .finish → (s'.worker w).Attends x := by
    intro j st st' hw hw' hst hst'
    rw [hw] at h
    rw [hw']
    exact ⟨h.1, hst', .inl (h.2.2.resolve_right hst)⟩
  cases hm with
  | exit hw | dequeued hw | dead hw => simp [hw, Worker.Attends] at h
  | @dispatched j hw =>
    have hk : j.kind = .recv := by
      rw [hw] at h
      exact h.2.2.resolve_right nofun
    exact .inl (goOn hw self nofun (ht.dispatch_ne hk))
  | noBuddy hw | buddy hw | sending hw | zeroed hw | sent hw | notSent hw | notReceived hw =>
    exact .inl (goOn hw self nofun nofun)
  | nullBuddy | overrun => exact .inl h
  | @received j hw =>
    have hj : j.ctx = x := by
      rw [hw] at h
      exact h.1
    have hpost : ((s.postRecv j.ctx).setWorker w (.busy j .finish)).outstanding .recv x =
        s.outstanding .recv x + _ := outstanding_posted (by rfl) .recv x
    rw [if_pos (by rw [hj])] at hpost
    exact .inr (by omega)
  | @removed j hw =>
    have hj : j.ctx = x := by
      rw [hw] at h
      exact h.1
    subst hj
    exact absurd hx hl.nodup.not_mem_erase
  | finished hw => simp [hw, Worker.Attends] at h

/-- A worker that dequeues the completion of a receive attends to its context. -/
theorem WorkerMove.attends_of_outstanding {w : Fin n} {o : WorkerOutcome}
    (hm : WorkerMove s w o s') (hG : IdealKeys s (.worker w o)) {x : CtxId}
    (h : 0 < s.outstanding .recv x) : 0 < s'.outstanding .recv x ∨ (s'.worker w).Attends x := by
  cases hm with
  | @dequeued op c ok bytes hw ho =>
    have herase : (s.dequeued w op c ok bytes).outstanding .recv x + _ = s.outstanding .recv x :=
      outstanding_erase ho rfl .recv x
    by_cases hop : op.ctx = x ∧ op.kind = .recv
    · have hself : (s.dequeued w op c ok bytes).worker w =
          .busy ⟨c, op.ctx, op.kind, ok, bytes, (s.reads op.ctx).length⟩ .dispatch :=
        Function.update_self _ _ _
      have hc : c = op.ctx := hG
      rw [hself]
      exact .inr ⟨hc.trans hop.1, nofun, .inl hop.2⟩
    · rw [if_neg hop] at herase
      exact .inl (by omega)
  | @sent j b io hw =>
    have hpost : (s.postSend b io ⟨j.ctx, j.seq, io.dataBufLen⟩).outstanding .recv x =
        s.outstanding .recv x + _ := outstanding_posted (by rfl) .recv x
    rw [outstanding_release]
    exact .inl (Nat.lt_of_lt_of_le h (hpost.ge.trans' (Nat.le_add_right _ _)))
  | @received j hw =>
    have hpost : ((s.postRecv j.ctx).setWorker w (.busy j .finish)).outstanding .recv x =
        s.outstanding .recv x + _ := outstanding_posted (by rfl) .recv x
    exact .inl (by omega)
  | notSent =>
    rw [outstanding_release]
    exact .inl h
  | finished =>
    rw [State.finished, outstanding_release]
    exact .inl h
  | _ => exact .inl h

theorem WorkerMove.attended {w : Fin n} {o : WorkerOutcome} (hm : WorkerMove s w o s')
    (hl : s.Listed) (ht : s.ReadTyped) (hG : IdealKeys s (.worker w o)) {x : CtxId}
    (hx : x ∈ s'.clientContext) (h : s.Attended x) : s'.Attended x := by
  rcases h with h | h | ⟨v, h⟩
  · exact (hm.attends_of_outstanding hG h).imp_right fun hw => .inr ⟨w, hw⟩
  · exact .inr (.inl (hm.frame.1.symm ▸ h))
  · by_cases hv : v = w
    · subst hv
      rcases hm.attends hl ht hx h with h | h
      · exact .inr (.inr ⟨v, h⟩)
      · exact .inl h
    · exact .inr (.inr ⟨v, (hm.worker_of_ne hv).symm ▸ h⟩)

theorem NetMove.attended {a : NetAction} (hm : NetMove s a s') {x : CtxId} (h : s.Attended x) :
    s'.Attended x := by
  rw [Attended, hm.outstanding, hm.frame.1, hm.frame.2.2.2.2.2.2.1]
  exact h

/-- A step keeps somebody at every context that is on the list after it. -/
theorem Move.attended {a : Action n} (hm : Move s a s') (hs : s.Sound) (hl : s.Listed)
    (ht : s.ReadTyped) (hG : IdealKeys s a) {x : CtxId} (hx : x ∈ s'.clientContext)
    (h : x ∈ s.clientContext → s.Attended x) : s'.Attended x := by
  cases hm with
  | main hm =>
    refine hm.attended hs (h ?_)
    cases hm with
    | sweep => simp [mainAt, cleanClientList_clientContext] at hx
    | _ => exact hx
  | accept hm => exact hm.attended hl hx h
  | worker hm =>
    refine hm.attended hl ht hG hx (h ?_)
    cases hm with
    | removed => exact List.mem_of_mem_erase hx
    | _ => exact hx
  | net hm => exact hm.attended (h (hm.frame.2.2.2.2.2.2.2.2.1 ▸ hx))

/-! ### The result -/

namespace State

/-- All workers wait for completions, and the accept thread for a connection. -/
def Idle (s : State n) : Prop := s.accept.pc = .loop ∧ ∀ w, s.worker w = .waiting

instance (s : State n) : Decidable s.Idle := inferInstanceAs (Decidable (_ ∧ _))

theorem Attended.outstanding_pos {x : CtxId} (h : s.Attended x) (hidle : s.Idle) :
    0 < s.outstanding .recv x := by
  rcases h with h | h | ⟨w, h⟩
  · exact h
  · simp [AcceptThread.Attends, hidle.1] at h
  · simp [hidle.2 w, Worker.Attends] at h

theorem attended_of_reachable (hs : (proxy n).Reachable IdealKeys s) :
    s.ReadTyped ∧ ∀ x ∈ s.clientContext, s.Attended x := by
  refine hs.invariant_step (I := fun s => s.ReadTyped ∧ ∀ x ∈ s.clientContext, s.Attended x)
    ⟨fun _ => rfl, by simp [proxy, initial]⟩ fun s a s' hr ⟨ht, h⟩ hG hstep => ?_
  have hm := (step_move hstep).2.2
  exact ⟨ht.step hm, fun x hx =>
    hm.attended (sound_of_reachable hr) (listed_of_reachable hr) ht hG hx (h x)⟩

end State

/-! ### Who attends to a context answers -/

/-- A thread that attends to contexts. -/
inductive Attendant (n : ℕ)
  | accept
  | worker (w : Fin n)

namespace Attendant

/-- The steps of the thread. -/
def takes : Attendant n → Action n → Bool
  | .accept, .accept _ => true
  | .worker w, .worker v _ => v = w
  | _, _ => false

/-- The thread attends to `x`. -/
def Attends (s : State n) (x : CtxId) : Attendant n → Prop
  | .accept => s.accept.Attends x
  | .worker w => (s.worker w).Attends x

/-- The most steps of the thread until it no longer attends to a context, if the run goes on. -/
def left (s : State n) : Attendant n → ℕ
  | .accept => s.accept.pc.toReturn - 2
  | .worker w => (s.worker w).left .head - 2

/-- The most steps of the thread until it no longer attends to a context. -/
def toAnswer (s : State n) (p : Attendant n) : ℕ := if s.fault = none then p.left s else 0

end Attendant

/-- The context is on the client list, and nobody listens to its peer. -/
def State.Unanswered (s : State n) (x : CtxId) : Prop :=
  s.outstanding .recv x = 0 ∧ x ∈ s.clientContext

/-- A worker that attends to a context is in the loop body before its end. -/
theorem Worker.Attends.exists_busy {x : CtxId} {v : Worker} (h : v.Attends x) :
    ∃ j st, v = .busy j st ∧ 3 ≤ st.left := by
  cases v with
  | busy j st =>
    refine ⟨j, st, rfl, ?_⟩
    cases st with
    | finish => exact absurd rfl h.2.1
    | _ => simp [Stage.left]
  | _ => exact h.elim

/-- The labels at which the accept thread attends to a context. -/
theorem AcceptThread.Attends.toReturn_mem {x : CtxId} {t : AcceptThread} (h : t.Attends x) :
    3 ≤ t.pc.toReturn ∧ t.pc.toReturn ≤ 9 := by
  unfold Attends at h
  split at h <;> simp_all [AcceptPc.toReturn]

namespace Attendant

variable {p : Attendant n} {x : CtxId}

/-- A thread that attends to a context has from one to seven steps to go. -/
theorem Attends.left_mem (h : p.Attends s x) : 1 ≤ p.left s ∧ p.left s ≤ 7 := by
  cases p with
  | accept =>
    have hmem := AcceptThread.Attends.toReturn_mem h
    rw [left]
    omega
  | worker w =>
    obtain ⟨j, st, hw, hpos⟩ := Worker.Attends.exists_busy h
    have hle := st.left_le.2
    rw [left, hw, Worker.left]
    omega

/-- A thread that attends to a context nobody listens to goes on with it. -/
theorem Attends.step {a : Action n} (h : p.Attends s x) (hm : Move s a s') (hs : s.Sound)
    (hl : s.Listed) (ht : s.ReadTyped) (hu : s'.Unanswered x) : p.Attends s' x := by
  cases p with
  | accept =>
    cases hm with
    | main hm => rwa [Attends, hm.accept_eq_of_attends hs h]
    | accept hm =>
      refine (hm.attends hl hu.2 (.inl h)).resolve_right fun hp => ?_
      have hout := hm.outstanding .recv x
      rw [if_pos hp, hu.1] at hout
      omega
    | worker hm => rwa [Attends, hm.frame.1]
    | net hm => rwa [Attends, hm.frame.1]
  | worker w =>
    rcases hm.worker_eq_or w with hw | ⟨o, rfl, hmw⟩
    · rwa [Attends, hw]
    · refine (hmw.attends hl ht hu.2 h).resolve_right ?_
      rw [hu.1]
      exact lt_irrefl 0

/-- A step of a thread that attends to a context makes what it has to go less; no other step
changes that. -/
theorem Attends.left_step {a : Action n} (h : p.Attends s x) (hm : Move s a s') (hs : s.Sound)
    (hf : s'.fault = none) : p.left s' + (p.takes a).toNat ≤ p.left s := by
  have hpos := h.left_mem.1
  cases p with
  | accept =>
    rw [left] at hpos ⊢
    rw [left]
    have same : s'.accept = s.accept → takes .accept a = false →
        s'.accept.pc.toReturn - 2 + (takes .accept a).toNat ≤ s.accept.pc.toReturn - 2 := by
      intro hacc ht
      rw [hacc, ht]
      exact le_rfl
    cases hm with
    | main hm => exact same (hm.accept_eq_of_attends hs h) rfl
    | accept hm =>
      have hloop : s.accept.pc ≠ .loop := fun hpc => by simp [hpc, AcceptPc.toReturn] at hpos
      have hlt := (hm.toReturn_lt hloop).2
      rw [takes, Bool.toNat_true]
      omega
    | worker hm => exact same hm.frame.1 rfl
    | net hm => exact same hm.frame.1 rfl
  | worker w =>
    rw [left] at hpos ⊢
    rw [left]
    by_cases ha : takes (.worker w) a = true
    · cases a with
      | worker v o =>
        obtain rfl : v = w := of_decide_eq_true ha
        obtain ⟨j, st, hw, -⟩ := Worker.Attends.exists_busy h
        rcases hm with - | - | hm | -
        have hlt : (s'.worker v).left .head < (s.worker v).left .get :=
          (hm.left_lt (p := .get) (q := .head) (fun _ _ _ => rfl)
            fun _ _ _ => by simp).resolve_left fun h => h.1 hf
        have hsame : (s.worker v).left .get = (s.worker v).left .head := by
          rw [hw]
          rfl
        rw [ha, Bool.toNat_true]
        omega
      | _ => cases ha
    · have hw : s'.worker w = s.worker w := by
        refine (hm.worker_eq_or w).resolve_right ?_
        rintro ⟨o, rfl, -⟩
        exact ha (decide_eq_true rfl)
      rw [hw, Bool.eq_false_of_not_eq_true ha]
      exact le_rfl

theorem Attends.toAnswer_step {a : Action n} (h : p.Attends s x)
    (hstep : (proxy n).step s a = some s') (hs : s.Sound) :
    p.toAnswer s' + (p.takes a).toNat ≤ p.toAnswer s := by
  obtain ⟨hf, -, hm⟩ := step_move hstep
  rw [toAnswer, toAnswer, if_pos hf]
  split_ifs with hf'
  · exact h.left_step hm hs hf'
  · exact (Nat.zero_add _).trans_le ((Bool.toNat_le _).trans h.left_mem.1)

/-- A thread that attends to a context has a step to take. -/
theorem Attends.exists_step (h : p.Attends s x) (hs : s.Sound)
    (hrun : s.fault = none ∧ s.main ≠ .exited) :
    ∃ a s', p.takes a = true ∧ (proxy n).step s a = some s' := by
  cases p with
  | accept =>
    have hpc : s.accept.pc ≠ .notStarted ∧ s.accept.pc ≠ .loop ∧ s.accept.pc ≠ .done := by
      have hmem := (AcceptThread.Attends.toReturn_mem h).1
      refine ⟨?_, ?_, ?_⟩ <;> intro hpc <;> simp [hpc, AcceptPc.toReturn] at hmem
    obtain ⟨o, s', hstep⟩ := hs.acceptOk.exists_step hrun hpc
    exact ⟨.accept o, s', rfl, hstep⟩
  | worker w =>
    obtain ⟨j, st, hw, -⟩ := Worker.Attends.exists_busy h
    obtain ⟨o, s', -, hstep⟩ := State.exists_worker_step hrun hw
    exact ⟨.worker w o, s', decide_eq_true rfl, hstep⟩

end Attendant

/-- While nobody listens to the peer of a context on the list, a thread that attends to it goes on
with it. -/
theorem Attendant.Attends.of_path {p : Attendant n} {x : CtxId} {as : List (Action n)} {t : State n}
    (h : p.Attends s x) (hs : (proxy n).Reachable IdealKeys s)
    (hp : (proxy n).Path (fun s a => IdealKeys s a ∧ s.Unanswered x) s as t) :
    as.countP p.takes ≤ 7 ∧ (t.Unanswered x → p.Attends t x) := by
  have keep : ∀ s a s', (proxy n).Reachable IdealKeys s ∧ (s.Unanswered x → p.Attends s x) →
      IdealKeys s a ∧ s.Unanswered x → (proxy n).step s a = some s' →
      (proxy n).Reachable IdealKeys s' ∧ (s'.Unanswered x → p.Attends s' x) := by
    rintro s a s' ⟨hr, ha⟩ ⟨hG, hu⟩ hstep
    exact ⟨.step hr hG hstep, (ha hu).step (step_move hstep).2.2 (sound_of_reachable hr)
      (listed_of_reachable hr) (attended_of_reachable hr).1⟩
  have hcount := hp.countP_add_le (v := fun s => (p.toAnswer s : ℤ)) (p := p.takes) keep
    (fun s a s' ⟨hr, ha⟩ ⟨_, hu⟩ hstep =>
      mod_cast (ha hu).toAnswer_step hstep (sound_of_reachable hr)) ⟨hs, fun _ => h⟩
  have hle : p.toAnswer s ≤ 7 := by
    rw [Attendant.toAnswer]
    split_ifs
    · exact h.left_mem.2
    · exact Nat.zero_le _
  refine ⟨by omega, (hp.invariant keep ⟨hs, fun _ => h⟩).2⟩

/-- As long as a context is on the client list, a receive is outstanding on it, or one thread is
about to post one or to take the context off the list: this thread has, as long as the process runs,
a step to take until it has done so, and takes at most seven, whatever the others do in between. So
when the threads are idle, every context on the list has a receive outstanding. -/
theorem receive_answered (hs : (proxy n).Reachable IdealKeys s) {x : CtxId}
    (hx : x ∈ s.clientContext) :
    (s.Idle → 0 < s.outstanding .recv x) ∧
    (0 < s.outstanding .recv x ∨ ∃ p : Attendant n, ∀ as t,
      (proxy n).Path (fun s a => IdealKeys s a ∧ s.Unanswered x) s as t →
        as.countP p.takes ≤ 7 ∧
        (t.Unanswered x → t.fault = none ∧ t.main ≠ .exited →
          ∃ a t', p.takes a = true ∧ (proxy n).step t a = some t')) := by
  have h := (attended_of_reachable hs).2 x hx
  refine ⟨h.outstanding_pos, ?_⟩
  have answers : ∀ p : Attendant n, p.Attends s x → ∀ as t,
      (proxy n).Path (fun s a => IdealKeys s a ∧ s.Unanswered x) s as t →
        as.countP p.takes ≤ 7 ∧
        (t.Unanswered x → t.fault = none ∧ t.main ≠ .exited →
          ∃ a t', p.takes a = true ∧ (proxy n).step t a = some t') := by
    intro p hp as t hpath
    obtain ⟨hcount, ha⟩ := hp.of_path hs hpath
    have hsound := sound_of_reachable (hpath.reachable hs fun _ _ hG => hG.1)
    exact ⟨hcount, fun hu hrun => (ha hu).exists_step hsound hrun⟩
  rcases h with h | h | ⟨w, h⟩
  · exact .inl h
  · exact .inr ⟨.accept, answers .accept h⟩
  · exact .inr ⟨.worker w, answers (.worker w) h⟩

set_option maxRecDepth 10000 in
/-- A worker has taken a chunk of the client and not yet posted the next receive: it has at most
seven steps until then. -/
theorem receive_answered_run : ∃ s : State 2, 0 ∈ s.clientContext ∧ s.outstanding .recv 0 = 0 ∧
    ∃ p : Attendant 2, ∀ as t,
      (proxy 2).Path (fun s a => IdealKeys s a ∧ s.Unanswered 0) s as t →
        as.countP p.takes ≤ 7 := by
  obtain ⟨s, hs, hmem, hnone⟩ : ∃ s : State 2, (proxy 2).Reachable IdealKeys s ∧
      0 ∈ s.clientContext ∧ s.outstanding .recv 0 = 0 :=
    TransitionSystem.exists_reachable_of_runChecked (startUp ++ connection 11 12 ++
      [.net (.receive (.posted 0 .recv 2048) [65]),
        .worker 0 (.dequeue { Op.posted 0 .recv 2048 with status := .done true 1 } 0)])
      (by decide +kernel)
  obtain hpos | ⟨p, hp⟩ := (receive_answered hs hmem).2
  · exact absurd hnone hpos.ne'
  · exact ⟨s, hmem, hnone, p, fun as t h => (hp as t h).1⟩

end IocpProxy
