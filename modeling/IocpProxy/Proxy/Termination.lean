import IocpProxy.Proxy.AcceptProgress

/-!
# Shutdown comes to its end

Once the event is set the threads only finish what they are at: the accept thread its loop body,
which may be one more call of `AcceptConnection`, each worker its completion and at most one more,
and the main thread `CleanUp`. `Server.left` bounds the steps they have to go. Each of their steps
makes it smaller, and while the process runs one of them has a step to take, with or without help
from the network.

## Main definitions

* `IocpProxy.Server.left` and its parts : the most steps to go.
* `IocpProxy.Service.Homing` : a worker with a completion returns to the test of the event.

## Main results

* `IocpProxy.shutdown_terminates`.
-/

namespace IocpProxy

open State

variable {n : ℕ}

/-! ### Steps to go -/

/-- The steps of the threads of the program. -/
def ServerAction.ofThread : ServerAction n → Bool
  | .service (.proxy (.net _)) | .connect | .drop | .netError => false
  | _ => true

theorem ServerAction.ofThread_of_ofAccept {a : ServerAction n} (h : a.ofAccept = true) :
    a.ofThread = true := by
  cases a with
  | service b =>
    cases b with
    | proxy c =>
      cases c with
      | accept => rfl
      | _ => cases h
    | _ => cases h
  | connect | drop | netError => cases h
  | _ => rfl

theorem ServerAction.ofThread_service {b : ServiceAction n} (h : ∀ a, b ≠ .proxy (.net a)) :
    (ServerAction.service b).ofThread = true := by
  cases b with
  | proxy c =>
    cases c with
    | net a => exact absurd rfl (h a)
    | _ => rfl
  | _ => rfl

/-- The place of the accept thread matters for its own steps only. -/
theorem Server.allows_of_ne {s : Server n} {b : ServiceAction n}
    (h : ∀ o, b ≠ .proxy (.accept o)) : s.Allows b := by
  cases b with
  | proxy c =>
    cases c with
    | accept o => exact absurd rfl (h o)
    | _ => trivial
  | _ => trivial

/-- Nobody resets the event. -/
theorem Service.shutdown_of_step {s s' : Service n} {b : ServiceAction n}
    (h : (service n).step s b = some s') (hset : s.proxy.shutdown = true) :
    s'.proxy.shutdown = true := by
  cases serviceStep_move h with
  | stepped _ ht => exact (step_move ht).2.2.shutdown_mono hset
  | _ => exact hset

/-- The most steps of a worker from a stage to the test of the event, and its return. -/
def Stage.left : Stage → ℕ
  | .dispatch => 9
  | .forward => 8
  | .forwardSend => 7
  | .send _ => 6
  | .fill _ => 5
  | .recv => 4
  | .failed => 3
  | .finish => 2

/-- The most steps of a worker. -/
def Worker.left (p : Position) : Worker → ℕ
  | .waiting => if p = .get then 10 else 1
  | .busy _ st => st.left
  | .exited => 0

/-- The most steps of the accept thread from a label of its loop. -/
def LoopPc.left : LoopPc → ℕ
  | .head => 1
  | .wait => 21
  | .enumerate => 20
  | .check => 19
  | .accept => 18

namespace Server

/-- The most steps of the main thread. -/
def mainLeft (s : Server n) : ℕ :=
  match s.service.proxy.main with
  | .waitAccept => n + 3
  | .waitWorkers => n - s.service.posted + 2
  | .closeListen => 1
  | _ => 0

/-- The most steps of the accept thread. -/
def acceptLeft (s : Server n) : ℕ :=
  match s.service.proxy.accept.pc with
  | .notStarted | .done => 0
  | .loop => s.pc.left
  | pc => pc.toReturn + 1

/-- The most steps of the worker `w`. -/
def workerLeft (s : Server n) (w : Fin n) : ℕ :=
  (s.service.proxy.worker w).left (s.service.position w)

/-- The most steps of all threads after the event is set. -/
def left (s : Server n) : ℕ :=
  if s.service.Running then s.mainLeft + s.acceptLeft + ∑ w, s.workerLeft w else 0

end Server

theorem Stage.left_le (st : Stage) : 2 ≤ st.left ∧ st.left ≤ 9 := by
  cases st <;> simp [Stage.left]

theorem Worker.left_le (v : Worker) (p : Position) : v.left p ≤ 10 := by
  cases v with
  | waiting => cases p <;> simp [Worker.left]
  | busy j st => exact st.left_le.2.trans (by omega)
  | exited => exact Nat.zero_le _

theorem LoopPc.left_le (pc : LoopPc) : pc.left ≤ 21 := by
  cases pc <;> decide

theorem Server.left_le (s : Server n) : s.left ≤ 11 * n + 24 := by
  unfold left
  split_ifs
  · have hmain : s.mainLeft ≤ n + 3 := by
      unfold mainLeft
      split <;> omega
    have hacc : s.acceptLeft ≤ 21 := by
      have hret := s.service.proxy.accept.pc.toReturn_le
      have hloop := s.pc.left_le
      unfold acceptLeft
      split <;> omega
    have hsum : ∑ w, s.workerLeft w ≤ ∑ _ : Fin n, 10 :=
      Finset.sum_le_sum fun w _ => Worker.left_le _ _
    simp only [Finset.sum_const, Finset.card_univ, Fintype.card_fin, smul_eq_mul] at hsum
    omega
  · exact Nat.zero_le _

/-- One term of a sum gets smaller, the others stay. -/
theorem sum_add_le_of_term {f g : Fin n → ℕ} {k : ℕ} (w : Fin n) (hne : ∀ v ≠ w, g v = f v)
    (hw : g w + k ≤ f w) : ∑ v, g v + k ≤ ∑ v, f v := by
  have hg := Finset.add_sum_erase Finset.univ g (Finset.mem_univ w)
  have hf := Finset.add_sum_erase Finset.univ f (Finset.mem_univ w)
  have hrest : ∑ v ∈ Finset.univ.erase w, g v = ∑ v ∈ Finset.univ.erase w, f v :=
    Finset.sum_congr rfl fun v hv => hne v (Finset.ne_of_mem_erase hv)
  omega

/-! ### What the threads are at after the event is set -/

/-- The event is set by the main thread on its way into `CleanUp`. -/
theorem Move.shutdown_eq_or {s s' : State n} {a : Action n} (hm : Move s a s') :
    s'.shutdown = s.shutdown ∨ s'.main = .waitAccept := by
  rcases hm with hm | hm | hm | hm
  · cases hm with
    | stop => exact .inr rfl
    | sweep => exact .inl s.cleanClientList_frame.2.2.2.2.2.2.2.2.1
    | _ => exact .inl rfl
  · cases hm with
    | linked => exact .inl (by simp [State.linked, setBuddySocketContext, acceptAt, setCtx])
    | exitClosed =>
      unfold State.exitClosed
      split <;> exact .inl rfl
    | exitRemoved => exact .inl (by simp [acceptAt])
    | exitNulled => exact .inl (by simp [State.exitNulled])
    | returned => exact .inl (by simp [acceptReturned])
    | _ => exact .inl rfl
  · cases hm <;> exact .inl rfl
  · cases hm <;> exact .inl rfl

/-- Once the event is set the main thread is in `CleanUp`, or `main` has returned. -/
theorem State.inCleanUp_of_reachable {G : State n → Action n → Prop} {s : State n}
    (hs : (proxy n).Reachable G s) : s.shutdown = true → s.InCleanUp ∨ s.main = .exited := by
  refine hs.invariant (I := fun s => s.shutdown = true → s.InCleanUp ∨ s.main = .exited) nofun
    fun s a s' ih _ hstep hset => ?_
  have hm := (step_move hstep).2.2
  rcases hm.shutdown_eq_or with hsame | hwait
  · have hbefore := ih (hsame ▸ hset)
    rcases hm.main_eq_or with hmain | ⟨o, rfl, hmm⟩
    · rwa [InCleanUp, hmain]
    · cases hmm with
      | quiet hq =>
        rcases hbefore with (h | h | h) | h <;> simp [mainQuiet, h] at hq
      | acceptDone => exact .inl (.inr (.inl rfl))
      | sweep => exact .inl (.inr (.inr rfl))
      | closed => exact .inr rfl
      | opened h | noSocket h | started h | stop h =>
        rcases hbefore with (h' | h' | h') | h' <;> simp [h'] at h
      | bindFailed h =>
        rcases hbefore with (h' | h' | h') | h' <;> simp [h'] at h
  · exact .inl (.inl hwait)

namespace Service

variable {s s' : Service n}

/-- A worker with a completion goes on at the test of the event. -/
def Homing (s : Service n) : Prop :=
  ∀ w j st, s.proxy.worker w = .busy j st → s.position w = .head

theorem Homing.step {a : ServiceAction n} (h : s.Homing) (hm : ServiceMove s a s') :
    s'.Homing := by
  intro w j st hbusy
  cases hm with
  | posted => exact h w j st hbusy
  | @entered v hv hp =>
    have hne : w ≠ v := by
      rintro rfl
      simp [hv] at hbusy
    exact (Function.update_of_ne hne _ _).trans (h w j st hbusy)
  | @woken v hv hn =>
    have hne : w ≠ v := by
      rintro rfl
      simp [woken, hv.1] at hbusy
    exact (Function.update_of_ne hne _ _).trans (h w j st hbusy)
  | @stepped a t ha ht =>
    have hm := (step_move ht).2.2
    have keep : s.position w = .head → (s.after a t).position w = .head := fun hp =>
      (position_after ha (by simp [hp])).trans hp
    rcases hm.busy hbusy with hsame | ⟨op, c, ok, bytes, rfl, -⟩ | ⟨o, st₀, -, hw, -⟩
    · exact keep (h w j st hsame)
    · exact Function.update_self _ _ _
    · exact keep (h w j st₀ hw)

theorem homing_of_reachable {G : Service n → ServiceAction n → Prop}
    (hs : (service n).Reachable G s) : s.Homing :=
  hs.invariant (fun _ _ _ hw => by cases hw) fun _ _ _ h _ hstep => h.step (serviceStep_move hstep)

end Service

/-! ### Every step of a thread is one less to go -/

/-- A worker that takes a step has fewer to go, or the run ends. -/
theorem WorkerMove.left_lt {s s' : State n} {w : Fin n} {o : WorkerOutcome}
    (hm : WorkerMove s w o s') {p q : Position}
    (hget : ∀ op c, o = .dequeue op c → p = .get)
    (hbusy : ∀ j st, s.worker w = .busy j st → q ≠ .get) :
    s'.fault ≠ none ∧ 0 < (s.worker w).left p ∨
      (s'.worker w).left q < (s.worker w).left p := by
  have busy : ∀ {j st v}, s.worker w = .busy j st → s'.worker w = v → v.left q < st.left →
      (s'.worker w).left q < (s.worker w).left p := fun hw hw' hlt => by
    rw [hw, hw']
    exact hlt
  have fault : ∀ {j st}, s.worker w = .busy j st → 0 < (s.worker w).left p := fun hw => by
    rw [hw]
    exact Nat.lt_of_lt_of_le Nat.zero_lt_two (Stage.left_le _).1
  cases hm with
  | exit hw =>
    have hw' : (s.setWorker w .exited).worker w = .exited := Function.update_self _ _ _
    rw [hw, hw']
    right
    cases p <;> simp [Worker.left]
  | @dequeued op c ok bytes hw =>
    have hp := hget _ _ rfl
    have hw' : (s.dequeued w op c ok bytes).worker w =
        .busy ⟨c, op.ctx, op.kind, ok, bytes, (s.reads op.ctx).length⟩ .dispatch :=
      Function.update_self _ _ _
    rw [hw, hw', hp]
    exact .inr (by simp [Worker.left, Stage.left])
  | dead hw =>
    have hp := hget _ _ rfl
    exact .inl ⟨nofun, by simp [hw, hp, Worker.left]⟩
  | @dispatched j hw =>
    refine .inr (busy hw (Function.update_self _ _ _) ?_)
    change (s.dispatch j).left < 9
    unfold State.dispatch
    split_ifs <;> decide
  | noBuddy hw | buddy hw | sending hw | zeroed hw | sent hw | notSent hw | received hw
  | notReceived hw | removed hw =>
    exact .inr (busy hw (Function.update_self _ _ _) (by simp [Worker.left, Stage.left]))
  | nullBuddy hw | overrun hw => exact .inl ⟨nofun, fault hw⟩
  | finished hw =>
    refine .inr (busy hw (Function.update_self _ _ _) ?_)
    simp [Worker.left, Stage.left, hbusy _ _ hw]

/-- The accept thread returns when it leaves its loop. -/
theorem AcceptMove.done_of_ok {s s' : State n} (hm : AcceptMove s .ok s')
    (hl : s.accept.pc = .loop) : s'.accept.pc = .done := by
  cases hm with
  | stop => rfl
  | _ => simp_all

/-- The main thread comes closer to the end of `CleanUp`. -/
theorem MainMove.of_inCleanUp {s s' : State n} {o : MainOutcome} (hm : MainMove s o s')
    (h : s.InCleanUp) :
    s.main = .waitAccept ∧ s'.main = .waitWorkers ∨ s.main = .waitWorkers ∧ s'.main = .closeListen ∨
      s.main = .closeListen ∧ s'.main = .exited := by
  cases hm with
  | quiet hq => rcases h with h | h | h <;> simp [mainQuiet, h] at hq
  | acceptDone hmain => exact .inl ⟨hmain, rfl⟩
  | sweep hmain => exact .inr (.inl ⟨hmain, rfl⟩)
  | closed hmain =>
    rcases hmain with hmain | hmain
    · exact .inr (.inr ⟨hmain, rfl⟩)
    · rcases h with h | h | h <;> simp [h] at hmain
  | opened hmain | noSocket hmain | started hmain | stop hmain =>
    rcases h with h | h | h <;> simp [h] at hmain
  | bindFailed hmain => rcases h with h | h | h <;> simp [h] at hmain

namespace Server

variable {s s' : Server n} {events : Option Bool}

theorem left_eq (hrun : s.service.Running) :
    s.left = s.mainLeft + s.acceptLeft + ∑ w, s.workerLeft w := if_pos hrun

theorem left_le_sum (s : Server n) : s.left ≤ s.mainLeft + s.acceptLeft + ∑ w, s.workerLeft w := by
  unfold left
  split_ifs <;> omega

theorem left_eq_zero (h : s.service.proxy.fault ≠ none) : s.left = 0 :=
  if_neg fun hrun => h hrun.1

/-- A step of the network or of the peers leaves the threads where they are. -/
theorem left_congr (hserv : s'.service = s.service) (hpc : s'.pc = s.pc) : s'.left = s.left := by
  have hwork : s'.workerLeft = s.workerLeft := by
    funext w
    simp [workerLeft, hserv]
  simp [left, mainLeft, acceptLeft, hwork, hserv, hpc]

/-- A step from one label of the loop to another. -/
theorem left_goto {pc pc' : LoopPc} (hat : s.At pc) (hlt : pc'.left < pc.left)
    (hserv : s'.service = s.service) (hpc : s'.pc = pc') : s'.left + 1 ≤ s.left := by
  obtain ⟨hrun, hl, rfl⟩ := hat
  have hwork : s'.workerLeft = s.workerLeft := by
    funext w
    simp [workerLeft, hserv]
  have hmain : s'.mainLeft = s.mainLeft := by simp [mainLeft, hserv]
  have hacc : s'.acceptLeft = pc'.left := by simp [acceptLeft, hserv, hl, hpc]
  have hacc' : s.acceptLeft = s.pc.left := by simp [acceptLeft, hl]
  have hle := left_le_sum s'
  rw [left_eq hrun, hacc']
  rw [hwork, hmain, hacc] at hle
  omega

/-- The main thread takes a step. -/
theorem left_main {t : Service n} (hrun : s.service.Running)
    (hmain : ({ s with service := t } : Server n).mainLeft < s.mainLeft)
    (hacc : t.proxy.accept = s.service.proxy.accept)
    (hwork : t.proxy.worker = s.service.proxy.worker) (hpos : t.position = s.service.position) :
    ({ s with service := t } : Server n).left + 1 ≤ s.left := by
  have hwork' : ({ s with service := t } : Server n).workerLeft = s.workerLeft := by
    funext w
    simp [workerLeft, hwork, hpos]
  have hacc' : ({ s with service := t } : Server n).acceptLeft = s.acceptLeft := by
    simp [acceptLeft, hacc]
  have hle := left_le_sum { s with service := t }
  rw [hwork', hacc'] at hle
  rw [left_eq hrun]
  omega

/-- The worker `w` takes a step. -/
theorem left_worker {t : Service n} {w : Fin n} (hrun : s.service.Running)
    (hmain : t.proxy.main = s.service.proxy.main) (hposted : t.posted = s.service.posted)
    (hacc : t.proxy.accept = s.service.proxy.accept)
    (hne : ∀ v ≠ w, ({ s with service := t } : Server n).workerLeft v = s.workerLeft v)
    (hw : t.proxy.fault ≠ none ∧ 0 < s.workerLeft w ∨
      ({ s with service := t } : Server n).workerLeft w < s.workerLeft w) :
    ({ s with service := t } : Server n).left + 1 ≤ s.left := by
  rw [left_eq hrun]
  rcases hw with ⟨hf, hpos⟩ | hlt
  · rw [left_eq_zero hf]
    have hterm : s.workerLeft w ≤ ∑ v, s.workerLeft v :=
      Finset.single_le_sum (fun _ _ => Nat.zero_le _) (Finset.mem_univ w)
    omega
  · have hsum := sum_add_le_of_term (k := 1) w hne hlt
    have hmain' : ({ s with service := t } : Server n).mainLeft = s.mainLeft := by
      simp [mainLeft, hmain, hposted]
    have hacc' : ({ s with service := t } : Server n).acceptLeft = s.acceptLeft := by
      simp [acceptLeft, hacc]
    have hle := left_le_sum { s with service := t }
    rw [hmain', hacc'] at hle
    omega

/-- The accept thread takes a step. -/
theorem left_accept {t : Service n} (hrun : s.service.Running)
    (hserv : s'.service = t) (hmain : t.proxy.main = s.service.proxy.main)
    (hposted : t.posted = s.service.posted) (hwork : t.proxy.worker = s.service.proxy.worker)
    (hpos : t.position = s.service.position)
    (hacc : s'.acceptLeft < s.acceptLeft) : s'.left + 1 ≤ s.left := by
  subst hserv
  have hwork' : s'.workerLeft = s.workerLeft := by
    funext w
    simp [workerLeft, hwork, hpos]
  have hmain' : s'.mainLeft = s.mainLeft := by simp [mainLeft, hmain, hposted]
  rw [left_eq hrun]
  have hle := left_le_sum s'
  rw [hwork', hmain'] at hle
  omega

/-- How far the accept thread has to go inside `AcceptConnection`. -/
theorem acceptLeft_of_ne (h : s.service.proxy.accept.pc ≠ .notStarted)
    (hl : s.service.proxy.accept.pc ≠ .loop) (hd : s.service.proxy.accept.pc ≠ .done) :
    s.acceptLeft = s.service.proxy.accept.pc.toReturn + 1 := by
  unfold acceptLeft
  split
  next hpc => exact absurd hpc h
  next hpc => exact absurd hpc hd
  next hpc => exact absurd hpc hl
  next => rfl

theorem acceptLeft_le (hl : s.service.proxy.accept.pc = .loop → s.pc = .head) :
    s.acceptLeft ≤ s.service.proxy.accept.pc.toReturn + 1 := by
  unfold acceptLeft
  split
  next => omega
  next => omega
  next h => simp [hl h, LoopPc.left]
  next => exact le_rfl

/-- A step of the accept thread that is not `WSAAccept`. -/
theorem left_accept_served {o : AcceptOutcome} {t : Service n} (hp : s.Parked)
    (ha : s.service.proxy.accept.pc = .loop → o = .ok ∧ s.pc = .head)
    (hstep : (IocpProxy.service n).step s.service (.proxy (.accept o)) = some t) :
    ({ s with service := t } : Server n).left + 1 ≤ s.left := by
  have hrun := Service.running_of_step hstep
  have hm := acceptMove_of_step hstep
  obtain ⟨hwork, hmain, -⟩ := hm.frame
  have hsame : t.posted = s.service.posted ∧ t.position = s.service.position := by
    cases serviceStep_move hstep
    exact ⟨rfl, rfl⟩
  refine left_accept hrun rfl hmain hsame.1 hwork hsame.2 ?_
  by_cases hl : s.service.proxy.accept.pc = .loop
  · obtain ⟨rfl, hhead⟩ := ha hl
    have hdone : t.proxy.accept.pc = .done := hm.done_of_ok hl
    simp [acceptLeft, hdone, hl, hhead, LoopPc.left]
  · have hleft := acceptLeft_of_ne hm.pc_ne hl hm.pc_ne_done
    rw [hleft]
    have hle := acceptLeft_le (s := { s with service := t }) fun _ => hp hl
    exact lt_of_le_of_lt hle (Nat.succ_lt_succ (hm.toReturn_lt hl).2)

/-- `WSAAccept` is called. -/
theorem left_called {o : AcceptOutcome} {t : Service n} {k : ℕ}
    (hl : s.service.proxy.accept.pc = .loop) (hpc : s.pc = .accept)
    (hstep : (IocpProxy.service n).step s.service (.proxy (.accept o)) = some t) :
    (s.accepted t k).left + 1 ≤ s.left := by
  have hm := acceptMove_of_step hstep
  obtain ⟨hwork, hmain, -⟩ := hm.frame
  have hsame : t.posted = s.service.posted ∧ t.position = s.service.position := by
    cases serviceStep_move hstep
    exact ⟨rfl, rfl⟩
  refine left_accept (Service.running_of_step hstep) (accepted_frame s t k).1 hmain hsame.1 hwork
    hsame.2 ?_
  have hle := acceptLeft_le (s := s.accepted t k) fun _ => (accepted_frame s t k).2.2.1
  have hret := (s.accepted t k).service.proxy.accept.pc.toReturn_le
  have hs : s.acceptLeft = 18 := by simp [acceptLeft, hl, hpc, LoopPc.left]
  omega

/-- A step of the service that is not `WSAAccept`, after the event is set. -/
theorem left_served {b : ServiceAction n} {t : Service n} (hp : s.Parked)
    (hhome : s.service.Homing) (hset : s.service.proxy.shutdown = true)
    (hclean : s.service.proxy.InCleanUp)
    (ha : ∀ o, b = .proxy (.accept o) → s.service.proxy.accept.pc = .loop → o = .ok ∧ s.pc = .head)
    (hstep : (IocpProxy.service n).step s.service b = some t) :
    ({ s with service := t } : Server n).left + (ServerAction.service b).ofThread.toNat ≤
      s.left := by
  have hrun := Service.running_of_step hstep
  cases serviceStep_move hstep with
  | posted hmain hlt =>
    refine left_main hrun ?_ rfl rfl rfl
    simp only [mainLeft, hmain]
    omega
  | @entered w =>
    have hclear : s.service.proxy.shutdown = false :=
      (Option.ite_none_right_eq_some.mp hstep).1.2.2.2
    simp [hset] at hclear
  | @woken w hw =>
    refine left_worker (w := w) hrun rfl rfl rfl (fun v hv => ?_) (.inr ?_)
    · simp [workerLeft, Service.woken, hv]
    · simp [workerLeft, Service.woken, hw.1, hw.2, Worker.left]
  | @stepped a u hallow hu =>
    rcases (step_move hu).2.2 with hm | hm | hm | hm
    · rename_i o
      have hacc : u.accept = s.service.proxy.accept := by
        rcases (Move.main hm).accept_eq_or with hsame | ⟨_, h⟩ | ⟨hc, -⟩
        · exact hsame
        · cases h
        · rcases hclean with h | h | h <;> simp [h] at hc
      refine left_main hrun ?_ hacc hm.frame.2.2.2.2.2.1 rfl
      simp only [mainLeft, Service.after]
      rcases hm.of_inCleanUp hclean with ⟨h, h'⟩ | ⟨h, h'⟩ | ⟨h, h'⟩ <;> rw [h, h'] <;>
        dsimp only <;> omega
    · exact left_accept_served hp (ha _ rfl) hstep
    · rename_i w o
      obtain ⟨hacc, -, -, -, hmain, -⟩ := hm.frame
      refine left_worker (w := w) hrun hmain rfl hacc (fun v hv => ?_) (hm.left_lt ?_ ?_)
      · have hpos : (s.service.after (.worker w o) u).position v = s.service.position v := by
          cases o with
          | dequeue => exact Function.update_of_ne hv _ _
          | _ => rfl
        simp only [workerLeft, hpos]
        exact congrArg (Worker.left _) (hm.worker_of_ne hv)
      · rintro op c rfl
        exact hallow
      · intro j st hbusy
        have hhead := hhome w j st hbusy
        rw [Service.position_after hallow (by simp [hhead]), hhead]
        decide
    · rename_i b
      obtain ⟨hacc, -, -, -, hmain, -, hwork, -⟩ := hm.frame
      let s' : Server n := { s with service := s.service.after (.net b) u }
      have hle := left_le_sum s'
      have hmain' : s'.mainLeft = s.mainLeft := by simp [s', mainLeft, Service.after, hmain]
      have hacc' : s'.acceptLeft = s.acceptLeft := by simp [s', acceptLeft, Service.after, hacc]
      have hwork' : s'.workerLeft = s.workerLeft := by
        funext w
        simp [s', workerLeft, Service.after, hwork]
      rw [hmain', hacc', hwork', ← left_eq hrun] at hle
      exact hle

/-- After the event is set, each step of a thread is one less to go, and the others leave the
threads where they are. -/
theorem left_step {G : Server n → ServerAction n → Prop} {a : ServerAction n}
    (hs : (server n events).Reachable G s) (hset : s.service.proxy.shutdown = true)
    (hstep : (server n events).step s a = some s') : s'.left + a.ofThread.toNat ≤ s.left := by
  have hserv := reachable_service hs
  have hp := parked_of_reachable hs
  have hhome := Service.homing_of_reachable hserv
  have hclean := State.inCleanUp_of_reachable
    (Service.reachable_proxy (H := fun _ _ => True) hserv fun _ _ _ => trivial) hset
  cases serverStep_move hstep with
  | called hl _ hpc _ ht => exact left_called hl hpc ht
  | selected hmain =>
    rcases hclean with (h | h | h) | h <;> simp [h] at hmain
  | served _ ha ht =>
    have hrun := Service.running_of_step ht
    exact left_served hp hhome hset (hclean.resolve_right hrun.2) ha ht
  | connected | netError => exact (left_congr (by simp) (by simp)).le
  | dropped => exact (left_congr rfl rfl).le
  | tested _ hclear => simp [hset] at hclear
  | timedOut hat | awoken hat | enumerated hat | notEnumerated hat | checked hat | skipped hat =>
    exact left_goto hat (by simp [LoopPc.left]) rfl rfl

end Server

/-! ### Some thread has a step to take -/

/-- A worker with a completion has a step to take. -/
theorem State.exists_worker_step {s : State n} (hrun : s.fault = none ∧ s.main ≠ .exited)
    {w : Fin n} {j : Job} {st : Stage} (hw : s.worker w = .busy j st) :
    ∃ o s', (o = .ok ∨ o = .fail) ∧ step s (.worker w o) = some s' := by
  have start : ∀ {o : WorkerOutcome} {s' : State n}, (o = .ok ∨ o = .fail) →
      workerStep s w o = some s' →
      ∃ o s', (o = .ok ∨ o = .fail) ∧ step s (.worker w o) = some s' :=
    fun ho h => ⟨_, _, ho, (if_pos hrun).trans h⟩
  cases st with
  | dispatch => exact start (.inl rfl) (by simp [workerStep, hw]; rfl)
  | forward => exact start (.inl rfl) (by simp [workerStep, hw]; rfl)
  | forwardSend =>
    cases hb : s.getBuddySocketContext j.ctx with
    | none => exact start (.inl rfl) (by simp [workerStep, hw, hb]; rfl)
    | some b => exact start (.inl rfl) (by simp [workerStep, hw, hb]; rfl)
  | send b => exact start (.inl rfl) (by simp [workerStep, hw]; rfl)
  | fill b =>
    cases hf : (s.ctx b).ioSend.fill (s.ctx j.ctx).ioRecv.buffer (UInt16.ofNat j.bytes) with
    | none => exact start (.inl rfl) (by simp [workerStep, hw, hf]; rfl)
    | some io => exact start (.inr rfl) (by simp [workerStep, hw, hf]; rfl)
  | recv => exact start (.inr rfl) (by simp [workerStep, hw]; rfl)
  | failed => exact start (.inl rfl) (by simp [workerStep, hw]; rfl)
  | finish => exact start (.inl rfl) (by simp [workerStep, hw]; rfl)

namespace Service

variable {s : Service n}

/-- Past the posting loop there is a packet for each worker that waits. -/
theorem Counted.nulls_pos (h : s.Counted) (hposted : s.posted = n) {w : Fin n} (hw : s.Waits w) :
    0 < s.nulls := by
  have hmem : w ∈ Finset.univ.filter fun w => s.consumed w = 0 :=
    Finset.mem_filter.mpr ⟨Finset.mem_univ w, h.consumed_of_waits hw⟩
  have hpos := Finset.card_pos.mpr ⟨w, hmem⟩
  rw [h.card_eq] at hpos
  omega

/-- Once the event is set and the packets are posted, a worker that has not returned has a step to
take. -/
theorem exists_worker_step (hc : s.Counted) (hrun : s.Running) (hset : s.proxy.shutdown = true)
    (hposted : s.posted = n) {w : Fin n} (hw : s.proxy.worker w ≠ .exited) :
    ∃ b t, (∀ o, b ≠ .proxy (.accept o)) ∧ (∀ a, b ≠ .proxy (.net a)) ∧
      serviceStep s b = some t := by
  cases hv : s.proxy.worker w with
  | waiting =>
    by_cases hp : s.position w = .get
    · exact ⟨.wake w, _, by simp, by simp,
        if_pos ⟨hrun, ⟨hv, hp⟩, hc.nulls_pos hposted ⟨hv, hp⟩⟩⟩
    · have hu : step s.proxy (.worker w .ok) = some (s.proxy.setWorker w .exited) := by
        simp [step, hrun.1, hrun.2, workerStep, hv, hset]
      have hallow : s.Allows (.worker w .ok) := fun hwait => hp hwait.2
      refine ⟨.proxy (.worker w .ok), s.after (.worker w .ok) (s.proxy.setWorker w .exited),
        by simp, by simp, ?_⟩
      rw [serviceStep, if_pos hallow, hu]
      rfl
  | busy j st =>
    obtain ⟨o, u, ho, hu⟩ := State.exists_worker_step hrun hv
    have hallow : s.Allows (.worker w o) := by
      rcases ho with rfl | rfl
      · exact fun hwait => by simp [Waits, hv] at hwait
      · trivial
    refine ⟨.proxy (.worker w o), s.after (.worker w o) u, by simp, by simp, ?_⟩
    rw [serviceStep, if_pos hallow, hu]
    rfl
  | exited => exact absurd hv hw

/-- In `CleanUp`, past the wait for the accept thread, some thread has a step to take. -/
theorem exists_step (hc : s.Counted) (hrun : s.Running) (hset : s.proxy.shutdown = true)
    (hmain : s.proxy.main = .waitAccept ∧
        (s.proxy.accept.pc = .done ∨ s.proxy.accept.pc = .notStarted) ∨
      s.proxy.main = .waitWorkers ∨ s.proxy.main = .closeListen) :
    ∃ b t, (∀ o, b ≠ .proxy (.accept o)) ∧ (∀ a, b ≠ .proxy (.net a)) ∧
      serviceStep s b = some t := by
  have goOn : ∀ {u : State n}, s.Allows (.main .ok) → mainStep s.proxy .ok = some u →
      ∃ b t, (∀ o, b ≠ .proxy (.accept o)) ∧ (∀ a, b ≠ .proxy (.net a)) ∧
        serviceStep s b = some t := by
    intro u hallow hu
    have hstep : step s.proxy (.main .ok) = some u := (if_pos hrun).trans hu
    refine ⟨.proxy (.main .ok), s.after (.main .ok) u, by simp, by simp, ?_⟩
    rw [serviceStep, if_pos hallow, hstep]
    rfl
  rcases hmain with ⟨hmain, hpc⟩ | hmain | hmain
  · have hu : mainStep s.proxy .ok = some (s.proxy.mainAt .waitWorkers) := by
      simp [mainStep, hmain, hpc]
    exact goOn (fun h => by simp [hmain] at h) hu
  · by_cases hposted : s.posted = n
    · by_cases hall : ∀ w, s.proxy.worker w = .exited
      · have hu : mainStep s.proxy .ok = some (s.proxy.cleanClientList.mainAt .closeListen) := by
          simp [mainStep, hmain, hall]
        exact goOn (fun _ => hposted) hu
      · obtain ⟨w, hw⟩ := not_forall.mp hall
        exact exists_worker_step hc hrun hset hposted hw
    · have hlt : s.posted < n := lt_of_le_of_ne hc.posted_le hposted
      exact ⟨.post, _, by simp, by simp, if_pos ⟨hrun, hmain, hlt⟩⟩
  · have hu : mainStep s.proxy .ok = some (s.proxy.closeListen .exited) := by
      simp [mainStep, hmain]
    exact goOn (fun h => by simp [hmain] at h) hu

end Service

/-- Once the event is set, the threads take at most `11 * n + 24` more steps, whatever the network
and the peers do, and as long as the process runs one of them has a step to take: `CleanUp` comes
to its end. -/
theorem shutdown_terminates {events : Option Bool} {s : Server n}
    (hs : (server n events).Reachable (fun _ _ => True) s)
    (hset : s.service.proxy.shutdown = true) :
    (∀ as t, (server n events).runFrom s as = some t →
      as.countP ServerAction.ofThread ≤ 11 * n + 24) ∧
    (s.service.Running →
      ∃ a s', a.ofThread = true ∧ (server n events).step s a = some s') := by
  refine ⟨fun as t h => ?_, fun hrun => ?_⟩
  · have hcount := (TransitionSystem.Path.of_runFrom h).countP_add_le
      (I := fun s => (server n events).Reachable (fun _ _ => True) s ∧
        s.service.proxy.shutdown = true)
      (v := fun s => s.left) (p := ServerAction.ofThread)
      (fun s a s' ⟨hr, hset⟩ _ hstep => ⟨.step hr trivial hstep, by
        rcases Server.service_eq_or (serverStep_move hstep) with hsame | ⟨b, -, hb⟩
        · rwa [hsame]
        · exact Service.shutdown_of_step hb hset⟩)
      (fun s a s' ⟨hr, hset⟩ _ hstep => mod_cast Server.left_step hr hset hstep) ⟨hs, hset⟩
    have hle := s.left_le
    omega
  · have hserv := Server.reachable_service hs
    have hclean := (State.inCleanUp_of_reachable
      (Service.reachable_proxy (H := fun _ _ => True) hserv fun _ _ _ => trivial)
      hset).resolve_right hrun.2
    by_cases hwait : s.service.proxy.main = .waitAccept ∧
        ¬ (s.service.proxy.accept.pc = .done ∨ s.service.proxy.accept.pc = .notStarted)
    · obtain ⟨-, hpc⟩ := hwait
      obtain ⟨a, s', ha, hstep⟩ :=
        Server.exists_step hs hrun ⟨fun h => hpc (.inr h), fun h => hpc (.inl h)⟩
      exact ⟨a, s', ServerAction.ofThread_of_ofAccept ha, hstep⟩
    · have hmain : s.service.proxy.main = .waitAccept ∧
          (s.service.proxy.accept.pc = .done ∨ s.service.proxy.accept.pc = .notStarted) ∨
          s.service.proxy.main = .waitWorkers ∨ s.service.proxy.main = .closeListen :=
        hclean.imp_left fun h => ⟨h, by_contra fun hpc => hwait ⟨h, hpc⟩⟩
      obtain ⟨b, t, hacc, hnet, hb⟩ :=
        Service.exists_step (Service.counted_of_reachable hserv) hrun hset hmain
      refine ⟨.service b, s.after b t, ServerAction.ofThread_service hnet, ?_⟩
      change serverStep s (.service b) = _
      rw [serverStep, if_pos (Server.allows_of_ne hacc), hb]
      rfl

set_option maxRecDepth 10000 in
/-- The event is set while the accept thread is about to call `WSAAccept` and a worker waits: a
last connection is accepted, and not connected to its destination. -/
theorem shutdown_terminates_run : ∃ (s t : Server 2) (as : List (ServerAction 2)),
    s.service.proxy.shutdown = true ∧ (server 2 none).runFrom s as = some t ∧
      t.service.proxy.main = .exited ∧ as.countP ServerAction.ofThread ≤ 46 := by
  let as : List (ServerAction 2) :=
    ([.accept (.socket 11), .accept (.remote ⟨false, none, none, false, false⟩), .accept .ok,
      .accept .ok, .accept .ok, .accept .ok, .accept .ok, .accept .ok, .accept .ok, .main .ok] :
        List (Action 2)).map (fun a => .service (.proxy a)) ++
      [.service .post, .service .post, .service (.wake 0)] ++
      ([.worker 0 .ok, .worker 1 .ok, .main .ok, .main .ok] : List (Action 2)).map
        fun a => .service (.proxy a)
  obtain ⟨s, hs, hset, hrun⟩ : ∃ s : Server 2, (server 2 none).Reachable (fun _ _ => True) s ∧
      s.service.proxy.shutdown = true ∧
        ((server 2 none).runFrom s as).any (fun t => t.service.proxy.main = .exited) = true :=
    TransitionSystem.exists_reachable_of_runChecked
      (startUp.map (fun a => .service (.proxy a)) ++
        [.connect, .test, .service (.enter 0), .awake true, .enumerate true, .check,
          .service (.proxy (.main .ok))]) (by decide +kernel)
  obtain ⟨t, ht, hexit⟩ := (Option.any_eq_true _ _).mp hrun
  exact ⟨s, t, as, hset, ht, of_decide_eq_true hexit, (shutdown_terminates hs hset).1 as t ht⟩

end IocpProxy
