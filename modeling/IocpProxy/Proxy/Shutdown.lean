import IocpProxy.Proxy.CompletionPort

/-!
# The end of `CleanUp`

`CleanUp` waits for the accept thread, then for the workers, and ignores what the second wait
returns. `WaitForMultipleObjects` takes `maximumWaitObjects` handles; with more it fails at once.
Then the client list is cleaned, and the critical sections deleted, under running workers.

## Main definitions

* `IocpProxy.ThreadsCreated`, `IocpProxy.Service.TearsDown`.
* `IocpProxy.State.Joined` : the invariant.

## Main results

* `IocpProxy.shutdown_iff`, `IocpProxy.shutdown_fails`.
-/

namespace IocpProxy

open State

variable {n : ℕ}

/-- `WORKER_THREADS_PER_PROCESSOR`. -/
def workerThreadsPerProcessor : ℕ := 2

/-- `g_nThreads` on a host with `P` processors. -/
def nThreads (P : ℕ) : ℕ := workerThreadsPerProcessor * P

/-- The accept thread is created, like the workers. -/
def ThreadsCreated (s : Service n) (a : ServiceAction n) : Prop :=
  s.proxy.main = .createThread → a ≠ .proxy (.main .fail)

instance (s : Service n) : DecidablePred (ThreadsCreated s) := fun a =>
  inferInstanceAs (Decidable (s.proxy.main = .createThread → a ≠ .proxy (.main .fail)))

/-- The step calls `CleanClientList`, or `DeInitialize` after `CleanUp`. -/
def Service.TearsDown (s : Service n) (a : ServiceAction n) : Prop :=
  (s.proxy.main = .waitWorkers ∨ s.proxy.main = .closeListen) ∧ a = .proxy (.main .ok)

/-! ### Waiting for the threads -/

/-- The accept thread does not go back before its start. -/
theorem AcceptMove.pc_ne_notStarted {s s' : State n} {o : AcceptOutcome}
    (hm : AcceptMove s o s') : s'.accept.pc ≠ .notStarted := by
  cases hm with
  | linked => simp [State.linked, acceptAt]
  | @associated d => cases d <;> simp [State.associated, afterAssoc]
  | @added d => cases d <;> simp [acceptAt, afterAdd]
  | @posted d => cases d <;> simp [acceptAt, afterRecv]
  | exitClosed =>
    obtain ⟨pc, hpc, hacc⟩ := s.exitClosed_accept
    rcases hpc with rfl | rfl <;> simp [hacc]
  | @exitNulled d => cases d <;> simp [State.exitNulled, afterNull]
  | returned => simp [acceptReturned]
  | _ =>
    simp [acceptAt, acceptFailed, State.accepted, State.remoteFailed, State.remoteMade,
      enterAssociate, State.associateFailed]

/-- The wait for the workers ends when they have all returned, or are too many to wait for. -/
theorem MainMove.of_waitWorkers {s s' : State n} {o : MainOutcome} (hm : MainMove s o s')
    (h : s.main = .waitWorkers) : maximumWaitObjects < n ∨ ∀ w, s.worker w = .exited := by
  cases hm with
  | sweep _ hw => exact hw
  | quiet hq => simp [mainQuiet, h] at hq
  | _ => simp_all

namespace State

/-- The threads that the main thread has waited for have returned. -/
structure Joined (s : State n) : Prop where
  started : s.main = .serving ∨ s.main = .waitAccept → s.accept.pc ≠ .notStarted
  accept : s.main = .waitWorkers ∨ s.main = .closeListen → s.accept.pc = .done
  workers : s.main = .closeListen → n ≤ maximumWaitObjects → ∀ w, s.worker w = .exited

/-- The main thread goes on from `CreateThread` with the accept thread at its loop. -/
theorem started_of_createThread {s s' : State n} {o : MainOutcome} (hmain : s.main = .createThread)
    (ho : o ≠ .fail) (hstep : IocpProxy.step s (.main o) = some s') :
    s'.main = .serving ∧ s'.accept.pc = .loop := by
  unfold IocpProxy.step at hstep
  split_ifs at hstep
  cases o with
  | ok =>
    simp only [mainStep, hmain, Option.some.injEq] at hstep
    subst hstep
    exact ⟨rfl, rfl⟩
  | fail => exact absurd rfl ho
  | socket v => simp [mainStep, hmain] at hstep

theorem Joined.step {s s' : State n} {a : Action n} (h : s.Joined)
    (hG : s.main = .createThread → a ≠ .main .fail) (hstep : IocpProxy.step s a = some s') :
    s'.Joined := by
  have hm := (step_move hstep).2.2
  rcases hm with hm | hm | hm | hm
  · rename_i o
    by_cases hc : s.main = .createThread
    · obtain ⟨hmain, hpc⟩ := started_of_createThread hc (fun ho => hG hc (ho ▸ rfl)) hstep
      exact ⟨fun _ => by simp [hpc], by simp [hmain], by simp [hmain]⟩
    · cases hm with
      | @quiet _ pc hq =>
        have hpc : pc ≠ .serving ∧ pc ≠ .waitAccept ∧ pc ≠ .waitWorkers ∧ pc ≠ .closeListen := by
          refine ⟨?_, ?_, ?_, ?_⟩ <;> rintro rfl <;> simp [mainQuiet, hc] at hq
        exact ⟨by simp [mainAt, hpc], by simp [mainAt, hpc], by simp [mainAt, hpc]⟩
      | started hmain => exact absurd hmain hc
      | stop hmain => exact ⟨fun _ => h.started (.inl hmain), by simp, by simp⟩
      | acceptDone hmain hd =>
        exact ⟨by simp [mainAt], fun _ => hd.resolve_right (h.started (.inr hmain)),
          by simp [mainAt]⟩
      | sweep hmain hw =>
        obtain ⟨-, -, -, hacc, -, hworker, -⟩ := s.cleanClientList_frame
        refine ⟨by simp [mainAt], fun _ => ?_, fun _ hn w => ?_⟩
        · exact (congrArg AcceptThread.pc hacc).trans (h.accept (.inl hmain))
        · exact (congrFun hworker w).trans (hw.resolve_left (by omega) w)
      | _ => exact ⟨by simp [mainAt, closeListen], by simp [mainAt, closeListen],
          by simp [mainAt, closeListen]⟩
  · -- the accept thread has returned when the main thread waits for the workers
    have hpc := hm.pc_ne_done
    obtain ⟨hworker, hmain, -⟩ := hm.frame
    refine ⟨fun _ => hm.pc_ne_notStarted, fun hs => ?_, fun hs hn => ?_⟩
    · exact absurd (h.accept (hmain ▸ hs)) hpc
    · exact absurd (h.accept (.inr (hmain ▸ hs))) hpc
  · obtain ⟨hacc, -, -, -, hmain, -⟩ := hm.frame
    refine ⟨?_, ?_, fun hs hn w => ?_⟩
    · rw [hmain, hacc]
      exact h.started
    · rw [hmain, hacc]
      exact h.accept
    · exact (Move.worker hm).worker_exited (h.workers (hmain ▸ hs) hn w)
  · obtain ⟨hacc, -, -, -, hmain, -, hworker, -⟩ := hm.frame
    refine ⟨?_, ?_, ?_⟩
    · rw [hmain, hacc]
      exact h.started
    · rw [hmain, hacc]
      exact h.accept
    · rw [hmain, hworker]
      exact h.workers

end State

/-! ### More workers than handles to wait for -/

/-- The service after the event is set and the accept thread has returned, with `k` packets
posted. -/
def posting (n k : ℕ) : Service n :=
  ⟨{ State.initial n with
      main := .waitWorkers
      shutdown := true
      accept := ⟨.done, none, none, none, none⟩
      handles := HandleTable.empty.open 10
      listenSocket := some (HandleTable.empty.fresh 10) },
    k, k, fun _ => .head, fun _ => 0⟩

theorem reachable_posting {k : ℕ} (hk : k ≤ n) :
    (service n).Reachable ThreadsCreated (posting n k) := by
  induction k with
  | zero =>
    have hrun : (service n).runChecked ThreadsCreated (service n).init
        (([.main .ok, .main (.socket 10), .main .ok, .main .ok, .main .ok, .main .ok, .main .ok,
          .main .ok, .accept .ok, .main .ok] : List (Action n)).map .proxy) =
        some (posting n 0) := rfl
    exact TransitionSystem.reachable_of_runChecked_from .init hrun
  | succ k ih =>
    have hstep : (service n).step (posting n k) .post = some (posting n (k + 1)) :=
      if_pos ⟨by simp [Service.Running, posting, initial], rfl, hk⟩
    exact .step (ih (Nat.le_of_succ_le hk)) (fun _ => by simp) hstep

/-- With too many workers the list is cleaned while they all run. -/
theorem exists_tearsDown_running (hn : maximumWaitObjects < n) :
    ∃ s a s', (service n).Reachable ThreadsCreated s ∧ s.TearsDown a ∧
      (service n).step s a = some s' ∧ ∀ w, s.proxy.worker w = .waiting := by
  let s := posting n n
  have hallow : s.Allows (.main .ok) := fun _ => rfl
  have hmain : mainStep s.proxy .ok = some (s.proxy.cleanClientList.mainAt .closeListen) :=
    if_pos (.inl hn)
  have hstep : step s.proxy (.main .ok) =
      some (s.proxy.cleanClientList.mainAt .closeListen) := by
    rw [step, if_pos (by simp [s, posting, initial])]
    exact hmain
  refine ⟨s, .proxy (.main .ok),
    s.after (.main .ok) (s.proxy.cleanClientList.mainAt .closeListen), reachable_posting le_rfl,
    ⟨.inl rfl, rfl⟩, ?_, fun _ => rfl⟩
  change serviceStep s (.proxy (.main .ok)) = _
  rw [serviceStep, if_pos hallow, hstep]
  rfl

theorem Service.joined_of_reachable {s : Service n}
    (hs : (service n).Reachable ThreadsCreated s) : s.proxy.Joined := by
  have hbase := Service.reachable_proxy
    (H := fun (s : State n) a => s.main = .createThread → a ≠ .main .fail) hs
    fun s a hG hmain ha => hG hmain (ha ▸ rfl)
  refine hbase.invariant ⟨?_, ?_, ?_⟩ fun s a s' h hG hstep => h.step hG hstep
  · rintro (h | h) <;> cases h
  · rintro (h | h) <;> cases h
  · rintro h
    cases h

/-- Whenever `CleanClientList` is called at shutdown, and `DeInitialize` after it, the accept
thread and all workers have returned, exactly on hosts with at most 32 processors. -/
theorem shutdown_iff (P : ℕ) :
    (∀ s a s', (service (nThreads P)).Reachable ThreadsCreated s → s.TearsDown a →
      (service (nThreads P)).step s a = some s' →
        s.proxy.accept.pc = .done ∧ ∀ w, s.proxy.worker w = .exited) ↔ P ≤ 32 := by
  have hbound : nThreads P ≤ maximumWaitObjects ↔ P ≤ 32 := by
    simp only [nThreads, workerThreadsPerProcessor, maximumWaitObjects]
    omega
  rw [← hbound]
  refine ⟨fun h => ?_, fun hn s a s' hs htears hstep => ?_⟩
  · by_contra hn
    obtain ⟨s, a, s', hs, htears, hstep, hwait⟩ := exists_tearsDown_running (not_le.mp hn)
    have hpos : 0 < nThreads P := lt_of_le_of_lt (Nat.zero_le _) (not_le.mp hn)
    have hex := (h s a s' hs htears hstep).2 ⟨0, hpos⟩
    simp [hwait] at hex
  · have hjoin := Service.joined_of_reachable hs
    obtain ⟨hmain, rfl⟩ := htears
    refine ⟨hjoin.accept hmain, ?_⟩
    rcases hmain with hmain | hmain
    · cases serviceStep_move hstep with
      | stepped ha ht =>
        rcases (step_move (a := .main .ok) ht).2.2 with hm | - | - | -
        exact (hm.of_waitWorkers hmain).resolve_left (not_lt.mpr hn)
    · exact hjoin.workers hmain hn

/-- On a host with 33 processors the client list is cleaned while a worker waits for
completions. -/
theorem shutdown_fails :
    ¬ ∀ P ≥ 1, ∀ s a s', (service (nThreads P)).Reachable ThreadsCreated s → s.TearsDown a →
      (service (nThreads P)).step s a = some s' →
        s.proxy.accept.pc = .done ∧ ∀ w, s.proxy.worker w = .exited := by
  intro h
  obtain ⟨s, a, s', hs, htears, hstep, hwait⟩ :=
    exists_tearsDown_running (n := nThreads 33) (by decide)
  have hex := (h 33 (by decide) s a s' hs htears hstep).2 ⟨0, by decide⟩
  simp [hwait] at hex

end IocpProxy
