import IocpProxy.Proxy.AcceptLoop

/-!
# The accept thread goes on

While connections wait, the accept thread comes to its next `WSAAccept`: from every label of its
loop and of `AcceptConnection` in a bounded number of its own steps, whatever the other threads
and the network do. An `FD_ACCEPT` with an error stops it for good: `WSAAccept` alone enables the
recording again, and `AcceptThread` does not call `AcceptConnection` on an error.

## Main definitions

* `IocpProxy.AcceptPc.toReturn`, `IocpProxy.Server.toAccept` : the most steps to go.
* `IocpProxy.Server.Deaf`.

## Main results

* `IocpProxy.State.AcceptOk.exists_step` : no step of `AcceptConnection` is missing.
* `IocpProxy.accept_progress`, `IocpProxy.accept_deaf`.
-/

namespace IocpProxy

open State

variable {n : ℕ}

/-! ### The way through `AcceptConnection` -/

/-- The most steps from a label of `AcceptConnection` to its return. -/
def AcceptPc.toReturn : AcceptPc → ℕ
  | .initRemote => 16
  | .link => 15
  | .assoc .client => 14
  | .assocRet .client => 13
  | .assoc .remote => 12
  | .assocRet .remote => 11
  | .add .client => 10
  | .add .remote => 9
  | .recv .client => 8
  | .recv .remote => 7
  | .exitClose => 6
  | .exitRemove .client => 5
  | .exitNull .client => 4
  | .exitRemove .remote => 3
  | .exitNull .remote => 2
  | .ret => 1
  | .notStarted | .loop | .done => 0

/-- `WSAAccept` is one call of `AcceptConnection`, which goes on to its exit or to
`InitRemoteConnection`. -/
theorem AcceptMove.of_loop {s s' : State n} {o : AcceptOutcome} (hm : AcceptMove s o s')
    (hl : s.accept.pc = .loop) (ho : o ≠ .ok) :
    s'.calls = s.calls + 1 ∧ (s'.accept.pc = .exitClose ∨ s'.accept.pc = .initRemote) := by
  cases hm with
  | failed => exact ⟨rfl, .inl rfl⟩
  | accepted => exact ⟨rfl, .inr rfl⟩
  | _ => simp_all

/-- Inside `AcceptConnection` every step comes closer to the return. -/
theorem AcceptMove.toReturn_lt {s s' : State n} {o : AcceptOutcome} (hm : AcceptMove s o s')
    (hl : s.accept.pc ≠ .loop) :
    s'.calls = s.calls ∧ s'.accept.pc.toReturn < s.accept.pc.toReturn := by
  cases hm with
  | stop h | failed h | accepted h => exact absurd h hl
  | linked h =>
    refine ⟨by simp [State.linked, setBuddySocketContext, acceptAt, setCtx], ?_⟩
    simp [State.linked, acceptAt, h, AcceptPc.toReturn]
  | exitClosed h =>
    obtain ⟨pc, hpc, hacc⟩ := s.exitClosed_accept
    refine ⟨by simp, ?_⟩
    rcases hpc with rfl | rfl <;> simp [hacc, h, AcceptPc.toReturn]
  | @exitNulled d h =>
    refine ⟨by simp [State.exitNulled], ?_⟩
    cases d <;> simp [State.exitNulled, afterNull, h, AcceptPc.toReturn]
  | returned h =>
    refine ⟨by simp [acceptReturned], ?_⟩
    simp [acceptReturned, h, AcceptPc.toReturn]
  | @exitRemoved d h =>
    refine ⟨by simp [acceptAt], ?_⟩
    cases d <;> simp [acceptAt, h, AcceptPc.toReturn]
  | remoteFailed h | remoteMade h =>
    exact ⟨rfl, by simp [State.remoteFailed, State.remoteMade, h, AcceptPc.toReturn]⟩
  | @enter d _ _ h | @associated d _ _ h | @associateFailed d _ _ h | @added d _ h
  | @posted d _ h | @notPosted d _ h =>
    refine ⟨rfl, ?_⟩
    cases d <;>
      simp [enterAssociate, State.associated, State.associateFailed, acceptAt, afterAssoc,
        afterAdd, afterRecv, h, AcceptPc.toReturn]

/-- The accept thread is not stuck inside `AcceptConnection`. -/
theorem State.AcceptOk.exists_step {s : State n} (h : s.AcceptOk)
    (hrun : s.fault = none ∧ s.main ≠ .exited)
    (hpc : s.accept.pc ≠ .notStarted ∧ s.accept.pc ≠ .loop ∧ s.accept.pc ≠ .done) :
    ∃ o s', step s (.accept o) = some s' := by
  have side : ∀ {c r : CtxId} (d : Side), s.Accepting c r → ∃ x, s.accept.side d = some x := by
    rintro c r (_ | _) ⟨hc, hr, -⟩
    · exact ⟨c, hc⟩
    · exact ⟨r, hr⟩
  have start : ∀ {o : AcceptOutcome} {s' : State n}, acceptStep s o = some s' →
      ∃ o s', step s (.accept o) = some s' := fun ho => ⟨_, _, (if_pos hrun).trans ho⟩
  unfold AcceptOk at h
  split at h
  next heq => exact absurd heq hpc.1
  next heq => exact absurd heq hpc.2.1
  next heq => exact absurd heq hpc.2.2
  next heq =>
    exact start (o := .remote ⟨false, none, none, false, false⟩) (by simp [acceptStep, heq]; rfl)
  next heq =>
    obtain ⟨c, r, hc, hr, -⟩ := h
    exact start (o := .ok) (by simp [acceptStep, heq, hc, hr]; rfl)
  next d heq =>
    obtain ⟨c, r, hacc, -⟩ := h
    obtain ⟨x, hx⟩ := side d hacc
    exact start (o := .slot 0) (by simp [acceptStep, heq, hx]; rfl)
  next heq =>
    obtain ⟨c, r, hacc, -⟩ := h
    obtain ⟨x, hx⟩ := side .client hacc
    exact start (o := .ok) (by simp [acceptStep, heq, hx]; rfl)
  next d heq =>
    obtain ⟨-, a, x, hp, -⟩ := h
    exact start (o := .ok) (by simp [acceptStep, heq, hp]; rfl)
  next heq =>
    obtain ⟨c, r, hacc, -⟩ := h
    obtain ⟨x, hx⟩ := side .remote hacc
    exact start (o := .ok) (by simp [acceptStep, heq, hx]; rfl)
  next d heq =>
    obtain ⟨c, r, hacc, -⟩ := h
    obtain ⟨x, hx⟩ := side d hacc
    exact start (o := .fail) (by simp [acceptStep, heq, hx]; rfl)
  next heq => exact start (o := .ok) (by simp [acceptStep, heq]; rfl)
  next d heq => exact start (o := .ok) (by simp [acceptStep, heq]; rfl)
  next d heq => exact start (o := .ok) (by simp [acceptStep, heq]; rfl)
  next heq => exact start (o := .ok) (by simp [acceptStep, heq]; rfl)

/-! ### The queue moves on -/

/-- The most steps of the accept thread from a label of its loop to `WSAAccept`, when a connection
waits. -/
def LoopPc.toAccept (events : Option Bool) : LoopPc → ℕ
  | .head => 5
  | .wait => 4
  | .enumerate => 3
  | .check => if events = some true then 2 else 6
  | .accept => 1

namespace Server

variable {s s' : Server n} {events : Option Bool}

/-- The most steps of the accept thread up to its next call of `WSAAccept`, the call included, when
a connection waits. -/
def toAccept (s : Server n) : ℕ :=
  if s.service.proxy.accept.pc = .loop then s.pc.toAccept s.events
  else s.service.proxy.accept.pc.toReturn + 5

/-- A connection waits, the event is not set, and `WSAEnumNetworkEvents` does not fail. -/
def Pending (s : Server n) (a : ServerAction n) : Prop :=
  0 < s.backlog ∧ s.service.proxy.shutdown = false ∧ a ≠ .netError ∧ a ≠ .enumerate false

instance (s : Server n) : DecidablePred s.Pending := fun a =>
  inferInstanceAs (Decidable (_ ∧ _ ∧ a ≠ .netError ∧ a ≠ .enumerate false))

end Server

/-- Only a process that runs takes steps. -/
theorem Service.running_of_step {s s' : Service n} {a : ServiceAction n}
    (h : (service n).step s a = some s') : s.Running := by
  change serviceStep s a = some s' at h
  cases a with
  | post | enter | wake => exact (Option.ite_none_right_eq_some.mp h).1.1
  | proxy b =>
    obtain ⟨t, ht, -⟩ := Option.map_eq_some_iff.mp (Option.ite_none_right_eq_some.mp h).2
    exact (Option.ite_none_right_eq_some.mp ht).1

/-- `AcceptConnection` is called by the accept thread. -/
theorem Service.calls_eq {s s' : Service n} {a : ServiceAction n}
    (h : (service n).step s a = some s') (ha : ∀ o, a ≠ .proxy (.accept o)) :
    s'.proxy.calls = s.proxy.calls := by
  cases serviceStep_move h with
  | stepped _ ht =>
    rcases (step_move ht).2.2 with hm | hm | hm | hm
    · exact hm.frame.2.2.1
    · exact absurd rfl (ha _)
    · exact hm.frame.2.1
    · exact hm.frame.2.1
  | _ => rfl

theorem AcceptPc.toReturn_le (pc : AcceptPc) : pc.toReturn ≤ 16 := by
  cases pc with
  | assoc d | assocRet d | add d | recv d | exitRemove d | exitNull d => cases d <;> decide
  | _ => decide

theorem LoopPc.toAccept_mem (pc : LoopPc) (events : Option Bool) :
    1 ≤ pc.toAccept events ∧ pc.toAccept events ≤ 6 := by
  cases pc with
  | check => by_cases he : events = some true <;> simp [LoopPc.toAccept, he]
  | _ => simp [LoopPc.toAccept]

/-- `AcceptConnection` is not called by a step that needs no result of a call. -/
theorem AcceptMove.calls_of_ok {s s' : State n} (hm : AcceptMove s .ok s') :
    s'.calls = s.calls := by
  by_cases hl : s.accept.pc = .loop
  · cases hm with
    | stop => rfl
    | _ => simp_all
  · exact (hm.toReturn_lt hl).1

/-- The accept thread returns from its loop when the event is set. -/
theorem AcceptMove.shutdown_of_loop {s s' : State n} {o : AcceptOutcome} (hm : AcceptMove s o s')
    (hl : s.accept.pc = .loop) (ho : o = .ok) : s.shutdown = true := by
  cases hm <;> simp_all

namespace Server

variable {s s' : Server n} {events : Option Bool}

theorem toAccept_of_ne (h : s.service.proxy.accept.pc ≠ .loop) :
    s.toAccept = s.service.proxy.accept.pc.toReturn + 5 := if_neg h

theorem toAccept_at {pc : LoopPc} (hat : s.At pc) : s.toAccept = pc.toAccept s.events := by
  obtain ⟨-, hl, rfl⟩ := hat
  exact if_pos hl

theorem toAccept_mem (s : Server n) : 1 ≤ s.toAccept ∧ s.toAccept ≤ 21 := by
  have hret := s.service.proxy.accept.pc.toReturn_le
  have hloop := s.pc.toAccept_mem s.events
  unfold toAccept
  split_ifs <;> omega

/-- A step of the service that is not `WSAAccept` comes closer to it, if it is one of the accept
thread. -/
theorem toAccept_served {a : ServiceAction n} {t : Service n} (hp : s.Parked)
    (hs : s.service.proxy.Sound) (hset : s.service.proxy.shutdown = false)
    (ha : ∀ o, a = .proxy (.accept o) → s.service.proxy.accept.pc = .loop → o = .ok ∧ s.pc = .head)
    (hstep : (IocpProxy.service n).step s.service a = some t) :
    t.proxy.calls = s.service.proxy.calls ∧
      ({ s with service := t } : Server n).toAccept +
        (ServerAction.service a).ofAccept.toNat ≤ s.toAccept := by
  by_cases hacc : ∃ o, a = .proxy (.accept o)
  · obtain ⟨o, rfl⟩ := hacc
    have hm := acceptMove_of_step hstep
    have hl : s.service.proxy.accept.pc ≠ .loop := fun hl => by
      simpa [hset] using hm.shutdown_of_loop hl (ha o rfl hl).1
    obtain ⟨hcalls, hret⟩ := hm.toReturn_lt hl
    refine ⟨hcalls, ?_⟩
    have hhead : s.pc.toAccept s.events = 5 := by rw [hp hl]; rfl
    rw [toAccept_of_ne hl]
    change (if t.proxy.accept.pc = .loop then s.pc.toAccept s.events
      else t.proxy.accept.pc.toReturn + 5) + 1 ≤ _
    split_ifs <;> omega
  · have hne : ∀ o, a ≠ .proxy (.accept o) := fun o ho => hacc ⟨o, ho⟩
    refine ⟨Service.calls_eq hstep hne, ?_⟩
    have hown : (ServerAction.service a).ofAccept = false := by
      cases a with
      | proxy b =>
        cases b with
        | accept o => exact absurd rfl (hne o)
        | _ => rfl
      | _ => rfl
    rw [hown]
    rcases Service.accept_eq_or hstep with hsame | hex | ⟨hc, hloop⟩
    · simp [toAccept, hsame]
    · exact absurd hex hacc
    · have hpc : s.service.proxy.accept.pc = .notStarted := hs.boot (by simp [hc])
      have hhead := hp (by simp [hpc])
      simp [toAccept, hloop, hpc, hhead, LoopPc.toAccept]

theorem toAccept_reenable (s : Server n) : s.reenable.toAccept = s.toAccept := by
  simp [toAccept]

/-- A step from one label of the loop to another. -/
theorem toAccept_goto {pc pc' : LoopPc} (hat : s.At pc) (evs : Option Bool)
    (hle : pc'.toAccept evs + 1 ≤ pc.toAccept s.events) (r : Option Bool) (b : Bool) :
    ({ s with pc := pc', events := evs, recorded := r, signaled := b } : Server n).toAccept + 1 ≤
      s.toAccept := by
  have hat' : ({ s with pc := pc', events := evs, recorded := r, signaled := b } :
      Server n).At pc' := ⟨hat.1, hat.2.1, rfl⟩
  rw [toAccept_at hat, toAccept_at hat']
  exact hle

/-- While a connection waits, the accept thread comes closer to `WSAAccept` with each of its steps,
and the others do not set it back. -/
theorem toAccept_step {a : ServerAction n} (hs : (server n events).Reachable NoNetError s)
    (hG : s.Pending a) (hstep : (server n events).step s a = some s') :
    s'.toAccept + a.ofAccept.toNat + 21 * s.service.proxy.calls ≤
      s.toAccept + 21 * s'.service.proxy.calls := by
  obtain ⟨hb, hset, -, henum⟩ := hG
  have hw := wakeful_of_reachable hs
  have hpark := parked_of_reachable hs
  have hst := started_of_reachable hs
  cases serverStep_move hstep with
  | @called o t k hl ho hpc _ ht =>
    obtain ⟨hcalls, hex⟩ := (acceptMove_of_step ht).of_loop hl ho
    have hs₁ : s.toAccept = 1 := toAccept_at ⟨Service.running_of_step ht, hl, hpc⟩
    have hs₂ := (s.accepted t k).toAccept_mem
    have hown : (ServerAction.service (n := n) (.proxy (.accept o))).ofAccept.toNat = 1 := rfl
    rw [hs₁, hown, (accepted_frame s t k).1, hcalls]
    omega
  | selected hmain ht =>
    obtain ⟨hcalls, hle⟩ := toAccept_served (a := .proxy (.main .ok)) hpark (sound_of_reachable hs)
      hset nofun ht
    rw [toAccept_reenable, (reenable_frame _).1, hcalls]
    exact Nat.add_le_add_right hle _
  | served _ hacc ht =>
    obtain ⟨hcalls, hle⟩ := toAccept_served hpark (sound_of_reachable hs) hset hacc ht
    rw [hcalls]
    exact Nat.add_le_add_right hle _
  | connected | netError | dropped => simp [toAccept, ServerAction.ofAccept]
  | tested hat =>
    exact Nat.add_le_add_right (toAccept_goto hat s.events (by simp [LoopPc.toAccept]) _ _) _
  | timedOut hat hsig =>
    have hrec := hw.recorded_of_at hst hb hat (by decide)
    simp [hsig] at hrec
  | awoken hat =>
    exact Nat.add_le_add_right (toAccept_goto hat s.events (by simp [LoopPc.toAccept]) _ _) _
  | enumerated hat =>
    have hrec := hw.recorded_of_at hst hb hat (by decide)
    exact Nat.add_le_add_right
      (toAccept_goto hat s.recorded (by simp [LoopPc.toAccept, hrec.1]) _ _) _
  | notEnumerated => exact absurd rfl henum
  | checked hat he =>
    exact Nat.add_le_add_right (toAccept_goto hat s.events (by simp [LoopPc.toAccept, he]) _ _) _
  | skipped hat he =>
    exact Nat.add_le_add_right (toAccept_goto hat s.events (by simp [LoopPc.toAccept, he]) _ _) _

/-- A step that the accept thread can take in the proxy is one of the refined system where its place
agrees. -/
theorem exists_accept_step {o : AcceptOutcome} {u : State n} (ha : s.Allows (.proxy (.accept o)))
    (hu : IocpProxy.step s.service.proxy (.accept o) = some u) :
    ∃ s', serverStep s (.service (.proxy (.accept o))) = some s' := by
  refine ⟨s.after (.proxy (.accept o)) (s.service.after (.accept o) u), ?_⟩
  have hstep : serviceStep s.service (.proxy (.accept o)) =
      some (s.service.after (.accept o) u) := by
    have hany : s.service.Allows (.accept o) := trivial
    rw [serviceStep, if_pos hany, hu]
    rfl
  rw [serverStep, if_pos ha, hstep]
  rfl

/-- The accept thread is never stuck. -/
theorem exists_step {G : Server n → ServerAction n → Prop}
    (hs : (server n events).Reachable G s) (hrun : s.service.Running)
    (hpc : s.service.proxy.accept.pc ≠ .notStarted ∧ s.service.proxy.accept.pc ≠ .done) :
    ∃ a s', a.ofAccept = true ∧ (server n events).step s a = some s' := by
  have own : ∀ {a : ServerAction n} {t : Server n}, a.ofAccept = true → serverStep s a = some t →
      ∃ a s', a.ofAccept = true ∧ (server n events).step s a = some s' :=
    fun ha h => ⟨_, _, ha, h⟩
  by_cases hl : s.service.proxy.accept.pc = .loop
  · have hat : s.At s.pc := ⟨hrun, hl, rfl⟩
    cases h : s.pc with
    | head =>
      cases hset : s.service.proxy.shutdown with
      | false => exact own (a := .test) rfl (if_pos ⟨h ▸ hat, hset⟩)
      | true =>
        have hu : IocpProxy.step s.service.proxy (.accept .ok) =
            some (s.service.proxy.acceptAt .done) := by
          simp [IocpProxy.step, hrun.1, hrun.2, acceptStep, hl, hset]
        obtain ⟨s', hs'⟩ := exists_accept_step (s := s) (o := .ok) (fun _ => h) hu
        exact own rfl hs'
    | wait =>
      cases hsig : s.signaled with
      | true => exact own (a := .awake true) rfl (if_pos ⟨h ▸ hat, fun _ => hsig⟩)
      | false => exact own (a := .timeout) rfl (if_pos ⟨h ▸ hat, hsig⟩)
    | enumerate => exact own (a := .enumerate true) rfl (if_pos (h ▸ hat))
    | check => exact own (a := .check) rfl (if_pos (h ▸ hat))
    | accept =>
      have hu : IocpProxy.step s.service.proxy (.accept .fail) =
          some s.service.proxy.acceptFailed := by
        simp [IocpProxy.step, hrun.1, hrun.2, acceptStep, hl]
      obtain ⟨s', hs'⟩ := exists_accept_step (s := s) (o := .fail) (fun _ => h) hu
      exact own rfl hs'
  · obtain ⟨o, u, hu⟩ := (sound_of_reachable hs).acceptOk.exists_step hrun ⟨hpc.1, hl, hpc.2⟩
    have hm : AcceptMove s.service.proxy o u := by
      rcases (step_move (a := .accept o) hu).2.2 with - | hm | - | -
      exact hm
    have ha : s.Allows (.proxy (.accept o)) := by
      cases o with
      | ok | fail => exact fun h => absurd h hl
      | socket v => exact absurd hm.loop_of_socket hl
      | slot | remote => trivial
    obtain ⟨s', hs'⟩ := exists_accept_step ha hu
    exact own rfl hs'

end Server

/-- While connections wait, the event is not set, no network event carries an error and
`WSAEnumNetworkEvents` does not fail, the accept thread calls `WSAAccept` at least once in any 21 of
its steps, whatever the other threads, the network and the peers do in between; and it always has a
step to take. -/
theorem accept_progress {events : Option Bool} {s : Server n}
    (hs : (server n events).Reachable Server.NoNetError s) :
    (∀ as t, (server n events).Path Server.Pending s as t →
      as.countP ServerAction.ofAccept ≤
        21 * (t.service.proxy.calls - s.service.proxy.calls) + 20) ∧
    (s.service.Running →
      s.service.proxy.accept.pc ≠ .notStarted ∧ s.service.proxy.accept.pc ≠ .done →
      ∃ a s', a.ofAccept = true ∧ (server n events).step s a = some s') := by
  refine ⟨fun as t hp => ?_, Server.exists_step hs⟩
  have hcount := hp.countP_add_le (I := (server n events).Reachable Server.NoNetError)
    (v := fun s => s.toAccept - 21 * s.service.proxy.calls) (p := ServerAction.ofAccept)
    (fun s a s' hs hG h => .step hs hG.2.2.1 h)
    (fun s a s' hs hG h => by
      have hstep := Server.toAccept_step hs hG h
      omega) hs
  have hle : (s.toAccept : ℤ) ≤ 21 := mod_cast s.toAccept_mem.2
  have hpos : (1 : ℤ) ≤ t.toAccept := mod_cast t.toAccept_mem.1
  omega

set_option maxRecDepth 10000 in
/-- Of two connections the first one is made, and the second one accepted. -/
theorem accept_progress_run : ∃ (s t : Server 2) (as : List (ServerAction 2)),
    (server 2 none).Path Server.Pending s as t ∧
      t.service.proxy.calls = s.service.proxy.calls + 2 ∧
      as.countP ServerAction.ofAccept ≤ 62 := by
  let as : List (ServerAction 2) := takeConnection 11 ++
    (connection 11 12).tail.map (fun a => .service (.proxy a)) ++
      takeConnection 13
  obtain ⟨s, hs, hrun⟩ : ∃ s : Server 2, (server 2 none).Reachable Server.NoNetError s ∧
      ((server 2 none).runChecked Server.Pending s as).any (fun t =>
        t.service.proxy.calls = s.service.proxy.calls + 2) = true :=
    TransitionSystem.exists_reachable_of_runChecked
      (startUp.map (fun a => .service (.proxy a)) ++ [.connect, .connect]) (by decide +kernel)
  obtain ⟨t, ht, hcalls⟩ := (Option.any_eq_true _ _).mp hrun
  have hp := TransitionSystem.Path.of_runChecked ht
  have hc := of_decide_eq_true hcalls
  have hle := (accept_progress hs).1 as t hp
  rw [hc, Nat.add_sub_cancel_left] at hle
  exact ⟨s, t, as, hp, hc, hle⟩

/-! ### Errors -/

namespace Server

variable {s s' : Server n}

/-- The accept thread has read an `FD_ACCEPT` with an error: it does not call `WSAAccept`, and
without that nothing is recorded for the socket. -/
structure Deaf (s : Server n) : Prop where
  started : s.service.proxy.accept.pc ≠ .notStarted
  enabled : s.enabled = false
  recorded : s.recorded ≠ some true
  events : s.events ≠ some true
  pc : s.pc ≠ .accept

/-- The accept thread does not go back before its start. -/
theorem started_of_served {a : ServiceAction n} {t : Service n}
    (hpc : s.service.proxy.accept.pc ≠ .notStarted)
    (hstep : (IocpProxy.service n).step s.service a = some t) :
    t.proxy.accept.pc ≠ .notStarted := by
  rcases Service.accept_eq_or hstep with hsame | ⟨o, rfl⟩ | ⟨-, hloop⟩
  · rwa [hsame]
  · exact (acceptMove_of_step hstep).pc_ne_notStarted
  · simp [hloop]

/-- Nothing is recorded until `WSAAccept` is called. -/
theorem record_of_disabled {ok : Bool} (h : s.enabled = false) : s.record ok = s :=
  if_neg (by simp [h])

theorem Deaf.step {a : ServerAction n} (h : s.Deaf) (hs : s.service.proxy.Sound)
    (hm : ServerMove s a s') :
    s'.service.proxy.calls = s.service.proxy.calls ∧ s'.Deaf := by
  cases hm with
  | called _ _ hpc => exact absurd hpc h.pc
  | selected hmain => exact absurd (hs.boot (by simp [hmain])) h.started
  | @served a t _ hacc hstep =>
    refine ⟨?_, started_of_served h.started hstep, h.enabled, h.recorded, h.events, h.pc⟩
    by_cases ha : ∃ o, a = .proxy (.accept o)
    · obtain ⟨o, rfl⟩ := ha
      have hmove := acceptMove_of_step hstep
      by_cases hl : s.service.proxy.accept.pc = .loop
      · obtain ⟨rfl, -⟩ := hacc o rfl hl
        exact hmove.calls_of_ok
      · exact (hmove.toReturn_lt hl).1
    · exact Service.calls_eq hstep fun o ho => ha ⟨o, ho⟩
  | connected =>
    refine ⟨by simp, ?_⟩
    rw [record_of_disabled (s := { s with backlog := s.backlog + 1 }) h.enabled]
    exact ⟨h.started, h.enabled, h.recorded, h.events, h.pc⟩
  | netError =>
    refine ⟨by simp, ?_⟩
    rwa [record_of_disabled h.enabled]
  | dropped => exact ⟨rfl, h.started, h.enabled, h.recorded, h.events, h.pc⟩
  | tested | timedOut | awoken | notEnumerated | skipped =>
    exact ⟨rfl, h.started, h.enabled, h.recorded, h.events, nofun⟩
  | enumerated => exact ⟨rfl, h.started, h.enabled, nofun, h.recorded, nofun⟩
  | checked _ he => exact absurd he h.events

end Server

/-- Once the accept thread has read an `FD_ACCEPT` with an error while the recording is off,
`AcceptConnection` is never called again, whatever connections arrive. -/
theorem accept_deaf {events : Option Bool} {s s' t : Server n} {as : List (ServerAction n)}
    (hs : (server n events).Reachable (fun _ _ => True) s) (hrec : s.recorded = some false)
    (hen : s.enabled = false) (hstep : (server n events).step s (.enumerate true) = some s')
    (h : (server n events).runFrom s' as = some t) :
    t.service.proxy.calls = s.service.proxy.calls := by
  have hdeaf : s'.service.proxy.calls = s.service.proxy.calls ∧ s'.Deaf := by
    cases serverStep_move hstep with
    | enumerated hat =>
      exact ⟨rfl, by simp [hat.2.1], hen, nofun, by simp [hrec], nofun⟩
  have hrun := (TransitionSystem.Path.of_runFrom h).invariant
    (I := fun t => (server n events).Reachable (fun _ _ => True) t ∧
      t.service.proxy.calls = s.service.proxy.calls ∧ t.Deaf)
    (fun t a t' ⟨hr, hcalls, hd⟩ _ ht => by
      obtain ⟨hcalls', hd'⟩ := hd.step (Server.sound_of_reachable hr) (serverStep_move ht)
      exact ⟨.step hr trivial ht, hcalls'.trans hcalls, hd'⟩)
    ⟨.step hs trivial hstep, hdeaf⟩
  exact hrun.2.1

/-- The network fails before a connection arrives, which is then never accepted. -/
theorem accept_deaf_run : ∃ t : Server 2, t.backlog = 1 ∧ t.service.proxy.calls = 0 := by
  obtain ⟨s, hs, hrec, hen, hcalls, hrun⟩ : ∃ s : Server 2,
      (server 2 none).Reachable (fun _ _ => True) s ∧ s.recorded = some false ∧
        s.enabled = false ∧ s.service.proxy.calls = 0 ∧
          ((server 2 none).step s (.enumerate true)).any (fun s' =>
            ((server 2 none).runFrom s' [.check, .connect, .test, .timeout]).any
              fun t => t.backlog = 1) = true :=
    TransitionSystem.exists_reachable_of_runChecked
      (startUp.map (fun a => .service (.proxy a)) ++ [.netError, .test, .awake true])
      (by decide +kernel)
  obtain ⟨s', hs', hrun⟩ := (Option.any_eq_true _ _).mp hrun
  obtain ⟨t, ht, hb⟩ := (Option.any_eq_true _ _).mp hrun
  exact ⟨t, of_decide_eq_true hb, (accept_deaf hs hrec hen hs' ht).trans hcalls⟩

end IocpProxy
