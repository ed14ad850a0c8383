import IocpProxy.Proxy.AcceptConnection
import IocpProxy.Proxy.Shutdown

/-!
# The accept thread and its event

`AcceptThread` waits for `g_hAcceptEvent`, asks `WSAEnumNetworkEvents` what happened, and calls
`AcceptConnection` when `FD_ACCEPT` is reported without an error. Winsock records `FD_ACCEPT` when
a connection arrives and signals the event, then records it no more until `WSAAccept` is called,
with or without success; if a connection still waits by then, it is recorded at once. `server n`
adds the event, the connections that wait and the loop to `service n`, which lets the accept
thread call `WSAAccept` at any time.

The bytes of `WSAEvents` before the first successful `WSAEnumNetworkEvents` are left open.

## Main definitions

* `IocpProxy.Server`, `IocpProxy.serverStep`, `IocpProxy.server` : the refined system.
* `IocpProxy.Server.Awake`.
* `IocpProxy.Server.Parked`, `IocpProxy.Server.Wakeful`, `IocpProxy.Server.Started` : the
  invariants.

## Main results

* `IocpProxy.Server.reachable_service` : every run of `server n` is one of `service n`.
* `IocpProxy.accept_not_lost`.
-/

namespace IocpProxy

open State

variable {n : ℕ}

/-! ### The refined system -/

/-- Where the accept thread is outside `AcceptConnection`. -/
inductive LoopPc
  /-- At the test of the shutdown event. -/
  | head
  /-- In `WSAWaitForMultipleEvents`. -/
  | wait
  /-- Before `WSAEnumNetworkEvents`. -/
  | enumerate
  /-- At the test of `WSAEvents`. -/
  | check
  /-- In `AcceptConnection`, at `WSAAccept`. -/
  | accept
  deriving DecidableEq

/-- The proxy service with the event of its listening socket. -/
structure Server (n : ℕ) where
  service : Service n
  /-- The connections that wait to be accepted. -/
  backlog : ℕ
  /-- `WSAEventSelect` has succeeded. -/
  selected : Bool
  /-- Winsock records the next `FD_ACCEPT`. -/
  enabled : Bool
  /-- The `FD_ACCEPT` recorded for the socket, and whether its error code is zero. -/
  recorded : Option Bool
  /-- `g_hAcceptEvent` is signaled. -/
  signaled : Bool
  pc : LoopPc
  /-- The `FD_ACCEPT` in the local `WSAEvents`, and whether its error code is zero. -/
  events : Option Bool

/-- An action of the refined system. -/
inductive ServerAction (n : ℕ)
  | service (a : ServiceAction n)
  /-- A connection arrives. -/
  | connect
  /-- A connection that waits is gone. -/
  | drop
  /-- `FD_ACCEPT` comes with an error. -/
  | netError
  /-- The accept thread finds that the shutdown event is not set. -/
  | test
  /-- `WSAWaitForMultipleEvents` returns `WSA_WAIT_TIMEOUT`. -/
  | timeout
  /-- It returns because the event is signaled, or fails. -/
  | awake (ok : Bool)
  /-- `WSAEnumNetworkEvents` returns. -/
  | enumerate (ok : Bool)
  /-- The test of `WSAEvents`. -/
  | check
  deriving DecidableEq

/-- The steps of the accept thread. -/
def ServerAction.ofAccept : ServerAction n → Bool
  | .service (.proxy (.accept _)) | .test | .timeout | .awake _ | .enumerate _ | .check => true
  | _ => false

namespace Server

/-- The socket listens. -/
def Listening (s : Server n) : Prop :=
  s.service.proxy.main ∈ ([.createEvent, .eventSelect, .createThread, .serving, .waitAccept,
    .waitWorkers, .closeListen] : List MainPc)

/-- The accept thread is at a label of its loop. -/
def At (s : Server n) (pc : LoopPc) : Prop :=
  s.service.Running ∧ s.service.proxy.accept.pc = .loop ∧ s.pc = pc

instance (s : Server n) : Decidable s.Listening := inferInstanceAs (Decidable (_ ∈ _))

instance (s : Server n) (pc : LoopPc) : Decidable (s.At pc) :=
  inferInstanceAs (Decidable (_ ∧ _ ∧ _))

/-- `FD_ACCEPT` happens: it is recorded unless it was since the recording was last enabled. -/
def record (s : Server n) (ok : Bool) : Server n :=
  if s.enabled then { s with recorded := some ok, signaled := true, enabled := false } else s

/-- `WSAAccept` and `WSAEventSelect` enable the recording; a connection that waits is recorded at
once. -/
def reenable (s : Server n) : Server n :=
  if 0 < s.backlog then { s with enabled := true }.record true else { s with enabled := true }

/-- The steps of `service n` that agree with the place of the accept thread: it returns from the
head of its loop, calls `WSAAccept` inside `AcceptConnection`, and gets a connection that waits. -/
def Allows (s : Server n) : ServiceAction n → Prop
  | .proxy (.accept .ok) => s.service.proxy.accept.pc = .loop → s.pc = .head
  | .proxy (.accept (.socket _)) => s.pc = .accept ∧ 0 < s.backlog
  | .proxy (.accept .fail) => s.service.proxy.accept.pc = .loop → s.pc = .accept
  | _ => True

instance (s : Server n) : DecidablePred s.Allows
  | .proxy (.accept .ok) =>
    inferInstanceAs (Decidable (s.service.proxy.accept.pc = .loop → s.pc = .head))
  | .proxy (.accept (.socket _)) => inferInstanceAs (Decidable (s.pc = .accept ∧ 0 < s.backlog))
  | .proxy (.accept .fail) =>
    inferInstanceAs (Decidable (s.service.proxy.accept.pc = .loop → s.pc = .accept))
  | .proxy (.accept (.slot _)) | .proxy (.accept (.remote _)) => instDecidableTrue
  | .proxy (.main _) | .proxy (.worker _ _) | .proxy (.net _) => instDecidableTrue
  | .post | .enter _ | .wake _ => instDecidableTrue

/-- The state after `WSAAccept`; from `AcceptConnection` the thread returns to the loop head. -/
def accepted (s : Server n) (t : Service n) (backlog : ℕ) : Server n :=
  { s with service := t, backlog := backlog, pc := .head }.reenable

/-- The state after a step of `service n`. -/
def after (s : Server n) (a : ServiceAction n) (t : Service n) : Server n :=
  match a with
  | .proxy (.accept (.socket _)) => s.accepted t (s.backlog - 1)
  | .proxy (.accept .fail) =>
    if s.service.proxy.accept.pc = .loop then s.accepted t s.backlog else { s with service := t }
  | .proxy (.main .ok) =>
    if s.service.proxy.main = .eventSelect then
      { s with service := t, selected := true }.reenable
    else { s with service := t }
  | _ => { s with service := t }

end Server

/-- A step of the refined system. -/
def serverStep (s : Server n) : ServerAction n → Option (Server n)
  | .service a => if s.Allows a then (serviceStep s.service a).map (s.after a) else none
  | .connect =>
    if s.service.Running ∧ s.Listening then
      some ({ s with backlog := s.backlog + 1 }.record true)
    else none
  | .drop =>
    if s.service.Running ∧ 0 < s.backlog then some { s with backlog := s.backlog - 1 } else none
  | .netError => if s.service.Running then some (s.record false) else none
  | .test =>
    if s.At .head ∧ s.service.proxy.shutdown = false then some { s with pc := .wait } else none
  | .timeout => if s.At .wait ∧ s.signaled = false then some { s with pc := .head } else none
  | .awake ok =>
    if s.At .wait ∧ (ok = true → s.signaled = true) then some { s with pc := .enumerate } else none
  | .enumerate ok =>
    if s.At .enumerate then
      -- on failure neither the record, nor the event, nor the local is changed
      if ok then
        some { s with events := s.recorded, recorded := none, signaled := false, pc := .check }
      else some { s with pc := .check }
    else none
  | .check =>
    if s.At .check then some { s with pc := if s.events = some true then .accept else .head }
    else none

/-- The proxy service with `n` workers and its accept event; `events` is what the local `WSAEvents`
holds at first. -/
def server (n : ℕ) (events : Option Bool) : TransitionSystem (Server n) (ServerAction n) where
  init := ⟨(service n).init, 0, false, false, none, false, .head, events⟩
  step := serverStep

/-- The moves of the refined system. -/
inductive ServerMove (s : Server n) : ServerAction n → Server n → Prop
  /-- `WSAAccept` is called. -/
  | called {o : AcceptOutcome} {t : Service n} {k : ℕ} (hl : s.service.proxy.accept.pc = .loop)
      (ho : o ≠ .ok) (hpc : s.pc = .accept) (hk : k ≤ s.backlog)
      (h : (service n).step s.service (.proxy (.accept o)) = some t) :
      ServerMove s (.service (.proxy (.accept o))) (s.accepted t k)
  /-- `WSAEventSelect` is called. -/
  | selected {t : Service n} (hmain : s.service.proxy.main = .eventSelect)
      (h : (service n).step s.service (.proxy (.main .ok)) = some t) :
      ServerMove s (.service (.proxy (.main .ok)))
        { s with service := t, selected := true }.reenable
  | served {a : ServiceAction n} {t : Service n}
      (hm : s.service.proxy.main = .eventSelect → a ≠ .proxy (.main .ok))
      (ha : ∀ o, a = .proxy (.accept o) → s.service.proxy.accept.pc = .loop →
        o = .ok ∧ s.pc = .head)
      (h : (service n).step s.service a = some t) :
      ServerMove s (.service a) { s with service := t }
  | connected : ServerMove s .connect ({ s with backlog := s.backlog + 1 }.record true)
  | dropped : ServerMove s .drop { s with backlog := s.backlog - 1 }
  | netError : ServerMove s .netError (s.record false)
  | tested (h : s.At .head) (hs : s.service.proxy.shutdown = false) :
      ServerMove s .test { s with pc := .wait }
  | timedOut (h : s.At .wait) (hs : s.signaled = false) :
      ServerMove s .timeout { s with pc := .head }
  | awoken {ok : Bool} (h : s.At .wait) : ServerMove s (.awake ok) { s with pc := .enumerate }
  | enumerated (h : s.At .enumerate) :
      ServerMove s (.enumerate true)
        { s with events := s.recorded, recorded := none, signaled := false, pc := .check }
  | notEnumerated (h : s.At .enumerate) : ServerMove s (.enumerate false) { s with pc := .check }
  | checked (h : s.At .check) (he : s.events = some true) :
      ServerMove s .check { s with pc := .accept }
  | skipped (h : s.At .check) (he : s.events ≠ some true) :
      ServerMove s .check { s with pc := .head }

/-- A step of the accept thread in `service n` is one of its moves. -/
theorem acceptMove_of_step {s t : Service n} {o : AcceptOutcome}
    (h : (service n).step s (.proxy (.accept o)) = some t) :
    AcceptMove s.proxy o t.proxy := by
  cases serviceStep_move h with
  | stepped _ ht =>
    rcases (step_move (a := .accept o) ht).2.2 with - | hm | - | -
    exact hm

/-- At the loop the accept thread returns or calls `WSAAccept`. -/
theorem AcceptMove.outcome_of_loop {s s' : State n} {o : AcceptOutcome} (hm : AcceptMove s o s')
    (h : s.accept.pc = .loop) : o = .ok ∨ o = .fail ∨ ∃ v, o = .socket v := by
  cases hm <;> simp_all

/-- A socket is returned to the accept thread by `WSAAccept` only. -/
theorem AcceptMove.loop_of_socket {s s' : State n} {v : ℕ} (hm : AcceptMove s (.socket v) s') :
    s.accept.pc = .loop := by
  cases hm
  assumption

theorem serverStep_move {events : Option Bool} {s s' : Server n} {a : ServerAction n}
    (h : (server n events).step s a = some s') : ServerMove s a s' := by
  change serverStep s a = some s' at h
  cases a with
  | service a =>
    obtain ⟨ha, h⟩ := Option.ite_none_right_eq_some.mp h
    obtain ⟨t, ht, rfl⟩ := Option.map_eq_some_iff.mp h
    by_cases hmain : s.service.proxy.main = .eventSelect ∧ a = .proxy (.main .ok)
    · obtain ⟨hmain, rfl⟩ := hmain
      rw [Server.after, if_pos hmain]
      exact .selected hmain ht
    · have hm : s.service.proxy.main = .eventSelect → a ≠ .proxy (.main .ok) :=
        fun h₁ h₂ => hmain ⟨h₁, h₂⟩
      cases a with
      | proxy b =>
        cases b with
        | main o =>
          have hafter : s.after (.proxy (.main o)) t = { s with service := t } := by
            cases o with
            | ok => exact if_neg fun hsel => hm hsel rfl
            | _ => rfl
          rw [hafter]
          exact .served hm nofun ht
        | accept o =>
          have hmove := acceptMove_of_step ht
          cases o with
          | ok => exact .served hm (fun o ho hl => by cases ho; exact ⟨rfl, ha hl⟩) ht
          | socket v => exact .called hmove.loop_of_socket (by simp) ha.1 (Nat.sub_le _ _) ht
          | fail =>
            by_cases hl : s.service.proxy.accept.pc = .loop
            · rw [Server.after, if_pos hl]
              exact .called hl (by simp) (ha hl) le_rfl ht
            · rw [Server.after, if_neg hl]
              exact .served hm (fun o _ hl' => absurd hl' hl) ht
          | slot v | remote k =>
            exact .served hm (fun o _ hl => by simpa using hmove.outcome_of_loop hl) ht
        | worker w o => exact .served hm nofun ht
        | net b => exact .served hm nofun ht
      | post => exact .served hm nofun ht
      | enter w => exact .served hm nofun ht
      | wake w => exact .served hm nofun ht
  | connect =>
    obtain ⟨-, ⟨⟩⟩ := Option.ite_none_right_eq_some.mp h
    exact .connected
  | drop =>
    obtain ⟨-, ⟨⟩⟩ := Option.ite_none_right_eq_some.mp h
    exact .dropped
  | netError =>
    obtain ⟨-, ⟨⟩⟩ := Option.ite_none_right_eq_some.mp h
    exact .netError
  | test =>
    obtain ⟨⟨hat, hs⟩, ⟨⟩⟩ := Option.ite_none_right_eq_some.mp h
    exact .tested hat hs
  | timeout =>
    obtain ⟨⟨hat, hs⟩, ⟨⟩⟩ := Option.ite_none_right_eq_some.mp h
    exact .timedOut hat hs
  | awake ok =>
    obtain ⟨⟨hat, -⟩, ⟨⟩⟩ := Option.ite_none_right_eq_some.mp h
    exact .awoken hat
  | enumerate ok =>
    obtain ⟨hat, h⟩ := Option.ite_none_right_eq_some.mp h
    cases ok with
    | true =>
      obtain rfl := Option.some.inj h
      exact .enumerated hat
    | false =>
      obtain rfl := Option.some.inj h
      exact .notEnumerated hat
  | check =>
    obtain ⟨hat, ⟨⟩⟩ := Option.ite_none_right_eq_some.mp h
    by_cases he : s.events = some true
    · rw [if_pos he]
      exact .checked hat he
    · rw [if_neg he]
      exact .skipped hat he

namespace Server

variable {s s' : Server n} {events : Option Bool}

@[simp] theorem record_frame (s : Server n) (ok : Bool) :
    (s.record ok).service = s.service ∧ (s.record ok).backlog = s.backlog ∧
      (s.record ok).selected = s.selected ∧ (s.record ok).pc = s.pc ∧
      (s.record ok).events = s.events := by
  unfold record
  split_ifs <;> exact ⟨rfl, rfl, rfl, rfl, rfl⟩

@[simp] theorem reenable_frame (s : Server n) :
    s.reenable.service = s.service ∧ s.reenable.backlog = s.backlog ∧
      s.reenable.selected = s.selected ∧ s.reenable.pc = s.pc ∧ s.reenable.events = s.events := by
  unfold reenable
  split_ifs <;> simp

@[simp] theorem accepted_frame (s : Server n) (t : Service n) (k : ℕ) :
    (s.accepted t k).service = t ∧ (s.accepted t k).selected = s.selected ∧
      (s.accepted t k).pc = .head ∧ (s.accepted t k).events = s.events := by
  simp [accepted]

/-- What the service does shows in the service alone; the other steps leave it as it is. -/
theorem service_eq_or {a : ServerAction n} (hm : ServerMove s a s') :
    s'.service = s.service ∨
      ∃ b, a = .service b ∧ (IocpProxy.service n).step s.service b = some s'.service := by
  cases hm with
  | called _ _ _ _ h => exact .inr ⟨_, rfl, by simpa using h⟩
  | selected _ h => exact .inr ⟨_, rfl, by simpa using h⟩
  | served _ _ h => exact .inr ⟨_, rfl, h⟩
  | connected | netError => exact .inl (by simp)
  | _ => exact .inl rfl

/-- The refined system simulates `service n`: its own steps do not show there. -/
theorem reachable_service {G : Server n → ServerAction n → Prop}
    (hs : (server n events).Reachable G s) :
    (IocpProxy.service n).Reachable (fun _ _ => True) s.service := by
  refine hs.simulate (f := Server.service) rfl fun s a s' _ h => ?_
  exact (service_eq_or (serverStep_move h)).imp_right fun ⟨b, _, hb⟩ => ⟨b, trivial, hb⟩

/-! ### No wake-up is lost -/

/-- A connection will be noticed: its `FD_ACCEPT` is recorded and the event signaled, or the accept
thread is on its way to `WSAAccept`. -/
def Awake (s : Server n) : Prop :=
  s.recorded = some true ∧ s.signaled = true ∨ s.pc = .check ∧ s.events = some true ∨
    s.pc = .accept

/-- What waits will be noticed. -/
def Wakeful (s : Server n) : Prop :=
  s.selected = true → s.enabled = true ∧ s.backlog = 0 ∨ s.Awake

/-- Outside its loop the accept thread is about to go on at the loop head. -/
def Parked (s : Server n) : Prop := s.service.proxy.accept.pc ≠ .loop → s.pc = .head

/-- Recording is enabled afterwards, or the connection that waits is recorded. -/
theorem reenable_awake (s : Server n) :
    s.reenable.enabled = true ∧ s.reenable.backlog = 0 ∨ s.reenable.Awake := by
  unfold reenable
  split_ifs with h
  · exact .inr (.inl ⟨rfl, rfl⟩)
  · exact .inl ⟨rfl, Nat.eq_zero_of_not_pos h⟩

/-- A connection that arrives will be noticed. -/
theorem record_awake (h : s.enabled = true ∨ s.Awake) : (s.record true).Awake := by
  unfold record
  split_ifs with he
  · exact .inl ⟨rfl, rfl⟩
  · exact h.resolve_left he

end Server

/-- A step that changes the accept thread is its own, or starts it. -/
theorem Move.accept_eq_or {s s' : State n} {a : Action n} (hm : Move s a s') :
    s'.accept = s.accept ∨ (∃ o, a = .accept o) ∨
      s.main = .createThread ∧ s'.accept.pc = .loop := by
  cases hm with
  | main hm =>
    cases hm with
    | started h => exact .inr (.inr ⟨h, rfl⟩)
    | sweep => exact .inl s.cleanClientList_frame.2.2.2.1
    | _ => exact .inl rfl
  | accept => exact .inr (.inl ⟨_, rfl⟩)
  | worker hm => exact .inl hm.frame.1
  | net hm => exact .inl hm.frame.1

/-- The same in `service n`. -/
theorem Service.accept_eq_or {s s' : Service n} {a : ServiceAction n}
    (h : (service n).step s a = some s') :
    s'.proxy.accept = s.proxy.accept ∨ (∃ o, a = .proxy (.accept o)) ∨
      s.proxy.main = .createThread ∧ s'.proxy.accept.pc = .loop := by
  cases serviceStep_move h with
  | stepped _ ht =>
    exact (step_move ht).2.2.accept_eq_or.imp_right
      (Or.imp_left fun ⟨o, ho⟩ => ⟨o, congrArg _ ho⟩)
  | _ => exact .inl rfl

namespace Server

variable {s s' : Server n} {events : Option Bool}

/-- Steps of the service outside the loop keep the accept thread at the loop head. -/
theorem Parked.served {a : ServiceAction n} {t : Service n} (h : s.Parked)
    (ha : ∀ o, a = .proxy (.accept o) → s.service.proxy.accept.pc = .loop → o = .ok ∧ s.pc = .head)
    (hstep : (IocpProxy.service n).step s.service a = some t) (ht : t.proxy.accept.pc ≠ .loop) :
    s.pc = .head := by
  by_cases hl : s.service.proxy.accept.pc = .loop
  · rcases Service.accept_eq_or hstep with hsame | ⟨o, rfl⟩ | ⟨-, hloop⟩
    · exact absurd (hsame ▸ hl) ht
    · exact (ha o rfl hl).2
    · exact absurd hloop ht
  · exact h hl

theorem Parked.step {a : ServerAction n} (h : s.Parked) (hm : ServerMove s a s') : s'.Parked := by
  cases hm with
  | called => exact fun _ => by simp
  | selected hmain hstep =>
    intro hpc
    have hpc' : s.pc = .head :=
      h.served (a := .proxy (.main .ok)) nofun hstep (by simpa using hpc)
    simpa using hpc'
  | served _ hacc hstep => exact fun hpc => h.served hacc hstep hpc
  | connected | netError => simpa [Parked] using h
  | dropped => exact h
  | tested hat | timedOut hat | awoken hat | enumerated hat | notEnumerated hat | checked hat
  | skipped hat => exact fun hl => absurd hat.2.1 hl

theorem parked_of_reachable {G : Server n → ServerAction n → Prop}
    (hs : (server n events).Reachable G s) : s.Parked :=
  hs.invariant (fun _ => rfl) fun _ _ _ h _ hstep => h.step (serverStep_move hstep)

/-- On its way to `WSAEnumNetworkEvents` the accept thread has not noticed anything yet. -/
theorem recorded_of_awake (h : s.Awake) (hpc : s.pc = .head ∨ s.pc = .wait ∨ s.pc = .enumerate) :
    s.recorded = some true ∧ s.signaled = true := by
  rcases h with hrec | ⟨hc, -⟩ | hc
  · exact hrec
  · simp [hc] at hpc
  · simp [hc] at hpc

theorem Wakeful.recorded (h : s.Wakeful) (hsel : s.selected = true)
    (hpc : s.pc = .head ∨ s.pc = .wait ∨ s.pc = .enumerate) :
    s.enabled = true ∧ s.backlog = 0 ∨ s.recorded = some true ∧ s.signaled = true :=
  (h hsel).imp_right fun haw => recorded_of_awake haw hpc

theorem Wakeful.step {a : ServerAction n} (h : s.Wakeful) (ha : a ≠ .netError)
    (hm : ServerMove s a s') : s'.Wakeful := by
  cases hm with
  | called => exact fun _ => reenable_awake _
  | selected => exact fun _ => reenable_awake _
  | served => exact h
  | connected =>
    refine fun hsel => .inr (record_awake ?_)
    exact (h (by simpa using hsel)).imp_left And.left
  | dropped => exact fun hsel => (h hsel).imp_left fun ⟨he, hb⟩ => ⟨he, by simp [hb]⟩
  | netError => exact absurd rfl ha
  | tested hat | timedOut hat | awoken hat | notEnumerated hat =>
    intro hsel
    have hrec := h.recorded hsel (by simp [hat.2.2])
    exact hrec.imp_right .inl
  | enumerated hat =>
    -- the record goes over into the local
    intro hsel
    have hrec := h.recorded hsel (by simp [hat.2.2])
    exact hrec.imp_right fun hr => .inr (.inl ⟨rfl, hr.1⟩)
  | checked => exact fun _ => .inr (.inr (.inr rfl))
  | skipped hat he =>
    intro hsel
    have haw := h hsel
    simp only [Awake, hat.2.2, he, and_false, reduceCtorEq, or_false] at haw
    exact haw.imp_right .inl

/-- No error is recorded for the listening socket. -/
def NoNetError (_ : Server n) (a : ServerAction n) : Prop := a ≠ .netError

instance (s : Server n) : DecidablePred (NoNetError s) := fun a =>
  inferInstanceAs (Decidable (a ≠ .netError))

theorem wakeful_of_reachable (hs : (server n events).Reachable NoNetError s) : s.Wakeful :=
  hs.invariant nofun fun _ _ _ h ha hstep => h.step ha (serverStep_move hstep)

end Server

/-- The main thread creates the accept thread after `WSAEventSelect` has succeeded. -/
theorem mainStep_createThread {s s' : State n} {o : MainOutcome} (h : mainStep s o = some s')
    (hs : s'.main = .createThread) : s.main = .eventSelect ∧ o = .ok := by
  cases mainStep_move h with
  | @quiet _ pc hq =>
    change pc = .createThread at hs
    subst hs
    have hmain : s.main = .eventSelect := by simpa [mainQuiet] using hq
    refine ⟨hmain, ?_⟩
    cases o with
    | ok => rfl
    | fail =>
      simp only [mainStep, hmain, Option.some.injEq] at h
      cases congrArg State.main h
    | socket v => simp [mainStep, hmain] at h
  | _ => cases hs

namespace Server

variable {s s' : Server n} {events : Option Bool}

/-- The accept thread is created when `WSAEventSelect` has succeeded. -/
def Started (s : Server n) : Prop :=
  s.service.proxy.main = .createThread ∨ s.service.proxy.accept.pc ≠ .notStarted →
    s.selected = true

/-- A step of the service other than `WSAEventSelect` does not start the accept thread too
early. -/
theorem Started.served {a : ServiceAction n} {t : Service n} (h : s.Started)
    (ha : s.service.proxy.main = .eventSelect → a ≠ .proxy (.main .ok))
    (hstep : (IocpProxy.service n).step s.service a = some t)
    (ht : t.proxy.main = .createThread ∨ t.proxy.accept.pc ≠ .notStarted) :
    s.selected = true := by
  cases serviceStep_move hstep with
  | @stepped b u hb hu =>
    have hm := (step_move hu).2.2
    rcases ht with hmain | hpc
    · rcases hm.main_eq_or with hsame | ⟨o, rfl, -⟩
      · exact h (.inl (hsame ▸ hmain))
      · have hu' : mainStep s.service.proxy o = some u :=
          (Option.ite_none_right_eq_some.mp hu).2
        obtain ⟨hsel, rfl⟩ := mainStep_createThread hu' hmain
        exact absurd rfl (ha hsel)
    · rcases hm.accept_eq_or with hsame | ⟨o, rfl⟩ | ⟨hc, -⟩
      · exact h (.inr (hsame ▸ hpc))
      · rcases hm with - | hacc | - | -
        exact h (.inr hacc.pc_ne)
      · exact h (.inl hc)
  | _ => exact h ht

theorem Started.step {a : ServerAction n} (h : s.Started) (hm : ServerMove s a s') :
    s'.Started := by
  cases hm with
  | called hl => exact fun _ => by simpa using h (.inr (by simp [hl]))
  | selected => exact fun _ => by simp
  | served ha _ hstep => exact fun ht => h.served ha hstep ht
  | connected | netError => simpa [Started] using h
  | _ => exact h

theorem started_of_reachable {G : Server n → ServerAction n → Prop}
    (hs : (server n events).Reachable G s) : s.Started := by
  refine hs.invariant ?_ fun _ _ _ h _ hstep => h.step (serverStep_move hstep)
  rintro (h | h)
  · cases h
  · exact absurd rfl h

/-- What a run of steps of `service n` preserves holds of the service in `server n`. -/
theorem sound_of_reachable {G : Server n → ServerAction n → Prop}
    (hs : (server n events).Reachable G s) : s.service.proxy.Sound :=
  State.sound_of_reachable (Service.reachable_proxy (H := fun _ _ => True) (reachable_service hs)
    fun _ _ _ => trivial)

/-- A waiting connection is recorded unless the accept thread is on its way. -/
theorem Wakeful.recorded_of_at (h : s.Wakeful) (hst : s.Started) (hb : 0 < s.backlog) {pc : LoopPc}
    (hat : s.At pc) (hpc : pc = .head ∨ pc = .wait ∨ pc = .enumerate) :
    s.recorded = some true ∧ s.signaled = true := by
  obtain ⟨-, hl, rfl⟩ := hat
  refine (h.recorded (hst (.inr (by simp [hl]))) hpc).resolve_left ?_
  rintro ⟨-, hz⟩
  omega

end Server

/-- Unless Winsock reports an error for the listening socket, no connection is overlooked: once
`WSAEventSelect` has succeeded, a connection that waits is recorded and the event signaled, or the
accept thread is on its way to `WSAAccept`. While `AcceptConnection` works on another connection,
it is the former; and the wait never times out. -/
theorem accept_not_lost {events : Option Bool} {s : Server n}
    (hs : (server n events).Reachable Server.NoNetError s) (hsel : s.selected = true)
    (hb : 0 < s.backlog) :
    s.Awake ∧
    (s.service.proxy.accept.pc ≠ .loop → s.recorded = some true ∧ s.signaled = true) ∧
    (server n events).step s .timeout = none := by
  have hw := Server.wakeful_of_reachable hs
  have hawake : s.Awake := (hw hsel).resolve_left fun ⟨_, hz⟩ => by omega
  refine ⟨hawake, fun hpc => ?_, ?_⟩
  · exact Server.recorded_of_awake hawake (.inl (Server.parked_of_reachable hs hpc))
  · refine if_neg fun ⟨hat, hsig⟩ => ?_
    have hrec := hw.recorded_of_at (Server.started_of_reachable hs) hb hat (by decide)
    simp [hsig] at hrec

/-- The accept thread notices the connection that waits and calls `WSAAccept`. -/
def takeConnection (v : ℕ) : List (ServerAction n) :=
  [.test, .awake true, .enumerate true, .check, .service (.proxy (.accept (.socket v)))]

/-- A second connection arrives while `AcceptConnection` works on the first one. -/
theorem accept_not_lost_run : ∃ s : Server 2, s.backlog = 1 ∧
    s.service.proxy.accept.pc = .initRemote ∧ s.recorded = some true ∧ s.signaled = true := by
  obtain ⟨s, hs, hsel, hb, hpc⟩ : ∃ s : Server 2, (server 2 none).Reachable Server.NoNetError s ∧
      s.selected = true ∧ s.backlog = 1 ∧ s.service.proxy.accept.pc = .initRemote :=
    TransitionSystem.exists_reachable_of_runChecked
      (startUp.map (fun a => .service (.proxy a)) ++ [.connect] ++ takeConnection 11 ++
        [.connect]) (by decide +kernel)
  exact ⟨s, hb, hpc, (accept_not_lost hs hsel (by omega)).2.1 (by simp [hpc])⟩

end IocpProxy
