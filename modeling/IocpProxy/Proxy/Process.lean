import IocpProxy.Proxy.AcceptLoop

/-!
# The process around the service

`main` sends its process id to the driver, calls `Initialize`, serves, and calls `DeInitialize`.
`Initialize` makes the globals that all threads use, and then the workers, which run from then on;
`DeInitialize` releases the globals, also when the socket could not be set up, and then the workers
still run. `process n` adds these calls, one by one, to `server n`, and says which globals each
step uses. A worker that goes on while `DeInitialize` runs finds that
`GetQueuedCompletionStatus` fails once the port is closed; its `lpContext` is then what it was.

Left out are the runs in which `CreateEvent` fails in `Initialize` or `CreateThread` fails for a
worker: the program looks at neither result, and goes on with a null handle. The process ends when
`main` returns.

## Main definitions

* `IocpProxy.Global`, `IocpProxy.initializeGlobals`, `IocpProxy.deInitializeGlobals`.
* `IocpProxy.Life` : a global is made, then released.
* `IocpProxy.Process`, `IocpProxy.processStep`, `IocpProxy.process` : the refined system.
* `IocpProxy.Process.uses` : the globals a step uses.
* `IocpProxy.State.Threaded`, `IocpProxy.Process.Phase`, `IocpProxy.Process.Sound` : the
  invariants.

## Main results

* `IocpProxy.processStep_move` : every step is a move.
* `IocpProxy.Process.reachable_server` : until `DeInitialize`, every run of `process n` is one of
  `server n`.
* `IocpProxy.globals_alive`.
-/

namespace IocpProxy

open State

variable {n : ℕ}

/-! ### The globals -/

/-- What `Initialize` and `main` make and the threads use. -/
inductive Global
  | phWorkerThreads
  | csConsole
  | csClientList
  | numSockCntxt
  | csSockCntxtMap
  | csSockCntxtCleanUp
  | hShutdownEvent
  /-- The use of Winsock, from `WSAStartup` to `WSACleanup`. -/
  | winsock
  | hIOCompletionPort
  | hAcceptEvent
  deriving DecidableEq

/-- What `Initialize` makes, with `InitializeIOCP`, in its order. -/
def initializeGlobals : List Global :=
  [.phWorkerThreads, .csConsole, .csClientList, .numSockCntxt, .csSockCntxtMap,
    .csSockCntxtCleanUp, .hShutdownEvent, .winsock, .hIOCompletionPort]

/-- What `DeInitialize` releases, in its order. -/
def deInitializeGlobals : List Global :=
  [.csConsole, .csClientList, .numSockCntxt, .csSockCntxtMap, .csSockCntxtCleanUp,
    .hIOCompletionPort, .hShutdownEvent, .phWorkerThreads, .winsock]

/-- `Initialize` returns `false` when this cannot be made. -/
def Global.Checked (g : Global) : Prop := g = .winsock ∨ g = .hIOCompletionPort

instance (g : Global) : Decidable g.Checked := inferInstanceAs (Decidable (_ ∨ _))

/-- Where a global is between its making and its release. -/
inductive Life
  | unmade
  | present
  | released
  /-- Made again, or released when it was not there. -/
  | broken
  deriving DecidableEq

/-- A global is made. -/
def Life.make : Life → Life
  | .unmade => .present
  | _ => .broken

/-- A global is released. -/
def Life.release : Life → Life
  | .present => .released
  | _ => .broken

/-- `main` makes the event of the listening socket with `WSACreateEvent`, and closes it when
`WSAEventSelect` fails and in `CleanUp`. -/
def MainPc.eventLife : MainPc → MainOutcome → Life → Life
  | .createEvent, .ok, l => l.make
  | .eventSelect, .fail, l | .waitWorkers, .ok, l => l.release
  | _, _, l => l

/-! ### What the threads use -/

/-- The globals `main` uses at its labels between `Initialize` and `DeInitialize`. -/
def MainPc.uses : MainPc → List Global
  | .init | .createThread | .waitAccept | .exited => []
  | .socket | .bind | .listen | .createEvent | .closeListen | .error => [.winsock]
  | .eventSelect => [.winsock, .hAcceptEvent]
  | .serving => [.csConsole, .hShutdownEvent]
  | .waitWorkers => [.phWorkerThreads, .hAcceptEvent, .csClientList, .winsock]

/-- The globals `AcceptConnection` uses at its labels, and the accept thread when it returns. -/
def AcceptPc.uses : AcceptPc → AcceptOutcome → List Global
  | .loop, .ok => [.hShutdownEvent]
  | .loop, _ | .initRemote, _ => [.numSockCntxt, .winsock, .csConsole]
  | .assoc _, _ => [.hIOCompletionPort]
  | .assocRet _, .fail => [.hIOCompletionPort, .csConsole, .csClientList]
  | .add _, _ => [.csClientList]
  | .recv _, _ => [.winsock, .csConsole]
  | .exitClose, _ | .ret, _ => [.winsock]
  | .exitRemove _, _ => [.csClientList, .csConsole, .winsock]
  | .exitNull _, _ => [.csConsole, .winsock]
  | .assocRet _, _ | .link, _ | .notStarted, _ | .done, _ => []

/-- The globals a worker uses with a completion. -/
def Stage.uses : Stage → List Global
  | .dispatch | .forward => [.csConsole]
  | .forwardSend | .send _ => []
  | .fill _ | .recv => [.winsock, .csConsole]
  | .failed => [.csConsole, .csClientList]
  | .finish => [.csConsole, .winsock]

/-- The globals a worker uses in a step of `proxy n`. -/
def Worker.uses : Worker → WorkerOutcome → List Global
  | .waiting, .dequeue _ _ => [.hIOCompletionPort, .csConsole]
  | .waiting, _ => [.hShutdownEvent]
  | .busy _ st, _ => st.uses
  | .exited, _ => []

/-- The globals a step of `server n` uses. -/
def Server.uses (s : Server n) : ServerAction n → List Global
  | .service (.proxy (.main _)) => s.service.proxy.main.uses
  | .service (.proxy (.accept o)) => s.service.proxy.accept.pc.uses o
  | .service (.proxy (.worker w o)) => (s.service.proxy.worker w).uses o
  | .service (.proxy (.net _)) | .connect | .drop | .netError | .check => []
  | .service .post | .service (.wake _) => [.hIOCompletionPort]
  | .service (.enter _) | .test => [.hShutdownEvent]
  | .timeout | .awake _ => [.hAcceptEvent]
  | .enumerate _ => [.winsock, .hAcceptEvent]

/-! ### The process -/

/-- Where `main` is. -/
inductive ProcessPc
  /-- In `UpdateKernelWithUserAppProcessId`. -/
  | register
  /-- In `Initialize`, before it makes the globals of the list. -/
  | making (gs : List Global)
  /-- In the loop of `InitializeIOCP`, with this many workers created. -/
  | createWorkers (k : ℕ)
  /-- After `Initialize`. -/
  | serving
  /-- In `DeInitialize`, before it releases the globals of the list. -/
  | releasing (gs : List Global)
  | returned
  deriving DecidableEq

/-- The steps of `server n` that agree with the place of `main`: before `Initialize` has returned,
the workers created so far come to `GetQueuedCompletionStatus`. -/
def ProcessPc.Allows : ProcessPc → ServerAction n → Prop
  | .createWorkers k, a =>
    (∃ w : Fin n, w < k ∧ a = .service (.enter w)) ∨ k = n ∧ a = .service (.proxy (.main .ok))
  | .serving, _ => True
  | .register, _ | .making _, _ | .releasing _, _ | .returned, _ => False

instance : (pc : ProcessPc) → (a : ServerAction n) → Decidable (pc.Allows a)
  | .createWorkers k, a => inferInstanceAs (Decidable
    ((∃ w : Fin n, w < k ∧ a = .service (.enter w)) ∨ k = n ∧ a = .service (.proxy (.main .ok))))
  | .serving, _ => instDecidableTrue
  | .register, _ | .making _, _ | .releasing _, _ | .returned, _ => instDecidableFalse

/-- The process with its globals. -/
structure Process (n : ℕ) where
  server : Server n
  pc : ProcessPc
  life : Global → Life
  /-- The local `lpContext` of a worker is not null. -/
  lpContext : Fin n → Bool
  /-- A worker has used a context after `main` had come to `DeInitialize`. -/
  stray : Bool

/-- An action of the process. -/
inductive ProcessAction (n : ℕ)
  /-- `UpdateKernelWithUserAppProcessId` returns. -/
  | register (ok : Bool)
  /-- `Initialize` makes the next global, or cannot make it. -/
  | make (ok : Bool)
  | createWorker
  | serve (a : ServerAction n)
  /-- `DeInitialize` releases the next global. -/
  | release
  /-- `main` returns from `DeInitialize`. -/
  | leave
  /-- A worker goes on while `main` is in `DeInitialize`. -/
  | late (w : Fin n)
  deriving DecidableEq

namespace Process

/-- A global is made or released. -/
def setLife (s : Process n) (g : Global) (l : Life) : Process n :=
  { s with life := Function.update s.life g l }

/-- The worker is at another place of its loop. -/
def positionAt (s : Process n) (w : Fin n) (p : Position) : Process n :=
  { s with server.service.position := Function.update s.server.service.position w p }

/-- The worker has returned. -/
def workerExited (s : Process n) (w : Fin n) : Process n :=
  { s with server.service.proxy := s.server.service.proxy.setWorker w .exited }

/-- `main` makes and closes the event of the listening socket. -/
def lifeAfter (s : Process n) : ServerAction n → Global → Life
  | .service (.proxy (.main o)) => Function.update s.life .hAcceptEvent
      (s.server.service.proxy.main.eventLife o (s.life .hAcceptEvent))
  | _ => s.life

/-- `lpContext` after a step: it is what the last packet brought. -/
def lpContextAfter (s : Process n) : ServerAction n → Fin n → Bool
  | .service (.proxy (.worker w (.dequeue _ _))) => Function.update s.lpContext w true
  | .service (.wake w) => Function.update s.lpContext w false
  | _ => s.lpContext

/-- The state after a step of `server n`. -/
def after (s : Process n) (a : ServerAction n) (t : Server n) : Process n :=
  { s with
    server := t
    pc := if t.service.proxy.main = .exited then .releasing deInitializeGlobals
      else if t.service.proxy.main = .init then s.pc else .serving
    life := s.lifeAfter a
    lpContext := s.lpContextAfter a }

/-- A worker goes on while `main` is in `DeInitialize`. -/
def lateStep (s : Process n) (w : Fin n) : Option (Process n) :=
  match s.server.service.proxy.worker w, s.server.service.position w with
  | .waiting, .head =>
    -- the wait for a closed event fails
    some (if s.life .hShutdownEvent = .present ∧ s.server.service.proxy.shutdown = true then
      s.workerExited w else s.positionAt w .get)
  | .waiting, .get =>
    if s.life .hIOCompletionPort = .present then
      if 0 < s.server.service.nulls then
        some { s with
          server.service := s.server.service.woken w
          lpContext := Function.update s.lpContext w false }
      else if s.server.service.proxy.ops = [] then none else some { s with stray := true }
    -- on a closed port `GetQueuedCompletionStatus` fails and sets nothing
    else some (if s.lpContext w then { s with stray := true } else s.positionAt w .leaving)
  | .waiting, .leaving => some (s.workerExited w)
  | .busy _ _, _ => some { s with stray := true }
  | .exited, _ => none

/-- The globals a worker uses while `main` is in `DeInitialize`. -/
def lateUses (s : Process n) (w : Fin n) : List Global :=
  match s.server.service.proxy.worker w, s.server.service.position w with
  | .waiting, .head => [.hShutdownEvent]
  | .waiting, .get => [.hIOCompletionPort]
  | .waiting, .leaving | .exited, _ => []
  | .busy _ st, _ => st.uses

/-- The globals a step uses. -/
def uses (s : Process n) : ProcessAction n → List Global
  | .serve a => s.server.uses a
  | .late w => s.lateUses w
  | .createWorker => [.phWorkerThreads]
  | .register _ | .make _ | .release | .leave => []

end Process

/-- A step of the process. -/
def processStep (s : Process n) : ProcessAction n → Option (Process n)
  | .register ok =>
    if s.pc = .register then
      some { s with pc := if ok then .making initializeGlobals else .returned }
    else none
  | .make ok =>
    match s.pc with
    | .making (g :: gs) =>
      if ok then
        some { s.setLife g (s.life g).make with
          pc := if gs = [] then .createWorkers 0 else .making gs }
      else if g.Checked then
        (serverStep s.server (.service (.proxy (.main .fail)))).map fun t =>
          { s with server := t, pc := .returned }
      -- the result of `CreateEvent` is not looked at; runs in which it fails are left out
      else none
    | _ => none
  | .createWorker =>
    -- nor is the result of `CreateThread`
    match s.pc with
    | .createWorkers k => if k < n then some { s with pc := .createWorkers (k + 1) } else none
    | _ => none
  | .serve a => if s.pc.Allows a then (serverStep s.server a).map (s.after a) else none
  | .release =>
    match s.pc with
    | .releasing (g :: gs) =>
      some { s.setLife g (s.life g).release with pc := .releasing gs }
    | _ => none
  | .leave => if s.pc = .releasing [] then some { s with pc := .returned } else none
  | .late w =>
    match s.pc with
    | .releasing _ => s.lateStep w
    | _ => none

/-- The process with `n` workers. -/
def process (n : ℕ) (events : Option Bool) : TransitionSystem (Process n) (ProcessAction n) where
  init := ⟨(server n events).init, .register, fun _ => .unmade, fun _ => false, false⟩
  step := processStep

/-- The moves of a worker while `main` is in `DeInitialize`. -/
inductive LateMove (s : Process n) (w : Fin n) : Process n → Prop
  | exit (h : s.server.service.proxy.worker w = .waiting) : LateMove s w (s.workerExited w)
  | position {p : Position} (h : s.server.service.proxy.worker w = .waiting) :
      LateMove s w (s.positionAt w p)
  | woken (h : s.server.service.proxy.worker w = .waiting) : LateMove s w { s with
      server.service := s.server.service.woken w
      lpContext := Function.update s.lpContext w false }
  | stray (h : s.server.service.proxy.worker w = .waiting →
      s.server.service.proxy.ops ≠ [] ∨ s.lpContext w = true)
      (hw : s.server.service.proxy.worker w ≠ .exited) : LateMove s w { s with stray := true }

theorem LateMove.pc_eq {s s' : Process n} {w : Fin n} (hm : LateMove s w s') : s'.pc = s.pc := by
  cases hm <;> rfl

/-- The moves of the process. -/
inductive ProcessMove (s : Process n) : ProcessAction n → Process n → Prop
  | registered (hpc : s.pc = .register) :
      ProcessMove s (.register true) { s with pc := .making initializeGlobals }
  | notRegistered (hpc : s.pc = .register) :
      ProcessMove s (.register false) { s with pc := .returned }
  | made {g : Global} {gs : List Global} (hpc : s.pc = .making (g :: gs)) :
      ProcessMove s (.make true) { s.setLife g (s.life g).make with
        pc := if gs = [] then .createWorkers 0 else .making gs }
  | notMade {g : Global} {gs : List Global} {t : Server n} (hpc : s.pc = .making (g :: gs))
      (ht : serverStep s.server (.service (.proxy (.main .fail))) = some t) :
      ProcessMove s (.make false) { s with server := t, pc := .returned }
  | createdWorker {k : ℕ} (hpc : s.pc = .createWorkers k) (hk : k < n) :
      ProcessMove s .createWorker { s with pc := .createWorkers (k + 1) }
  | served {a : ServerAction n} {t : Server n} (ha : s.pc.Allows a)
      (ht : serverStep s.server a = some t) : ProcessMove s (.serve a) (s.after a t)
  | released {g : Global} {gs : List Global} (hpc : s.pc = .releasing (g :: gs)) :
      ProcessMove s .release { s.setLife g (s.life g).release with pc := .releasing gs }
  | left (hpc : s.pc = .releasing []) : ProcessMove s .leave { s with pc := .returned }
  | late {w : Fin n} {gs : List Global} {s' : Process n} (hpc : s.pc = .releasing gs)
      (hm : LateMove s w s') : ProcessMove s (.late w) s'

namespace Process

theorem lateStep_move {s s' : Process n} {w : Fin n} (h : s.lateStep w = some s') :
    LateMove s w s' := by
  unfold lateStep at h
  split at h
  · rename_i hw _
    split_ifs at h <;> cases h
    · exact .exit hw
    · exact .position hw
  · rename_i hw _
    split_ifs at h with hport hnull hops hctx <;> cases h
    · exact .woken hw
    · exact .stray (fun _ => .inl hops) (by simp [hw])
    · exact .stray (fun _ => .inr hctx) (by simp [hw])
    · exact .position hw
  · rename_i hw _
    cases h
    exact .exit hw
  · rename_i hw
    cases h
    exact .stray (fun hwait => by simp [hw] at hwait) (by simp [hw])
  · cases h

end Process

theorem processStep_move {events : Option Bool} {s s' : Process n} {a : ProcessAction n}
    (h : (process n events).step s a = some s') : ProcessMove s a s' := by
  change processStep s a = some s' at h
  cases a with
  | register ok =>
    obtain ⟨hpc, ⟨⟩⟩ := Option.ite_none_right_eq_some.mp h
    cases ok with
    | true => exact .registered hpc
    | false => exact .notRegistered hpc
  | make ok =>
    simp only [processStep] at h
    split at h
    · rename_i g gs hpc
      cases ok with
      | true =>
        obtain rfl := Option.some.inj h
        exact .made hpc
      | false =>
        obtain ⟨-, h⟩ := Option.ite_none_right_eq_some.mp h
        obtain ⟨t, ht, rfl⟩ := Option.map_eq_some_iff.mp h
        exact .notMade hpc ht
    · cases h
  | createWorker =>
    simp only [processStep] at h
    split at h
    · rename_i k hpc
      obtain ⟨hk, ⟨⟩⟩ := Option.ite_none_right_eq_some.mp h
      exact .createdWorker hpc hk
    · cases h
  | serve a =>
    obtain ⟨ha, h⟩ := Option.ite_none_right_eq_some.mp h
    obtain ⟨t, ht, rfl⟩ := Option.map_eq_some_iff.mp h
    exact .served ha ht
  | release =>
    simp only [processStep] at h
    split at h
    · rename_i g gs hpc
      cases h
      exact .released hpc
    · cases h
  | leave =>
    obtain ⟨hpc, ⟨⟩⟩ := Option.ite_none_right_eq_some.mp h
    exact .left hpc
  | late w =>
    simp only [processStep] at h
    split at h
    · rename_i gs hpc
      exact .late hpc (Process.lateStep_move h)
    · cases h

/-! ### The threads and the main thread -/

/-- `main` has not come to serve. -/
def MainPc.Early (pc : MainPc) : Prop :=
  pc ∉ ([.serving, .waitAccept, .waitWorkers, .closeListen, .exited] : List MainPc)

/-- An accept thread that moves was started and has not returned. -/
theorem AcceptMove.pc_ne_ends {s s' : State n} {o : AcceptOutcome} (hm : AcceptMove s o s') :
    s.accept.pc ≠ .done ∧ s.accept.pc ≠ .notStarted := by
  refine ⟨hm.pc_ne_done, fun hpc => ?_⟩
  cases hm <;> simp_all

theorem MainPc.early_of_mainQuiet {pc pc' : MainPc} (h : (pc, pc') ∈ mainQuiet) : pc.Early := by
  simp only [mainQuiet, List.mem_cons, Prod.mk.injEq, List.not_mem_nil, or_false] at h
  rcases h with ⟨rfl, -⟩ | ⟨rfl, -⟩ | ⟨rfl, -⟩ | ⟨rfl, -⟩ | ⟨rfl, -⟩ | ⟨rfl, -⟩ | ⟨rfl, -⟩ |
    ⟨rfl, -⟩ | ⟨rfl, -⟩ <;> simp [MainPc.Early]

/-- `main` does not go back from serving. -/
theorem Move.early_of {s s' : State n} {a : Action n} (hm : Move s a s') (h : s'.main.Early) :
    s.main.Early := by
  rcases hm.main_eq_or with hsame | ⟨o, rfl, hmm⟩
  · rwa [hsame] at h
  · cases hmm with
    | quiet hq => exact MainPc.early_of_mainQuiet hq
    | opened hmain | noSocket hmain => simp [MainPc.Early, hmain]
    | bindFailed hmain => rcases hmain with hmain | hmain <;> simp [MainPc.Early, hmain]
    | _ => simp [MainPc.Early, mainAt, closeListen] at h

/-- `main` does not come back to `Initialize`, and leaves it for `DeInitialize` only when it could
not be completed. -/
theorem Move.main_cases {s s' : State n} {a : Action n} (hm : Move s a s') :
    (s'.main = .init → s.main = .init) ∧
      (s'.main = .exited → s.main ≠ .exited → s.main = .init ∨
        ∃ o, a = .main o ∧ (s.main = .closeListen ∨ s.main = .error) ∧
          s' = s.closeListen .exited) := by
  rcases hm.main_eq_or with hsame | ⟨o, rfl, hmm⟩
  · exact ⟨fun h => hsame ▸ h, fun h hne => absurd (hsame ▸ h) hne⟩
  · cases hmm with
    | @quiet _ pc hq =>
      refine ⟨?_, ?_⟩
      · rintro rfl
        simp [mainQuiet] at hq
      · rintro rfl -
        exact .inl (by simpa [mainQuiet] using hq)
    | closed hmain => exact ⟨by simp [closeListen], fun _ _ => .inr ⟨_, rfl, hmain, rfl⟩⟩
    | _ => exact ⟨by simp [mainAt, closeListen], by simp [mainAt, closeListen]⟩

namespace State

variable {s s' : State n} {a : Action n}

/-- Nothing runs but the main thread. -/
structure Asleep (s : State n) : Prop where
  shutdown : s.shutdown = false
  accept : s.accept.pc = .notStarted
  ops : s.ops = []
  workers : ∀ w, s.worker w = .waiting

/-- Then only the main thread moves. -/
theorem Asleep.main_of_move (h : s.Asleep) (hm : Move s a s') :
    ∃ o, a = .main o ∧ MainMove s o s' := by
  cases hm with
  | main hm => exact ⟨_, rfl, hm⟩
  | accept hm =>
    have hpc := h.accept
    cases hm <;> simp_all
  | worker hm =>
    rename_i w _
    have hw := h.workers w
    cases hm with
    | exit _ hs => simp [h.shutdown] at hs
    | dequeued _ ho | dead _ ho => simp [h.ops] at ho
    | _ => simp_all
  | net hm => cases hm <;> simp_all [h.ops]

/-- The threads that run where the main thread is. -/
structure Threaded (s : State n) : Prop where
  early : s.main.Early → s.Asleep
  accept : s.main = .waitWorkers ∨ s.main = .closeListen →
    s.accept.pc = .done ∨ s.accept.pc = .notStarted
  workers : s.main = .closeListen → n ≤ maximumWaitObjects → ∀ w, s.worker w = .exited

/-- A thread but the main thread moves when `main` has come to serve. -/
theorem Threaded.not_early (h : s.Threaded) (hm : Move s a s') (ha : ∀ o, a ≠ .main o) :
    ¬ s.main.Early := by
  intro he
  obtain ⟨o, ho, -⟩ := (h.early he).main_of_move hm
  exact ha o ho

theorem Threaded.main {o : MainOutcome} (h : s.Threaded) (hm : MainMove s o s') :
    s'.Threaded := by
  -- the main thread changes nothing else before it comes to serve
  have early {pc : MainPc} (hpc : s.main = pc) (he : pc.Early) : s.Asleep := h.early (hpc ▸ he)
  cases hm with
  | @quiet _ pc hq =>
    have hs := h.early (MainPc.early_of_mainQuiet hq)
    refine ⟨fun _ => ⟨hs.shutdown, hs.accept, hs.ops, hs.workers⟩, ?_, ?_⟩
    · rintro (rfl | rfl) <;> simp [mainQuiet] at hq
    · rintro rfl
      simp [mainQuiet] at hq
  | opened hmain =>
    have hs := early hmain (by simp [MainPc.Early])
    exact ⟨fun _ => ⟨hs.shutdown, hs.accept, hs.ops, hs.workers⟩, by simp, by simp⟩
  | noSocket hmain =>
    have hs := early hmain (by simp [MainPc.Early])
    exact ⟨fun _ => ⟨hs.shutdown, hs.accept, hs.ops, hs.workers⟩, by simp [mainAt],
      by simp [mainAt]⟩
  | bindFailed hmain =>
    have hs : s.Asleep := hmain.elim (early · (by simp [MainPc.Early]))
      (early · (by simp [MainPc.Early]))
    exact ⟨fun _ => ⟨hs.shutdown, hs.accept, hs.ops, hs.workers⟩, by simp [closeListen],
      by simp [closeListen]⟩
  | acceptDone _ hd =>
    exact ⟨fun he => by simp [MainPc.Early, mainAt] at he, fun _ => hd, by simp [mainAt]⟩
  | sweep hmain hw =>
    obtain ⟨-, -, -, hacc, -, hworker, -⟩ := s.cleanClientList_frame
    refine ⟨fun he => by simp [MainPc.Early, mainAt] at he, fun _ => ?_, fun _ hn w => ?_⟩
    · exact (congrArg AcceptThread.pc hacc) ▸ h.accept (.inl hmain)
    · exact (congrFun hworker w).trans (hw.resolve_left (by omega) w)
  | _ => exact ⟨fun he => by simp [MainPc.Early, mainAt, closeListen] at he,
      by simp [mainAt, closeListen], by simp [mainAt, closeListen]⟩

theorem Threaded.step (h : s.Threaded) (hm : Move s a s') : s'.Threaded := by
  cases hm with
  | main hm => exact h.main hm
  | accept hm =>
    have hearly := h.not_early (.accept hm) (by simp)
    obtain ⟨hworker, hmain, -⟩ := hm.frame
    refine ⟨fun he => absurd (hmain ▸ he) hearly, fun hs => ?_, fun hs hn => ?_⟩
    · exact absurd (h.accept (hmain ▸ hs)) (not_or.mpr hm.pc_ne_ends)
    · rw [hworker]
      exact h.workers (hmain ▸ hs) hn
  | worker hm =>
    have hearly := h.not_early (.worker hm) (by simp)
    obtain ⟨hacc, -, -, -, hmain, -⟩ := hm.frame
    refine ⟨fun he => absurd (hmain ▸ he) hearly, fun hs => ?_, fun hs hn v => ?_⟩
    · rw [hacc]
      exact h.accept (hmain ▸ hs)
    · exact (Move.worker hm).worker_exited (h.workers (hmain ▸ hs) hn v)
  | net hm =>
    have hearly := h.not_early (.net hm) (by simp)
    obtain ⟨hacc, -, -, -, hmain, -, hworker, -⟩ := hm.frame
    refine ⟨fun he => absurd (hmain ▸ he) hearly, fun hs => ?_, fun hs hn => ?_⟩
    · rw [hacc]
      exact h.accept (hmain ▸ hs)
    · rw [hworker]
      exact h.workers (hmain ▸ hs) hn

theorem threaded_of_reachable {G : State n → Action n → Prop} (hs : (proxy n).Reachable G s) :
    s.Threaded := by
  refine hs.invariant ⟨fun _ => ⟨rfl, rfl, rfl, fun _ => rfl⟩, ?_, ?_⟩ fun s a s' h _ hstep =>
    h.step (step_move hstep).2.2
  · rintro (h | h) <;> cases h
  · intro h
    cases h

end State

/-- A step of `server n` is one of `proxy n`, or does not show there. -/
theorem Server.proxy_eq_or {events : Option Bool} {s s' : Server n} {a : ServerAction n}
    (h : (server n events).step s a = some s') :
    (∀ b, a ≠ .service (.proxy b)) ∧ s'.service.proxy = s.service.proxy ∨
      ∃ b, a = .service (.proxy b) ∧
        (IocpProxy.proxy n).step s.service.proxy b = some s'.service.proxy := by
  have stepped {t : Service n} {b : ServiceAction n}
      (hb : (IocpProxy.service n).step s.service b = some t) :
      (∀ c, b ≠ .proxy c) ∧ t.proxy = s.service.proxy ∨
        ∃ c, b = .proxy c ∧ (IocpProxy.proxy n).step s.service.proxy c = some t.proxy := by
    cases serviceStep_move hb with
    | stepped _ ht => exact .inr ⟨_, rfl, ht⟩
    | _ => exact .inl ⟨by simp, rfl⟩
  cases serverStep_move h with
  | called _ _ _ _ ht | selected _ ht | served _ _ ht => simpa using stepped ht
  | connected | netError => exact .inl ⟨by simp, by simp⟩
  | _ => exact .inl ⟨by simp, rfl⟩

/-! ### The lives of the globals -/

theorem mem_initializeGlobals {g : Global} : g ∈ initializeGlobals ↔ g ≠ .hAcceptEvent := by
  cases g <;> decide

/-- `DeInitialize` releases what `Initialize` makes. -/
theorem mem_deInitializeGlobals {g : Global} : g ∈ deInitializeGlobals ↔ g ≠ .hAcceptEvent := by
  cases g <;> decide

/-- Where the event of the listening socket is in its life, by the label of `main`. -/
def MainPc.eventLives : MainPc → List Life
  | .init | .socket | .bind | .listen | .createEvent => [.unmade]
  | .eventSelect | .createThread | .serving | .waitAccept | .waitWorkers => [.present]
  | .closeListen => [.released]
  | .error | .exited => [.unmade, .released]

/-- The event goes on in its life with the label of `main`. -/
theorem mainStep_eventLife {s s' : State n} {o : MainOutcome} {l : Life}
    (h : mainStep s o = some s') (hl : l ∈ s.main.eventLives) :
    s.main.eventLife o l ∈ s'.main.eventLives := by
  unfold mainStep at h
  split at h <;> rename_i hmain <;> simp only [hmain, MainPc.eventLives] at hl <;>
    try split_ifs at h
  all_goals cases h
  all_goals simp_all [MainPc.eventLife, MainPc.eventLives, mainAt, closeListen, Life.make,
    Life.release]

namespace Process

variable {events : Option Bool} {s s' : Process n}

/-- The workers have returned when `main` is in `DeInitialize`, or nothing has run but the loop
heads of the workers. -/
def Deserted (s : Process n) : Prop :=
  ∀ w, s.server.service.proxy.worker w = .exited ∨
    s.server.service.proxy.worker w = .waiting ∧ s.lpContext w = false ∧
      s.server.service.proxy.ops = [] ∧ s.server.service.proxy.accept.pc = .notStarted

/-- The globals once `main` returns: nothing was released, if `Initialize` did not come to its end,
and else nothing is left. -/
def Settled (s : Process n) : Prop :=
  s.life .hIOCompletionPort = .unmade ∧ (∀ g, s.life g = .unmade ∨ s.life g = .present) ∨
    ∀ g, s.life g = .released ∨ g = .hAcceptEvent ∧ s.life g = .unmade

/-- What holds at each place of `main`. -/
inductive Phase (events : Option Bool) (s : Process n) : Prop
  | register (hpc : s.pc = .register) (hs : s.server = (IocpProxy.server n events).init)
      (hl : ∀ g, s.life g = .unmade)
  | making {gs : List Global} (hpc : s.pc = .making gs)
      (hs : s.server = (IocpProxy.server n events).init) (hgs : gs <:+ initializeGlobals)
      (hl : ∀ g, s.life g = if g ∈ gs ∨ g = .hAcceptEvent then .unmade else .present)
  | createWorkers {k : ℕ} (hpc : s.pc = .createWorkers k)
      (hmain : s.server.service.proxy.main = .init)
      (hl : ∀ g, s.life g = if g = .hAcceptEvent then .unmade else .present)
  | serving (hpc : s.pc = .serving)
      (hmain : s.server.service.proxy.main ≠ .init ∧ s.server.service.proxy.main ≠ .exited)
      (hl : ∀ g ≠ .hAcceptEvent, s.life g = .present)
      (hev : s.life .hAcceptEvent ∈ s.server.service.proxy.main.eventLives)
  | releasing {gs : List Global} (hpc : s.pc = .releasing gs) (hgs : gs <:+ deInitializeGlobals)
      (hl : ∀ g ≠ .hAcceptEvent, s.life g = if g ∈ gs then .present else .released)
      (hev : s.life .hAcceptEvent = .unmade ∨ s.life .hAcceptEvent = .released)
      (hw : s.Deserted)
  | returned (hpc : s.pc = .returned) (hl : s.Settled)

/-- The invariant: no worker goes astray, and before `main` serves no worker has had a
completion. -/
structure Sound (events : Option Bool) (s : Process n) : Prop where
  stray : s.stray = false
  lpContext : s.server.service.proxy.main.Early → ∀ w, s.lpContext w = false
  phase : s.Phase events

/-- Only the steps of the main thread make and release the event. -/
theorem lifeAfter_of_ne_main {a : ServerAction n} (ha : ∀ o, a ≠ .service (.proxy (.main o))) :
    s.lifeAfter a = s.life := by
  unfold lifeAfter
  split
  · exact absurd rfl (ha _)
  · rfl

theorem lifeAfter_of_ne (a : ServerAction n) {g : Global} (hg : g ≠ .hAcceptEvent) :
    s.lifeAfter a g = s.life g := by
  unfold lifeAfter
  split
  · exact Function.update_of_ne hg _ _
  · rfl

/-- The event goes on in its life with the label of `main`. -/
theorem lifeAfter_event {t : Server n} {a : ServerAction n}
    (hev : s.life .hAcceptEvent ∈ s.server.service.proxy.main.eventLives)
    (ht : (IocpProxy.server n events).step s.server a = some t) :
    s.lifeAfter a .hAcceptEvent ∈ t.service.proxy.main.eventLives := by
  rcases Server.proxy_eq_or ht with ⟨ha, hsame⟩ | ⟨b, rfl, hb⟩
  · rwa [lifeAfter_of_ne_main fun o => ha _, hsame]
  · cases b with
    | main o =>
      have hstep : mainStep s.server.service.proxy o = some t.service.proxy :=
        (Option.ite_none_right_eq_some.mp hb).2
      have hlife : s.lifeAfter (.service (.proxy (.main o))) .hAcceptEvent =
          s.server.service.proxy.main.eventLife o (s.life .hAcceptEvent) := by
        rw [lifeAfter, Function.update_self]
      rw [hlife]
      exact mainStep_eventLife hstep hev
    | _ =>
      rcases (step_move hb).2.2.main_eq_or with hmain | ⟨o, ho, -⟩
      · rwa [lifeAfter_of_ne_main (by simp), hmain]
      · cases ho

/-! ### The invariant -/

/-- `main` has not come to `DeInitialize`. -/
def BeforeDeInitialize (s : Process n) : Prop := s.pc ≠ .returned ∧ ∀ gs, s.pc ≠ .releasing gs

/-- Until `DeInitialize`, a run of the process is one of `server n`. -/
theorem reachable_server (hs : (process n events).Reachable (fun _ _ => True) s) :
    s.BeforeDeInitialize → (IocpProxy.server n events).Reachable (fun _ _ => True) s.server := by
  refine hs.invariant (I := fun s => s.BeforeDeInitialize →
    (IocpProxy.server n events).Reachable (fun _ _ => True) s.server) (fun _ => .init)
    fun s a s' ih _ hstep hpc' => ?_
  cases processStep_move hstep with
  | registered hpc | made hpc | createdWorker hpc => exact ih (by simp [BeforeDeInitialize, hpc])
  | served ha ht =>
    refine .step (ih ?_) trivial ht
    cases hpc : s.pc <;> simp_all [ProcessPc.Allows, BeforeDeInitialize]
  | notRegistered | notMade | left => exact absurd rfl hpc'.1
  | released => exact absurd rfl (hpc'.2 _)
  | late hpc hm => exact absurd (hm.pc_eq.trans hpc) (hpc'.2 _)

/-- The threads of the service until `DeInitialize`. -/
theorem threaded_of_reachable (hs : (process n events).Reachable (fun _ _ => True) s)
    (hpc : s.BeforeDeInitialize) : s.server.service.proxy.Threaded :=
  State.threaded_of_reachable (Service.reachable_proxy (H := fun _ _ => True)
    (Server.reachable_service (reachable_server hs hpc)) fun _ _ _ => trivial)

/-- No worker has had a completion before `main` serves. -/
theorem Sound.lpContext_after (h : s.Sound events) {t : Server n} {a : ServerAction n}
    (hs : s.server.service.proxy.Threaded)
    (ht : (IocpProxy.server n events).step s.server a = some t) :
    t.service.proxy.main.Early → ∀ w, s.lpContextAfter a w = false := by
  intro he w
  rcases Server.proxy_eq_or ht with ⟨ha, hsame⟩ | ⟨b, rfl, hb⟩
  · have hctx := h.lpContext (hsame ▸ he)
    unfold lpContextAfter
    split
    · exact absurd rfl (ha _)
    · rw [Function.update_apply]
      split_ifs
      · rfl
      · exact hctx w
    · exact hctx w
  · have hm := (step_move hb).2.2
    have hearly := hm.early_of he
    obtain ⟨o, rfl, -⟩ := (hs.early hearly).main_of_move hm
    exact h.lpContext hearly w

/-- When `main` comes to `DeInitialize`, the workers have returned or never had a completion. -/
theorem Sound.deserted (h : s.Sound events) (hn : n ≤ maximumWaitObjects) {t : Server n}
    {a : ServerAction n} (hs : s.server.service.proxy.Threaded)
    (hmain : s.server.service.proxy.main ≠ .init ∧ s.server.service.proxy.main ≠ .exited)
    (ht : (IocpProxy.server n events).step s.server a = some t)
    (hex : t.service.proxy.main = .exited) : (s.after a t).Deserted := by
  rcases Server.proxy_eq_or ht with ⟨-, hsame⟩ | ⟨b, rfl, hb⟩
  · exact absurd (hsame ▸ hex) hmain.2
  · rcases (step_move hb).2.2.main_cases.2 hex hmain.2 with hinit | ⟨o, rfl, hpc, hclose⟩
    · exact absurd hinit hmain.1
    · intro w
      change t.service.proxy.worker w = _ ∨ t.service.proxy.worker w = _ ∧ s.lpContext w = false ∧
        t.service.proxy.ops = [] ∧ t.service.proxy.accept.pc = _
      rw [hclose]
      rcases hpc with hpc | hpc
      · exact .inl (hs.workers hpc hn w)
      · have hearly : s.server.service.proxy.main.Early := by simp [MainPc.Early, hpc]
        have hsleep := hs.early hearly
        exact .inr ⟨hsleep.workers w, h.lpContext hearly w, hsleep.ops, hsleep.accept⟩

/-- The next global of a list without repetitions changes its life. -/
theorem life_of_suffix {l gs : List Global} {g : Global} (hl : l.Nodup) (h : g :: gs <:+ l) :
    gs <:+ l ∧ g ∈ l ∧ g ∉ gs :=
  ⟨(List.suffix_cons g gs).trans h, h.subset List.mem_cons_self,
    (List.nodup_cons.mp (h.sublist.nodup hl)).1⟩

theorem Sound.served (hs : (process n events).Reachable (fun _ _ => True) s)
    (h : s.Sound events) (hn : n ≤ maximumWaitObjects) {t : Server n}
    {a : ServerAction n} (ha : s.pc.Allows a)
    (ht : (IocpProxy.server n events).step s.server a = some t) : (s.after a t).Sound events := by
  obtain ⟨hstray, -, hphase⟩ := id h
  cases hphase with
  | createWorkers hpc hmain hl =>
    have hthr := threaded_of_reachable hs (by simp [BeforeDeInitialize, hpc])
    refine ⟨hstray, h.lpContext_after hthr ht, ?_⟩
    rw [hpc] at ha
    have hev := lifeAfter_event (by simp [hl, hmain, MainPc.eventLives]) ht
    rcases ha with ⟨w, -, rfl⟩ | ⟨-, rfl⟩ <;>
      rcases Server.proxy_eq_or ht with ⟨ha, hsame⟩ | ⟨b, hb, hstep⟩
    · have hmain' : t.service.proxy.main = .init := hsame ▸ hmain
      exact .createWorkers (((if_neg (by simp [hmain'])).trans (if_pos hmain')).trans hpc)
        hmain' hl
    · cases hb
    · exact absurd rfl (ha _)
    · cases hb
      have hmove := (Option.ite_none_right_eq_some.mp hstep).2
      simp only [mainStep, hmain, Option.some.injEq] at hmove
      have hmain' : t.service.proxy.main = .socket := hmove ▸ rfl
      have hl' : ∀ g ≠ .hAcceptEvent, s.lifeAfter (.service (.proxy (.main .ok))) g = .present :=
        fun g hg => (lifeAfter_of_ne _ hg).trans ((hl g).trans (if_neg hg))
      exact .serving ((if_neg (by simp [hmain'])).trans (if_neg (by simp [hmain'])))
        (by simp [after, hmain']) hl' hev
  | serving hpc hmain hl hev =>
    have hthr := threaded_of_reachable hs (by simp [BeforeDeInitialize, hpc])
    have hev' := lifeAfter_event hev ht
    have hl' : ∀ g ≠ .hAcceptEvent, s.lifeAfter a g = .present := fun g hg =>
      (lifeAfter_of_ne a hg).trans (hl g hg)
    refine ⟨hstray, h.lpContext_after hthr ht, ?_⟩
    by_cases hex : t.service.proxy.main = .exited
    · have hgone := h.deserted hn hthr hmain ht hex
      rw [hex] at hev'
      have hend : s.lifeAfter a .hAcceptEvent = .unmade ∨
          s.lifeAfter a .hAcceptEvent = .released := by
        simpa [MainPc.eventLives] using hev'
      refine .releasing (if_pos hex) List.suffix_rfl (fun g hg => ?_) hend hgone
      rw [if_pos (mem_deInitializeGlobals.mpr hg)]
      exact hl' g hg
    · have hinit : t.service.proxy.main ≠ .init := by
        rcases Server.proxy_eq_or ht with ⟨-, hsame⟩ | ⟨b, -, hb⟩
        · rw [hsame]
          exact hmain.1
        · exact fun h => hmain.1 ((step_move hb).2.2.main_cases.1 h)
      exact .serving ((if_neg hex).trans (if_neg hinit)) ⟨hinit, hex⟩ hl' hev'
  | register hpc | making hpc | releasing hpc | returned hpc =>
    rw [hpc] at ha
    exact ha.elim

/-- A worker that goes on in `DeInitialize` comes to the end of its loop. -/
theorem LateMove.frame {w : Fin n} (hm : LateMove s w s') (hw : s.Deserted) :
    s'.stray = s.stray ∧ s'.life = s.life ∧
      s'.server.service.proxy.main = s.server.service.proxy.main ∧ s'.Deserted ∧
      ∀ v, s.lpContext v = false → s'.lpContext v = false := by
  cases hm with
  | exit =>
    refine ⟨rfl, rfl, rfl, fun v => ?_, fun _ => id⟩
    by_cases hv : v = w
    · subst hv
      exact .inl (Function.update_self _ _ _)
    · change Function.update s.server.service.proxy.worker w .exited v = _ ∨
        Function.update s.server.service.proxy.worker w .exited v = _ ∧ _
      rw [Function.update_of_ne hv]
      exact hw v
  | position => exact ⟨rfl, rfl, rfl, hw, fun _ => id⟩
  | woken =>
    have hctx : ∀ v, s.lpContext v = false → Function.update s.lpContext w false v = false := by
      intro v hv
      rw [Function.update_apply, hv, ite_self]
    exact ⟨rfl, rfl, rfl, fun v => (hw v).imp_right fun ⟨h, hc, hr⟩ => ⟨h, hctx v hc, hr⟩, hctx⟩
  | stray h hex =>
    rcases hw w with hret | ⟨hwait, hctx, hops, -⟩
    · exact absurd hret hex
    · rcases h hwait with h | h
      · exact absurd hops h
      · simp [hctx] at h

/-- `Initialize` makes the next global. -/
theorem Sound.made (h : s.Sound events) {g : Global} {gs : List Global}
    (hpc : s.pc = .making (g :: gs)) :
    Sound events { s.setLife g (s.life g).make with
      pc := if gs = [] then .createWorkers 0 else .making gs } := by
  cases h.phase with
  | making hpc' hinit hgs hl =>
    obtain rfl : g :: gs = _ := ProcessPc.making.inj (hpc.symm.trans hpc')
    obtain ⟨hgs', hmem, hnot⟩ := life_of_suffix (by decide) hgs
    have hmake : (s.life g).make = .present := by
      rw [hl, if_pos (.inl List.mem_cons_self)]
      rfl
    have hl' : ∀ x, Function.update s.life g (s.life g).make x =
        if x ∈ gs ∨ x = .hAcceptEvent then .unmade else .present := by
      intro x
      by_cases hx : x = g
      · subst hx
        rw [Function.update_self, hmake, if_neg (not_or.mpr ⟨hnot, mem_initializeGlobals.mp hmem⟩)]
      · rw [Function.update_of_ne hx, hl]
        simp [hx]
    refine ⟨h.stray, h.lpContext, ?_⟩
    by_cases hnil : gs = []
    · subst hnil
      exact .createWorkers rfl (hinit ▸ rfl) fun x => (hl' x).trans (by simp)
    · exact .making (if_neg hnil) hinit hgs' hl'
  | _ => simp_all

/-- `Initialize` cannot make the next global. -/
theorem Sound.notMade (hs : (process n events).Reachable (fun _ _ => True) s)
    (h : s.Sound events) {g : Global} {gs : List Global} {t : Server n}
    (hpc : s.pc = .making (g :: gs))
    (ht : (IocpProxy.server n events).step s.server (.service (.proxy (.main .fail))) = some t) :
    Sound events { s with server := t, pc := .returned } := by
  cases h.phase with
  | making hpc' _ hgs hl =>
    have hthr := threaded_of_reachable hs (by simp [BeforeDeInitialize, hpc])
    obtain rfl : g :: gs = _ := ProcessPc.making.inj (hpc.symm.trans hpc')
    -- the port is the last on the list
    have hport : Global.hIOCompletionPort ∈ g :: gs := by
      have hlast : (g :: gs).getLast (List.cons_ne_nil _ _) = .hIOCompletionPort := hgs.getLast _
      exact hlast ▸ List.getLast_mem _
    refine ⟨h.stray, h.lpContext_after hthr ht,
      .returned rfl (.inl ⟨(hl _).trans (if_pos (.inl hport)), fun x => ?_⟩)⟩
    change s.life x = _ ∨ s.life x = _
    rw [hl]
    split_ifs
    · exact .inl rfl
    · exact .inr rfl
  | _ => simp_all

/-- `DeInitialize` releases the next global. -/
theorem Sound.released (h : s.Sound events) {g : Global} {gs : List Global}
    (hpc : s.pc = .releasing (g :: gs)) :
    Sound events { s.setLife g (s.life g).release with pc := .releasing gs } := by
  cases h.phase with
  | releasing hpc' hgs hl hev hw =>
    obtain rfl : g :: gs = _ := ProcessPc.releasing.inj (hpc.symm.trans hpc')
    obtain ⟨hgs', hmem, hnot⟩ := life_of_suffix (by decide) hgs
    have hne := mem_deInitializeGlobals.mp hmem
    have hrelease : (s.life g).release = .released := by
      rw [hl g hne, if_pos List.mem_cons_self]
      rfl
    refine ⟨h.stray, h.lpContext, .releasing rfl hgs' (fun x hx => ?_) ?_ hw⟩
    · change Function.update s.life g (s.life g).release x = _
      by_cases hxg : x = g
      · subst hxg
        rw [Function.update_self, hrelease, if_neg hnot]
      · rw [Function.update_of_ne hxg, hl x hx]
        simp [hxg]
    · change Function.update s.life g _ _ = _ ∨ Function.update s.life g _ _ = _
      rw [Function.update_of_ne hne.symm]
      exact hev
  | _ => simp_all

/-- `DeInitialize` has released them all. -/
theorem Sound.left (h : s.Sound events) (hpc : s.pc = .releasing []) :
    Sound events { s with pc := .returned } := by
  cases h.phase with
  | releasing hpc' _ hl hev =>
    obtain rfl := ProcessPc.releasing.inj (hpc.symm.trans hpc')
    refine ⟨h.stray, h.lpContext, .returned rfl (.inr fun g => ?_)⟩
    by_cases hg : g = .hAcceptEvent
    · subst hg
      exact hev.symm.imp_right fun h => ⟨rfl, h⟩
    · exact .inl ((hl g hg).trans (if_neg List.not_mem_nil))
  | _ => simp_all

/-- A worker goes on in `DeInitialize`. -/
theorem Sound.late (h : s.Sound events) {gs : List Global} (hpc : s.pc = .releasing gs)
    {w : Fin n} (hm : LateMove s w s') : s'.Sound events := by
  cases h.phase with
  | releasing hpc' hgs hl hev hw =>
    obtain ⟨hstray, hlife, hmain, hw', hctx⟩ := LateMove.frame hm hw
    refine ⟨hstray.trans h.stray, fun he v => hctx v (h.lpContext (hmain ▸ he) v),
      .releasing (hm.pc_eq.trans hpc') hgs ?_ ?_ hw'⟩
    · rw [hlife]
      exact hl
    · rw [hlife]
      exact hev
  | _ => simp_all

theorem Sound.step (hs : (process n events).Reachable (fun _ _ => True) s)
    (h : s.Sound events) (hn : n ≤ maximumWaitObjects) {a : ProcessAction n}
    (hstep : (process n events).step s a = some s') : s'.Sound events := by
  cases processStep_move hstep with
  | registered hpc =>
    cases h.phase with
    | register _ hinit hl =>
      refine ⟨h.stray, h.lpContext, .making rfl hinit List.suffix_rfl fun g => ?_⟩
      rw [if_pos (by simp [mem_initializeGlobals, em'])]
      exact hl g
    | _ => simp_all
  | notRegistered hpc =>
    cases h.phase with
    | register _ _ hl =>
      exact ⟨h.stray, h.lpContext, .returned rfl (.inl ⟨hl _, fun g => .inl (hl g)⟩)⟩
    | _ => simp_all
  | createdWorker hpc hk =>
    cases h.phase with
    | createWorkers _ hmain hl =>
      exact ⟨h.stray, h.lpContext, .createWorkers rfl hmain hl⟩
    | _ => simp_all
  | made hpc => exact h.made hpc
  | notMade hpc ht => exact h.notMade hs hpc ht
  | served ha ht => exact h.served hs hn ha ht
  | released hpc => exact h.released hpc
  | left hpc => exact h.left hpc
  | late hpc hm => exact h.late hpc hm

/-! ### What is used is there -/

/-- `AcceptConnection` does not use the event of the listening socket. -/
theorem not_mem_acceptUses (pc : AcceptPc) (o : AcceptOutcome) : .hAcceptEvent ∉ pc.uses o := by
  cases pc <;> cases o <;> simp [AcceptPc.uses]

/-- Nor does a worker. -/
theorem not_mem_workerUses (v : Worker) (o : WorkerOutcome) : .hAcceptEvent ∉ v.uses o := by
  cases v with
  | busy j st => cases st <;> simp [Worker.uses, Stage.uses]
  | _ => cases o <;> simp [Worker.uses]

/-- The event of the listening socket is used by `main`, and by the accept thread in its loop. -/
theorem uses_event {t u : Server n} {a : ServerAction n}
    (ht : (IocpProxy.server n events).step t a = some u) (h : .hAcceptEvent ∈ t.uses a) :
    t.service.proxy.main = .eventSelect ∨ t.service.proxy.main = .waitWorkers ∨
      t.service.proxy.accept.pc = .loop := by
  cases serverStep_move ht with
  | called => exact absurd h (not_mem_acceptUses _ _)
  | selected hmain => exact .inl hmain
  | @served b _ _ _ _ =>
    cases b with
    | proxy b =>
      cases b with
      | main o =>
        change Global.hAcceptEvent ∈ t.service.proxy.main.uses at h
        cases hmain : t.service.proxy.main <;> simp_all [MainPc.uses]
      | accept o => exact absurd h (not_mem_acceptUses _ _)
      | worker w o => exact absurd h (not_mem_workerUses _ _)
      | net b => cases h
    | _ => simp [Server.uses] at h
  | timedOut hat | awoken hat | enumerated hat | notEnumerated hat => exact .inr (.inr hat.2.1)
  | tested | connected | dropped | netError | checked | skipped => simp [Server.uses] at h

/-- While the accept thread is in its loop the event is there. -/
theorem eventLives_of_loop {t : State n} (ht : t.Threaded) (hex : t.main ≠ .exited)
    (h : t.accept.pc = .loop) : t.main.eventLives = [.present] := by
  have hearly : ¬ t.main.Early := fun he => by
    have hpc := (ht.early he).accept
    simp [h] at hpc
  have hend : ¬ (t.main = .waitWorkers ∨ t.main = .closeListen) := fun hm => by
    simpa [h] using ht.accept hm
  cases hm : t.main <;> simp_all [MainPc.Early, MainPc.eventLives]

/-- A step of `server n` before `DeInitialize` uses what is there. -/
theorem Sound.present_of_serve (hs : (process n events).Reachable (fun _ _ => True) s)
    (h : s.Sound events) {t : Server n} {a : ServerAction n}
    (ha : s.pc.Allows a) (ht : (IocpProxy.server n events).step s.server a = some t) {g : Global}
    (hg : g ∈ s.server.uses a) : s.life g = .present := by
  cases h.phase with
  | createWorkers hpc hmain hl =>
    rw [hl, if_neg]
    rintro rfl
    have hloop := uses_event ht hg
    have hthr := threaded_of_reachable hs (by simp [BeforeDeInitialize, hpc])
    have hsleep := hthr.early (by simp [MainPc.Early, hmain])
    simp [hmain, hsleep.accept] at hloop
  | serving hpc hmain hl hev =>
    by_cases hne : g = .hAcceptEvent
    · subst hne
      have hthr := threaded_of_reachable hs (by simp [BeforeDeInitialize, hpc])
      have hlives : s.server.service.proxy.main.eventLives = [.present] := by
        rcases uses_event ht hg with hpc | hpc | hloop
        · rw [hpc, MainPc.eventLives]
        · rw [hpc, MainPc.eventLives]
        · exact eventLives_of_loop hthr hmain.2 hloop
      rw [hlives] at hev
      exact List.mem_singleton.mp hev
    · exact hl g hne
  | register hpc | making hpc | releasing hpc | returned hpc =>
    rw [hpc] at ha
    exact ha.elim

/-- A worker that goes on in `DeInitialize` uses the event and the port at most. -/
theorem Sound.late_uses (h : s.Sound events) {w : Fin n} {gs : List Global}
    (hpc : s.pc = .releasing gs) {g : Global} (hg : g ∈ s.lateUses w) :
    (g = .hShutdownEvent ∨ g = .hIOCompletionPort) ∧
      (s.life g = .present ∨ s.life g = .released) ∧ s.lpContext w = false ∧
        s.server.service.proxy.accept.pc = .notStarted := by
  cases h.phase with
  | releasing _ _ hl _ hw =>
    unfold lateUses at hg
    rcases hw w with hex | ⟨hwait, hctx, -, hacc⟩
    · simp [hex] at hg
    · have hport : g = .hShutdownEvent ∨ g = .hIOCompletionPort := by
        rw [hwait] at hg
        cases hp : s.server.service.position w <;> simp_all
      have hlife : s.life g = .present ∨ s.life g = .released := by
        rw [hl g (by rcases hport with rfl | rfl <;> simp)]
        split_ifs
        · exact .inl rfl
        · exact .inr rfl
      exact ⟨hport, hlife, hctx, hacc⟩
  | _ => simp_all

theorem Sound.life_ne_broken (h : s.Sound events) (g : Global) : s.life g ≠ .broken := by
  cases h.phase with
  | register _ _ hl => simp [hl]
  | making _ _ _ hl | createWorkers _ _ hl =>
    rw [hl]
    split_ifs <;> simp
  | serving _ _ hl hev =>
    by_cases hg : g = .hAcceptEvent
    · subst hg
      intro hb
      rw [hb] at hev
      cases hmain : s.server.service.proxy.main <;> simp [hmain, MainPc.eventLives] at hev
    · simp [hl g hg]
  | releasing _ _ hl hev =>
    by_cases hg : g = .hAcceptEvent
    · subst hg
      rcases hev with hev | hev <;> simp [hev]
    · rw [hl g hg]
      split_ifs <;> simp
  | returned _ hl =>
    rcases hl with ⟨-, hl⟩ | hl
    · rcases hl g with hl | hl <;> simp [hl]
    · rcases hl g with hl | ⟨-, hl⟩ <;> simp [hl]

theorem sound_of_reachable (hn : n ≤ maximumWaitObjects)
    (hs : (process n events).Reachable (fun _ _ => True) s) : s.Sound events :=
  hs.invariant_step ⟨rfl, fun _ _ => rfl, .register rfl rfl fun _ => rfl⟩
    fun _ _ _ hs h _ hstep => h.step hs hn hstep

end Process

/-- In every run in which the shutdown event and the workers can be created, every global is made
at most once, and released at most once, after it was made. A step of a thread uses globals that
are there; the exceptions are the event and the port, closed by `DeInitialize` when the start has
failed, which a worker still finds on its way out of its loop and which it never had a completion
from. When `main` returns, nothing was released, or nothing is left. -/
theorem globals_alive (hn : n ≤ maximumWaitObjects) {events : Option Bool} {s s' : Process n}
    {a : ProcessAction n} (hs : (process n events).Reachable (fun _ _ => True) s)
    (hstep : (process n events).step s a = some s') :
    s'.stray = false ∧ (∀ g, s'.life g ≠ .broken) ∧
      (∀ g ∈ s.uses a, s.life g = .present ∨
        s.life g = .released ∧ (g = .hShutdownEvent ∨ g = .hIOCompletionPort) ∧
          ∃ w, a = .late w ∧ s.lpContext w = false ∧
            s.server.service.proxy.accept.pc = .notStarted) ∧
      (s'.pc = .returned → s'.Settled) := by
  have h := Process.sound_of_reachable hn hs
  have h' := h.step hs hn hstep
  refine ⟨h'.stray, h'.life_ne_broken, fun g hg => ?_, fun hpc => ?_⟩
  · cases processStep_move hstep with
    | served ha ht => exact .inl (h.present_of_serve hs ha ht hg)
    | createdWorker hpc =>
      obtain rfl := List.mem_singleton.mp hg
      cases h.phase with
      | createWorkers _ _ hl => exact .inl (hl _)
      | _ => simp_all
    | late hpc =>
      obtain ⟨hport, hlife, hctx, hacc⟩ := h.late_uses hpc hg
      exact hlife.imp_right fun hr => ⟨hr, hport, _, rfl, hctx, hacc⟩
    | _ => cases hg
  · cases h'.phase with
    | returned _ hl => exact hl
    | _ => simp_all

/-- The socket cannot be opened, and the one worker tests the event only when the port is
closed. -/
theorem globals_alive_failedStart : ∃ s s' : Process 1,
    (process 1 none).step s (.late 0) = some s' ∧ .hIOCompletionPort ∈ s.uses (.late 0) ∧
      s.life .hIOCompletionPort = .released ∧ s.server.service.proxy.accept.pc = .notStarted ∧
        s'.stray = false ∧ ∀ g, s'.life g ≠ .broken := by
  obtain ⟨s, hs, huses, hlife, hstep⟩ : ∃ s : Process 1,
      (process 1 none).Reachable (fun _ _ => True) s ∧ .hIOCompletionPort ∈ s.uses (.late 0) ∧
        s.life .hIOCompletionPort = .released ∧
          ((process 1 none).step s (.late 0)).isSome = true :=
    TransitionSystem.exists_reachable_of_runChecked
      (.register true :: List.replicate 9 (.make true) ++ [.createWorker] ++
        ([.main .ok, .main .fail, .main .ok] : List (Action 1)).map
          (fun a => .serve (.service (.proxy a))) ++
        List.replicate 6 .release ++ [.late 0]) (by decide +kernel)
  obtain ⟨s', hs'⟩ := Option.isSome_iff_exists.mp hstep
  obtain ⟨hstray, hbroken, hpresent, -⟩ := globals_alive (by decide) hs hs'
  rcases hpresent _ huses with hp | ⟨-, -, -, -, -, hacc⟩
  · simp [hlife] at hp
  · exact ⟨s, s', hs', huses, hlife, hacc, hstray, hbroken⟩

end IocpProxy
