import IocpProxy.Proxy.Attendance
import IocpProxy.Proxy.Handles

/-!
# Nothing leaks

`Handles` shows when a socket handle is closed too often. It is never closed too rarely: whatever
calls fail, a socket that is open belongs to a live context, or it is the listening one. The live
contexts are the ones that variables lead to, a client together with the remote it owns. So the
contexts and the sockets of the process are bounded by the entries of the client list and the
locals of its threads.

A socket that `WSAAccept` or `WSASocket` has just returned is in a local of the accept thread alone,
until `SetSocket` or `closesocket` is called. Each of these stretches is within one step.

## Main definitions

* `IocpProxy.State.Retained` : every open handle is in use.
* `IocpProxy.Worker.refs`, `IocpProxy.State.roots` : the contexts that variables refer to.

## Main results

* `IocpProxy.nothing_leaks`.
-/

namespace IocpProxy

open State

variable {n : ℕ} {s s' : State n}

/-! ### Open sockets are in use -/

namespace State

/-- Every open socket belongs to a live context, or is the listening one of a process that
runs. -/
structure Retained (s : State n) : Prop where
  early : s.main = .init ∨ s.main = .socket → s.listenSocket = none
  inUse : ∀ h, s.handles.IsOpen h → s.InUse h

/-- No socket was opened, and no context destroyed. -/
theorem Retained.inUse_of (h : s.Retained) (hx : ∀ x, (s'.ctx x).socket = (s.ctx x).socket)
    (hl : s'.live = s.live) (hL : s'.listenSocket = s.listenSocket) (hM : s'.main = s.main)
    (hT : ∀ k, s'.handles.IsOpen k → s.handles.IsOpen k) :
    ∀ k, s'.handles.IsOpen k → s'.InUse k := by
  intro k hk
  rw [InUse, hL, hM, hl]
  simp only [hx]
  exact h.inUse k (hT k hk)

/-- The contexts that are destroyed close their sockets. -/
theorem Retained.destroy (h : s.Retained) (L : List CtxId) : (s.destroy L).Retained := by
  refine ⟨h.early, fun k hk => ?_⟩
  obtain ⟨hk, hne⟩ := (HandleTable.isOpen_foldl_close_iff fun x => (s.ctx x).socket).mp hk
  refine (h.inUse k hk).imp_right fun ⟨x, hx, hxk⟩ => ⟨x, ?_, hxk⟩
  exact Finset.mem_filter.mpr ⟨hx, fun hL => hne x hL k hxk rfl⟩

/-- The same sockets are open. -/
theorem Retained.congr (h : s.Retained) (hx : ∀ x, (s'.ctx x).socket = (s.ctx x).socket)
    (hl : s'.live = s.live) (hL : s'.listenSocket = s.listenSocket)
    (hT : s'.handles = s.handles) (hM : s'.main = s.main) : s'.Retained :=
  ⟨by rw [hM, hL]; exact h.early, h.inUse_of hx hl hL hM fun _ ho => hT ▸ ho⟩

/-- A reference is given up in a state with the same sockets. -/
theorem Retained.releaseOpt (h : s.Retained) {o : Option CtxId}
    (hx : ∀ x, (s'.ctx x).socket = (s.ctx x).socket) (hl : s'.live = s.live)
    (hL : s'.listenSocket = s.listenSocket) (hT : s'.handles = s.handles)
    (hM : s'.main = s.main) : (s'.releaseOpt o).Retained := by
  have h' : s'.Retained := h.congr hx hl hL hT hM
  cases o with
  | none => exact h'
  | some x => exact h'.destroy _

theorem Retained.cleanClientList (h : s.Retained) : s.cleanClientList.Retained := by
  unfold State.cleanClientList
  generalize s.clientContext = l
  induction l generalizing s with
  | nil => exact h
  | cons x l ih => exact ih (h.releaseOpt (o := some x) (fun _ => rfl) rfl rfl rfl rfl)

/-- A context is made for a socket that was just opened. -/
theorem Retained.inUse_make (h : s.Retained) (hs : s.Sound) {v : ℕ}
    (hv : s.handles.owner v = none) {c : SocketContext} (hc : c.socket = some (s.handles.fresh v))
    (hx : s'.ctx = Function.update s.ctx s.next c) (hl : s'.live = insert s.next s.live)
    (hL : s'.listenSocket = s.listenSocket) (hM : s'.main = s.main)
    (hT : s'.handles = s.handles.open v) : ∀ k, s'.handles.IsOpen k → s'.InUse k := by
  intro k hk
  rw [hT, HandleTable.isOpen_open_iff hv] at hk
  rw [InUse, hL, hM, hl, hx]
  rcases hk with hk | rfl
  · rcases h.inUse k hk with hlisten | ⟨x, hxl, hxk⟩
    · exact .inl hlisten
    · refine .inr ⟨x, Finset.mem_insert_of_mem hxl, ?_⟩
      rwa [Function.update_of_ne (hs.alive.live_lt x hxl).ne]
  · refine .inr ⟨s.next, Finset.mem_insert_self _ _, ?_⟩
    rw [Function.update_self, hc]

/-- A failed `InitRemoteConnection` leaves no socket open. -/
theorem isOpen_of_remote_eq_none {T : HandleTable} {k : InitCalls}
    (hk : ∀ v ∈ k.socket, T.owner v = none) (hr : (initRemoteConnection T k).remote = none)
    {h : Handle} (ho : (initRemoteConnection T k).handles.IsOpen h) : T.IsOpen h := by
  rcases initRemoteConnection_handles T k with ⟨e, -⟩ | ⟨e, -⟩ | ⟨v, hv, ⟨e, -⟩ | ⟨-, e⟩⟩
  · rwa [e] at ho
  · exact HandleTable.IsOpen.of_close (e ▸ ho)
  · rw [e, HandleTable.isOpen_close_iff, HandleTable.isOpen_open_iff (hk v hv)] at ho
    refine ho.1.resolve_right ?_
    rintro rfl
    exact ho.2 rfl
  · rw [e] at hr
    cases hr

end State

theorem MainMove.retained {o : MainOutcome} (hm : MainMove s o s') (h : s.Retained)
    (hne : s.main ≠ .exited) : s'.Retained := by
  -- the main thread goes on to a label that is neither its end nor one of its first two
  have goOn : ∀ {t : State n} {pc : MainPc}, t.Retained → t.main ≠ .exited → pc ≠ .exited →
      pc ≠ .init → pc ≠ .socket → (t.mainAt pc).Retained := by
    intro t pc ht hne hx hi hs
    refine ⟨fun he => absurd he (not_or.mpr ⟨hi, hs⟩), fun k hk => ?_⟩
    exact (ht.inUse k hk).imp_left fun hL => ⟨hL.1, hx⟩
  -- the listening socket is closed
  have close : ∀ pc, pc ≠ .init → pc ≠ .socket → (s.closeListen pc).Retained := by
    intro pc hi hs
    refine ⟨fun he => absurd he (not_or.mpr ⟨hi, hs⟩), fun k hk => ?_⟩
    refine .inr ((h.inUse k hk.of_close).resolve_left fun hL => ?_)
    have hk' : (s.handles.close s.listenSocket).IsOpen k := hk
    rw [hL.1, HandleTable.isOpen_close_iff] at hk'
    exact hk'.2 rfl
  cases hm with
  | @quiet o pc hq =>
    by_cases hinit : s.main = .init
    · have hnone : s.listenSocket = none := h.early (.inl hinit)
      refine ⟨fun _ => hnone, fun k hk => ?_⟩
      refine .inr ((h.inUse k hk).resolve_left fun hL => ?_)
      rw [hnone] at hL
      cases hL.1
    · have hpc : pc ≠ .exited ∧ pc ≠ .init ∧ pc ≠ .socket := by
        refine ⟨?_, ?_, ?_⟩ <;> rintro rfl <;> simp [mainQuiet, hinit] at hq
      exact goOn h hne hpc.1 hpc.2.1 hpc.2.2
  | @opened v hmain hv =>
    have hnone : s.listenSocket = none := h.early (.inr hmain)
    refine ⟨by simp, fun k hk => ?_⟩
    rcases (HandleTable.isOpen_open_iff hv).mp hk with hk | rfl
    · refine .inr ((h.inUse k hk).resolve_left fun hL => ?_)
      rw [hnone] at hL
      cases hL.1
    · exact .inl ⟨rfl, by simp⟩
  | noSocket | acceptDone => exact goOn h hne (by simp) (by simp) (by simp)
  | started =>
    have hloop : (s.acceptAt .loop).Retained := h.congr (fun _ => rfl) rfl rfl rfl rfl
    exact goOn hloop hne (by simp) (by simp) (by simp)
  | stop => exact ⟨by simp, fun k hk => (h.inUse k hk).imp_left fun hL => ⟨hL.1, by simp⟩⟩
  | bindFailed => exact close .error (by simp) (by simp)
  | closed => exact close .exited (by simp) (by simp)
  | sweep =>
    have hmain := s.cleanClientList_frame.2.2.2.2.2.2.1
    exact goOn h.cleanClientList (hmain.trans_ne hne) (by simp) (by simp) (by simp)

theorem AcceptMove.retained {o : AcceptOutcome} (hm : AcceptMove s o s') (h : s.Retained)
    (hs : s.Sound) : s'.Retained := by
  have early : s'.main = .init ∨ s'.main = .socket → s'.listenSocket = none := by
    rw [hm.frame.2.1, hm.frame.2.2.1]
    exact h.early
  cases hm with
  | accepted hpc hv =>
    exact ⟨early, h.inUse_make (c := { SocketContext.new with
      socket := some (s.handles.fresh _), conn := s.calls + 1 }) hs hv rfl rfl rfl rfl rfl rfl⟩
  | remoteFailed hpc hk hr =>
    exact ⟨early, h.inUse_of (fun _ => rfl) rfl rfl rfl fun _ ho =>
      isOpen_of_remote_eq_none hk hr ho⟩
  | remoteMade hpc hv =>
    exact ⟨early, h.inUse_make (c := { SocketContext.new with
      socket := some (s.handles.fresh _), proxySocket := true, conn := s.calls }) hs hv rfl rfl
      rfl rfl rfl rfl⟩
  | @linked c r hpc hc hr =>
    obtain ⟨hcr, hfc, hfr, -⟩ := hs.acceptOk.at_link hpc hc hr
    have hsock := fun x => (s.linked_fields c r x).2.2.1
    rw [linked_eq hcr hfc.1 hfr.1] at hsock early ⊢
    exact ⟨early, h.inUse_of hsock rfl rfl rfl fun _ => id⟩
  | posted | notPosted =>
    exact ⟨early, h.inUse_of (SameLinks.resetRecv _).socket rfl rfl rfl fun _ => id⟩
  | exitClosed =>
    refine ⟨early, ?_⟩
    unfold State.exitClosed
    cases s.accept.socket with
    | none => exact h.inUse_of (fun _ => rfl) rfl rfl rfl fun _ => id
    | some k => exact h.inUse_of (fun _ => rfl) rfl rfl rfl fun _ ho => ho.of_close
  | @exitRemoved d =>
    cases s.accept.side d <;> exact ⟨h.early, h.inUse⟩
  | exitNulled => exact h.releaseOpt (fun _ => rfl) rfl rfl rfl rfl
  | returned =>
    have h₁ : (({ s with accept := { s.accept with remote := none } } : State n).releaseOpt
        s.accept.remote).Retained := h.releaseOpt (fun _ => rfl) rfl rfl rfl rfl
    exact h₁.releaseOpt (fun _ => rfl) rfl rfl rfl rfl
  | _ => exact ⟨early, h.inUse⟩

theorem WorkerMove.retained {w : Fin n} {o : WorkerOutcome} (hm : WorkerMove s w o s')
    (h : s.Retained) : s'.Retained := by
  have hsock := hm.sameLinks.socket
  cases hm with
  | @sent j b => exact h.releaseOpt (o := some b) hsock rfl rfl rfl rfl
  | @notSent j b => exact h.releaseOpt (o := some b) hsock rfl rfl rfl rfl
  | @finished j => exact h.releaseOpt (o := some j.ctx) hsock rfl rfl rfl rfl
  | _ => exact h.congr hsock rfl rfl rfl rfl

theorem State.Retained.step {a : Action n} (h : s.Retained) (hs : s.Sound)
    (hne : s.main ≠ .exited) (hm : Move s a s') : s'.Retained := by
  cases hm with
  | main hm => exact hm.retained h hne
  | accept hm => exact hm.retained h hs
  | worker hm => exact hm.retained h
  | net hm =>
    obtain ⟨-, -, -, -, hmain, hL, -, hl, -, hT, -⟩ := hm.frame
    exact h.congr hm.sameLinks.socket hl hL hT hmain

/-! ### How many contexts there are -/

/-- The contexts a worker refers to. -/
def Worker.refs : Worker → Finset CtxId
  | .busy j (.send b) | .busy j (.fill b) => {j.ctx, b}
  | .busy j _ => {j.ctx}
  | _ => ∅

theorem Worker.mem_refs {v : Worker} {x : CtxId} : x ∈ v.refs ↔ v.Holds x := by
  cases v with
  | busy j st => cases st <;> simp [refs, Holds, eq_comm]
  | _ => simp [refs, Holds]

theorem Worker.card_refs_le (v : Worker) : v.refs.card ≤ 2 := by
  cases v with
  | busy j st => cases st <;> first | exact Finset.card_le_two | simp [refs]
  | _ => simp [refs]

namespace State

/-- The contexts that variables refer to. -/
def roots (s : State n) : Finset CtxId :=
  s.clientContext.toFinset ∪ (s.accept.client.toFinset ∪ s.accept.remote.toFinset) ∪
    Finset.univ.biUnion fun w => (s.worker w).refs

theorem mem_roots {x : CtxId} : x ∈ s.roots ↔ s.Root x := by
  simp [roots, Root, AcceptThread.Holds, Worker.mem_refs, or_assoc]

theorem card_roots_le (s : State n) :
    s.roots.card ≤ s.clientContext.length + 2 + 2 * n := by
  have hlist := s.clientContext.toFinset_card_le
  have one : ∀ o : Option CtxId, o.toFinset.card ≤ 1 := fun o => by cases o <;> simp
  have hlocals := Finset.card_union_le s.accept.client.toFinset s.accept.remote.toFinset
  have hclient := one s.accept.client
  have hremote := one s.accept.remote
  have hworkers : (Finset.univ.biUnion fun w => (s.worker w).refs).card ≤ n * 2 := by
    simpa using Finset.card_biUnion_le_card_mul Finset.univ (fun w => (s.worker w).refs) 2
      fun w _ => (s.worker w).card_refs_le
  have h₁ := Finset.card_union_le (s.clientContext.toFinset ∪
    (s.accept.client.toFinset ∪ s.accept.remote.toFinset))
    (Finset.univ.biUnion fun w => (s.worker w).refs)
  have h₂ := Finset.card_union_le s.clientContext.toFinset
    (s.accept.client.toFinset ∪ s.accept.remote.toFinset)
  rw [roots]
  omega

/-- A live context is one that a variable refers to, or owned by one. -/
theorem Sound.live_subset (h : s.Sound) :
    s.live ⊆ s.roots ∪ s.roots.biUnion fun c => (s.strongOf c).toFinset := by
  intro x hx
  rw [Finset.mem_union, mem_roots, Finset.mem_biUnion]
  refine (h.root_of_live hx).imp_right fun ⟨c, hc, hcx⟩ => ⟨c, mem_roots.mpr hc, ?_⟩
  rwa [Option.mem_toFinset]

theorem Sound.card_live_le (h : s.Sound) : s.live.card ≤ 2 * s.roots.card := by
  have howned := Finset.card_biUnion_le_card_mul s.roots (fun c => (s.strongOf c).toFinset) 1
    fun c _ => by cases s.strongOf c <;> simp
  have hunion := Finset.card_union_le s.roots (s.roots.biUnion fun c => (s.strongOf c).toFinset)
  have hsub := Finset.card_le_card h.live_subset
  omega

/-- When the threads are idle, only the list refers to contexts. -/
theorem Sound.roots_of_idle (h : s.Sound) (hidle : s.Idle) :
    s.roots = s.clientContext.toFinset := by
  obtain ⟨hc, hr⟩ := h.acceptOk.locals_eq_none hidle.1
  ext x
  simp [roots, hc, hr, hidle.2, Worker.refs]

/-- The open sockets belong to different contexts, but for the listening one. -/
theorem Retained.card_le (h : s.Retained) {H : Finset Handle}
    (hH : ∀ k ∈ H, s.handles.IsOpen k) : H.card ≤ s.live.card + 1 := by
  have one : ∀ o : Option Handle, o.toFinset.card ≤ 1 := fun o => by cases o <;> simp
  have hsub : H ⊆ (s.live.biUnion fun x => (s.ctx x).socket.toFinset) ∪
      s.listenSocket.toFinset := by
    intro k hk
    rw [Finset.mem_union, Finset.mem_biUnion]
    rcases h.inUse k (hH k hk) with ⟨hL, -⟩ | ⟨x, hx, hxk⟩
    · exact .inr (Option.mem_toFinset.mpr hL)
    · exact .inl ⟨x, hx, Option.mem_toFinset.mpr hxk⟩
  have hctx := Finset.card_biUnion_le_card_mul s.live (fun x => (s.ctx x).socket.toFinset) 1
    fun x _ => one _
  have hunion := Finset.card_union_le (s.live.biUnion fun x => (s.ctx x).socket.toFinset)
    s.listenSocket.toFinset
  have hlisten := one s.listenSocket
  have hcard := Finset.card_le_card hsub
  omega

theorem retained_of_reachable {G : State n → Action n → Prop} (hs : (proxy n).Reachable G s) :
    s.Retained := by
  refine hs.invariant_step ⟨fun _ => rfl, ?_⟩ fun s a s' hr h _ hstep => ?_
  · simp [proxy, initial, HandleTable.empty, HandleTable.IsOpen]
  · obtain ⟨-, hne, hm⟩ := step_move hstep
    exact h.step (sound_of_reachable hr) hne hm

end State

/-- In every run, whatever calls fail, and outside the stretches in which the accept thread has a
new socket in a local alone: a socket that is open belongs to a live context, or it is the listening
one while `main` runs. The number of live contexts is at most twice the number of entries of the
client list and of locals that may refer to contexts, two of the accept thread and two of each
worker; when the threads are idle, twice that of the entries. There is at most one open socket more
than live contexts. -/
theorem nothing_leaks (hs : (proxy n).Reachable (fun _ _ => True) s) :
    (∀ h, s.handles.IsOpen h → s.InUse h) ∧
    s.live.card ≤ 2 * (s.clientContext.length + 2 + 2 * n) ∧
    (s.Idle → s.live.card ≤ 2 * s.clientContext.length) ∧
    ∀ H : Finset Handle, (∀ h ∈ H, s.handles.IsOpen h) → H.card ≤ s.live.card + 1 := by
  have hsound := sound_of_reachable hs
  have hret := retained_of_reachable hs
  have hlive := hsound.card_live_le
  refine ⟨hret.inUse, ?_, fun hidle => ?_, fun H hH => hret.card_le hH⟩
  · have hroots := s.card_roots_le
    omega
  · rw [hsound.roots_of_idle hidle] at hlive
    have hlist := s.clientContext.toFinset_card_le
    omega

/-- The connection to the destination fails: of the three sockets that were opened, the listening
one alone is left. -/
theorem nothing_leaks_run : ∃ s : State 2, s.handles.issued = [⟨12, 2⟩, ⟨11, 1⟩, ⟨10, 0⟩] ∧
    s.live = ∅ ∧ ∀ h, s.handles.IsOpen h → h = ⟨10, 0⟩ := by
  obtain ⟨s, hs, hissued, hlive, hlisten⟩ : ∃ s : State 2,
      (proxy 2).Reachable (fun _ _ => True) s ∧
        s.handles.issued = [⟨12, 2⟩, ⟨11, 1⟩, ⟨10, 0⟩] ∧ s.live = ∅ ∧
          s.listenSocket = some ⟨10, 0⟩ :=
    TransitionSystem.exists_reachable_of_runChecked (startUp ++
      [.accept (.socket 11), .accept (.remote ⟨true, some [], some 12, true, false⟩)] ++
        List.replicate 6 (.accept .ok)) (by decide +kernel)
  refine ⟨s, hissued, hlive, fun h ho => ?_⟩
  rcases (nothing_leaks hs).1 h ho with ⟨hL, -⟩ | ⟨x, hx, -⟩
  · exact (Option.some.inj (hlisten.symm.trans hL)).symm
  · simp [hlive] at hx

end IocpProxy
