import IocpProxy.Proxy.Lifetime
import IocpProxy.Proxy.Sockets

/-!
# Closing the socket handles

A socket handle is in use while a live context has it, and the listening one until `main` returns.
The destructor of a context closes its handle, and `main` closes the listening one. The exit paths
of `AcceptConnection` and `main` close handles, too: handles that the destructor or the end of
`main` closes again, and the invalid handle. So every handle is closed once as long as none of the
calls fails that lead to these paths.

## Main definitions

* `IocpProxy.State.InUse` : the handles in use.
* `IocpProxy.CallsSucceed` : the condition on the steps.
* `IocpProxy.State.Accounted`, `IocpProxy.State.OffExit` : the invariant.

## Main results

* `IocpProxy.closed_once`.
* `IocpProxy.closed_once_fails`.
-/

namespace IocpProxy

open State

variable {n : ℕ} {s s' : State n}

namespace State

/-- A live context has the handle, or it is the listening socket and `main` has not returned. -/
def InUse (s : State n) (h : Handle) : Prop :=
  (s.listenSocket = some h ∧ s.main ≠ .exited) ∨ ∃ x ∈ s.live, (s.ctx x).socket = some h

instance (s : State n) (h : Handle) : Decidable (s.InUse h) :=
  inferInstanceAs (Decidable (_ ∨ _))

end State

/-- No call fails whose failure is handled by closing a handle: in `main` up to `listen`, and
anywhere in `AcceptConnection` and `InitRemoteConnection`. -/
def CallsSucceed (s : State n) : Action n → Prop
  | .main .fail => s.main ≠ .socket ∧ s.main ≠ .bind ∧ s.main ≠ .listen
  | .accept .fail => False
  | .accept (.remote k) => k.Succeed
  | _ => True

instance (s : State n) : DecidablePred (CallsSucceed s)
  | .main .fail =>
    inferInstanceAs (Decidable (s.main ≠ .socket ∧ s.main ≠ .bind ∧ s.main ≠ .listen))
  | .accept .fail => instDecidableFalse
  | .accept (.remote k) => inferInstanceAs (Decidable k.Succeed)
  | .main .ok | .main (.socket _) | .accept .ok | .accept (.socket _) | .accept (.slot _)
  | .worker _ _ | .net _ => instDecidableTrue

/-- The labels of the exit path of `AcceptConnection`. -/
def AcceptPc.OnExit : AcceptPc → Prop
  | .exitClose | .exitRemove _ | .exitNull _ => True
  | _ => False

namespace State

/-! ### The handles in use are open -/

/-- Every context has a socket of its own, and the handles in use are the ones not yet closed. -/
structure Accounted (s : State n) : Prop extends s.Socketed where
  live_lt : ∀ x ∈ s.live, x < s.next
  balanced : s.handles.Balanced s.InUse

/-- The same contexts with the same sockets are live. -/
theorem Accounted.congr (h : s.Accounted) (hx : ∀ x, (s'.ctx x).socket = (s.ctx x).socket)
    (hn : s'.next = s.next) (hl : s'.live = s.live) (hL : s'.listenSocket = s.listenSocket)
    (hT : s'.handles = s.handles)
    (hM : s.listenSocket = none ∨ (s'.main = .exited ↔ s.main = .exited)) : s'.Accounted where
  toSocketed := h.toSocketed.congr hx hn hl hL hT
  live_lt x hlx := by
    rw [hl] at hlx
    exact hn ▸ h.live_lt x hlx
  balanced := by
    rw [hT]
    refine h.balanced.congr fun k => ?_
    simp only [InUse, hx, hl, hL]
    refine or_congr_left (and_congr_right fun hk => ?_)
    exact not_congr (hM.resolve_left (by simp [hk]))

/-- Live contexts are destroyed, each once. -/
theorem Accounted.destroy (h : s.Accounted) {L : List CtxId} (hL : L.Nodup)
    (hlive : ∀ x ∈ L, x ∈ s.live) : (s.destroy L).Accounted where
  toSocketed := h.toSocketed.destroy L
  live_lt x hx := h.live_lt x (Finset.mem_filter.mp hx).1
  balanced := by
    have hsock : ∀ x ∈ L, ∃ k ∈ (s.ctx x).socket, s.InUse k := fun x hx => by
      obtain ⟨k, hk, -⟩ := h.issued x (h.live_lt x (hlive x hx))
      exact ⟨k, hk, .inr ⟨x, hlive x hx, hk⟩⟩
    have hinj : ∀ x ∈ L, ∀ y ∈ s.live, ∀ k ∈ (s.ctx x).socket, k ∈ (s.ctx y).socket → x = y :=
      fun x hx y hy k hk hk' =>
        h.inj x (h.live_lt x (hlive x hx)) y (h.live_lt y hy) (hk.trans hk'.symm)
    refine (h.balanced.foldl_close (f := fun x => (s.ctx x).socket) hL hsock fun x hx y hy =>
      hinj x hx y (hlive y hy)).congr fun k => ?_
    simp only [InUse, State.destroy, Finset.mem_filter]
    constructor
    · rintro (hk | ⟨x, ⟨hx, hxL⟩, hk⟩)
      · exact ⟨.inl hk, fun x hx => (h.listen k hk.1).2 x (h.live_lt x (hlive x hx))⟩
      · exact ⟨.inr ⟨x, hx, hk⟩, fun y hy hk' => hxL (hinj y hy x hx k hk' hk ▸ hy)⟩
    · rintro ⟨hk | ⟨x, hx, hk⟩, hno⟩
      · exact .inl hk
      · exact .inr ⟨x, ⟨hx, fun hxL => hno x hxL hk⟩, hk⟩

/-- A reference is given up in a state with the same sockets. -/
theorem Accounted.releaseOpt (h : s.Accounted) {o : Option CtxId}
    (hx : ∀ x, (s'.ctx x).socket = (s.ctx x).socket) (hn : s'.next = s.next)
    (hl : s'.live = s.live) (hL : s'.listenSocket = s.listenSocket)
    (hT : s'.handles = s.handles) (hM : s'.main = s.main) : (s'.releaseOpt o).Accounted := by
  have h' : s'.Accounted := h.congr hx hn hl hL hT (.inr (by rw [hM]))
  cases o with
  | none => exact h'
  | some x => exact h'.destroy Ownership.cascade_nodup fun z hz => (Ownership.cascade_sound hz).1

theorem Accounted.cleanClientList (h : s.Accounted) : s.cleanClientList.Accounted := by
  unfold State.cleanClientList
  generalize s.clientContext = l
  induction l generalizing s with
  | nil => exact h
  | cons x l ih => exact ih (h.releaseOpt (o := some x) (fun _ => rfl) rfl rfl rfl rfl rfl)

/-- A context is made for a socket that was just opened. -/
theorem Accounted.make (h : s.Accounted) {v : ℕ} (hv : s.handles.owner v = none)
    {c : SocketContext} (hc : c.socket = some (s.handles.fresh v))
    (hx : s'.ctx = Function.update s.ctx s.next c) (hn : s'.next = s.next + 1)
    (hl : s'.live = insert s.next s.live) (hL : s'.listenSocket = s.listenSocket)
    (hT : s'.handles = s.handles.open v) (hM : s'.main = s.main) : s'.Accounted where
  toSocketed := h.toSocketed.make hv hc hx hn hl hL hT
  live_lt x hlx := by
    rw [hl, Finset.mem_insert] at hlx
    rw [hn]
    rcases hlx with rfl | hlx
    · exact Nat.lt_succ_self _
    · exact Nat.lt_succ_of_lt (h.live_lt x hlx)
  balanced := by
    rw [hT]
    refine (h.balanced.open hv).congr fun k => ?_
    have hold : ∀ x ∈ s.live, (s'.ctx x).socket = (s.ctx x).socket := fun x hlx => by
      rw [hx, Function.update_of_ne (h.live_lt x hlx).ne]
    have hnew : (s'.ctx s.next).socket = some (s.handles.fresh v) := by
      rw [hx, Function.update_self, hc]
    simp only [InUse, hL, hM, hl, Finset.mem_insert]
    constructor
    · rintro (hk | ⟨x, rfl | hlx, hk⟩)
      · exact .inl (.inl hk)
      · exact .inr (Option.some.inj (hk.symm.trans hnew))
      · exact .inl (.inr ⟨x, hlx, hold x hlx ▸ hk⟩)
    · rintro ((hk | ⟨x, hlx, hk⟩) | rfl)
      · exact .inl hk
      · exact .inr ⟨x, .inr hlx, (hold x hlx).trans hk⟩
      · exact .inr ⟨s.next, .inl rfl, hnew⟩

/-! ### The exit paths are not taken -/

/-- `main` has the listening socket from its start-up on, and the accept thread is not on its exit
path. -/
structure OffExit (s : State n) : Prop where
  early : s.main = .init ∨ s.main = .socket → s.listenSocket = none
  late : s.main ≠ .init → s.main ≠ .socket → s.main ≠ .exited → s.listenSocket ≠ none
  accept : ¬ s.accept.pc.OnExit

/-- The main thread is where it was, or not at its start. -/
theorem OffExit.of_main (h : s.OffExit) (hL : s'.listenSocket = s.listenSocket)
    (ha : s'.accept.pc = s.accept.pc) (hm : s'.main = s.main ∨
      s.main ≠ .init ∧ s.main ≠ .socket ∧ s.main ≠ .exited ∧ s'.main ≠ .init ∧ s'.main ≠ .socket) :
    s'.OffExit := by
  refine ⟨fun he => ?_, fun hi hs hx => ?_, ha ▸ h.accept⟩ <;> rw [hL]
  · rcases hm with hm | ⟨-, -, -, hni, hns⟩
    · exact h.early (hm ▸ he)
    · exact absurd he (not_or.mpr ⟨hni, hns⟩)
  · rcases hm with hm | ⟨hni, hns, hnx, -⟩
    · exact h.late (hm ▸ hi) (hm ▸ hs) (hm ▸ hx)
    · exact h.late hni hns hnx

/-- The accept thread moves to a label that is not on the exit path. -/
theorem OffExit.of_accept (h : s.OffExit) (hL : s'.listenSocket = s.listenSocket)
    (hm : s'.main = s.main) (pc : AcceptPc) (ha : s'.accept.pc = pc) (hpc : ¬ pc.OnExit) :
    s'.OffExit :=
  ⟨hm ▸ hL ▸ h.early, hm ▸ hL ▸ h.late, ha ▸ hpc⟩

end State

theorem MainMove.offExit {o : MainOutcome} (hm : MainMove s o s') (h : s.OffExit)
    (hne : s.main ≠ .exited) (hG : CallsSucceed s (.main o)) : s'.OffExit := by
  cases hm with
  | @quiet o pc hq =>
    have hpc : pc = .exited ∨ pc = .socket ∧ s.main = .init ∨
        s.main ≠ .init ∧ s.main ≠ .socket ∧ pc ≠ .init ∧ pc ≠ .socket := by
      simp only [mainQuiet, List.mem_cons, Prod.mk.injEq, List.not_mem_nil, or_false] at hq
      rcases hq with ⟨hm, rfl⟩ | ⟨hm, rfl⟩ | ⟨hm, rfl⟩ | ⟨hm, rfl⟩ | ⟨hm, rfl⟩ | ⟨hm, rfl⟩ |
        ⟨hm, rfl⟩ | ⟨hm, rfl⟩ | ⟨hm, rfl⟩ <;> simp [hm]
    rcases hpc with rfl | ⟨rfl, hinit⟩ | ⟨hni, hns, hpi, hps⟩
    · exact ⟨by simp [mainAt], fun _ _ hx => absurd rfl hx, h.accept⟩
    · exact ⟨fun _ => h.early (.inl hinit), fun _ hs _ => absurd rfl hs, h.accept⟩
    · exact h.of_main rfl rfl (.inr ⟨hni, hns, hne, hpi, hps⟩)
  | opened hmain =>
    exact ⟨fun he => by simp at he, fun _ _ _ => by simp, h.accept⟩
  | noSocket hmain => exact absurd hmain hG.1
  | bindFailed hmain => exact absurd hmain (not_or.mpr hG.2)
  | started hmain =>
    exact ⟨fun he => by simp [mainAt] at he, fun _ _ _ => h.late (by simp [hmain])
      (by simp [hmain]) hne, id⟩
  | stop hmain => exact h.of_main rfl rfl (.inr (by simp [hmain]))
  | acceptDone hmain => exact h.of_main rfl rfl (.inr (by simp [hmain, mainAt]))
  | sweep hmain =>
    obtain ⟨-, -, -, hacc, -, -, -, hL, -⟩ := s.cleanClientList_frame
    exact h.of_main hL (congrArg _ hacc) (.inr (by simp [hmain, mainAt]))
  | closed hmain =>
    refine h.of_main rfl rfl (.inr ?_)
    rcases hmain with hmain | hmain <;> simp [hmain, closeListen]

theorem AcceptMove.offExit {o : AcceptOutcome} (hm : AcceptMove s o s') (h : s.OffExit)
    (hG : CallsSucceed s (.accept o)) : s'.OffExit := by
  obtain ⟨-, hmain, hL, -⟩ := hm.frame
  cases hm with
  | failed | associateFailed | notPosted => exact hG.elim
  | remoteFailed hpc hk hr => exact absurd hr (initRemoteConnection_ne_none hG)
  | exitClosed hpc | exitRemoved hpc | exitNulled hpc => exact absurd (hpc ▸ trivial) h.accept
  | @associated d => exact h.of_accept hL hmain (afterAssoc d) rfl (by cases d <;> exact id)
  | @added d => exact h.of_accept hL hmain (afterAdd d) rfl (by cases d <;> exact id)
  | @posted d => exact h.of_accept hL hmain (afterRecv d) rfl (by cases d <;> exact id)
  | returned => exact h.of_accept hL hmain .loop (by simp [acceptReturned]) id
  | _ => exact h.of_accept hL hmain _ rfl id

theorem State.OffExit.step {a : Action n} (h : s.OffExit) (hne : s.main ≠ .exited)
    (hG : CallsSucceed s a) (hm : Move s a s') : s'.OffExit := by
  cases hm with
  | main hm => exact hm.offExit h hne hG
  | accept hm => exact hm.offExit h hG
  | worker hm =>
    obtain ⟨hacc, -, -, -, hmain, hL, -⟩ := hm.frame
    exact h.of_main hL (congrArg _ hacc) (.inl hmain)
  | net hm =>
    obtain ⟨hacc, -, -, -, hmain, hL, -⟩ := hm.frame
    exact h.of_main hL (congrArg _ hacc) (.inl hmain)

/-! ### Every handle is closed once -/

/-- At its end `main` closes the listening socket, which is in use until then. -/
theorem State.Accounted.closeListen (h : s.Accounted) (hs : s.Sound) (hne : s.main ≠ .exited)
    (hmain : s.main = .closeListen ∨ s.main = .error) (hlisten : s.listenSocket ≠ none) :
    (s.closeListen .exited).Accounted := by
  obtain ⟨l, hl⟩ := Option.ne_none_iff_exists'.mp hlisten
  refine ⟨h.toSocketed.step hs (.main (.closed hmain)), h.live_lt, ?_⟩
  change (s.handles.close s.listenSocket).Balanced _
  rw [hl]
  refine (h.balanced.close (.inl ⟨hl, hne⟩)).congr fun k => ⟨?_, ?_⟩
  · rintro (⟨-, hx⟩ | ⟨x, hx, hk⟩)
    · exact absurd rfl hx
    · refine ⟨.inr ⟨x, hx, hk⟩, ?_⟩
      rintro rfl
      exact (h.listen k hl).2 x (h.live_lt x hx) hk
  · rintro ⟨⟨hk, -⟩ | hk, hkl⟩
    · exact absurd (Option.some.inj (hk.symm.trans hl)) hkl
    · exact .inr hk

theorem MainMove.accounted {o : MainOutcome} (hm : MainMove s o s') (h : s.Accounted)
    (ho : s.OffExit) (hs : s.Sound) (hne : s.main ≠ .exited) (hG : CallsSucceed s (.main o)) :
    s'.Accounted := by
  cases hm with
  | @quiet o pc hq =>
    refine h.congr (fun _ => rfl) rfl rfl rfl rfl ?_
    by_cases hx : pc = .exited
    · left
      subst hx
      exact ho.early (.inl (by simpa [mainQuiet] using hq))
    · exact .inr (iff_of_false hx hne)
  | @opened v hmain hv =>
    have hnone : s.listenSocket = none := ho.early (.inr hmain)
    refine ⟨h.toSocketed.step hs (.main (.opened hmain hv)), h.live_lt,
      (h.balanced.open hv).congr fun k => ?_⟩
    simp [InUse, hnone, or_comm, eq_comm]
  | noSocket hmain => exact absurd hmain hG.1
  | bindFailed hmain => exact absurd hmain (not_or.mpr hG.2)
  | sweep hmain =>
    exact h.cleanClientList.congr (fun _ => rfl) rfl rfl rfl rfl (.inr (by simp [mainAt, hmain]))
  | closed hmain =>
    refine h.closeListen hs hne hmain ?_
    rcases hmain with hmain | hmain <;> exact ho.late (by simp [hmain]) (by simp [hmain]) hne
  | started hmain | stop hmain | acceptDone hmain =>
    exact h.congr (fun _ => rfl) rfl rfl rfl rfl (.inr (by simp [mainAt, hmain]))

theorem AcceptMove.accounted {o : AcceptOutcome} (hm : AcceptMove s o s') (h : s.Accounted)
    (ho : s.OffExit) (hs : s.Sound) (hG : CallsSucceed s (.accept o)) : s'.Accounted := by
  cases hm with
  | accepted hpc hv =>
    exact h.make (c := { SocketContext.new with
      socket := some (s.handles.fresh _), conn := s.calls + 1 }) hv rfl rfl rfl rfl rfl rfl rfl
  | remoteMade hpc hv =>
    exact h.make (c := { SocketContext.new with
      socket := some (s.handles.fresh _), proxySocket := true, conn := s.calls }) hv rfl rfl rfl
      rfl rfl rfl rfl
  | @linked c r hpc hc hr =>
    obtain ⟨hcr, hfc, hfr, -⟩ := hs.acceptOk.at_link hpc hc hr
    have hsock := fun x => (s.linked_fields c r x).2.2.1
    rw [linked_eq hcr hfc.1 hfr.1] at hsock ⊢
    exact h.congr hsock rfl rfl rfl rfl (.inr Iff.rfl)
  | posted =>
    exact h.congr (SameLinks.resetRecv _).socket rfl rfl rfl rfl (.inr Iff.rfl)
  | failed | associateFailed | notPosted => exact hG.elim
  | remoteFailed hpc hk hr => exact absurd hr (initRemoteConnection_ne_none hG)
  | exitClosed hpc | exitRemoved hpc | exitNulled hpc => exact absurd (hpc ▸ trivial) ho.accept
  | returned =>
    have h₁ : (({ s with accept := { s.accept with remote := none } } : State n).releaseOpt
        s.accept.remote).Accounted := h.releaseOpt (fun _ => rfl) rfl rfl rfl rfl rfl
    exact h₁.releaseOpt (fun _ => rfl) rfl rfl rfl rfl rfl
  | _ => exact h.congr (fun _ => rfl) rfl rfl rfl rfl (.inr Iff.rfl)

theorem WorkerMove.accounted {w : Fin n} {o : WorkerOutcome} (hm : WorkerMove s w o s')
    (h : s.Accounted) : s'.Accounted := by
  have hsock := hm.sameLinks.socket
  cases hm with
  | @sent j b => exact h.releaseOpt (o := some b) hsock rfl rfl rfl rfl rfl
  | @notSent j b => exact h.releaseOpt (o := some b) hsock rfl rfl rfl rfl rfl
  | @finished j => exact h.releaseOpt (o := some j.ctx) hsock rfl rfl rfl rfl rfl
  | _ => exact h.congr hsock rfl rfl rfl rfl (.inr Iff.rfl)

namespace State

theorem Accounted.step {a : Action n} (h : s.Accounted) (ho : s.OffExit) (hs : s.Sound)
    (hne : s.main ≠ .exited) (hG : CallsSucceed s a) (hm : Move s a s') : s'.Accounted := by
  cases hm with
  | main hm => exact hm.accounted h ho hs hne hG
  | accept hm => exact hm.accounted h ho hs hG
  | worker hm => exact hm.accounted h
  | net hm =>
    obtain ⟨-, -, -, -, hmain, hL, -, hl, -, hT, -⟩ := hm.frame
    exact h.congr hm.sameLinks.socket hm.sameLinks.2 hl hL hT (.inr (by rw [hmain]))

theorem accounted_of_reachable (hs : (proxy n).Reachable CallsSucceed s) :
    s.OffExit ∧ s.Accounted := by
  refine hs.invariant_step (I := fun s => s.OffExit ∧ s.Accounted)
    ⟨?_, ?_⟩ fun s a s' hr h hG hstep => ?_
  · exact ⟨fun _ => rfl, fun hni => absurd rfl hni, id⟩
  · refine ⟨socketed_of_reachable (G := CallsSucceed) .init, by simp [proxy, initial], ?_⟩
    exact HandleTable.Balanced.empty.congr fun k => by simp [InUse, proxy, initial]
  · obtain ⟨-, hne, hm⟩ := step_move hstep
    exact ⟨h.1.step hne hG hm, h.2.step h.1 (sound_of_reachable hr) hne hG hm⟩

end State

/-- In every state of a run in which no call fails whose failure is handled by closing a handle,
every call of `closesocket` had a valid handle and closed the socket this handle was given for,
the handles that are no longer in use were closed once, the others not at all, and the live
contexts, which some variable leads to, have open sockets. -/
theorem closed_once (hs : (proxy n).Reachable CallsSucceed s) :
    (∀ c ∈ s.handles.closed, ∃ h ∈ s.handles.issued, c = ⟨some h, some h.gen⟩) ∧
      (∀ h ∈ s.handles.issued,
        (s.handles.closed.map Closing.arg).count (some h) = if s.InUse h then 0 else 1) ∧
      ∀ x ∈ s.live, (s.Root x ∨ ∃ c, s.Root c ∧ s.strongOf c = some x) ∧
        ∀ h ∈ (s.ctx x).socket, s.handles.IsOpen h := by
  have hb := (accounted_of_reachable hs).2.balanced
  exact ⟨hb.closes_own, fun h hh => hb.count_closed hh, fun x hx =>
    ⟨(sound_of_reachable hs).root_of_live hx, fun h hh => hb.used_open h (.inr ⟨x, hx, hh⟩)⟩⟩

set_option maxRecDepth 10000 in
/-- Both contexts of a connection are destroyed, each closing its socket; the listening socket is
open. -/
theorem closed_once_run :
    ∃ s : State 2, s.live = ∅ ∧ (s.handles.closed.map Closing.arg).count (some ⟨10, 0⟩) = 0 ∧
      (s.handles.closed.map Closing.arg).count (some ⟨11, 1⟩) = 1 ∧
      (s.handles.closed.map Closing.arg).count (some ⟨12, 2⟩) = 1 := by
  obtain ⟨s, hs, hlive, hissued, hlisten, hmain⟩ : ∃ s : State 2,
      (proxy 2).Reachable CallsSucceed s ∧ s.live = ∅ ∧
        s.handles.issued = [⟨12, 2⟩, ⟨11, 1⟩, ⟨10, 0⟩] ∧ s.listenSocket = some ⟨10, 0⟩ ∧
        s.main = .serving :=
    TransitionSystem.exists_reachable_of_runChecked
      (startUp ++ connection 11 12 ++ closed 1 0 ++ closed 1 1) (by decide +kernel)
  obtain ⟨-, hcount, -⟩ := closed_once hs
  refine ⟨s, hlive, ?_, ?_, ?_⟩
  · rw [hcount _ (by simp [hissued]), if_pos (.inl ⟨hlisten, by simp [hmain]⟩)]
  · rw [hcount _ (by simp [hissued]), if_neg (by simp [InUse, hlisten, hlive])]
  · rw [hcount _ (by simp [hissued]), if_neg (by simp [InUse, hlisten, hlive])]

/-- The second first read of a connection fails while a worker has the end of the client: the
exit path closes the client's socket, its number is given to the next client, and the worker
closes it again. -/
def reused (w : Fin 2) : List (Action 2) :=
  startUp ++ (connection 11 12).take 9 ++
    [.accept .ok, .net (.receive (.posted 0 .recv 2048) []),
      .worker w (.dequeue { Op.posted 0 .recv 2048 with status := .done true 0 } 0),
      .accept .fail] ++
    List.replicate 6 (.accept .ok) ++ connection 11 13 ++ List.replicate 3 (.worker w .ok)

set_option maxRecDepth 10000 in
/-- The socket of the live context 2 is closed by the destructor of the context 0, whose handle was
closed before. -/
theorem closed_once_fails :
    ∃ s : State 2, (proxy 2).Reachable KeyedAtomic s ∧ s.fault = none ∧ 2 ∈ s.live ∧
      (s.ctx 2).socket = some ⟨11, 3⟩ ∧ ⟨some ⟨11, 1⟩, some 3⟩ ∈ s.handles.closed ∧
      (s.handles.closed.map Closing.arg).count (some ⟨11, 1⟩) = 2 :=
  TransitionSystem.exists_reachable_of_runChecked (reused 0) (by decide +kernel)

end IocpProxy
