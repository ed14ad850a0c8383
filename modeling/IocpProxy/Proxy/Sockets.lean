import IocpProxy.Proxy.Invariant

/-!
# The sockets of the contexts

Every context has a socket of its own from the moment it is made. Destroying the context closes the
socket; whatever else is closed and opened, that socket does not get open again.

## Main definitions

* `IocpProxy.State.Socketed` : the invariant.

## Main results

* `IocpProxy.State.Socketed.step`, `IocpProxy.State.socketed_of_reachable`.
-/

namespace IocpProxy

open State

variable {n : ℕ} {s s' : State n}

namespace State

/-- Every context has a socket of its own, which is closed once the context is destroyed. -/
structure Socketed (s : State n) : Prop where
  numbered : s.handles.Numbered
  issued : ∀ x < s.next, ∃ h ∈ (s.ctx x).socket, h ∈ s.handles.issued
  inj : ∀ x < s.next, ∀ y < s.next, (s.ctx x).socket = (s.ctx y).socket → x = y
  listen : ∀ h ∈ s.listenSocket, h ∈ s.handles.issued ∧ ∀ x < s.next, (s.ctx x).socket ≠ some h
  dead : ∀ x < s.next, x ∉ s.live → ∀ h ∈ (s.ctx x).socket, ¬ s.handles.IsOpen h

theorem Socketed.mem_issued (h : s.Socketed) {x : CtxId} (hx : x < s.next) {k : Handle}
    (hk : k ∈ (s.ctx x).socket) : k ∈ s.handles.issued := by
  obtain ⟨k', hk', hi⟩ := h.issued x hx
  exact Option.mem_unique hk' hk ▸ hi

/-- The handle of the next socket belongs to no context. -/
theorem Socketed.fresh_not_issued (h : s.Socketed) (v : ℕ) :
    s.handles.fresh v ∉ s.handles.issued :=
  fun hm => Nat.lt_irrefl _ (h.numbered _ hm)

theorem Socketed.of_later (h : s.Socketed) (hx : ∀ x, (s'.ctx x).socket = (s.ctx x).socket)
    (hn : s'.next = s.next) (hl : s'.live = s.live) (hL : s'.listenSocket = s.listenSocket)
    (hT : s.handles.Later s'.handles) : s'.Socketed where
  numbered := hT.1
  issued x hlt := by
    rw [hn] at hlt
    obtain ⟨k, hk, hi⟩ := h.issued x hlt
    exact ⟨k, (hx x).symm ▸ hk, (hT.2 k hi).1⟩
  inj x hlt y hlt' he := by
    rw [hn] at hlt hlt'
    rw [hx, hx] at he
    exact h.inj x hlt y hlt' he
  listen k hk := by
    rw [hL] at hk
    obtain ⟨hi, hne⟩ := h.listen k hk
    refine ⟨(hT.2 k hi).1, fun x hlt => ?_⟩
    rw [hx]
    exact hne x (hn ▸ hlt)
  dead x hlt hd k hk ho := by
    rw [hn] at hlt
    rw [hl] at hd
    rw [hx] at hk
    exact h.dead x hlt hd k hk ((hT.2 k (h.mem_issued hlt hk)).2 ho)

/-- The handles are the same. -/
theorem Socketed.congr (h : s.Socketed) (hx : ∀ x, (s'.ctx x).socket = (s.ctx x).socket)
    (hn : s'.next = s.next) (hl : s'.live = s.live) (hL : s'.listenSocket = s.listenSocket)
    (hT : s'.handles = s.handles) : s'.Socketed :=
  h.of_later hx hn hl hL (by rw [hT]; exact .refl h.numbered)

theorem Socketed.destroy (h : s.Socketed) (L : List CtxId) : (s.destroy L).Socketed where
  numbered := by
    change HandleTable.Numbered (L.foldl (fun T x => T.close (s.ctx x).socket) s.handles)
    rw [HandleTable.Numbered, HandleTable.issued_foldl_close fun x => (s.ctx x).socket]
    exact h.numbered
  issued x hlt := by
    change ∃ k ∈ (s.ctx x).socket,
      k ∈ (L.foldl (fun T x => T.close (s.ctx x).socket) s.handles).issued
    rw [HandleTable.issued_foldl_close fun x => (s.ctx x).socket]
    exact h.issued x hlt
  inj := h.inj
  listen k hk := by
    change k ∈ (L.foldl (fun T x => T.close (s.ctx x).socket) s.handles).issued ∧ _
    rw [HandleTable.issued_foldl_close fun x => (s.ctx x).socket]
    exact h.listen k hk
  dead x hlt hd k hk ho := by
    obtain ⟨ho, hne⟩ := (HandleTable.isOpen_foldl_close_iff fun x => (s.ctx x).socket).mp ho
    by_cases hxl : x ∈ s.live
    · have hxL : x ∈ L := by
        by_contra hxL
        exact hd (Finset.mem_filter.mpr ⟨hxl, hxL⟩)
      exact hne x hxL k hk rfl
    · exact h.dead x hlt hxl k hk ho

/-- A reference is given up in a state with the same sockets. -/
theorem Socketed.releaseOpt (h : s.Socketed) {o : Option CtxId}
    (hx : ∀ x, (s'.ctx x).socket = (s.ctx x).socket) (hn : s'.next = s.next)
    (hl : s'.live = s.live) (hL : s'.listenSocket = s.listenSocket)
    (hT : s'.handles = s.handles) : (s'.releaseOpt o).Socketed := by
  have h' : s'.Socketed := h.congr hx hn hl hL hT
  cases o with
  | none => exact h'
  | some x => exact h'.destroy _

theorem Socketed.cleanClientList (h : s.Socketed) : s.cleanClientList.Socketed := by
  unfold State.cleanClientList
  generalize s.clientContext = l
  induction l generalizing s with
  | nil => exact h
  | cons x l ih =>
    exact ih (h.releaseOpt (o := some x) (fun _ => rfl) rfl rfl rfl rfl)

/-- A context is made for a socket that was just opened. -/
theorem Socketed.make (h : s.Socketed) {v : ℕ} (hv : s.handles.owner v = none) {c : SocketContext}
    (hc : c.socket = some (s.handles.fresh v)) (hx : s'.ctx = Function.update s.ctx s.next c)
    (hn : s'.next = s.next + 1) (hl : s'.live = insert s.next s.live)
    (hL : s'.listenSocket = s.listenSocket) (hT : s'.handles = s.handles.open v) : s'.Socketed := by
  have hlater : s.handles.Later s'.handles := hT ▸ .open h.numbered hv
  have cases : ∀ {x}, x < s'.next → x = s.next ∧ (s'.ctx x).socket = some (s.handles.fresh v) ∨
      x < s.next ∧ (s'.ctx x).socket = (s.ctx x).socket := by
    intro x hlt
    rcases (Nat.le_of_lt_succ (hlt.trans_eq hn)).eq_or_lt with rfl | hlt
    · exact .inl ⟨rfl, by rw [hx, Function.update_self, hc]⟩
    · exact .inr ⟨hlt, by rw [hx, Function.update_of_ne hlt.ne]⟩
  have hne : ∀ x < s.next, (s.ctx x).socket ≠ some (s.handles.fresh v) := fun x hlt e =>
    h.fresh_not_issued v (h.mem_issued hlt e)
  refine ⟨hlater.1, fun x hlt => ?_, fun x hlt y hlt' he => ?_, fun k hk => ?_,
    fun x hlt hd k hk ho => ?_⟩
  · rcases cases hlt with ⟨-, e⟩ | ⟨hlt, e⟩ <;> rw [e]
    · exact ⟨_, rfl, hT ▸ List.mem_cons_self⟩
    · obtain ⟨k, hk, hi⟩ := h.issued x hlt
      exact ⟨k, hk, (hlater.2 k hi).1⟩
  · rcases cases hlt with ⟨hxn, e⟩ | ⟨hlt, e⟩ <;>
      rcases cases hlt' with ⟨hyn, e'⟩ | ⟨hlt', e'⟩ <;> rw [e, e'] at he
    · exact hxn.trans hyn.symm
    · exact absurd he.symm (hne y hlt')
    · exact absurd he (hne x hlt)
    · exact h.inj x hlt y hlt' he
  · rw [hL] at hk
    obtain ⟨hi, hks⟩ := h.listen k hk
    refine ⟨(hlater.2 k hi).1, fun x hlt => ?_⟩
    rcases cases hlt with ⟨-, e⟩ | ⟨hlt, e⟩ <;> rw [e]
    · rintro ⟨⟩
      exact h.fresh_not_issued v hi
    · exact hks x hlt
  · rw [hl, Finset.mem_insert, not_or] at hd
    rcases cases hlt with ⟨rfl, -⟩ | ⟨hlt, e⟩
    · exact hd.1 rfl
    · rw [e] at hk
      exact h.dead x hlt hd.2 k hk ((hlater.2 k (h.mem_issued hlt hk)).2 ho)

theorem Socketed.step {a : Action n} (h : s.Socketed) (hs : s.Sound) (hm : Move s a s') :
    s'.Socketed := by
  cases hm with
  | main hm =>
    cases hm with
    | @opened v hmain hv =>
      have hlater : s.handles.Later (s.handles.open v) := .open h.numbered hv
      refine ⟨hlater.1, fun x hx => ?_, h.inj, fun k hk => ?_, fun x hx hd k hk ho => ?_⟩
      · obtain ⟨k, hk, hi⟩ := h.issued x hx
        exact ⟨k, hk, (hlater.2 k hi).1⟩
      · obtain rfl := Option.some.inj hk
        exact ⟨List.mem_cons_self, fun x hx e => h.fresh_not_issued v (h.mem_issued hx e)⟩
      · exact h.dead x hx hd k hk ((hlater.2 k (h.mem_issued hx hk)).2 ho)
    | bindFailed | closed => exact h.of_later (fun _ => rfl) rfl rfl rfl (.close h.numbered _)
    | sweep => exact h.cleanClientList.congr (fun _ => rfl) rfl rfl rfl rfl
    | _ => exact h.congr (fun _ => rfl) rfl rfl rfl rfl
  | accept hm =>
    cases hm with
    | accepted hpc hv =>
      exact h.make (c := { SocketContext.new with
        socket := some (s.handles.fresh _), conn := s.calls + 1 }) hv rfl rfl rfl rfl rfl rfl
    | remoteFailed hpc hk =>
      exact h.of_later (fun _ => rfl) rfl rfl rfl (initRemoteConnection_later h.numbered hk)
    | remoteMade hpc hv =>
      exact h.make (c := { SocketContext.new with
        socket := some (s.handles.fresh _), proxySocket := true, conn := s.calls }) hv rfl rfl rfl
        rfl rfl rfl
    | @linked c r hpc hc hr =>
      obtain ⟨hcr, hfc, hfr, -⟩ := hs.acceptOk.at_link hpc hc hr
      have hsock := fun x => (s.linked_fields c r x).2.2.1
      rw [linked_eq hcr hfc.1 hfr.1] at hsock ⊢
      exact h.congr hsock rfl rfl rfl rfl
    | posted | notPosted =>
      exact h.congr (SameLinks.resetRecv _).socket rfl rfl rfl rfl
    | exitClosed =>
      unfold State.exitClosed
      cases s.accept.socket with
      | none => exact h.congr (fun _ => rfl) rfl rfl rfl rfl
      | some k => exact h.of_later (fun _ => rfl) rfl rfl rfl (.close h.numbered k)
    | @exitRemoved d =>
      cases s.accept.side d <;> exact h.congr (fun _ => rfl) rfl rfl rfl rfl
    | exitNulled => exact h.releaseOpt (fun _ => rfl) rfl rfl rfl rfl
    | returned =>
      have h₁ : (({ s with accept := { s.accept with remote := none } } : State n).releaseOpt
          s.accept.remote).Socketed := h.releaseOpt (fun _ => rfl) rfl rfl rfl rfl
      exact h₁.releaseOpt (fun _ => rfl) rfl rfl rfl rfl
    | _ => exact h.congr (fun _ => rfl) rfl rfl rfl rfl
  | worker hm =>
    have hsock := hm.sameLinks.socket
    cases hm with
    | @sent j b => exact h.releaseOpt (o := some b) hsock rfl rfl rfl rfl
    | @notSent j b => exact h.releaseOpt (o := some b) hsock rfl rfl rfl rfl
    | @finished j => exact h.releaseOpt (o := some j.ctx) hsock rfl rfl rfl rfl
    | _ => exact h.congr hsock rfl rfl rfl rfl
  | net hm =>
    obtain ⟨-, -, -, -, -, hL, -, hl, -, hT, -⟩ := hm.frame
    exact h.congr hm.sameLinks.socket hm.sameLinks.2 hl hL hT

theorem socketed_of_reachable {G : State n → Action n → Prop} (hs : (proxy n).Reachable G s) :
    s.Socketed := by
  refine hs.invariant_step ?_ fun s a s' hr h _ hstep =>
    h.step (sound_of_reachable hr) (step_move hstep).2.2
  constructor <;> simp [proxy, initial, HandleTable.empty, HandleTable.Numbered]

end State

end IocpProxy
