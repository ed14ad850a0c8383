import IocpProxy.Proxy.Sends

/-!
# Contexts and their outstanding operations

Only references keep a context alive, and an outstanding operation is not a reference: what keeps
its context alive is the list, or the client that owns the context and is on the list itself. The
program takes a context off the list at its first failed completion, whatever else is outstanding
on it, and goes on to post operations on contexts that are off the list.

## Main definitions

* `IocpProxy.State.Anchored` : the list keeps the context alive.
* `IocpProxy.State.removes` : the contexts an action takes off the list.
* `IocpProxy.AnchoredOps` : the condition on the steps.

## Main results

* `IocpProxy.no_orphaned_operation` : along runs that meet the condition the contexts of
  operations are alive.
* `IocpProxy.no_orphaned_operation_fails`.
-/

namespace IocpProxy

open State

variable {n : ℕ} {s s' : State n}

namespace State

/-- A list of contexts keeps `x` alive: `x` is on it, or its owner is. -/
def AnchoredBy (s : State n) (L : List CtxId) (x : CtxId) : Prop :=
  x ∈ L ∨ ∃ c ∈ L, s.strongOf c = some x

instance (s : State n) (L : List CtxId) (x : CtxId) : Decidable (s.AnchoredBy L x) :=
  inferInstanceAs (Decidable (x ∈ L ∨ ∃ c ∈ L, s.strongOf c = some x))

/-- The list `g_ClientContext` keeps `x` alive. -/
def Anchored (s : State n) (x : CtxId) : Prop := s.AnchoredBy s.clientContext x

instance (s : State n) (x : CtxId) : Decidable (s.Anchored x) :=
  inferInstanceAs (Decidable (s.AnchoredBy _ x))

theorem Anchored.live (h : s.Alive) {x : CtxId} (hx : s.Anchored x) : x ∈ s.live := by
  rcases hx with hx | ⟨c, hc, hcx⟩
  · exact h.live_of_owned x (.inl (.inl hx))
  · exact h.live_of_owned x (.inr ⟨c, h.live_of_owned c (.inl (.inl hc)), hcx⟩)

/-- The contexts an action takes off the list. -/
def removes (s : State n) : Action n → List CtxId
  | .worker w .ok =>
    match s.worker w with
    | .busy j .failed => [j.ctx]
    | _ => []
  | .accept .ok =>
    match s.accept.pc with
    | .exitRemove d => (s.accept.side d).toList
    | _ => []
  | .accept .fail =>
    match s.accept.pc with
    | .assocRet _ => s.accept.param.toList.map Prod.snd
    | _ => []
  | .main .ok =>
    match s.main with
    | .waitWorkers => s.clientContext
    | _ => []
  | _ => []

end State

/-- A context that an action does not take off the list stays on it. -/
theorem Move.mem_clientContext {a : Action n} (hm : Move s a s') {x : CtxId}
    (hx : x ∈ s.clientContext) (hr : x ∉ s.removes a) : x ∈ s'.clientContext := by
  rcases hm with hm | hm | hm | hm
  · cases hm with
    | sweep hmain => exact absurd hx (by simpa [removes, hmain] using hr)
    | _ => exact hx
  · cases hm with
    | linked => rwa [(s.linked_frame _ _).2.2.2.1]
    | @associateFailed d a y hpc hp =>
      have hne : x ≠ y := by simpa [removes, hpc, hp] using hr
      exact (List.mem_erase_of_ne hne).mpr hx
    | added => exact List.mem_append_left _ hx
    | @exitRemoved d hpc =>
      cases hy : s.accept.side d with
      | none => simpa [acceptAt, removeFromClientList] using hx
      | some y =>
        have hne : x ≠ y := by simpa [removes, hpc, hy] using hr
        exact (List.mem_erase_of_ne hne).mpr hx
    | exitClosed | exitNulled | returned => simpa [State.exitNulled, acceptReturned] using hx
    | _ => exact hx
  · cases hm with
    | @removed j hw =>
      have hne : x ≠ j.ctx := by simpa [removes, hw] using hr
      exact (List.mem_erase_of_ne hne).mpr hx
    | _ => exact hx
  · rwa [hm.frame.2.2.2.2.2.2.2.2.1]

/-- An action that posts an operation takes no context off the list. -/
theorem State.removes_of_posts {a : Action n} {k : OpKind} {x : CtxId}
    (hp : s.posts a = some (k, x)) : s.removes a = [] := by
  rcases posts_eq_some hp with ⟨d, rfl, hpc, -⟩ | ⟨w, j, io, rfl, hw, -⟩ | ⟨w, j, rfl, hw, -⟩
  · simp [removes, hpc]
  · simp [removes, hw]
  · simp [removes, hw]

/-- Operations are posted on contexts that the list keeps alive, and when contexts are taken off
the list, the rest of it keeps the contexts of all outstanding operations alive. -/
def AnchoredOps (s : State n) (a : Action n) : Prop :=
  (∀ p ∈ s.posts a, s.Anchored p.2) ∧
    (s.removes a ≠ [] →
      ∀ o ∈ s.ops, s.AnchoredBy (s.clientContext.filter (· ∉ s.removes a)) o.ctx)

instance (s : State n) (a : Action n) : Decidable (AnchoredOps s a) :=
  inferInstanceAs (Decidable (_ ∧ _))

/-- The condition on the steps: the completion keys are right, and the list keeps the contexts of
operations alive. -/
def LifetimeReady (s : State n) (a : Action n) : Prop := IdealKeys s a ∧ AnchoredOps s a

instance (s : State n) (a : Action n) : Decidable (LifetimeReady s a) :=
  inferInstanceAs (Decidable (_ ∧ _))

/-- What the rest of the list keeps alive is kept alive after the step. -/
theorem Move.anchored {a : Action n} (hm : Move s a s') (hs : s.Sound) {L : List CtxId}
    (hL : ∀ x ∈ L, x ∈ s.clientContext ∧ x ∉ s.removes a) {x : CtxId} (hx : s.AnchoredBy L x) :
    s'.Anchored x := by
  rcases hx with hx | ⟨c, hc, hcx⟩
  · exact .inl (hm.mem_clientContext (hL x hx).1 (hL x hx).2)
  · refine .inr ⟨c, hm.mem_clientContext (hL c hc).1 (hL c hc).2, ?_⟩
    rwa [strongOf, hm.buddy_eq hs (.inl hcx)]

/-- The list keeps the contexts of all operations alive. -/
theorem Move.anchored_ops {a : Action n} (hm : Move s a s') (hs : s.Sound) (hG : AnchoredOps s a)
    (h : ∀ o ∈ s.ops, s.Anchored o.ctx) : ∀ o ∈ s'.ops, s'.Anchored o.ctx := by
  intro o ho
  rcases hm.outstanding_pos (State.outstanding_pos ho) with hold | hp
  · obtain ⟨o₀, ho₀, hc, -⟩ := outstanding_pos_iff.mp hold
    rw [← hc]
    by_cases hr : s.removes a = []
    · exact hm.anchored hs (fun x hx => ⟨hx, by simp [hr]⟩) (h o₀ ho₀)
    · refine hm.anchored hs (fun x hx => ?_) (hG.2 hr o₀ ho₀)
      simpa using hx
  · exact hm.anchored hs (fun x hx => ⟨hx, by simp [removes_of_posts hp]⟩) (hG.1 _ hp)

theorem State.anchored_of_reachable (hs : (proxy n).Reachable LifetimeReady s) :
    s.Served ∧ ∀ o ∈ s.ops, s.Anchored o.ctx := by
  refine hs.invariant_step (I := fun s => s.Served ∧ ∀ o ∈ s.ops, s.Anchored o.ctx)
    ⟨served_initial, by simp [proxy, initial]⟩ fun s a s' hr h hG hstep => ?_
  have hm := (step_move hstep).2.2
  have hsound := sound_of_reachable hr
  exact ⟨h.1.step hsound hG.1 hm, hm.anchored_ops hsound hG.2 h.2⟩

/-- In every state of a run in which operations are posted on contexts that the list keeps alive,
and contexts are taken off the list only when the rest of it keeps alive the contexts of all
outstanding operations, the contexts of outstanding operations and of completions being handled
are alive. -/
theorem no_orphaned_operation (hs : (proxy n).Reachable LifetimeReady s) :
    (∀ o ∈ s.ops, o.ctx ∈ s.live) ∧
      ∀ w j st, s.worker w = .busy j st → j.ctx ∈ s.live ∧ j.owner ∈ s.live := by
  obtain ⟨hserved, hops⟩ := anchored_of_reachable hs
  have halive := (sound_of_reachable hs).alive
  refine ⟨fun o ho => (hops o ho).live halive, fun w j st hw => ?_⟩
  have hlive : j.ctx ∈ s.live := halive.live_of_holds (w := w) (hw ▸ Worker.holds_ctx j st)
  exact ⟨hlive, (hserved.jobs w j st hw).1 ▸ hlive⟩

/-- The peer of `x` has closed the connection, and the worker `w` handles the end. -/
def closed (w : Fin 2) (x : CtxId) : List (Action 2) :=
  [.net (.receive (.posted x .recv 2048) []),
    .worker w (.dequeue { Op.posted x .recv 2048 with status := .done true 0 } x)] ++
    List.replicate 3 (.worker w .ok)

set_option maxRecDepth 10000 in
/-- The client closes when nothing is outstanding on it any more; the remote side, on which a
receive is outstanding, lives on. -/
theorem no_orphaned_operation_run :
    ∃ s : State 2, 0 ∉ s.live ∧ ∃ o ∈ s.ops, o.ctx = 1 ∧ o.ctx ∈ s.live := by
  obtain ⟨s, hs, hdead, hops⟩ : ∃ s : State 2, (proxy 2).Reachable LifetimeReady s ∧
      0 ∉ s.live ∧ s.ops = [.posted 1 .recv 2048] :=
    TransitionSystem.exists_reachable_of_runChecked (startUp ++ connection 11 12 ++
      relay 0 0 [65, 66] ++ sendDone 1 1 2 ++ closed 1 0) (by decide +kernel)
  have hmem : Op.posted 1 .recv 2048 ∈ s.ops := by simp [hops]
  exact ⟨s, hdead, _, hmem, rfl, (no_orphaned_operation hs).1 _ hmem⟩

set_option maxRecDepth 10000 in
/-- The client closes while the bytes of the remote side are being sent to it: its context is
destroyed with the send outstanding. -/
theorem no_orphaned_operation_fails :
    ∃ s : State 2, (proxy 2).Reachable KeyedAtomic s ∧ s.fault = none ∧
      (∃ o ∈ s.ops, o.ctx = 0 ∧ o.kind = .send) ∧ 0 < s.next ∧ 0 ∉ s.live :=
  TransitionSystem.exists_reachable_of_runChecked
    (startUp ++ connection 11 12 ++ relay 0 1 [65] ++ closed 1 0) (by decide +kernel)

end IocpProxy
