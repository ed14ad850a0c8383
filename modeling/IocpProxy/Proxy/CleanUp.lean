import IocpProxy.Proxy.Lifetime
import IocpProxy.Proxy.Linking

/-!
# What is left at the shutdown

When the accept thread and the workers have returned, only the list refers to contexts from
outside, and a context that is off the list is alive only because its client owns it. Of two linked
contexts only the client owns the other one, so the references make no cycle, and when
`CleanClientList` has given up the entries of the list nothing is alive any more.

## Main results

* `IocpProxy.State.Paired.acyclic` : the owning references of linked contexts make no cycle.
* `IocpProxy.shutdown_releases`.
-/

namespace IocpProxy

open State

variable {n : ℕ} {s : State n}

namespace State

/-- A context that is owned owns nothing itself. -/
theorem Paired.acyclic (h : s.Paired) : Ownership.Acyclic s.strongOf s.live := by
  intro x hx
  obtain ⟨y, ⟨-, hxy⟩, -⟩ := Relation.TransGen.head'_iff.mp hx
  obtain ⟨z, -, -, hzx⟩ := Relation.TransGen.tail'_iff.mp hx
  have hnone : s.strongOf x = none := (h.own hzx).2.1
  cases hnone.symm.trans hxy

/-- The threads that work with contexts have returned. -/
structure Returned (s : State n) : Prop where
  accept : s.accept.pc = .done ∨ s.accept.pc = .notStarted
  workers : ∀ w, s.worker w = .exited

/-- When the threads have returned, the list alone refers to contexts. -/
theorem Returned.root_iff (h : s.Returned) (hok : s.AcceptOk) {x : CtxId} :
    s.Root x ↔ x ∈ s.clientContext := by
  have hlocals : s.accept.client = none ∧ s.accept.remote = none := by
    rcases h.accept with hpc | hpc <;> simpa only [AcceptOk, hpc] using hok
  refine ⟨?_, .inl⟩
  rintro (hx | (hx | hx) | ⟨w, hx⟩)
  · exact hx
  · cases hlocals.1.symm.trans hx
  · cases hlocals.2.symm.trans hx
  · rw [h.workers w] at hx
    cases hx

end State

/-- When the accept thread and the workers have returned, every living context is on the list or
can be reached from one there through owning buddy pointers, and `CleanClientList` leaves no
context alive and the list empty. -/
theorem shutdown_releases (hs : (proxy n).Reachable (fun _ _ => True) s)
    (hret : s.Returned) :
    (∀ x ∈ s.live, ∃ y ∈ s.clientContext, Relation.ReflTransGen s.Owns y x) ∧
      s.cleanClientList.live = ∅ ∧ s.cleanClientList.clientContext = [] := by
  have hsound := sound_of_reachable hs
  obtain ⟨hctx, hnext, hadded, hacc, hcalls, hworker, -⟩ := s.cleanClientList_frame
  have hclean := cleanClientList_clientContext s
  refine ⟨fun x hx => ?_, ?_, hclean⟩
  · obtain ⟨y, -, hroot, hpath⟩ :=
      hsound.paired.acyclic.exists_root hsound.alive.owned_of_live hx
    exact ⟨y, (hret.root_iff hsound.acceptOk).mp hroot, hpath⟩
  · have hret' : s.cleanClientList.Returned :=
      ⟨by rw [hacc]; exact hret.accept, fun w => by rw [hworker]; exact hret.workers w⟩
    have hok : s.cleanClientList.AcceptOk :=
      hsound.acceptOk.congr (.of_ctx hctx hnext) hacc hadded hcalls
    refine (hsound.paired.of_ctx hctx hnext).acyclic.eq_empty
      hsound.alive.cleanClientList.owned_of_live fun x hx => ?_
    have hmem := (hret'.root_iff hok).mp hx
    rw [hclean] at hmem
    cases hmem

/-- The shutdown of a proxy with two idle workers and no call of `AcceptConnection` under way. -/
def stopAll (v w : Fin 2) : List (Action 2) :=
  [.main .ok, .accept .ok, .worker v .ok, .worker w .ok]

set_option maxRecDepth 10000 in
/-- The remote side was closed and is off the list; its client keeps it alive to the end. -/
theorem shutdown_releases_run :
    ∃ s : State 2, s.clientContext = [0] ∧ 1 ∈ s.live ∧ Relation.ReflTransGen s.Owns 0 1 ∧
      s.cleanClientList.live = ∅ := by
  obtain ⟨s, hs, hlist, hlive, hpc, hw⟩ : ∃ s : State 2, (proxy 2).Reachable (fun _ _ => True) s ∧
      s.clientContext = [0] ∧ 1 ∈ s.live ∧ s.accept.pc = .done ∧ ∀ w, s.worker w = .exited :=
    TransitionSystem.exists_reachable_of_runChecked
      (startUp ++ connection 11 12 ++ closed 1 1 ++ stopAll 0 1) (by decide +kernel)
  obtain ⟨hpaths, hempty, -⟩ := shutdown_releases hs ⟨.inl hpc, hw⟩
  obtain ⟨y, hy, hpath⟩ := hpaths 1 hlive
  rw [hlist, List.mem_singleton] at hy
  subst hy
  exact ⟨s, hlist, hlive, hpath, hempty⟩

end IocpProxy
