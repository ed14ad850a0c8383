import IocpProxy.Proxy.Isolation

/-!
# The client list as a vector of pointers

`g_ClientContext` is a vector of shared pointers, and the functions on it take pointers that may be
null: on its exit path `AcceptConnection` removes both of its contexts when it has one of them. Here
the proxy runs beside a vector that the calls of these functions change, each with the pointer it is
really given, and a log of the calls.

The loop of `RemoveFromClientListAndCleanUpMemory` stops at the first match. As the vector holds
every context once and no null pointer, nothing of what is to be removed stays behind.

## Main definitions

* `IocpProxy.ListCall`, `IocpProxy.State.listCall` : the calls, and which step makes which.
* `IocpProxy.Listing`, `IocpProxy.listing` : the refined system.

## Main results

* `IocpProxy.Listing.vector_eq` : the vector is the list of `proxy n`.
* `IocpProxy.removals_eq_filter`.
-/

namespace IocpProxy

variable {n : ℕ}

/-! ### The calls -/

/-- `std::vector<std::shared_ptr<SocketContext>>`, with the null pointers. -/
abbrev ClientVector := List (Option CtxId)

namespace ClientVector

/-- `AddToClientList`. -/
def addToClientList (v : ClientVector) (p : Option CtxId) : ClientVector := v ++ [p]

/-- The loop of `RemoveFromClientListAndCleanUpMemory`, which stops at the first match. -/
def removeFromClientList : ClientVector → Option CtxId → ClientVector
  | [], _ => []
  | q :: v, p => if p = q then v else q :: removeFromClientList v p

/-- `CleanClientList`: the entries are set to `nullptr` in turn, and the vector is cleared. -/
def cleanClientList (_ : ClientVector) : ClientVector := []

end ClientVector

/-- A call of a function on the list. -/
inductive ListCall (n : ℕ)
  | add (p : Option CtxId)
  /-- The caller is a worker, or the accept thread. -/
  | remove (w : Option (Fin n)) (p : Option CtxId)
  | clean
  deriving DecidableEq

/-- The vector after a call. -/
def ListCall.apply (v : ClientVector) : ListCall n → ClientVector
  | .add p => v.addToClientList p
  | .remove _ p => v.removeFromClientList p
  | .clean => v.cleanClientList

namespace State

/-- The call that a step makes, with the pointer it passes. -/
def listCall (s : State n) : Action n → Option (ListCall n)
  | .accept .ok =>
    match s.accept.pc with
    | .add d => some (.add (s.accept.side d))
    | .exitRemove d => some (.remove none (s.accept.side d))
    | _ => none
  | .accept .fail =>
    match s.accept.pc with
    | .assocRet _ => some (.remove none (s.accept.param.map Prod.snd))
    | _ => none
  | .worker w .ok =>
    match s.worker w with
    | .busy j .failed => some (.remove (some w) (some j.ctx))
    | _ => none
  | .main .ok =>
    match s.main with
    | .waitWorkers => some .clean
    | _ => none
  | _ => none

/-- The calls of the accept thread. -/
theorem listCall_accept {s : State n} {o : AcceptOutcome} {call : ListCall n}
    (h : s.listCall (.accept o) = some call) :
    ∃ d, s.accept.pc = .add d ∧ call = .add (s.accept.side d) ∨
      s.accept.pc = .exitRemove d ∧ call = .remove none (s.accept.side d) ∨
      s.accept.pc = .assocRet d ∧ call = .remove none (s.accept.param.map Prod.snd) := by
  cases o with
  | ok =>
    simp only [listCall] at h
    split at h <;> rename_i hpc
    · exact ⟨_, .inl ⟨hpc, (Option.some.inj h).symm⟩⟩
    · exact ⟨_, .inr (.inl ⟨hpc, (Option.some.inj h).symm⟩)⟩
    · cases h
  | fail =>
    simp only [listCall] at h
    split at h <;> rename_i hpc
    · exact ⟨_, .inr (.inr ⟨hpc, (Option.some.inj h).symm⟩)⟩
    · cases h
  | socket | slot | remote => cases h

/-- The steps that make a call. -/
theorem listCall_cases {s : State n} {a : Action n} {call : ListCall n}
    (h : s.listCall a = some call) :
    (∃ o, a = .accept o) ∨
      (∃ w j, a = .worker w .ok ∧ s.worker w = .busy j .failed ∧
        call = .remove (some w) (some j.ctx)) ∨
      a = .main .ok ∧ s.main = .waitWorkers ∧ call = .clean := by
  cases a with
  | accept o => exact .inl ⟨o, rfl⟩
  | worker w o =>
    cases o with
    | ok =>
      simp only [listCall] at h
      split at h
      · rename_i j hw
        exact .inr (.inl ⟨w, j, rfl, hw, (Option.some.inj h).symm⟩)
      · cases h
    | fail | dequeue => cases h
  | main o =>
    cases o with
    | ok =>
      simp only [listCall] at h
      split at h
      · rename_i hmain
        exact .inr (.inr ⟨rfl, hmain, (Option.some.inj h).symm⟩)
      · cases h
    | fail | socket => cases h
  | net b => cases h

/-- The local `status` of `AcceptConnection` after a step, when it was `status`. -/
def statusAfter (s : State n) (status : Bool) : Action n → Bool
  | .accept (.socket _) => true
  | .accept .fail =>
    match s.accept.pc with
    | .loop | .assocRet _ | .recv _ => false
    | _ => status
  | .accept (.remote k) =>
    if (initRemoteConnection s.handles k).remote = none then false else status
  | _ => status

end State

/-! ### The refined system -/

/-- The proxy service with its list as a vector. -/
structure Listing (n : ℕ) where
  proxy : State n
  /-- `g_ClientContext`. -/
  vector : ClientVector
  /-- The local `status` of the last call of `AcceptConnection`. -/
  status : Bool
  /-- The calls so far. -/
  log : List (ListCall n)

/-- The state after a step of `proxy n`. -/
def Listing.after (s : Listing n) (a : Action n) (t : State n) : Listing n where
  proxy := t
  vector := (s.proxy.listCall a).elim s.vector (ListCall.apply s.vector)
  status := s.proxy.statusAfter s.status a
  log := s.log ++ (s.proxy.listCall a).toList

/-- The proxy service with `n` workers and the vector. -/
def listing (n : ℕ) : TransitionSystem (Listing n) (Action n) where
  init := ⟨.initial n, [], true, []⟩
  step s a := (step s.proxy a).map (s.after a)

/-- A step of the refined system is one of `proxy n`. -/
theorem listing_step {s s' : Listing n} {a : Action n} (h : (listing n).step s a = some s') :
    ∃ t, (proxy n).step s.proxy a = some t ∧ s' = s.after a t := by
  obtain ⟨t, ht, rfl⟩ := Option.map_eq_some_iff.mp h
  exact ⟨t, ht, rfl⟩

/-- A condition on the steps of `proxy n` is one on the steps of the refined system. -/
theorem Listing.reachable_proxy_of {G : Listing n → Action n → Prop} {H : State n → Action n → Prop}
    (hG : ∀ s a, G s a → H s.proxy a) {s : Listing n} (hs : (listing n).Reachable G s) :
    (IocpProxy.proxy n).Reachable H s.proxy := by
  refine hs.simulate (f := Listing.proxy) rfl fun s a s' hg hstep => ?_
  obtain ⟨t, ht, rfl⟩ := listing_step hstep
  exact .inr ⟨a, hG s a hg, ht⟩

theorem Listing.reachable_proxy {G : Listing n → Action n → Prop} {s : Listing n}
    (hs : (listing n).Reachable G s) :
    (IocpProxy.proxy n).Reachable (fun _ _ => True) s.proxy :=
  reachable_proxy_of (fun _ _ _ => trivial) hs

/-! ### The vector and the list -/

theorem ClientVector.removeFromClientList_eq_erase (v : ClientVector) (p : Option CtxId) :
    v.removeFromClientList p = v.erase p := by
  induction v with
  | nil => rfl
  | cons q v ih =>
    by_cases hpq : p = q
    · subst hpq
      rw [removeFromClientList, if_pos rfl, List.erase_cons_head]
    · rw [removeFromClientList, if_neg hpq, ih, List.erase_cons_tail (by simpa using Ne.symm hpq)]

/-- A null pointer is not found. -/
theorem map_some_erase_none (l : List CtxId) : (l.map some).erase none = l.map some :=
  List.erase_of_not_mem (by simp)

theorem map_some_removeFromClientList {s : State n} (p : Option CtxId) :
    (s.removeFromClientList p).clientContext.map some =
      ClientVector.removeFromClientList (s.clientContext.map some) p := by
  rw [ClientVector.removeFromClientList_eq_erase]
  cases p with
  | none => exact (map_some_erase_none _).symm
  | some x => exact List.map_erase (Option.some_injective _) _

variable {s s' : State n}

/-- The list changes as the call says that the step makes. -/
theorem Move.clientContext_eq {a : Action n} (hm : Move s a s') :
    s'.clientContext.map some =
      (s.listCall a).elim (s.clientContext.map some)
        (ListCall.apply (s.clientContext.map some)) := by
  rcases hm with hm | hm | hm | hm
  · cases hm with
    | quiet hq =>
      rename_i o pc
      have hne : s.main ≠ .waitWorkers := fun h => by simp [mainQuiet, h] at hq
      cases o <;> simp [State.listCall, State.mainAt]
    | sweep hmain =>
      simp [State.listCall, hmain, State.mainAt, State.cleanClientList_clientContext,
        ListCall.apply, ClientVector.cleanClientList]
    | opened | noSocket | bindFailed => rfl
    | started hmain | stop hmain | acceptDone hmain =>
      simp [State.listCall, hmain, State.mainAt, State.acceptAt]
    | closed hmain =>
      rcases hmain with hmain | hmain <;> simp [State.listCall, hmain, State.closeListen]
  · cases hm with
    | linked hpc =>
      rw [(s.linked_frame _ _).2.2.2.1]
      simp [State.listCall, hpc]
    | @associateFailed d a y hpc hp =>
      simp only [State.listCall, hpc, hp]
      exact map_some_removeFromClientList (some y)
    | added hpc hx =>
      simp [State.listCall, hpc, hx, State.addToClientList, State.acceptAt, ListCall.apply,
        ClientVector.addToClientList]
    | @exitRemoved d hpc =>
      simp only [State.listCall, hpc]
      exact map_some_removeFromClientList (s.accept.side d)
    | exitClosed hpc | exitNulled hpc | returned hpc =>
      simp [State.listCall, hpc, State.exitNulled, State.acceptReturned]
    | accepted | remoteFailed | remoteMade | enter => rfl
    | stop hpc | failed hpc | associated hpc | posted hpc | notPosted hpc =>
      simp [State.listCall, hpc, State.acceptAt, State.acceptFailed, State.associated,
        State.postRecv, State.resetRecv, State.setCtx]
  · cases hm with
    | @removed j hw =>
      simp only [State.listCall, hw]
      exact map_some_removeFromClientList (some j.ctx)
    | dequeued | dead | notSent | notReceived => rfl
    | overrun hw =>
      rename_i o j b hf
      cases o <;> simp [State.listCall, hw, State.fail]
    | exit hw | dispatched hw | noBuddy hw | buddy hw | nullBuddy hw | sending hw | zeroed hw
    | sent hw | received hw | finished hw =>
      simp [State.listCall, hw, State.setWorker, State.fail, State.storeSend, State.postSend,
        State.setCtx, State.postRecv, State.resetRecv, State.finished]
  · rw [hm.frame.2.2.2.2.2.2.2.2.1]
    rfl

namespace Listing

/-- The vector holds the contexts of the list, and no null pointer. -/
theorem vector_eq {G : Listing n → Action n → Prop} {s : Listing n}
    (hs : (listing n).Reachable G s) : s.vector = s.proxy.clientContext.map some := by
  refine hs.invariant (I := fun s => s.vector = s.proxy.clientContext.map some) rfl
    fun s a s' ih _ hstep => ?_
  obtain ⟨t, ht, rfl⟩ := listing_step hstep
  change _ = t.clientContext.map some
  rw [(step_move ht).2.2.clientContext_eq, ← ih]
  rfl

theorem nodup_vector {G : Listing n → Action n → Prop} {s : Listing n}
    (hs : (listing n).Reachable G s) : s.vector.Nodup := by
  rw [vector_eq hs]
  exact (State.listed_of_reachable (reachable_proxy hs)).nodup.map (Option.some_injective _)

end Listing

/-- In every state, the vector holds no null pointer and no context twice; and any sequence of
removals, of contexts on the list or not, repeated or null, leaves just the rest of it. -/
theorem removals_eq_filter {s : Listing n} (hs : (listing n).Reachable (fun _ _ => True) s) :
    none ∉ s.vector ∧ s.vector.Nodup ∧ ∀ ps : List (Option CtxId),
      ps.foldl ClientVector.removeFromClientList s.vector = s.vector.filter (· ∉ ps) := by
  refine ⟨?_, Listing.nodup_vector hs, fun ps => ?_⟩
  · rw [Listing.vector_eq hs]
    simp
  · have herase : ClientVector.removeFromClientList = List.erase :=
      funext₂ ClientVector.removeFromClientList_eq_erase
    rw [herase, ← List.diff_eq_foldl, (Listing.nodup_vector hs).sdiff_eq_filter]

set_option maxRecDepth 10000 in
/-- Two contexts are on the list; the first is removed twice, one that is not there and a null
pointer in between. -/
theorem removals_eq_filter_run :
    ∃ s : Listing 2, s.vector = [some 0, some 1] ∧
      [some 0, none, some 7, some 0].foldl ClientVector.removeFromClientList s.vector =
        [some 1] := by
  obtain ⟨s, hs, hv⟩ : ∃ s : Listing 2, (listing 2).Reachable (fun _ _ => True) s ∧
      s.vector = [some 0, some 1] :=
    TransitionSystem.exists_reachable_of_runChecked (startUp ++ connection 11 12)
      (by decide +kernel)
  refine ⟨s, hv, ?_⟩
  rw [(removals_eq_filter hs).2.2, hv]
  rfl

end IocpProxy
