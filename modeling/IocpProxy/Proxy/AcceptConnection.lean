import IocpProxy.Proxy.ClientList
import IocpProxy.Proxy.CompletionKeys
import IocpProxy.Proxy.Teardown

/-!
# What a call of `AcceptConnection` does to the client list

`AcceptConnection` makes up to two contexts and puts them on the list at its end, just before the
first receives are posted. When something fails it removes what it has made, while workers may
remove the same contexts, or others. A call is followed here from its start to its return, under any
interleaving with the other threads.

## Main definitions

* `IocpProxy.insertions`, `IocpProxy.workerRemovals` : what a log of calls tells.
* `IocpProxy.Listing.since` : the calls since an earlier state.
* `IocpProxy.Listing.OneCall` : where a call of `AcceptConnection` is, and what it has done.

## Main results

* `IocpProxy.acceptConnection_trace`.
-/

namespace IocpProxy

open State

variable {n : ℕ}

/-! ### What a log tells -/

/-- The pointer that a call puts on the list. -/
def ListCall.inserted? : ListCall n → Option (Option CtxId)
  | .add p => some p
  | .remove _ _ | .clean => none

/-- The pointer that a worker removes. -/
def ListCall.dropped? : ListCall n → Option (Option CtxId)
  | .remove (some _) p => some p
  | .add _ | .remove none _ | .clean => none

/-- The pointers that were put on the list. -/
def insertions (L : List (ListCall n)) : List (Option CtxId) := L.filterMap ListCall.inserted?

/-- The pointers that workers removed. -/
def workerRemovals (L : List (ListCall n)) : List (Option CtxId) := L.filterMap ListCall.dropped?

@[simp] theorem insertions_append (L L' : List (ListCall n)) :
    insertions (L ++ L') = insertions L ++ insertions L' := List.filterMap_append

@[simp] theorem workerRemovals_append (L L' : List (ListCall n)) :
    workerRemovals (L ++ L') = workerRemovals L ++ workerRemovals L' := List.filterMap_append

/-- The entry is a context older than `c`. -/
def Older (c : CtxId) (p : Option CtxId) : Prop := ∃ x ∈ p, x < c

instance (c : CtxId) : DecidablePred (Older c) := fun p =>
  inferInstanceAs (Decidable (∃ x ∈ p, x < c))

/-- The call takes no context older than `c` off the list, unless a worker makes it. -/
def ListCall.Spares (c : CtxId) : ListCall n → Prop
  | .add p | .remove none p => ¬ Older c p
  | .remove (some _) _ => True
  | .clean => False

section Apply

variable {c : CtxId} {v v₀ : ClientVector} {L : List (ListCall n)} {call : ListCall n}

/-- Of the older entries, those stay that no worker removes. -/
theorem ListCall.older_apply (hv : v.Nodup) (hc : call.Spares c)
    (h : v.filter (Older c) = v₀.filter (· ∉ workerRemovals L)) :
    (call.apply v).filter (Older c) = v₀.filter (· ∉ workerRemovals (L ++ [call])) := by
  cases call with
  | add p =>
    have hp : ¬ Older c p := hc
    simp [apply, ClientVector.addToClientList, hp, h, workerRemovals, dropped?]
  | clean => exact hc.elim
  | remove w p =>
    rw [apply, ClientVector.removeFromClientList_eq_erase, hv.erase_eq_filter, List.filter_filter]
    cases w with
    | none =>
      have hp : ¬ Older c p := hc
      have hsame : ∀ q ∈ v, (decide (Older c q) && q != p) = decide (Older c q) := by
        intro q _
        by_cases hq : Older c q
        · have hne : q ≠ p := fun he => hp (he ▸ hq)
          simp [hq, hne]
        · simp [hq]
      rw [List.filter_congr hsame, h]
      simp [workerRemovals, dropped?]
    | some w =>
      have hcomm : ∀ q ∈ v, (decide (Older c q) && q != p) = (q != p && decide (Older c q)) :=
        fun q _ => Bool.and_comm _ _
      rw [List.filter_congr hcomm, ← List.filter_filter, h, List.filter_filter]
      have hlast : workerRemovals [ListCall.remove (some w) p] = [p] := rfl
      refine List.filter_congr fun q _ => ?_
      rw [workerRemovals_append, hlast]
      by_cases hq : q = p <;> simp [hq]

/-- What is on the list and not older was put there. -/
theorem ListCall.newer_apply (h : ∀ x, c ≤ x → some x ∈ v → some x ∈ insertions L) :
    ∀ x, c ≤ x → some x ∈ call.apply v → some x ∈ insertions (L ++ [call]) := by
  intro x hx hmem
  rw [insertions_append, List.mem_append]
  cases call with
  | add p =>
    rcases List.mem_append.mp hmem with hmem | hmem
    · exact .inl (h x hx hmem)
    · exact .inr (by simpa [insertions, inserted?] using hmem)
  | remove w p =>
    rw [apply, ClientVector.removeFromClientList_eq_erase] at hmem
    exact .inl (h x hx (List.mem_of_mem_erase hmem))
  | clean => cases hmem

end Apply

/-! ### Which step makes which call -/

section Calls

variable {s s' : State n}

/-- While `AcceptConnection` may be called, the other threads do not touch what it works with, and
only remove entries of the list. -/
theorem Move.not_accept {a : Action n} (hm : Move s a s') (ha : ∀ o, a ≠ .accept o) (hs : s.Sound)
    (hidle : s.main = .waitWorkers → s.accept.pc = .done ∨ s.accept.pc = .notStarted)
    (hpc : s.accept.pc ≠ .done ∧ s.accept.pc ≠ .notStarted) :
    (s'.accept = s.accept ∧ s'.next = s.next ∧ s'.calls = s.calls) ∧
      (∀ b, s.statusAfter b a = b) ∧
      ∀ call ∈ s.listCall a, ∃ w p, call = .remove (some w) p := by
  cases hm with
  | main hm =>
    obtain ⟨-, hnext, hcalls, -⟩ := hm.frame
    have hwait : s.main ≠ .waitWorkers := fun h => (hidle h).elim hpc.1 hpc.2
    refine ⟨⟨?_, hnext, hcalls⟩, fun _ => rfl, fun call hcall => ?_⟩
    · cases hm with
      | started h => exact absurd (hs.boot (by simp [h])) hpc.2
      | sweep h => exact absurd h hwait
      | _ => rfl
    · rename_i o
      cases o <;> simp [listCall] at hcall
  | accept hm => exact absurd rfl (ha _)
  | worker hm =>
    obtain ⟨hacc, hcalls, -⟩ := hm.frame
    refine ⟨⟨hacc, hm.sameLinks.2, hcalls⟩, fun _ => rfl, fun call hcall => ?_⟩
    rename_i w o
    cases o with
    | ok =>
      simp only [listCall] at hcall
      split at hcall
      · exact ⟨w, _, (Option.some.inj hcall).symm⟩
      · cases hcall
    | fail | dequeue => cases hcall
  | net hm =>
    obtain ⟨hacc, hcalls, -⟩ := hm.frame
    exact ⟨⟨hacc, hm.sameLinks.2, hcalls⟩, fun _ => rfl, fun call hcall => by cases hcall⟩

end Calls

/-! ### One call -/

namespace Listing

variable {s₀ s : Listing n} {a : Action n} {t : State n}

/-- The calls since the state `s₀`. -/
def since (s₀ s : Listing n) : List (ListCall n) := s.log.drop s₀.log.length

theorem since_after (h : s₀.log <+: s.log) :
    s₀.since (s.after a t) = s₀.since s ++ (s.proxy.listCall a).toList := by
  obtain ⟨L, hL⟩ := h
  rw [since, since, after, ← hL]
  simp

/-- `AcceptConnection` has made its first one or two contexts, which are the ones after those of
`s₀`, and put `ins` on the list. -/
structure Making (s₀ s : Listing n) (made : ℕ) (ins : List (Option CtxId)) : Prop where
  status : s.status = true
  next : s.proxy.next = s₀.proxy.next + made
  client : s.proxy.accept.client = some s₀.proxy.next
  remote : made = 2 → s.proxy.accept.remote = some (s₀.proxy.next + 1)
  ins : insertions (s₀.since s) = ins

/-- `AcceptConnection` has failed, and of the new contexts only those with `P` can be on the
list. -/
structure Leaving (s₀ s : Listing n) (P : CtxId → Prop) : Prop where
  status : s.status = false
  left : ∀ x, s₀.proxy.next ≤ x → some x ∈ s.vector → P x

/-- What a call has done in the end. -/
structure Over (s₀ s : Listing n) : Prop where
  made : s.status = true → s.proxy.next = s₀.proxy.next + 2 ∧
    insertions (s₀.since s) = [some s₀.proxy.next, some (s₀.proxy.next + 1)]
  left : s.status = false → ∀ x, s₀.proxy.next ≤ x → some x ∉ s.vector

/-- What a call has done at each of its labels. -/
def Progress (s₀ s : Listing n) : Prop :=
  match s.proxy.accept.pc with
  | .notStarted | .done => False
  | .loop =>
    if s.proxy.calls = s₀.proxy.calls then
      s.proxy.next = s₀.proxy.next ∧ insertions (s₀.since s) = []
    else s₀.Over s
  | .initRemote => s₀.Making s 1 []
  | .link | .assoc _ | .assocRet _ | .add .client => s₀.Making s 2 []
  | .add .remote => s₀.Making s 2 [some s₀.proxy.next]
  | .recv _ => s.proxy.fault = none →
      s₀.Making s 2 [some s₀.proxy.next, some (s₀.proxy.next + 1)]
  | .exitClose | .exitRemove .client => s₀.Leaving s s.proxy.accept.Holds
  | .exitNull .client | .exitRemove .remote =>
    s₀.Leaving s fun x => s.proxy.accept.remote = some x
  | .exitNull .remote => s₀.Leaving s fun _ => False
  | .ret => s₀.Over s

/-- Since `s₀`, at most one call of `AcceptConnection` was begun. -/
structure OneCall (s₀ s : Listing n) : Prop where
  log : s₀.log <+: s.log
  /-- Of the entries of `s₀`, those are left that no worker removed. -/
  older : s.vector.filter (Older s₀.proxy.next) =
    s₀.vector.filter (· ∉ workerRemovals (s₀.since s))
  newer : ∀ x, s₀.proxy.next ≤ x → some x ∈ s.vector → some x ∈ insertions (s₀.since s)
  holds : ∀ x, s.proxy.accept.Holds x → s₀.proxy.next ≤ x
  begun : s.proxy.accept.pc ≠ .loop → s₀.proxy.calls < s.proxy.calls
  mono : s₀.proxy.next ≤ s.proxy.next ∧ s₀.proxy.calls ≤ s.proxy.calls
  progress : s₀.Progress s

/-! ### Steps -/

/-- The calls of the accept thread take no older context off the list. -/
theorem OneCall.spares (h : s₀.OneCall s) (hs : s.proxy.Sound) {o : AcceptOutcome}
    {call : ListCall n} (hcall : s.proxy.listCall (.accept o) = some call) :
    call.Spares s₀.proxy.next := by
  have hside : ∀ {d}, ¬ Older s₀.proxy.next (s.proxy.accept.side d) := by
    rintro d ⟨x, hx, hlt⟩
    exact absurd (h.holds x (AcceptThread.holds_side hx)) (not_le.mpr hlt)
  obtain ⟨d, ⟨-, rfl⟩ | ⟨-, rfl⟩ | ⟨hpc, rfl⟩⟩ := listCall_accept hcall
  · exact hside
  · exact hside
  · have hok := hs.acceptOk
    simp only [AcceptOk, hpc] at hok
    obtain ⟨-, a, x, hparam, hx⟩ := hok
    have hnew := hside (d := d)
    rw [hx] at hnew
    rwa [hparam]

/-- The part of the invariant that is about the list. -/
theorem OneCall.list_after (h : s₀.OneCall s) (hn : s.vector.Nodup)
    (hspares : ∀ call ∈ s.proxy.listCall a, call.Spares s₀.proxy.next) :
    s₀.log <+: (s.after a t).log ∧
    (s.after a t).vector.filter (Older s₀.proxy.next) =
      s₀.vector.filter (· ∉ workerRemovals (s₀.since (s.after a t))) ∧
    ∀ x, s₀.proxy.next ≤ x → some x ∈ (s.after a t).vector →
      some x ∈ insertions (s₀.since (s.after a t)) := by
  rw [since_after h.log]
  refine ⟨h.log.trans (List.prefix_append _ _), ?_⟩
  cases hcall : s.proxy.listCall a with
  | none =>
    simp only [after, hcall, Option.elim_none, Option.toList_none, List.append_nil]
    exact ⟨h.older, h.newer⟩
  | some call =>
    have hvec : (s.after a t).vector = call.apply s.vector := by
      rw [after, hcall]
      rfl
    rw [hvec, Option.toList_some]
    exact ⟨call.older_apply hn (hspares call hcall) h.older, call.newer_apply h.newer⟩

/-- Steps of the other threads leave the call where it is. -/
theorem Progress.congr {s' : Listing n} (h : s₀.Progress s) (hf : s.proxy.fault = none)
    (hacc : s'.proxy.accept = s.proxy.accept) (hnext : s'.proxy.next = s.proxy.next)
    (hcalls : s'.proxy.calls = s.proxy.calls) (hst : s'.status = s.status)
    (hins : insertions (s₀.since s') = insertions (s₀.since s))
    (hvec : ∀ p ∈ s'.vector, p ∈ s.vector) : s₀.Progress s' := by
  have hmaking : ∀ {m ins}, s₀.Making s m ins → s₀.Making s' m ins := by
    intro m ins hm
    exact ⟨hst ▸ hm.status, hnext ▸ hm.next, hacc ▸ hm.client, hacc ▸ hm.remote, hins ▸ hm.ins⟩
  have hleaving : ∀ {P}, s₀.Leaving s P → s₀.Leaving s' P := by
    intro P hl
    exact ⟨hst ▸ hl.status, fun x hx hmem => hl.left x hx (hvec _ hmem)⟩
  have hover : s₀.Over s → s₀.Over s' := by
    intro ho
    refine ⟨fun hs => ?_, fun hs x hx hmem => ho.left (hst ▸ hs) x hx (hvec _ hmem)⟩
    rw [hnext, hins]
    exact ho.made (hst ▸ hs)
  unfold Progress at h ⊢
  rw [hacc, hnext, hcalls, hins]
  split at h
  · exact h
  · exact h
  · split_ifs at h ⊢ with hc
    · exact h
    · exact hover h
  · exact hmaking h
  · exact hmaking h
  · exact hmaking h
  · exact hmaking h
  · exact hmaking h
  · exact hmaking h
  · exact fun _ => hmaking (h hf)
  · exact hleaving h
  · exact hleaving h
  · exact hleaving h
  · exact hleaving h
  · exact hleaving h
  · exact hover h

theorem OneCall.step_other (h : s₀.OneCall s) (hn : s.vector.Nodup) (hs : s.proxy.Sound)
    (hidle : s.proxy.main = .waitWorkers →
      s.proxy.accept.pc = .done ∨ s.proxy.accept.pc = .notStarted)
    (hf : s.proxy.fault = none) (hm : Move s.proxy a t) (ha : ∀ o, a ≠ .accept o) :
    s₀.OneCall (s.after a t) := by
  have hpc : s.proxy.accept.pc ≠ .done ∧ s.proxy.accept.pc ≠ .notStarted := by
    refine ⟨fun hpc => ?_, fun hpc => ?_⟩ <;> exact absurd h.progress (by simp [Progress, hpc])
  obtain ⟨⟨hacc, hnext, hcalls⟩, hst, hcall⟩ := hm.not_accept ha hs hidle hpc
  have hspares : ∀ call ∈ s.proxy.listCall a, call.Spares s₀.proxy.next := by
    intro call hmem
    obtain ⟨w, p, rfl⟩ := hcall call hmem
    trivial
  obtain ⟨hlog, holder, hnewer⟩ := h.list_after (t := t) hn hspares
  have hins : insertions (s₀.since (s.after a t)) = insertions (s₀.since s) ∧
      ∀ p ∈ (s.after a t).vector, p ∈ s.vector := by
    rw [since_after h.log, insertions_append]
    cases hc : s.proxy.listCall a with
    | none => simp [after, hc, insertions]
    | some call =>
      obtain ⟨w, p, rfl⟩ := hcall call hc
      refine ⟨List.append_nil _, fun q hq => ?_⟩
      have hq' : q ∈ s.vector.removeFromClientList p := by
        rw [after, hc] at hq
        exact hq
      rw [ClientVector.removeFromClientList_eq_erase] at hq'
      exact List.mem_of_mem_erase hq'
  refine ⟨hlog, holder, hnewer, ?_, ?_, ?_, ?_⟩
  · rw [after, hacc]
    exact h.holds
  · rw [after, hacc, hcalls]
    exact h.begun
  · rw [after, hnext, hcalls]
    exact h.mono
  · exact h.progress.congr hf hacc hnext hcalls (hst _) hins.1 hins.2

theorem OneCall.step_accept (h : s₀.OneCall s) (hn : s.vector.Nodup) (hs : s.proxy.Sound)
    {o : AcceptOutcome} (hm : AcceptMove s.proxy o t) (hpc : t.accept.pc ≠ .done)
    (hprog : s₀.Progress (s.after (.accept o) t)) : s₀.OneCall (s.after (.accept o) t) := by
  obtain ⟨hlog, holder, hnewer⟩ := h.list_after (t := t) hn fun _ => h.spares hs
  obtain ⟨hnext, hcalls, hloop⟩ := hm.calls_cases
  refine ⟨hlog, holder, hnewer, fun x hx => ?_, fun hne => ?_, ?_, hprog⟩
  · by_cases hlt : x < s.proxy.next
    · exact h.holds x ((Move.accept hm).accept_holds hlt hx)
    · exact h.mono.1.trans (not_lt.mp hlt)
  · by_cases hl : s.proxy.accept.pc = .loop
    · have hc := (hloop hl).resolve_right hpc
      exact Nat.lt_of_le_of_lt h.mono.2 (hc ▸ Nat.lt_succ_self _)
    · exact (h.begun hl).trans_le hcalls
  · exact ⟨h.mono.1.trans hnext, h.mono.2.trans hcalls⟩

/-- The contexts made stay where they are, and `ins'` is on the list after the step. -/
theorem Making.after {m : ℕ} {ins ins' : List (Option CtxId)} (hp : s₀.Making s m ins)
    (hlog : s₀.log <+: s.log) (hst : s.proxy.statusAfter s.status a = s.status)
    (hnext : t.next = s.proxy.next) (hclient : t.accept.client = s.proxy.accept.client)
    (hremote : t.accept.remote = s.proxy.accept.remote)
    (hins : ins' = ins ++ insertions (s.proxy.listCall a).toList) :
    s₀.Making (s.after a t) m ins' where
  status := hst.trans hp.status
  next := hnext.trans hp.next
  client := hclient.trans hp.client
  remote hm := hremote.trans (hp.remote hm)
  ins := by rw [since_after hlog, insertions_append, hp.ins, hins]

theorem vector_after (hcall : s.proxy.listCall a = none) : (s.after a t).vector = s.vector := by
  simp [after, hcall]

/-- When a call fails, only those of its contexts can be on the list that were put there. -/
theorem OneCall.leaving (h : s₀.OneCall s) (hn : s.vector.Nodup) (hs : s.proxy.Sound)
    {o : AcceptOutcome} {P : CtxId → Prop}
    (hst : s.proxy.statusAfter s.status (.accept o) = false)
    (hP : ∀ x, some x ∈ insertions (s₀.since s) ++
      insertions (s.proxy.listCall (.accept o)).toList → P x) :
    s₀.Leaving (s.after (.accept o) t) P := by
  obtain ⟨-, -, hnewer⟩ := h.list_after (t := t) hn fun _ => h.spares hs
  refine ⟨hst, fun x hx hmem => hP x ?_⟩
  have hnew := hnewer x hx hmem
  rwa [since_after h.log, insertions_append] at hnew

/-- Closing the sockets leaves the list as it is, and a failed call without contexts is over. -/
theorem Progress.exitClosed (h : s₀.Progress s) (hpc : s.proxy.accept.pc = .exitClose) :
    s₀.Progress (s.after (.accept .ok) s.proxy.exitClosed) := by
  simp only [Progress, hpc] at h
  have hvec : (s.after (.accept .ok) s.proxy.exitClosed).vector = s.vector :=
    vector_after (by simp [listCall, hpc])
  have hacc : (s.after (.accept .ok) s.proxy.exitClosed).proxy.accept = _ :=
    s.proxy.exitClosed_accept_eq
  have hl : s₀.Leaving (s.after (.accept .ok) s.proxy.exitClosed) s.proxy.accept.Holds :=
    ⟨h.status, fun x hx hmem => h.left x hx (hvec ▸ hmem)⟩
  unfold Progress
  rw [hacc]
  by_cases hnone : s.proxy.accept.client = none ∧ s.proxy.accept.remote = none
  · rw [if_pos hnone]
    refine ⟨fun hst => ?_, fun _ x hx hmem => ?_⟩
    · cases hl.status.symm.trans hst
    · rcases hl.left x hx hmem with hh | hh
      · cases hnone.1.symm.trans hh
      · cases hnone.2.symm.trans hh
  · rw [if_neg hnone]
    exact hl

/-- The local that is removed is no longer on the list. -/
theorem Progress.exitRemoved (h : s₀.Progress s) (hn : s.vector.Nodup) {d : Side}
    (hpc : s.proxy.accept.pc = .exitRemove d) :
    s₀.Progress (s.after (.accept .ok) ((s.proxy.removeFromClientList
      (s.proxy.accept.side d)).acceptAt (.exitNull d))) := by
  have hacc : (s.after (.accept .ok) ((s.proxy.removeFromClientList
      (s.proxy.accept.side d)).acceptAt (.exitNull d))).proxy.accept =
      { s.proxy.accept with pc := .exitNull d } := by
    simp [Listing.after, acceptAt]
  have hvec : ∀ {p}, p ∈ (s.after (.accept .ok) ((s.proxy.removeFromClientList
      (s.proxy.accept.side d)).acceptAt (.exitNull d))).vector →
      p ≠ s.proxy.accept.side d ∧ p ∈ s.vector := by
    intro p hp
    simp only [Listing.after, listCall, hpc, Option.elim_some, ListCall.apply,
      ClientVector.removeFromClientList_eq_erase] at hp
    exact hn.mem_erase_iff.mp hp
  unfold Progress
  rw [hacc]
  cases d with
  | client =>
    simp only [Progress, hpc] at h
    refine ⟨h.status, fun x hx hmem => ?_⟩
    obtain ⟨hne, hmem⟩ := hvec hmem
    exact (h.left x hx hmem).resolve_left (Ne.symm hne)
  | remote =>
    simp only [Progress, hpc] at h
    refine ⟨h.status, fun x hx hmem => ?_⟩
    obtain ⟨hne, hmem⟩ := hvec hmem
    exact hne (h.left x hx hmem).symm

/-- After the second local is set to null the failed call is over. -/
theorem Progress.exitNulled (h : s₀.Progress s) {d : Side}
    (hpc : s.proxy.accept.pc = .exitNull d) :
    s₀.Progress (s.after (.accept .ok) (s.proxy.exitNulled d)) := by
  have hvec : (s.after (.accept .ok) (s.proxy.exitNulled d)).vector = s.vector :=
    vector_after (by simp [listCall, hpc])
  have hacc : (s.after (.accept .ok) (s.proxy.exitNulled d)).proxy.accept =
      { s.proxy.accept.clear d with pc := afterNull d } := by
    simp [Listing.after, State.exitNulled]
  unfold Progress
  rw [hacc]
  cases d with
  | client =>
    simp only [Progress, hpc] at h
    exact ⟨h.status, fun x hx hmem => h.left x hx (hvec ▸ hmem)⟩
  | remote =>
    simp only [Progress, hpc] at h
    refine ⟨fun hst => ?_, fun _ x hx hmem => h.left x hx (hvec ▸ hmem)⟩
    cases h.status.symm.trans hst

/-- Back at the loop head, the call that was begun is over. -/
theorem OneCall.progress_returned (h : s₀.OneCall s) (hpc : s.proxy.accept.pc = .ret) :
    s₀.Progress (s.after (.accept .ok) s.proxy.acceptReturned) := by
  have hp := h.progress
  simp only [Progress, hpc] at hp
  have hvec : (s.after (.accept .ok) s.proxy.acceptReturned).vector = s.vector :=
    vector_after (by simp [listCall, hpc])
  have hins : insertions (s₀.since (s.after (.accept .ok) s.proxy.acceptReturned)) =
      insertions (s₀.since s) := by
    rw [since_after h.log, insertions_append]
    simp [listCall, hpc, insertions]
  have hnext : s.proxy.acceptReturned.next = s.proxy.next := by simp [acceptReturned]
  have hpc' : (s.after (.accept .ok) s.proxy.acceptReturned).proxy.accept.pc = .loop := by
    simp [Listing.after, acceptReturned]
  have hbegun : (s.after (.accept .ok) s.proxy.acceptReturned).proxy.calls ≠ s₀.proxy.calls := by
    have hlt := h.begun (by simp [hpc])
    simp only [Listing.after, acceptReturned, releaseOpt_frame]
    omega
  unfold Progress
  simp only [hpc', if_neg hbegun]
  refine ⟨fun hst => ?_, fun hst x hx hmem => hp.left hst x hx (hvec ▸ hmem)⟩
  exact ⟨hnext.trans (hp.made hst).1, hins.trans (hp.made hst).2⟩

/-- An accept step at each label leads to what the next label tells. -/
theorem OneCall.progress_accept (h : s₀.OneCall s) (hn : s.vector.Nodup) (hs : s.proxy.Sound)
    (hf : s.proxy.fault = none) {o : AcceptOutcome} (hm : AcceptMove s.proxy o t)
    (hcalls : t.calls ≤ s₀.proxy.calls + 1) (hdone : t.accept.pc ≠ .done) :
    s₀.Progress (s.after (.accept o) t) := by
  have hp := h.progress
  -- at the loop head nothing was made yet
  have hstart : s.proxy.accept.pc = .loop → t.calls = s.proxy.calls + 1 →
      s.proxy.next = s₀.proxy.next ∧ insertions (s₀.since s) = [] := by
    intro hpc hc
    have hle := h.mono.2
    simpa only [Progress, hpc, if_pos (show s.proxy.calls = s₀.proxy.calls by omega)] using hp
  cases hm with
  | stop => exact absurd rfl hdone
  | failed hpc =>
    obtain ⟨-, hins⟩ := hstart hpc rfl
    refine h.leaving hn hs (by simp [statusAfter, hpc]) fun x hx => ?_
    rw [hins] at hx
    simp [listCall, hpc, insertions] at hx
  | accepted hpc =>
    obtain ⟨hnext, hins⟩ := hstart hpc rfl
    refine ⟨rfl, congrArg (· + 1) hnext, congrArg some hnext, fun hm => (by cases hm), ?_⟩
    rw [since_after h.log, insertions_append, hins]
    rfl
  | @remoteFailed k hpc hk hr =>
    simp only [Progress, hpc] at hp
    refine h.leaving hn hs (by simp [statusAfter, hr]) fun x hx => ?_
    rw [hp.ins] at hx
    cases hx
  | @remoteMade k v hpc hv hr =>
    simp only [Progress, hpc] at hp
    refine ⟨?_, congrArg (· + 1) hp.next, hp.client, fun _ => congrArg some hp.next, ?_⟩
    · simpa [Listing.after, statusAfter, hr] using hp.status
    · rw [since_after h.log, insertions_append, hp.ins]
      rfl
  | @linked c r hpc hc hr =>
    simp only [Progress, hpc] at hp
    have hlinked : (s.proxy.linked c r).accept = { s.proxy.accept with pc := .assoc .client } := by
      simp [State.linked, acceptAt, setBuddySocketContext, setCtx]
    have hacc : (s.after (.accept .ok) (s.proxy.linked c r)).proxy.accept = _ := hlinked
    unfold Progress
    rw [hacc]
    exact hp.after h.log rfl (s.proxy.linked_frame c r).1 (by rw [hlinked]) (by rw [hlinked])
      (by simp [listCall, hpc, insertions])
  | enter hpc =>
    simp only [Progress, hpc] at hp
    exact hp.after h.log rfl rfl rfl rfl rfl
  | @associated d a x hpc hx =>
    simp only [Progress, hpc] at hp
    have hmade : s₀.Making (s.after (.accept .ok) (s.proxy.associated d a x)) 2 [] :=
      hp.after h.log rfl rfl rfl rfl (by simp [listCall, hpc, insertions])
    cases d <;> exact hmade
  | @associateFailed d a x hpc hx =>
    simp only [Progress, hpc] at hp
    refine h.leaving hn hs (by simp [statusAfter, hpc]) fun y hy => ?_
    rw [hp.ins] at hy
    simp [listCall, hpc, insertions, ListCall.inserted?] at hy
  | @added d x hpc hx =>
    have hcall : s.proxy.listCall (.accept .ok) = some (.add (some x)) := by
      simp [listCall, hpc, hx]
    cases d with
    | client =>
      simp only [Progress, hpc] at hp
      obtain rfl : s₀.proxy.next = x := Option.some.inj (hp.client.symm.trans hx)
      exact hp.after h.log rfl rfl rfl rfl (by rw [hcall]; rfl)
    | remote =>
      simp only [Progress, hpc] at hp
      obtain rfl : s₀.proxy.next + 1 = x := Option.some.inj ((hp.remote rfl).symm.trans hx)
      exact fun _ => hp.after h.log rfl rfl rfl rfl (by rw [hcall]; rfl)
  | @posted d x hpc hx ht =>
    simp only [Progress, hpc] at hp
    have hmade : s₀.Making (s.after (.accept .ok) ((s.proxy.postRecv x).acceptAt (afterRecv d))) 2
        [some s₀.proxy.next, some (s₀.proxy.next + 1)] :=
      (hp hf).after h.log rfl rfl rfl rfl (by simp [listCall, hpc, insertions])
    cases d with
    | client => exact fun _ => hmade
    | remote =>
      exact ⟨fun _ => ⟨hmade.next, hmade.ins⟩, fun hst => by simp [hmade.status] at hst⟩
  | @notPosted d x hpc hx =>
    simp only [Progress, hpc] at hp
    refine h.leaving hn hs (by simp [statusAfter, hpc]) fun y hy => ?_
    -- the new entries are the two contexts made, which the locals hold
    rw [(hp hf).ins] at hy
    have hy' : y = s₀.proxy.next ∨ y = s₀.proxy.next + 1 := by
      simpa [listCall, hpc, insertions] using hy
    rcases hy' with rfl | rfl
    · exact .inl (hp hf).client
    · exact .inr ((hp hf).remote rfl)
  | exitClosed hpc => exact hp.exitClosed hpc
  | exitRemoved hpc => exact hp.exitRemoved hn hpc
  | exitNulled hpc => exact hp.exitNulled hpc
  | returned hpc => exact h.progress_returned hpc

/-! ### Runs -/

/-- A step that begins no second call keeps the invariant. -/
theorem OneCall.step {s' : Listing n} (h : s₀.OneCall s)
    (hs : (listing n).Reachable (fun _ _ => True) s) (hstep : (listing n).step s a = some s')
    (hcalls : s'.proxy.calls ≤ s₀.proxy.calls + 1) (hpc : s'.proxy.accept.pc ≠ .done) :
    s₀.OneCall s' := by
  obtain ⟨t, ht, rfl⟩ := listing_step hstep
  obtain ⟨hf, -, hm⟩ := step_move ht
  have hproxy := reachable_proxy hs
  have hn := nodup_vector hs
  have hsound := sound_of_reachable hproxy
  cases hm with
  | accept hm =>
    exact h.step_accept hn hsound hm hpc (h.progress_accept hn hsound hf hm hcalls hpc)
  | main hm =>
    exact h.step_other hn hsound (idle_of_waitWorkers hproxy) hf (.main hm) fun _ => nofun
  | worker hm =>
    exact h.step_other hn hsound (idle_of_waitWorkers hproxy) hf (.worker hm) fun _ => nofun
  | net hm =>
    exact h.step_other hn hsound (idle_of_waitWorkers hproxy) hf (.net hm) fun _ => nofun

/-- Before the call. -/
theorem OneCall.refl (hs : (listing n).Reachable (fun _ _ => True) s₀)
    (hpc : s₀.proxy.accept.pc = .loop) : s₀.OneCall s₀ := by
  have hproxy := reachable_proxy hs
  have hsound := sound_of_reachable hproxy
  have hsince : s₀.since s₀ = [] := List.drop_length
  have hlt : ∀ p ∈ s₀.vector, Older s₀.proxy.next p := by
    intro p hp
    rw [vector_eq hs] at hp
    obtain ⟨x, hx, rfl⟩ := List.mem_map.mp hp
    exact ⟨x, rfl, hsound.added_lt x ((listed_of_reachable hproxy).added x hx)⟩
  refine ⟨List.prefix_rfl, ?_, fun x hx hmem => ?_, ?_, fun hne => absurd hpc hne,
    ⟨le_rfl, le_rfl⟩, ?_⟩
  · rw [hsince, List.filter_eq_self.mpr (by simpa using hlt)]
    exact (List.filter_eq_self.mpr (by simp [workerRemovals])).symm
  · obtain ⟨y, hy, hyx⟩ := hlt _ hmem
    obtain rfl := Option.some.inj hy
    exact absurd hyx (not_lt.mpr hx)
  · obtain ⟨hc, hr⟩ := hsound.acceptOk.locals_eq_none hpc
    rintro x (hx | hx)
    · cases hc.symm.trans hx
    · cases hr.symm.trans hx
  · simp [Progress, hpc, hsince, insertions]

theorem OneCall.of_run {as : List (Action n)} {s₁ : Listing n}
    (hs : (listing n).Reachable (fun _ _ => True) s₀) (hpc : s₀.proxy.accept.pc = .loop)
    (hrun : (listing n).runFrom s₀ as = some s₁) (hcalls : s₁.proxy.calls ≤ s₀.proxy.calls + 1)
    (hpc₁ : s₁.proxy.accept.pc ≠ .done) :
    (listing n).Reachable (fun _ _ => True) s₁ ∧ s₀.OneCall s₁ := by
  let I (s : Listing n) : Prop := (listing n).Reachable (fun _ _ => True) s ∧
    (s.proxy.calls ≤ s₀.proxy.calls + 1 → s.proxy.accept.pc ≠ .done → s₀.OneCall s)
  have hI : I s₁ := by
    refine TransitionSystem.invariant_of_runFrom (I := I) (fun s a s' ih hstep => ?_)
      ⟨hs, fun _ _ => .refl hs hpc⟩ hrun
    refine ⟨.step ih.1 trivial hstep, fun hcalls hpc => ?_⟩
    obtain ⟨t, ht, rfl⟩ := listing_step hstep
    have hm := (step_move ht).2.2
    have hnot : s.proxy.accept.pc ≠ .done := fun hd =>
      hpc (hm.accept_done (sound_of_reachable (reachable_proxy ih.1)) hd)
    exact (ih.2 (hm.calls_le.trans hcalls) hnot).step ih.1 hstep hcalls hpc
  exact ⟨hI.1, hI.2 hcalls hpc₁⟩

end Listing

/-- A call of `AcceptConnection`, from the loop head to the loop head, under any interleaving. When
it fails, no context made in it is on the list, its locals refer to nothing, and the list is the
earlier one without what the workers removed. When it succeeds, it has made two contexts, and each
was put on the list once. -/
theorem acceptConnection_trace {s₀ s₁ : Listing n} {as : List (Action n)}
    (hs : (listing n).Reachable (fun _ _ => True) s₀) (hpc₀ : s₀.proxy.accept.pc = .loop)
    (hrun : (listing n).runFrom s₀ as = some s₁) (hpc₁ : s₁.proxy.accept.pc = .loop)
    (hcalls : s₁.proxy.calls = s₀.proxy.calls + 1) :
    (s₁.status = false →
      (∀ x, s₀.proxy.next ≤ x → some x ∉ s₁.vector) ∧
      (s₁.proxy.accept.client = none ∧ s₁.proxy.accept.remote = none ∧
        s₁.proxy.accept.param = none) ∧
      s₁.vector = s₀.vector.filter (· ∉ workerRemovals (s₀.since s₁))) ∧
    (s₁.status = true →
      s₁.proxy.next = s₀.proxy.next + 2 ∧
      insertions (s₀.since s₁) = [some s₀.proxy.next, some (s₀.proxy.next + 1)]) := by
  obtain ⟨hs₁, hone⟩ := Listing.OneCall.of_run hs hpc₀ hrun hcalls.le (by simp [hpc₁])
  have hproxy := Listing.reachable_proxy hs₁
  have hover : s₀.Over s₁ := by
    have hprog := hone.progress
    simpa only [Listing.Progress, hpc₁,
      if_neg (show s₁.proxy.calls ≠ s₀.proxy.calls by omega)] using hprog
  refine ⟨fun hst => ⟨hover.left hst, ?_, ?_⟩, hover.made⟩
  · obtain ⟨hc, hr⟩ := (sound_of_reachable hproxy).acceptOk.locals_eq_none hpc₁
    exact ⟨hc, hr, (keyed_of_reachable hproxy).param (by simp [hpc₁])⟩
  · rw [← hone.older, eq_comm, List.filter_eq_self]
    intro p hp
    rw [Listing.vector_eq hs₁] at hp
    obtain ⟨x, hx, rfl⟩ := List.mem_map.mp hp
    have hlt : x < s₀.proxy.next := by
      by_contra hle
      refine hover.left hst x (not_lt.mp hle) ?_
      rw [Listing.vector_eq hs₁]
      exact hp
    exact decide_eq_true ⟨x, rfl, hlt⟩

/-- A second call that fails at the receive of its remote context, while the worker `w` removes the
client of the first one. -/
def failingCall (w : Fin 2) : List (Action 2) :=
  [.accept (.socket 21), .accept (.remote (remoteOk 22)), .accept .ok, .accept (.slot 5),
    .accept .ok, .accept (.slot 5), .accept .ok, .accept .ok, .accept .ok, .accept .ok] ++
    closed w 0 ++ [.accept .fail] ++ List.replicate 6 (.accept .ok)

set_option maxRecDepth 10000 in
theorem acceptConnection_trace_run :
    ∃ s₀ s₁ : Listing 2, s₀.vector = [some 0, some 1] ∧ s₁.status = false ∧
      insertions (s₀.since s₁) = [some 2, some 3] ∧ s₁.vector = [some 1] := by
  obtain ⟨s₀, s₁, hs, hrun, hpc₀, hpc₁, hcalls, hst, hv, hins, hrem⟩ : ∃ s₀ s₁ : Listing 2,
      (listing 2).Reachable (fun _ _ => True) s₀ ∧
      (listing 2).runFrom s₀ (failingCall 1) = some s₁ ∧ s₀.proxy.accept.pc = .loop ∧
      s₁.proxy.accept.pc = .loop ∧ s₁.proxy.calls = s₀.proxy.calls + 1 ∧ s₁.status = false ∧
      s₀.vector = [some 0, some 1] ∧ insertions (s₀.since s₁) = [some 2, some 3] ∧
      workerRemovals (s₀.since s₁) = [some 0] :=
    TransitionSystem.exists_runFrom_of_any (startUp ++ connection 11 12) (failingCall 1)
      (by decide +kernel)
  obtain ⟨-, -, hvec⟩ := (acceptConnection_trace hs hpc₀ hrun hpc₁ hcalls).1 hst
  refine ⟨s₀, s₁, hv, hst, hins, ?_⟩
  rw [hvec, hrem, hv]
  rfl

end IocpProxy
