import IocpProxy.Proxy.Isolation

/-!
# What the completion keys lead to

`AssociateWithIOCP` takes its context by value and registers the address of that parameter as the
completion key of the socket. The parameter is gone when the function returns, and a later call
may have its parameter at the same address.

## Main definitions

* `IocpProxy.State.KeysResolve` : the key of every socket with an outstanding operation is the
  address of a living variable that holds the socket's context.

## Main results

* `IocpProxy.keysResolve_iff` : a run keeps this exactly as long as no first read is posted.
-/

namespace IocpProxy

open State

variable {n : ℕ} {s s' : State n}

/-- The keys of sockets with outstanding operations lead to living variables that hold the
contexts of the sockets, and every dequeued completion is handled with the context it belongs
to. -/
def State.KeysResolve (s : State n) : Prop :=
  (∀ k x a, s.key x = some a → 0 < s.outstanding k x → s.accept.param = some (a, x)) ∧
    ∀ w j st, s.worker w = .busy j st → j.ctx = j.owner

/-- The step is not a first read of a context posted by the accept thread. -/
def NoFirstRead (s : State n) (a : Action n) : Prop :=
  ∀ d, s.accept.pc = .recv d → a ≠ .accept .ok

/-! ### Sockets and parameters of the accept thread -/

/-- The sockets that were associated at a label have a key, and no parameter of
`AssociateWithIOCP` is left after its return. -/
structure State.Keyed (s : State n) : Prop where
  client : s.accept.pc = .assoc .remote ∨ s.accept.pc = .assocRet .remote →
    ∀ c, s.accept.client = some c → s.key c ≠ none
  both : ∀ d', (s.accept.pc = .add d' ∨ s.accept.pc = .recv d') →
    ∀ d x, s.accept.side d = some x → s.key x ≠ none
  param : (∀ d, s.accept.pc ≠ .assocRet d) → s.accept.param = none

theorem State.Keyed.congr (h : s.Keyed) (ha : s'.accept = s.accept) (hk : s'.key = s.key) :
    s'.Keyed := by
  constructor <;> rw [ha]
  · rw [hk]
    exact h.client
  · rw [hk]
    exact h.both
  · exact h.param

/-- A label at which nothing is said about the keys. -/
theorem State.Keyed.of_pc (hc : s'.accept.pc ≠ .assoc .remote ∧ s'.accept.pc ≠ .assocRet .remote)
    (hb : ∀ d, s'.accept.pc ≠ .add d ∧ s'.accept.pc ≠ .recv d) (hp : s'.accept.param = none) :
    s'.Keyed :=
  ⟨fun h => absurd h (not_or.mpr hc), fun d h => absurd h (not_or.mpr (hb d)), fun _ => hp⟩

theorem AcceptMove.keyed {o : AcceptOutcome} (hm : AcceptMove s o s') (h : s.Keyed)
    (hs : s.Sound) : s'.Keyed := by
  have gone : ∀ {pc}, s.accept.pc = pc → (∀ d, pc ≠ .assocRet d) → s.accept.param = none :=
    fun hpc hne => h.param (hpc ▸ hne)
  cases hm with
  | stop hpc | failed hpc | accepted hpc | remoteFailed hpc | remoteMade hpc =>
    exact .of_pc (by constructor <;> rintro ⟨⟩) (fun d => by constructor <;> rintro ⟨⟩)
      (gone hpc (by simp))
  | linked hpc =>
    have hp : s.accept.param = none := gone hpc (by simp)
    refine .of_pc ?_ ?_ ?_ <;>
      simp [State.linked, acceptAt, setBuddySocketContext, setCtx, hp]
  | enter hpc hx =>
    rename_i d a x
    refine ⟨fun hd c hc => ?_, fun d' hd => ?_, fun hn => absurd rfl (hn d)⟩
    · have hd' : d = .remote := by simpa [enterAssociate] using hd
      exact h.client (.inl (hd' ▸ hpc)) c hc
    · simp [enterAssociate] at hd
  | associated hpc hp =>
    rename_i d a x
    have hok := hs.acceptOk
    simp only [AcceptOk, hpc] at hok
    obtain ⟨-, a', x', hp', hx⟩ := hok
    obtain ⟨rfl, rfl⟩ := Prod.mk.inj (Option.some.inj (hp'.symm.trans hp))
    have key_ne : ∀ z, z = x' ∨ s.key z ≠ none →
        (s.associated d a' x').key z ≠ none := by
      intro z hz
      simp only [State.associated, Function.update_apply]
      split_ifs with hzx
      · exact Option.some_ne_none _
      · exact hz.resolve_left hzx
    cases d with
    | client =>
      refine ⟨fun _ c hc => key_ne c (.inl ?_), fun d' hd => ?_, fun _ => rfl⟩
      · exact Option.some.inj (hc.symm.trans hx)
      · simp [State.associated, afterAssoc] at hd
    | remote =>
      refine ⟨fun hd => ?_, fun d' _ d z hz => key_ne z ?_, fun _ => rfl⟩
      · simp [State.associated, afterAssoc] at hd
      · cases d with
        | client => exact .inr (h.client (.inr hpc) z hz)
        | remote => exact .inl (Option.some.inj (hz.symm.trans hx))
  | associateFailed hpc =>
    exact .of_pc (by constructor <;> rintro ⟨⟩) (fun d => by constructor <;> rintro ⟨⟩) rfl
  | added hpc hx =>
    rename_i d x
    have hp : s.accept.param = none := gone hpc (by simp)
    refine ⟨fun hd => ?_, fun d' _ => h.both d (.inl hpc), fun _ => hp⟩
    cases d <;> simp [acceptAt, afterAdd] at hd
  | @posted d x hpc hx =>
    have hp : s.accept.param = none := gone hpc (by simp)
    refine ⟨fun hd => ?_, fun d' _ => h.both d (.inr hpc), fun _ => hp⟩
    cases d <;> simp [acceptAt, afterRecv] at hd
  | notPosted hpc hx =>
    have hp : s.accept.param = none := gone hpc (by simp)
    exact .of_pc (by constructor <;> rintro ⟨⟩) (fun d => by constructor <;> rintro ⟨⟩) hp
  | exitClosed hpc =>
    have hp : s.accept.param = none := gone hpc (by simp)
    obtain ⟨pc, hpc', hacc⟩ := s.exitClosed_accept
    refine .of_pc ?_ ?_ ?_ <;> rw [hacc]
    · rcases hpc' with rfl | rfl <;> simp
    · rcases hpc' with rfl | rfl <;> simp
    · exact hp
  | exitRemoved hpc =>
    have hp : s.accept.param = none := gone hpc (by simp)
    refine .of_pc ?_ ?_ ?_ <;> simp [acceptAt, hp]
  | exitNulled hpc =>
    rename_i d
    have hp : s.accept.param = none := gone hpc (by simp)
    refine .of_pc ?_ ?_ ?_ <;> cases d <;>
      simp [State.exitNulled, afterNull, AcceptThread.clear, hp]
  | returned hpc =>
    have hp : s.accept.param = none := gone hpc (by simp)
    refine .of_pc ?_ ?_ ?_ <;> simp [acceptReturned, hp]

theorem State.keyed_of_reachable {G : State n → Action n → Prop}
    (hs : (proxy n).Reachable G s) : s.Keyed := by
  refine hs.invariant_step (.of_pc ?_ ?_ rfl) fun s a s' hr h _ hstep => ?_
  · constructor <;> rintro ⟨⟩
  · exact fun d => by constructor <;> rintro ⟨⟩
  · have hsound := sound_of_reachable hr
    rcases (step_move hstep).2.2 with hm | hm | hm | hm
    · cases hm with
      | started hm =>
        have hpc := hsound.boot (by simp [hm])
        have hp : s.accept.param = none := h.param (by simp [hpc])
        exact .of_pc (by constructor <;> rintro ⟨⟩) (fun d => by constructor <;> rintro ⟨⟩) hp
      | sweep =>
        have hf := s.cleanClientList_frame
        exact h.congr hf.2.2.2.1 hf.2.2.2.2.2.2.2.2.2.1
      | _ => exact h.congr rfl rfl
    · exact hm.keyed h hsound
    · exact h.congr hm.frame.1 hm.frame.2.2.2.1
    · exact h.congr hm.frame.1 hm.frame.2.2.2.1

/-! ### Runs -/

/-- Without a first read nothing is ever posted, and no worker has a completion to handle. -/
theorem State.idle_of_reachable (hs : (proxy n).Reachable NoFirstRead s) :
    (∀ k x, s.outstanding k x = 0) ∧ ∀ w j st, s.worker w ≠ .busy j st := by
  refine hs.invariant (I := fun s => (∀ k x, s.outstanding k x = 0) ∧
    ∀ w j st, s.worker w ≠ .busy j st) ⟨fun _ _ => rfl, ?_⟩ fun s a s' h hG hstep => ?_
  · simp [proxy, initial]
  · have hm := (step_move hstep).2.2
    refine ⟨fun k x => ?_, fun w j st hj => ?_⟩
    · by_contra hx
      rcases hm.outstanding_pos (Nat.pos_of_ne_zero hx) with hx | hp
      · exact absurd (h.1 k x) hx.ne'
      · rcases posts_eq_some hp with ⟨d, ha, hpc, -⟩ | ⟨w, j, -, -, hw, -⟩ | ⟨w, j, -, hw, -⟩
        · exact hG d hpc ha
        · exact h.2 w j _ hw
        · exact h.2 w j _ hw
    · rcases hm.busy hj with hw | ⟨op, c, ok, bytes, -, ho, -⟩ | ⟨o, st₀, -, hw, -⟩
      · exact h.2 w j st hw
      · exact absurd (h.1 _ _) (outstanding_pos ho).ne'
      · exact h.2 w j st₀ hw

/-- After its first read is posted, the key of a context leads to a variable that is gone. -/
theorem not_keysResolve_of_firstRead (hs : (proxy n).Reachable (fun _ _ => True) s) {d : Side}
    (hpc : s.accept.pc = .recv d) (hstep : (proxy n).step s (.accept .ok) = some s') :
    ¬ s'.KeysResolve := by
  rintro ⟨hres, -⟩
  have hkeyed := keyed_of_reachable hs
  have hparam : s.accept.param = none := hkeyed.param (by simp [hpc])
  rcases (step_move hstep).2.2 with - | hm | - | -
  cases hm with
  | @posted d x hpc hx ht =>
    obtain ⟨a, ha⟩ := Option.ne_none_iff_exists'.mp (hkeyed.both d (.inr hpc) d x hx)
    have hout : 0 < ((s.postRecv x).acceptAt (afterRecv d)).outstanding .recv x :=
      outstanding_pos_iff.mpr ⟨.posted x .recv maxBufferLen, List.mem_cons_self, rfl, rfl⟩
    have hgone : s.accept.param = some (a, x) := hres .recv x a ha hout
    rw [hparam] at hgone
    cases hgone
  | _ => simp_all

/-- The keys lead to living variables with the right context in every state of a run if and only
if the accept thread never gets as far as posting a read. -/
theorem keysResolve_iff {as : List (Action n)} {t : State n} (h : (proxy n).run as = some t) :
    (proxy n).Along as KeysResolve ↔ (proxy n).StepsMeet as NoFirstRead := by
  constructor
  · rintro hres k s a hs ha d hpc rfl
    obtain ⟨s', hstep, hs'⟩ := TransitionSystem.exists_step_of_run h hs ha
    have hreach : (proxy n).Reachable (fun _ _ => True) s := TransitionSystem.reachable_of_run hs
    exact not_keysResolve_of_firstRead hreach hpc hstep (hres (k + 1) s' hs')
  · intro hG k s hs
    obtain ⟨hout, hw⟩ := idle_of_reachable (TransitionSystem.reachable_of_stepsMeet hG k s hs)
    exact ⟨fun k x a _ hx => absurd (hout k x) hx.ne', fun w j st hj => absurd hj (hw w j st)⟩

/-- The end of the first client, while the parameter of `AssociateWithIOCP` for the second client
is at the address that is the key of the first: the worker gets the second client. -/
def crossWired (w : Fin 2) : List (Action 2) :=
  startUp ++ connection 11 12 ++ [.net (.receive (.posted 0 .recv 2048) [])] ++
    (connection 13 14).take 4 ++
    [.worker w (.dequeue { Op.posted 0 .recv 2048 with status := .done true 0 } 2)]

theorem keysResolve_iff_crossWired :
    ∃ t, (proxy 2).run (crossWired 0) = some t ∧
      ((proxy 2).Along (crossWired 0) KeysResolve ↔
        (proxy 2).StepsMeet (crossWired 0) NoFirstRead) := by
  obtain ⟨t, ht⟩ : ∃ t, (proxy 2).run (crossWired 0) = some t :=
    Option.isSome_iff_exists.mp (by decide +kernel)
  exact ⟨t, ht, keysResolve_iff ht⟩

theorem keysResolve_fails :
    ∃ t, (proxy 2).run (crossWired 0) = some t ∧
      (∃ j, t.worker 0 = .busy j .dispatch ∧ j.owner = 0 ∧ j.ctx = 2) ∧ ¬ t.KeysResolve := by
  have hrun : ((proxy 2).run (crossWired 0)).any (fun t =>
      t.worker 0 = .busy ⟨2, 0, .recv, true, 0, 0⟩ .dispatch) = true := by decide +kernel
  obtain ⟨t, ht, hw⟩ := (Option.any_eq_true _ _).mp hrun
  have hj : t.worker 0 = .busy ⟨2, 0, .recv, true, 0, 0⟩ .dispatch := of_decide_eq_true hw
  refine ⟨t, ht, ⟨_, hj, rfl, rfl⟩, fun hres => ?_⟩
  exact absurd (hres.2 0 _ _ hj) (by decide)

end IocpProxy
