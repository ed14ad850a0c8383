import IocpProxy.Proxy.CriticalSections

/-!
# The calls on shared data take effect one after another

The proxy enters its critical sections in one order of nesting and uses the data of each only
inside it. So the steps of the threads, in whatever order they come, have the same effect as whole
calls made one after another, and no two threads wait for each other.

## Main definitions

* `IocpProxy.SharedPc.held` : the sections a thread is in.
* `IocpProxy.SharedData.Correct`, `IocpProxy.SharedData.At` : what holds of the data outside and
  inside its section.
* `IocpProxy.Logged` : which calls have taken effect.
* `IocpProxy.Said` : which messages were printed.

## Main results

* `IocpProxy.clientList_linearizable` : the list is what the calls make of it one after another.
* `IocpProxy.console_whole` : messages are printed one after another.
* `IocpProxy.criticalSections_deadlock_free`.
-/

namespace IocpProxy

variable {τ : Type}

/-! ### Which sections a thread is in -/

/-- The sections that a thread is in when it calls `WriteToConsole`. -/
def ConsoleReturn.held : ConsoleReturn → List CriticalSection
  | .caller => []
  | .first _ | .second => [.clientList]

/-- The sections that a thread is in, the latest first. -/
def SharedPc.held : SharedPc → List CriticalSection
  | .idle | .countEnter _ | .addEnter _ | .removeEnter _ _ _ | .cleanEnter => []
  | .countLoad _ | .countStore _ _ | .countLeave => [.numSockCntxt]
  | .consoleEnter _ r => r.held
  | .vprintf _ _ r | .consoleLeave r => .console :: r.held
  | .pushBack _ | .compare _ _ _ _ | .erase _ _ _ _ | .setNull _ | .clear | .listLeave =>
    [.clientList]

@[simp] theorem ConsoleReturn.held_resume (r : ConsoleReturn) : r.resume.held = r.held := by
  cases r <;> rfl

/-- The section of the console is entered inside that of the list. -/
def NestedSections (l m : CriticalSection) : Prop := l = .clientList ∧ m = .console

theorem nestedSections_wf : WellFounded (flip NestedSections) := by
  have hconsole : Acc (flip NestedSections) .console :=
    ⟨_, fun _ h => absurd h.1 (by simp)⟩
  refine ⟨fun l => ⟨_, fun m h => ?_⟩⟩
  obtain rfl : m = .console := h.2
  exact hconsole

theorem ConsoleReturn.nested {r : ConsoleReturn} {m : CriticalSection} (hm : m ∈ r.held) :
    NestedSections m .console := by
  cases r with
  | caller => simp [held] at hm
  | first | second => exact ⟨List.mem_singleton.mp hm, rfl⟩

namespace SharedThread

variable {t : τ} {k : SharedThread} {p : Option CtxId} {i : ℕ} {m₁ m₂ : Message}

theorem held_printed {m : Message} {r : ConsoleReturn} (x : ConsoleData τ) :
    (k.printed t m i r x).1.pc.held = .console :: r.held := by
  unfold printed
  split <;> rfl

theorem held_compared (x : ListData τ) :
    (k.compared t p i m₁ m₂ x).1.pc.held = [.clientList] := by
  unfold compared
  split
  · split_ifs <;> rfl
  · rfl

theorem held_nulled (x : ListData τ) : (k.nulled i x).1.pc.held = [.clientList] := by
  unfold nulled
  split_ifs <;> rfl

end SharedThread

/-- The sections are left in the opposite order, and data is used in its section only. -/
theorem sharedProgram_disciplined :
    (sharedProgram τ).Disciplined (fun k => k.pc.held) NestedSections where
  done := by
    rintro t ⟨pc, begun, said⟩ h
    cases pc with
    | idle => exact ⟨rfl, fun c => by cases c <;> rfl⟩
    | _ => cases h
  acquire := by
    rintro t ⟨pc, begun, said⟩ l k' h
    cases pc with
    | countEnter | addEnter | removeEnter | cleanEnter =>
      cases h
      exact ⟨rfl, fun m hm => absurd hm List.not_mem_nil⟩
    | consoleEnter m r =>
      cases h
      exact ⟨rfl, fun _ hm => r.nested hm⟩
    | _ => cases h
  release := by
    rintro t ⟨pc, begun, said⟩ l k' h
    cases pc with
    | countLeave | listLeave =>
      cases h
      rfl
    | consoleLeave r =>
      cases h
      exact (congrArg (CriticalSection.console :: ·) r.held_resume).symm
    | _ => cases h
  access := by
    rintro t ⟨pc, begun, said⟩ l f h
    cases pc with
    | countLoad | countStore | pushBack | erase | clear =>
      cases h
      exact ⟨List.mem_cons_self, fun _ => rfl⟩
    | vprintf m i r =>
      cases h
      exact ⟨List.mem_cons_self, fun x => SharedThread.held_printed x⟩
    | compare p i m₁ m₂ =>
      cases h
      exact ⟨List.mem_cons_self, fun x => SharedThread.held_compared x⟩
    | setNull i =>
      cases h
      exact ⟨List.mem_cons_self, fun x => SharedThread.held_nulled x⟩
    | _ => cases h

/-! ### What holds of the data -/

/-- The erased entry is the first one that the loop over the vector finds. -/
theorem ClientVector.eraseIdx_eq_removeFromClientList {v : ClientVector} {p : Option CtxId} {i : ℕ}
    (hi : v[i]? = some p) (hfirst : p ∉ v.take i) : v.eraseIdx i = v.removeFromClientList p := by
  induction v generalizing i with
  | nil => simp at hi
  | cons q v ih =>
    cases i with
    | zero =>
      obtain rfl : q = p := by simpa using hi
      rw [removeFromClientList, if_pos rfl, List.eraseIdx_cons_zero]
    | succ i =>
      rw [List.take_succ_cons, List.mem_cons, not_or] at hfirst
      rw [removeFromClientList, if_neg hfirst.1, List.eraseIdx_cons_succ,
        ih (by simpa using hi) hfirst.2]

/-- A loop that comes to the end of the vector has found nothing. -/
theorem ClientVector.removeFromClientList_of_not_mem {v : ClientVector} {p : Option CtxId}
    (h : p ∉ v) : v.removeFromClientList p = v := by
  rw [removeFromClientList_eq_erase, List.erase_of_not_mem h]

/-- The vector is what the calls in the log make of the empty one. -/
def ListData.Correct (x : ListData τ) : Prop := x.vector = x.calls.foldl SharedCall.apply []

/-- Whole messages were printed. -/
def ConsoleData.Correct (x : ConsoleData τ) : Prop := x.out = (x.log.map Prod.snd).flatten

/-- The count is the sum of what the calls in the log added. -/
def CountData.Correct (x : CountData τ) : Prop := x.value = (x.log.map fun e => e.2.delta).sum

/-- What holds of the data in a section that nobody is in. -/
def SharedData.Correct : (l : CriticalSection) → SharedData τ l → Prop
  | .numSockCntxt => CountData.Correct
  | .clientList => ListData.Correct
  | .console => ConsoleData.Correct

/-- What holds of the vector while a thread at a label is in its section. -/
def ListData.At (x : ListData τ) : SharedPc → Prop
  | .compare p i _ _ => x.Correct ∧ p ∉ x.vector.take i
  | .erase p i _ _ => x.Correct ∧ p ∉ x.vector.take i ∧ x.vector[i]? = some p
  | .setNull _ | .clear => True
  | _ => x.Correct

/-- What holds of the output while a thread at a label is in its section. -/
def ConsoleData.At (x : ConsoleData τ) : SharedPc → Prop
  | .vprintf m i _ => x.out = (x.log.map Prod.snd).flatten ++ m.take i
  | _ => x.Correct

/-- What holds of the count while a thread at a label is in its section. -/
def CountData.At (x : CountData τ) : SharedPc → Prop
  | .countStore _ v => x.Correct ∧ v = x.value
  | _ => x.Correct

/-- What holds of the data while the thread at a label is in its section. -/
def SharedData.At (k : SharedThread) : (l : CriticalSection) → SharedData τ l → Prop
  | .numSockCntxt => fun x => CountData.At x k.pc
  | .clientList => fun x => ListData.At x k.pc
  | .console => fun x => ConsoleData.At x k.pc

theorem ListData.calls_append (x : ListData τ) (v : ClientVector) (t : τ) (c : SharedCall) :
    (⟨v, x.log ++ [(t, c)]⟩ : ListData τ).calls = x.calls ++ [c] := by
  simp [calls]

/-- A call takes effect. -/
theorem ListData.Correct.append {x : ListData τ} (h : x.Correct) {t : τ} {c : SharedCall}
    {v : ClientVector} (hv : v = c.apply x.vector) :
    ListData.Correct (⟨v, x.log ++ [(t, c)]⟩ : ListData τ) := by
  rw [Correct, calls_append, List.foldl_append, ← h]
  exact hv

namespace SharedThread

variable {t : τ} {k : SharedThread} {p : Option CtxId} {i : ℕ} {m₁ m₂ : Message}

theorem at_stored {up : Bool} {v : ℤ} {x : CountData τ} (h : x.At (.countStore up v)) :
    (k.stored t up v x).2.At (k.stored t up v x).1.pc := by
  obtain ⟨hx, rfl⟩ := h
  have hx' : x.value = (x.log.map fun e => e.2.delta).sum := hx
  change CountData.Correct ⟨x.value + if up then 1 else -1, x.log ++ [(t, .count up)]⟩
  cases up <;> simp [CountData.Correct, hx', SharedCall.delta, SharedCall.count]

theorem at_printed {m : Message} {r : ConsoleReturn} {x : ConsoleData τ}
    (h : x.At (.vprintf m i r)) : (k.printed t m i r x).2.At (k.printed t m i r x).1.pc := by
  have hx : x.out = (x.log.map Prod.snd).flatten ++ m.take i := h
  unfold printed
  split
  next c hc =>
    change x.out ++ [c] = (x.log.map Prod.snd).flatten ++ m.take (i + 1)
    rw [hx, List.append_assoc, List.take_add_one, hc]
    rfl
  next hnone =>
    -- all characters are printed, and the message is complete
    have htake : m.take i = m := List.take_of_length_le (List.getElem?_eq_none_iff.mp hnone)
    change x.out = ((x.log ++ [(t, m)]).map Prod.snd).flatten
    simp [hx, htake]

theorem at_compared {x : ListData τ} (h : x.At (.compare p i m₁ m₂)) :
    (k.compared t p i m₁ m₂ x).2.At (k.compared t p i m₁ m₂ x).1.pc := by
  obtain ⟨hx, hfirst⟩ := h
  unfold compared
  split
  next q hq =>
    split_ifs with hpq
    · exact ⟨hx, hfirst, hpq ▸ hq⟩
    · refine ⟨hx, ?_⟩
      rw [List.take_add_one, hq]
      simpa [hfirst] using hpq
  next hnone =>
    have htake := List.take_of_length_le (List.getElem?_eq_none_iff.mp hnone)
    rw [htake] at hfirst
    exact hx.append (ClientVector.removeFromClientList_of_not_mem hfirst).symm

theorem at_erased {x : ListData τ} (h : x.At (.erase p i m₁ m₂)) :
    (k.erased t p i m₁ m₂ x).2.At (k.erased t p i m₁ m₂ x).1.pc := by
  obtain ⟨hx, hfirst, hi⟩ := h
  exact hx.append (ClientVector.eraseIdx_eq_removeFromClientList hi hfirst)

theorem at_nulled (x : ListData τ) : (k.nulled i x).2.At (k.nulled i x).1.pc := by
  unfold nulled
  split_ifs <;> trivial

theorem at_cleared (x : ListData τ) : (k.cleared t x).2.At (k.cleared t x).1.pc := by
  change ListData.Correct ⟨[], x.log ++ [(t, .cleanClientList)]⟩
  rw [ListData.Correct, ListData.calls_append, List.foldl_append]
  rfl

end SharedThread

/-- What a thread knows of the list while it prints. -/
theorem ListData.at_of_held {x : ListData τ} {r : ConsoleReturn} (h : x.Correct) :
    x.At r.resume := by
  cases r <;> exact h

/-- Every step of a thread keeps what holds of the data in the sections it is in. -/
theorem sharedProgram_protects :
    (sharedProgram τ).Protects (fun k => k.pc.held) SharedData.Correct
      (fun _ => SharedData.At) where
  acquire := by
    rintro t ⟨pc, begun, said⟩ l k' h
    cases pc with
    | countEnter up =>
      cases h
      exact ⟨fun _ hx => hx, fun m hm => absurd hm List.not_mem_nil⟩
    | addEnter p =>
      cases h
      exact ⟨fun _ hx => hx, fun m hm => absurd hm List.not_mem_nil⟩
    | removeEnter p m₁ m₂ =>
      cases h
      exact ⟨fun _ hx => ⟨hx, by simp⟩, fun m hm => absurd hm List.not_mem_nil⟩
    | cleanEnter =>
      cases h
      exact ⟨fun _ _ => trivial, fun m hm => absurd hm List.not_mem_nil⟩
    | consoleEnter m r =>
      cases h
      refine ⟨fun x hx => ?_, fun l hl x hx => ?_⟩
      · change x.out = _ ++ m.take 0
        rw [List.take_zero, List.append_nil]
        exact hx
      · obtain ⟨rfl, -⟩ := r.nested hl
        exact hx
    | _ => cases h
  release := by
    rintro t ⟨pc, begun, said⟩ l k' h
    cases pc with
    | countLeave =>
      cases h
      exact ⟨fun _ hx => hx, fun m hm => absurd hm List.not_mem_nil⟩
    | listLeave =>
      cases h
      exact ⟨fun _ hx => hx, fun m hm => absurd hm List.not_mem_nil⟩
    | consoleLeave r =>
      cases h
      refine ⟨fun _ hx => hx, fun m hm x hx => ?_⟩
      obtain ⟨rfl, -⟩ := r.nested (r.held_resume ▸ hm)
      exact ListData.at_of_held hx
    | _ => cases h
  access := by
    rintro t ⟨pc, begun, said⟩ l f h
    cases pc with
    | countLoad up =>
      cases h
      exact fun x hx => ⟨⟨hx, rfl⟩, fun m hm hne => absurd (List.mem_singleton.mp hm) hne⟩
    | countStore up v =>
      cases h
      exact fun x hx => ⟨SharedThread.at_stored hx,
        fun m hm hne => absurd (List.mem_singleton.mp hm) hne⟩
    | pushBack p =>
      cases h
      exact fun x hx => ⟨ListData.Correct.append hx rfl,
        fun m hm hne => absurd (List.mem_singleton.mp hm) hne⟩
    | compare p i m₁ m₂ =>
      cases h
      exact fun x hx => ⟨SharedThread.at_compared hx,
        fun m hm hne => absurd (List.mem_singleton.mp hm) hne⟩
    | erase p i m₁ m₂ =>
      cases h
      exact fun x hx => ⟨SharedThread.at_erased hx,
        fun m hm hne => absurd (List.mem_singleton.mp hm) hne⟩
    | setNull i =>
      cases h
      exact fun x _ => ⟨SharedThread.at_nulled x,
        fun m hm hne => absurd (List.mem_singleton.mp hm) hne⟩
    | clear =>
      cases h
      exact fun x _ => ⟨SharedThread.at_cleared x,
        fun m hm hne => absurd (List.mem_singleton.mp hm) hne⟩
    | vprintf m i r =>
      cases h
      refine fun x hx => ⟨SharedThread.at_printed hx, fun l hl hne y hy => ?_⟩
      obtain ⟨rfl, -⟩ := r.nested ((List.mem_cons.mp hl).resolve_left hne)
      unfold SharedThread.printed
      split <;> exact hy
    | _ => cases h

/-! ### Which calls have taken effect -/

/-- The entries that a thread made. -/
def ofThread {α : Type} [DecidableEq τ] (t : τ) (log : List (τ × α)) : List α :=
  (log.filter fun e => e.1 = t).map Prod.snd

/-- The calls on the data that have taken effect. -/
def SharedData.log : (l : CriticalSection) → SharedData τ l → List (τ × SharedCall)
  | .numSockCntxt => CountData.log
  | .clientList => ListData.log
  | .console => fun _ => []

/-- The call of a thread that has not taken effect yet. -/
def SharedPc.pending : SharedPc → List SharedCall
  | .countEnter up | .countLoad up | .countStore up _ => [.count up]
  | .addEnter p | .pushBack p => [.addToClientList p]
  | .removeEnter p m₁ m₂ | .compare p _ m₁ m₂ | .erase p _ m₁ m₂ =>
    [.removeFromClientListAndCleanUpMemory p m₁ m₂]
  | .cleanEnter | .setNull _ | .clear => [.cleanClientList]
  | _ => []

theorem ConsoleReturn.pending_resume (r : ConsoleReturn) : r.resume.pending = [] := by
  cases r <;> rfl

/-- An access to the data: what takes effect is a pending call on this data. -/
theorem sharedNext_access {t : τ} {k : SharedThread} {l : CriticalSection}
    {f : SharedData τ l → SharedThread × SharedData τ l} (h : sharedNext t k = .access l f)
    (x : SharedData τ l) :
    (f x).1.begun = k.begun ∧ ∃ cs, (∀ m, ∀ c ∈ cs, SharedCall.On m c = decide (m = l)) ∧
      k.pc.pending = cs ++ (f x).1.pc.pending ∧
      SharedData.log l (f x).2 = SharedData.log l x ++ cs.map (t, ·) := by
  obtain ⟨pc, begun, said⟩ := k
  cases pc with
  | countLoad up =>
    cases h
    exact ⟨rfl, [], by simp, rfl, by simp⟩
  | countStore up v =>
    cases h
    refine ⟨rfl, [.count up], fun m c hc => ?_, rfl, rfl⟩
    obtain rfl := List.mem_singleton.mp hc
    cases up <;> cases m <;> rfl
  | pushBack p =>
    cases h
    refine ⟨rfl, [.addToClientList p], fun m c hc => ?_, rfl, rfl⟩
    obtain rfl := List.mem_singleton.mp hc
    cases m <;> rfl
  | compare p i m₁ m₂ =>
    cases h
    unfold SharedThread.compared
    split
    · split_ifs
      · exact ⟨rfl, [], by simp, rfl, by simp⟩
      · exact ⟨rfl, [], by simp, rfl, by simp⟩
    · refine ⟨rfl, [.removeFromClientListAndCleanUpMemory p m₁ m₂], fun m c hc => ?_, rfl, rfl⟩
      obtain rfl := List.mem_singleton.mp hc
      cases m <;> rfl
  | erase p i m₁ m₂ =>
    cases h
    refine ⟨rfl, [.removeFromClientListAndCleanUpMemory p m₁ m₂], fun m c hc => ?_, rfl, rfl⟩
    obtain rfl := List.mem_singleton.mp hc
    cases m <;> rfl
  | setNull i =>
    cases h
    unfold SharedThread.nulled
    split_ifs <;> exact ⟨rfl, [], by simp, rfl, by simp [SharedData.log]⟩
  | clear =>
    cases h
    refine ⟨rfl, [.cleanClientList], fun m c hc => ?_, rfl, rfl⟩
    obtain rfl := List.mem_singleton.mp hc
    cases m <;> rfl
  | vprintf m i r =>
    cases h
    unfold SharedThread.printed
    split <;> exact ⟨rfl, [], by simp, rfl, rfl⟩
  | _ => cases h

/-- Entering and leaving a section has no effect on the data. -/
theorem sharedNext_pending {t : τ} {k k' : SharedThread} {l : CriticalSection}
    (h : sharedNext t k = .acquire l k' ∨ sharedNext t k = .release l k') :
    k'.begun = k.begun ∧ k'.pc.pending = k.pc.pending := by
  obtain ⟨pc, begun, said⟩ := k
  rcases h with h | h
  · cases pc <;> cases h <;> exact ⟨rfl, rfl⟩
  · cases pc with
    | consoleLeave r =>
      cases h
      exact ⟨rfl, r.pending_resume⟩
    | countLeave | listLeave =>
      cases h
      exact ⟨rfl, rfl⟩
    | _ => cases h

/-- The text that a thread has called `WriteToConsole` with and not printed to its end. -/
def SharedPc.unprinted : SharedPc → List Message
  | .consoleEnter m _ | .vprintf m _ _ => [m]
  | _ => []

/-- The messages printed. -/
def SharedData.printed : (l : CriticalSection) → SharedData τ l → List (τ × Message)
  | .console => ConsoleData.log
  | .numSockCntxt | .clientList => fun _ => []

/-- Entering and leaving a section prints nothing, and a further text may be printed next. -/
theorem sharedNext_unprinted {t : τ} {k k' : SharedThread} {l : CriticalSection}
    (h : sharedNext t k = .acquire l k' ∨ sharedNext t k = .release l k') :
    ∃ ms, k'.said = k.said ++ ms ∧ k'.pc.unprinted = k.pc.unprinted ++ ms := by
  obtain ⟨pc, begun, said⟩ := k
  rcases h with h | h
  · cases pc <;> cases h <;> exact ⟨[], (List.append_nil _).symm, rfl⟩
  · cases pc with
    | consoleLeave r =>
      cases h
      exact ⟨r.text, rfl, by cases r <;> rfl⟩
    | countLeave | listLeave =>
      cases h
      exact ⟨[], (List.append_nil _).symm, rfl⟩
    | _ => cases h

/-- An access to the data: what is printed to its end was waiting to be printed. -/
theorem sharedNext_printed {t : τ} {k : SharedThread} {l : CriticalSection}
    {f : SharedData τ l → SharedThread × SharedData τ l} (h : sharedNext t k = .access l f)
    (x : SharedData τ l) :
    ∃ ms ps, (f x).1.said = k.said ++ ms ∧ k.pc.unprinted ++ ms = ps ++ (f x).1.pc.unprinted ∧
      SharedData.printed l (f x).2 = SharedData.printed l x ++ ps.map (t, ·) := by
  obtain ⟨pc, begun, said⟩ := k
  have none : ∀ {k' : SharedThread} {y : SharedData τ l}, k'.said = said →
      pc.unprinted = k'.pc.unprinted → SharedData.printed l y = SharedData.printed l x →
      ∃ ms ps, k'.said = said ++ ms ∧ pc.unprinted ++ ms = ps ++ k'.pc.unprinted ∧
        SharedData.printed l y = SharedData.printed l x ++ ps.map (t, ·) :=
    fun h₁ h₂ h₃ => ⟨[], [], by simp [h₁], by simp [h₂], by simp [h₃]⟩
  cases pc with
  | countLoad | countStore | pushBack | clear =>
    cases h
    exact none rfl rfl rfl
  | compare p i m₁ m₂ =>
    cases h
    unfold SharedThread.compared
    split
    · split_ifs <;> exact none rfl rfl rfl
    · exact none rfl rfl rfl
  | setNull i =>
    cases h
    unfold SharedThread.nulled
    split_ifs <;> exact none rfl rfl rfl
  | erase p i m₁ m₂ =>
    cases h
    exact ⟨[m₁], [], rfl, rfl, rfl⟩
  | vprintf m i r =>
    cases h
    unfold SharedThread.printed
    split
    · exact none rfl rfl rfl
    · exact ⟨[], [m], (List.append_nil _).symm, rfl, rfl⟩
  | _ => cases h

/-- A thread in the section of the console prints, or is about to leave. -/
theorem SharedPc.of_console_mem_held {pc : SharedPc} (h : .console ∈ pc.held) :
    (∃ m i r, pc = .vprintf m i r) ∨ ∃ r, pc = .consoleLeave r := by
  cases pc with
  | vprintf m i r => exact .inl ⟨m, i, r, rfl⟩
  | consoleLeave r => exact .inr ⟨r, rfl⟩
  | consoleEnter m r => cases r <;> simp [held, ConsoleReturn.held] at h
  | _ => simp [held] at h

section Logged

variable [DecidableEq τ] {s s' : SharedState τ}

/-- The log has the calls that the threads have begun, but for the pending ones. -/
def Logged (s : SharedState τ) : Prop :=
  ∀ l t, (s.label t).begun.filter (SharedCall.On l) =
    ofThread t (SharedData.log l (s.store l)) ++ (s.label t).pc.pending.filter (SharedCall.On l)

theorem ofThread_append {α : Type} (t u : τ) (log : List (τ × α)) (cs : List α) :
    ofThread u (log ++ cs.map (t, ·)) = ofThread u log ++ if u = t then cs else [] := by
  by_cases hu : u = t
  · subst hu
    simp [ofThread, Function.comp_def, List.filter_map]
  · simp [ofThread, Function.comp_def, List.filter_map, hu, Ne.symm hu]

theorem Logged.step {a : LockAction τ SharedCall} (h : Logged s)
    (hm : (sharedProgram τ).Move s a s') : Logged s' := by
  intro m u
  have old := h m u
  cases hm with
  | @acquired t l k hk hl =>
    obtain ⟨hbegun, hpending⟩ := sharedNext_pending (.inl hk)
    by_cases hu : u = t
    · subst hu
      simpa [hbegun, hpending] using old
    · simpa [hu] using old
  | @released t l k hk =>
    obtain ⟨hbegun, hpending⟩ := sharedNext_pending (.inr hk)
    by_cases hu : u = t
    · subst hu
      simpa [hbegun, hpending] using old
    · simpa [hu] using old
  | @accessed t l f hk =>
    obtain ⟨hbegun, cs, hon, hpending, hlog⟩ := sharedNext_access hk (s.store l)
    by_cases hml : m = l
    · subst hml
      have hcs : cs.filter (SharedCall.On m) = cs :=
        List.filter_eq_self.mpr fun c hc => by simpa using hon m c hc
      simp only [Function.update_self, hlog, ofThread_append]
      by_cases hu : u = t
      · subst hu
        rw [hpending, List.filter_append, hcs] at old
        simpa [hbegun] using old
      · simpa [hu] using old
    · have hcs : cs.filter (SharedCall.On m) = [] :=
        List.filter_eq_nil_iff.mpr fun c hc => by simpa [hml] using hon m c hc
      simp only [Function.update_of_ne hml]
      by_cases hu : u = t
      · subst hu
        rw [hpending, List.filter_append, hcs, List.nil_append] at old
        simpa [hbegun] using old
      · simpa [hu] using old
  | @called t c hk =>
    by_cases hu : u = t
    · subst hu
      have hidle : (s.label u).pc.pending = [] := by
        generalize s.label u = k at hk
        obtain ⟨pc, begun, said⟩ := k
        cases pc <;> first | rfl | cases hk
      have hentry : c.entry.pending.filter (SharedCall.On m) = [c].filter (SharedCall.On m) := by
        cases c <;> cases m <;> rfl
      rw [hidle] at old
      simp only [Function.update_self, sharedProgram, List.filter_append, hentry, old]
      simp
    · simpa [hu] using old

theorem logged_of_reachable {G : SharedState τ → LockAction τ SharedCall → Prop}
    (hs : (criticalSections τ).Reachable G s) : Logged s := by
  refine hs.invariant (fun l t => ?_) fun _ _ _ h _ hstep =>
    h.step (LockProgram.step_move hstep)
  cases l <;> rfl

theorem Logged.of_idle (h : Logged s) {t : τ} (ht : (s.label t).pc = .idle)
    {l : CriticalSection} :
    ofThread t (SharedData.log l (s.store l)) =
      (s.label t).begun.filter (SharedCall.On l) := by
  have hall := h l t
  rw [ht] at hall
  simpa [SharedPc.pending] using hall.symm

/-- The logs only grow. -/
theorem log_prefix {l : CriticalSection} {a : LockAction τ SharedCall}
    (hm : (sharedProgram τ).Move s a s') :
    SharedData.log l (s.store l) <+: SharedData.log l (s'.store l) := by
  cases hm with
  | @accessed t m f hk =>
    obtain ⟨-, cs, -, -, hlog⟩ := sharedNext_access hk (s.store m)
    by_cases hlm : l = m
    · subst hlm
      simp only [Function.update_self, hlog]
      exact List.prefix_append _ _
    · simp only [Function.update_of_ne hlm]
      exact List.prefix_rfl
  | _ => exact List.prefix_rfl

/-- The threads have called `WriteToConsole` with the messages they have printed, and with the one
that each of them is printing or waits to print. -/
def Said (s : SharedState τ) : Prop :=
  ∀ t, (s.label t).said =
    ofThread t (SharedData.printed .console (s.store .console)) ++ (s.label t).pc.unprinted

theorem Said.step {a : LockAction τ SharedCall} (h : Said s)
    (hm : (sharedProgram τ).Move s a s') : Said s' := by
  intro u
  have old := h u
  have quiet : ∀ {k : SharedThread} {ms : List Message}, k.said = (s.label u).said ++ ms →
      k.pc.unprinted = (s.label u).pc.unprinted ++ ms →
      k.said = ofThread u (SharedData.printed .console (s.store .console)) ++ k.pc.unprinted := by
    intro k ms hsaid hun
    rw [hsaid, hun, old, List.append_assoc]
  cases hm with
  | @acquired t l k hk hl =>
    by_cases hu : u = t
    · subst hu
      obtain ⟨ms, hsaid, hun⟩ := sharedNext_unprinted (.inl hk)
      simpa using quiet hsaid hun
    · simpa [hu] using old
  | @released t l k hk =>
    by_cases hu : u = t
    · subst hu
      obtain ⟨ms, hsaid, hun⟩ := sharedNext_unprinted (.inr hk)
      simpa using quiet hsaid hun
    · simpa [hu] using old
  | @accessed t l f hk =>
    obtain ⟨ms, ps, hsaid, hun, hlog⟩ := sharedNext_printed hk (s.store l)
    have hprinted : SharedData.printed .console
        (Function.update s.store l (f (s.store l)).2 .console) =
          SharedData.printed .console (s.store .console) ++ ps.map (t, ·) := by
      cases l with
      | console => rwa [Function.update_self]
      | numSockCntxt | clientList =>
        have hps : ps = [] := by simpa [SharedData.printed] using hlog
        simp [hps]
    simp only [hprinted, ofThread_append]
    by_cases hu : u = t
    · subst hu
      rw [Function.update_self, if_pos rfl, hsaid, old, List.append_assoc, List.append_assoc, hun]
    · simpa [hu] using old
  | @called t c hk =>
    by_cases hu : u = t
    · subst hu
      have hidle : (s.label u).pc.unprinted = [] := by
        generalize s.label u = k at hk
        obtain ⟨pc, begun, said⟩ := k
        cases pc <;> first | rfl | cases hk
      have hentry : c.entry.unprinted = c.text := by cases c <;> rfl
      have hstart : ((sharedProgram τ).start (s.label u) c).pc.unprinted =
          (s.label u).pc.unprinted ++ c.text := by rw [hidle]; exact hentry
      have hsaid : ((sharedProgram τ).start (s.label u) c).said =
          (s.label u).said ++ c.text := rfl
      simpa using quiet hsaid hstart
    · simpa [hu] using old

theorem said_of_reachable {G : SharedState τ → LockAction τ SharedCall → Prop}
    (hs : (criticalSections τ).Reachable G s) : Said s :=
  hs.invariant (fun _ => rfl) fun _ _ _ h _ hstep => h.step (LockProgram.step_move hstep)

end Logged

/-! ### Main results -/

section Results

variable [DecidableEq τ] {s : SharedState τ}
  {G : SharedState τ → LockAction τ SharedCall → Prop}

theorem owned_initial : LockProgram.Owned (fun k : SharedThread => k.pc.held)
    (criticalSections τ).init where
  iff _ _ := by simp [criticalSections, LockProgram.system, SharedPc.held]
  nodup _ := List.nodup_nil

theorem owned_of_reachable (hs : (criticalSections τ).Reachable G s) :
    LockProgram.Owned (fun k : SharedThread => k.pc.held) s :=
  sharedProgram_disciplined.owned_of_reachable owned_initial hs

theorem protected_of_reachable (hs : (criticalSections τ).Reachable G s) :
    LockProgram.Protected (fun k : SharedThread => k.pc.held) SharedData.Correct
      (fun _ => SharedData.At) s := by
  refine sharedProgram_protects.protected_of_reachable sharedProgram_disciplined owned_initial
    ⟨fun l _ => ?_, fun t l hl => ?_⟩ hs
  · cases l <;> rfl
  · cases hl

/-- Whenever nobody is in the section of the client list, the list is what the calls in the log
make of the empty one, one after another. The log has the calls of each thread in the order in
which it made them, all of them when the thread is idle, and goes on as it began: so a call that
returned before another one was made comes before it. -/
theorem clientList_linearizable (hs : (criticalSections τ).Reachable (fun _ _ => True) s) :
    (s.owner .clientList = none → s.list.vector = s.list.calls.foldl SharedCall.apply []) ∧
    (∀ t, (s.label t).pc = .idle →
      ofThread t s.list.log = (s.label t).begun.filter (SharedCall.On .clientList)) ∧
    (∀ t, ∃ pending, pending.length ≤ 1 ∧
      (s.label t).begun.filter (SharedCall.On .clientList) = ofThread t s.list.log ++ pending) ∧
    ∀ as s', (criticalSections τ).runFrom s as = some s' → s.list.log <+: s'.list.log := by
  refine ⟨(protected_of_reachable hs).free .clientList,
    fun t ht => (logged_of_reachable hs).of_idle (l := .clientList) ht, fun t => ?_,
    fun as s' hrun => ?_⟩
  · refine ⟨_, ?_, logged_of_reachable hs .clientList t⟩
    refine (List.length_filter_le _ _).trans ?_
    cases (s.label t).pc <;> simp [SharedPc.pending]
  · refine TransitionSystem.invariant_of_runFrom
      (I := fun s' : SharedState τ => s.list.log <+: s'.list.log)
      (fun u a u' ih hstep => ih.trans ?_) List.prefix_rfl hrun
    exact log_prefix (l := .clientList) (LockProgram.step_move hstep)

/-- The thread `false` adds two contexts while `true` waits to remove the first one. -/
theorem clientList_linearizable_run :
    ∃ s : SharedState Bool, s.list.vector = [some 4] ∧
      s.list.calls.foldl SharedCall.apply [] = [some 4] := by
  obtain ⟨s, hs, howner, hv⟩ : ∃ s, (criticalSections Bool).Reachable (fun _ _ => True) s ∧
      s.owner .clientList = none ∧ s.list.vector = [some 4] :=
    TransitionSystem.exists_reachable_of_runChecked
      ([.call false (.addToClientList (some 3)), .run false,
        .call true (.removeFromClientListAndCleanUpMemory (some 3) ['a'] []), .run false,
        .run false, .call false (.addToClientList (some 4)), .run false, .run false, .run false,
        .run true, .run true, .run true, .run true, .run true, .run true, .run true, .run true,
        .run true, .run true, .run true]) (by decide +kernel)
  exact ⟨s, hv, ((clientList_linearizable hs).1 howner).symm.trans hv⟩

/-- Whenever nobody is in the section of the console, what is printed are whole messages one after
another, and while a thread is in it, what it has printed so far of its message comes last. The
messages of each thread come in the order in which it called `WriteToConsole` with them, all of them
but the one that it is printing or waits to print. No change of the count is lost: it is the sum of
the changes that the threads have made. -/
theorem console_whole (hs : (criticalSections τ).Reachable (fun _ _ => True) s) :
    (s.owner .console = none → s.console.out = (s.console.log.map Prod.snd).flatten) ∧
    (∀ t, s.owner .console = some t →
      (∃ m i r, (s.label t).pc = .vprintf m i r ∧
        s.console.out = (s.console.log.map Prod.snd).flatten ++ m.take i) ∨
      ∃ r, (s.label t).pc = .consoleLeave r ∧
        s.console.out = (s.console.log.map Prod.snd).flatten) ∧
    (∀ t, (s.label t).said = ofThread t s.console.log ++ (s.label t).pc.unprinted) ∧
    (s.owner .numSockCntxt = none → s.count.value = (s.count.log.map fun e => e.2.delta).sum) ∧
    ∀ t, (s.label t).pc = .idle →
      ofThread t s.count.log = (s.label t).begun.filter (SharedCall.On .numSockCntxt) := by
  have hprotected := protected_of_reachable hs
  refine ⟨hprotected.free .console, fun t ht => ?_, said_of_reachable hs,
    hprotected.free .numSockCntxt,
    fun t ht => (logged_of_reachable hs).of_idle (l := .numSockCntxt) ht⟩
  have hin := ((owned_of_reachable hs).iff _ _).mp ht
  have hheld := hprotected.held t .console hin
  change ConsoleData.At s.console (s.label t).pc at hheld
  rcases SharedPc.of_console_mem_held hin with ⟨m, i, r, hpc⟩ | ⟨r, hpc⟩
  · rw [hpc] at hheld
    exact .inl ⟨m, i, r, hpc, hheld⟩
  · rw [hpc] at hheld
    exact .inr ⟨r, hpc, hheld⟩

/-- The thread `true` has printed a message, and `false` is printing one. -/
theorem console_whole_run : ∃ s : SharedState Bool,
    s.console.out = ['c'] ++ ['a', 'b'].take 1 ∧
      (s.label false).said = ofThread false s.console.log ++ [['a', 'b']] ∧
      (s.label true).said = ofThread true s.console.log := by
  obtain ⟨s, hs, howner, hfalse, htrue, hlog⟩ :
      ∃ s, (criticalSections Bool).Reachable (fun _ _ => True) s ∧
        s.owner .console = some false ∧ (s.label false).pc = .vprintf ['a', 'b'] 1 .caller ∧
        (s.label true).pc = .idle ∧ s.console.log = [(true, ['c'])] :=
    TransitionSystem.exists_reachable_of_runChecked
      [.call false (.writeToConsole ['a', 'b']), .call true (.writeToConsole ['c']), .run true,
        .run true, .run true, .run true, .run false, .run false] (by decide +kernel)
  obtain ⟨-, hin, hsaid, -⟩ := console_whole hs
  have hsaid₁ := hsaid false
  have hsaid₂ := hsaid true
  rw [hfalse] at hsaid₁
  rw [htrue] at hsaid₂
  refine ⟨s, ?_, hsaid₁, hsaid₂.trans (List.append_nil _)⟩
  rcases hin false howner with ⟨m, i, r, hpc, hout⟩ | ⟨r, hpc, -⟩
  · obtain ⟨rfl, rfl, -⟩ := SharedPc.vprintf.inj (hfalse.symm.trans hpc)
    rw [hout, hlog]
    rfl
  · cases hfalse.symm.trans hpc

/-- As long as a call has not returned, some thread can go on. -/
theorem criticalSections_deadlock_free
    (hs : (criticalSections τ).Reachable (fun _ _ => True) s) {t : τ}
    (ht : (s.label t).pc ≠ .idle) : ∃ u s', (criticalSections τ).step s (.run u) = some s' := by
  have hnext : sharedNext t (s.label t) ≠ .done := by
    generalize s.label t = k at ht
    obtain ⟨pc, begun, said⟩ := k
    cases pc <;> first | exact absurd rfl ht | exact nofun
  obtain ⟨u, hu⟩ := sharedProgram_disciplined.exists_run nestedSections_wf (owned_of_reachable hs)
    hnext
  exact ⟨u, Option.isSome_iff_exists.mp hu⟩

/-- The thread `false` holds the section of the list, `true` that of the console, and each has
something to do. -/
theorem criticalSections_deadlock_free_run :
    ∃ s : SharedState Bool, s.owner .clientList = some false ∧ s.owner .console = some true ∧
      ∃ u s', (criticalSections Bool).step s (.run u) = some s' := by
  obtain ⟨s, hs, hlist, hconsole, hpc⟩ :
      ∃ s, (criticalSections Bool).Reachable (fun _ _ => True) s ∧
        s.owner .clientList = some false ∧ s.owner .console = some true ∧
        (s.label false).pc ≠ .idle :=
    TransitionSystem.exists_reachable_of_runChecked
      [.call false (.removeFromClientListAndCleanUpMemory none [] []), .run false,
        .call true (.writeToConsole ['c']), .run true] (by decide +kernel)
  exact ⟨s, hlist, hconsole, criticalSections_deadlock_free hs hpc⟩

end Results

end IocpProxy
