import IocpProxy.Library.Locks
import IocpProxy.Proxy.ClientList

/-!
# The critical sections of the proxy

The threads of the proxy share the client list, the console and the count of socket contexts, each
under a critical section of its own. Here the functions that enter them are taken apart: entering
and leaving a section, each round of a loop, each character that is printed and each access to the
count is a step, and any number of threads take their steps in any order.

`RemoveFromClientListAndCleanUpMemory` prints twice while it is in the section of the list, so the
section of the console is entered inside that of the list, and never the other way round.

The logs record history that the program does not store: the calls that have taken effect and the
messages printed, in order, with the threads that made them. So do the calls that a thread has begun
and the texts it has called `WriteToConsole` with.

## Main definitions

* `IocpProxy.SharedCall`, `IocpProxy.SharedPc`, `IocpProxy.sharedProgram`.
* `IocpProxy.criticalSections` : the transition system.
-/

namespace IocpProxy

/-! ### The functions -/

/-- The critical sections that are entered. -/
inductive CriticalSection
  | numSockCntxt
  | clientList
  | console
  deriving DecidableEq

/-- A text to print. -/
abbrev Message := List Char

/-- A call of a function that enters a critical section. -/
inductive SharedCall
  | incrementSocketContextCount
  | decrementSocketContextCount
  | writeToConsole (m : Message)
  | addToClientList (p : Option CtxId)
  /-- With the two texts that are printed when the pointer is found. -/
  | removeFromClientListAndCleanUpMemory (p : Option CtxId) (m₁ m₂ : Message)
  | cleanClientList
  deriving DecidableEq

/-- The vector after a call has taken effect. -/
def SharedCall.apply (v : ClientVector) : SharedCall → ClientVector
  | .addToClientList p => v.addToClientList p
  | .removeFromClientListAndCleanUpMemory p _ _ => v.removeFromClientList p
  | .cleanClientList => v.cleanClientList
  | .incrementSocketContextCount | .decrementSocketContextCount | .writeToConsole _ => v

/-- The change of the count. -/
def SharedCall.delta : SharedCall → ℤ
  | .incrementSocketContextCount => 1
  | .decrementSocketContextCount => -1
  | _ => 0

/-- The call that changes the count upwards or downwards. -/
def SharedCall.count (up : Bool) : SharedCall :=
  if up then .incrementSocketContextCount else .decrementSocketContextCount

/-- The calls whose effect is on the list or on the count, by section. -/
def SharedCall.On : CriticalSection → SharedCall → Bool
  | .clientList, .addToClientList _ => true
  | .clientList, .removeFromClientListAndCleanUpMemory _ _ _ => true
  | .clientList, .cleanClientList => true
  | .numSockCntxt, .incrementSocketContextCount => true
  | .numSockCntxt, .decrementSocketContextCount => true
  | _, _ => false

/-- Where `WriteToConsole` was called. -/
inductive ConsoleReturn
  | caller
  /-- At the first or the second message of `RemoveFromClientListAndCleanUpMemory`. -/
  | first (m₂ : Message)
  | second
  deriving DecidableEq

/-- Where a thread is in these functions. -/
inductive SharedPc
  | idle
  | countEnter (up : Bool)
  | countLoad (up : Bool)
  | countStore (up : Bool) (v : ℤ)
  | countLeave
  | consoleEnter (m : Message) (k : ConsoleReturn)
  /-- In `vprintf`, with `i` characters printed. -/
  | vprintf (m : Message) (i : ℕ) (k : ConsoleReturn)
  | consoleLeave (k : ConsoleReturn)
  | addEnter (p : Option CtxId)
  | pushBack (p : Option CtxId)
  | removeEnter (p : Option CtxId) (m₁ m₂ : Message)
  /-- At the head of the loop, with the iterator at position `i`. -/
  | compare (p : Option CtxId) (i : ℕ) (m₁ m₂ : Message)
  | erase (p : Option CtxId) (i : ℕ) (m₁ m₂ : Message)
  | cleanEnter
  /-- At the head of the loop, with the iterator at position `i`. -/
  | setNull (i : ℕ)
  | clear
  | listLeave
  deriving DecidableEq

/-- The label after `WriteToConsole` has returned. -/
def ConsoleReturn.resume : ConsoleReturn → SharedPc
  | .caller => .idle
  | .first m₂ => .consoleEnter m₂ .second
  | .second => .listLeave

/-- The text that is printed on the return to where `WriteToConsole` was called. -/
def ConsoleReturn.text : ConsoleReturn → List Message
  | .first m₂ => [m₂]
  | .caller | .second => []

/-- The text that a call begins with to print. -/
def SharedCall.text : SharedCall → List Message
  | .writeToConsole m => [m]
  | _ => []

/-- The label at which a call begins. -/
def SharedCall.entry : SharedCall → SharedPc
  | .incrementSocketContextCount => .countEnter true
  | .decrementSocketContextCount => .countEnter false
  | .writeToConsole m => .consoleEnter m .caller
  | .addToClientList p => .addEnter p
  | .removeFromClientListAndCleanUpMemory p m₁ m₂ => .removeEnter p m₁ m₂
  | .cleanClientList => .cleanEnter

/-- A thread, with the calls it has begun and the texts it has called `WriteToConsole` with. -/
structure SharedThread where
  pc : SharedPc
  begun : List SharedCall
  said : List Message
  deriving DecidableEq

/-- The thread goes to a label. -/
def SharedThread.at (k : SharedThread) (pc : SharedPc) : SharedThread := { k with pc := pc }

/-- The thread calls `WriteToConsole` with these texts. -/
def SharedThread.say (k : SharedThread) (ms : List Message) : SharedThread :=
  { k with said := k.said ++ ms }

/-! ### The data -/

variable {τ : Type}

/-- `SOCK_CNTXT_COUNT`. -/
structure CountData (τ : Type) where
  value : ℤ
  log : List (τ × SharedCall)

/-- `g_ClientContext`. -/
structure ListData (τ : Type) where
  vector : ClientVector
  log : List (τ × SharedCall)

/-- What is printed. -/
structure ConsoleData (τ : Type) where
  out : Message
  log : List (τ × Message)

/-- The data under each critical section. -/
@[reducible] def SharedData (τ : Type) : CriticalSection → Type
  | .numSockCntxt => CountData τ
  | .clientList => ListData τ
  | .console => ConsoleData τ

/-- The calls in the log, without the threads. -/
def ListData.calls (x : ListData τ) : List SharedCall := x.log.map Prod.snd

namespace SharedThread

variable (t : τ) (k : SharedThread)

/-- `SOCK_CNTXT_COUNT` is stored. -/
def stored (up : Bool) (v : ℤ) (x : CountData τ) : SharedThread × CountData τ :=
  (k.at .countLeave, ⟨v + if up then 1 else -1, x.log ++ [(t, .count up)]⟩)

/-- One character is printed, or `vprintf` returns. -/
def printed (m : Message) (i : ℕ) (r : ConsoleReturn) (x : ConsoleData τ) :
    SharedThread × ConsoleData τ :=
  match m[i]? with
  | some c => (k.at (.vprintf m (i + 1) r), { x with out := x.out ++ [c] })
  | none => (k.at (.consoleLeave r), { x with log := x.log ++ [(t, m)] })

/-- The pointer is appended. -/
def pushed (p : Option CtxId) (x : ListData τ) : SharedThread × ListData τ :=
  (k.at .listLeave, ⟨x.vector ++ [p], x.log ++ [(t, .addToClientList p)]⟩)

/-- One round of the loop of `RemoveFromClientListAndCleanUpMemory`. -/
def compared (p : Option CtxId) (i : ℕ) (m₁ m₂ : Message) (x : ListData τ) :
    SharedThread × ListData τ :=
  match x.vector[i]? with
  | some q =>
    if p = q then (k.at (.erase p i m₁ m₂), x) else (k.at (.compare p (i + 1) m₁ m₂), x)
  | none =>
    (k.at .listLeave,
      { x with log := x.log ++ [(t, .removeFromClientListAndCleanUpMemory p m₁ m₂)] })

/-- The entry is erased. -/
def erased (p : Option CtxId) (i : ℕ) (m₁ m₂ : Message) (x : ListData τ) :
    SharedThread × ListData τ :=
  ((k.say [m₁]).at (.consoleEnter m₁ (.first m₂)),
    ⟨x.vector.eraseIdx i, x.log ++ [(t, .removeFromClientListAndCleanUpMemory p m₁ m₂)]⟩)

/-- One round of the loop of `CleanClientList`. -/
def nulled (i : ℕ) (x : ListData τ) : SharedThread × ListData τ :=
  if i < x.vector.length then
    (k.at (.setNull (i + 1)), { x with vector := x.vector.set i none })
  else (k.at .clear, x)

/-- The vector is cleared. -/
def cleared (x : ListData τ) : SharedThread × ListData τ :=
  (k.at .listLeave, ⟨[], x.log ++ [(t, .cleanClientList)]⟩)

end SharedThread

/-- What the thread `t` does at a label. -/
def sharedNext (t : τ) (k : SharedThread) :
    LockInstr CriticalSection (SharedData τ) SharedThread :=
  match k.pc with
  | .idle => .done
  | .countEnter up => .acquire .numSockCntxt (k.at (.countLoad up))
  | .countLoad up => .access .numSockCntxt fun x => (k.at (.countStore up x.value), x)
  | .countStore up v => .access .numSockCntxt (k.stored t up v)
  | .countLeave => .release .numSockCntxt (k.at .idle)
  | .consoleEnter m r => .acquire .console (k.at (.vprintf m 0 r))
  | .vprintf m i r => .access .console (k.printed t m i r)
  | .consoleLeave r => .release .console ((k.say r.text).at r.resume)
  | .addEnter p => .acquire .clientList (k.at (.pushBack p))
  | .pushBack p => .access .clientList (k.pushed t p)
  | .removeEnter p m₁ m₂ => .acquire .clientList (k.at (.compare p 0 m₁ m₂))
  | .compare p i m₁ m₂ => .access .clientList (k.compared t p i m₁ m₂)
  | .erase p i m₁ m₂ => .access .clientList (k.erased t p i m₁ m₂)
  | .cleanEnter => .acquire .clientList (k.at (.setNull 0))
  | .setNull i => .access .clientList (k.nulled i)
  | .clear => .access .clientList (k.cleared t)
  | .listLeave => .release .clientList (k.at .idle)

/-- The functions as a program of the threads `τ`. -/
def sharedProgram (τ : Type) :
    LockProgram τ CriticalSection (SharedData τ) SharedThread SharedCall where
  next := sharedNext
  start k c := ⟨c.entry, k.begun ++ [c], k.said ++ c.text⟩

/-- The threads in these functions, and their data. -/
abbrev SharedState (τ : Type) := LockState τ CriticalSection (SharedData τ) SharedThread

namespace SharedState

/-- `SOCK_CNTXT_COUNT`. -/
def count (s : SharedState τ) : CountData τ := s.store .numSockCntxt

/-- `g_ClientContext`. -/
def list (s : SharedState τ) : ListData τ := s.store .clientList

/-- What was printed. -/
def console (s : SharedState τ) : ConsoleData τ := s.store .console

end SharedState

/-- The data before anything is called. -/
def SharedData.initial : (l : CriticalSection) → SharedData τ l
  | .numSockCntxt => ⟨0, []⟩
  | .clientList => ⟨[], []⟩
  | .console => ⟨[], []⟩

/-- The threads `τ` call these functions. -/
def criticalSections (τ : Type) [DecidableEq τ] :
    TransitionSystem (SharedState τ) (LockAction τ SharedCall) :=
  (sharedProgram τ).system ⟨fun _ => ⟨.idle, [], []⟩, fun _ => none, SharedData.initial⟩

end IocpProxy
