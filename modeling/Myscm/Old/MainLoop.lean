import Myscm.Library.Machine

/-!
Owns the main loop of the old server and the threads it starts for its clients, over every
order of their steps and every outcome of the calls they make.

Owns: the counter of clients; which thread closes a client's socket and frees the argument of
its thread, and how often; how many clients are served at a time.

Does not own: what a thread says to its client; log messages; calls that fail and change
nothing (of `close` and `pthread_attr_setdetachstate`).
-/

namespace Myscm.Old

open Myscm.Library

namespace MainLoop

/-- `MAX_CLIENTS_THREADS`. -/
def maxClientsThreads (debug : Bool) : Nat :=
  if debug then 2 else 1 <<< 14

/-! ## One client -/

/-- Where the thread of a client is in `thread_work_wrapper`. -/
inductive ThreadPoint where
  | threadWork
  | atomicRemoveClientCounter
  | closeSocket
  | freeArg
  | returned
deriving DecidableEq

/-- Where the main thread is in the turn of `accept_clients` for a client. -/
inductive Stage where
  | initThreadArg
  | atomicAddClientCounter
  | attrInit
  | create
  | attrDestroy (created : Bool)
  | atomicRemoveClientCounter
  | freeArg
  | closeSocket
deriving DecidableEq

/-- An accepted client. -/
structure Connection where
  /-- Where the main thread is, until the end of the turn. -/
  turn : Option Stage
  /-- Where the client's thread is, if there is one. -/
  thread : Option ThreadPoint
  /-- The `thread_arg_t` is reserved. -/
  reserved : Bool
  /-- How often it was freed. -/
  freed : Nat
  /-- How often the socket was closed. -/
  closed : Nat
  /-- The turn has set `ret` to -1. -/
  failed : Bool
deriving DecidableEq

/-- A client that `accept` has just returned. -/
def accepted : Connection :=
  ⟨some .initThreadArg, none, false, 0, 0, false⟩

/-- One call of the main thread in the turn for a client, which succeeds or not: the counter
and the client behind it. -/
def turnStep (debug succeeds : Bool) (clientsNumber : Int) (c : Connection) :
    Stage → Int × Connection
  | .initThreadArg =>
      if succeeds then
        (clientsNumber, { c with turn := some .atomicAddClientCounter, reserved := true })
      else
        (clientsNumber, { c with turn := some .closeSocket, failed := true })
  | .atomicAddClientCounter =>
      if maxClientsThreads debug ≤ clientsNumber then
        (clientsNumber, { c with turn := some .freeArg, failed := true })
      else
        (clientsNumber + 1, { c with turn := some .attrInit })
  | .attrInit =>
      if succeeds then
        (clientsNumber, { c with turn := some .create })
      else
        (clientsNumber, { c with turn := some .atomicRemoveClientCounter, failed := true })
  | .create =>
      if succeeds then
        (clientsNumber,
          { c with turn := some (.attrDestroy true), thread := some .threadWork })
      else
        (clientsNumber, { c with turn := some (.attrDestroy false) })
  | .attrDestroy created =>
      if created && succeeds then
        (clientsNumber, { c with turn := none })
      else
        (clientsNumber, { c with turn := some .atomicRemoveClientCounter, failed := true })
  | .atomicRemoveClientCounter =>
      (clientsNumber - 1, { c with turn := some .freeArg })
  | .freeArg =>
      (clientsNumber, { c with turn := some .closeSocket, freed := c.freed + 1 })
  | .closeSocket =>
      (clientsNumber, { c with turn := none, closed := c.closed + 1 })

/-- One call of a client's thread. -/
def threadStep (clientsNumber : Int) (c : Connection) : ThreadPoint → Int × Connection
  | .threadWork => (clientsNumber, { c with thread := some .atomicRemoveClientCounter })
  | .atomicRemoveClientCounter => (clientsNumber - 1, { c with thread := some .closeSocket })
  | .closeSocket =>
      (clientsNumber, { c with thread := some .freeArg, closed := c.closed + 1 })
  | .freeArg =>
      (clientsNumber, { c with thread := some .returned, freed := c.freed + 1 })
  | .returned => (clientsNumber, c)

/-! ## The server -/

/-- Where the main thread is in `accept_clients`. -/
inductive MainPoint where
  | loopHead
  | acceptClient
  | turn (k : Nat)
  | closeServerSocket
  | returned
deriving DecidableEq

/-- The server: its counter, whether SIGINT has arrived, and its clients in the order of their
acceptance. -/
structure ServerState where
  clientsNumber : Int
  sigint : Bool
  main : MainPoint
  connections : List Connection
deriving DecidableEq

/-- The server when its socket listens. -/
def listening : ServerState :=
  ⟨0, false, .loopHead, []⟩

/-- Who takes a step: the main thread, whose call succeeds or not, or the thread of a client;
or the signal arrives. -/
inductive Action where
  | main (succeeds : Bool)
  | thread (k : Nat)
  | sigint
deriving DecidableEq

/-- A step of the main thread. The end of a turn leads back to the head of the loop. -/
def mainStep (debug succeeds : Bool) (s : ServerState) : Option ServerState :=
  match s.main with
  | .loopHead =>
      some { s with main := if s.sigint then .closeServerSocket else .acceptClient }
  | .acceptClient =>
      if succeeds then
        some { s with
          main := .turn s.connections.length, connections := s.connections ++ [accepted] }
      else
        some { s with main := .loopHead }
  | .turn k =>
      match s.connections[k]? with
      | none => none
      | some c =>
          match c.turn with
          | none => some { s with main := .loopHead }
          | some stage =>
              some { s with
                clientsNumber := (turnStep debug succeeds s.clientsNumber c stage).1
                connections := s.connections.modify k fun c =>
                  (turnStep debug succeeds s.clientsNumber c stage).2 }
  | .closeServerSocket => some { s with main := .returned }
  | .returned => none

/-- A step of the thread of a client. -/
def clientStep (k : Nat) (s : ServerState) : Option ServerState :=
  match s.connections[k]? with
  | none => none
  | some c =>
      match c.thread with
      | none => none
      | some point =>
          some { s with
            clientsNumber := (threadStep s.clientsNumber c point).1
            connections := s.connections.modify k fun c =>
              (threadStep s.clientsNumber c point).2 }

/-- A step of the server. -/
def step (debug : Bool) (s : ServerState) : Action → Option ServerState
  | .main succeeds => mainStep debug succeeds s
  | .thread k => clientStep k s
  | .sigint => some { s with sigint := true }

/-- Where the main thread is in the turn for a client. -/
def stage (s : ServerState) : Option Stage :=
  match s.main with
  | .turn k => (s.connections[k]?).bind Connection.turn
  | _ => none

/-- The step is not the failure of `pthread_attr_destroy` behind a thread that was created, which
`start_thread_for_client` reports as if there were no thread. -/
def Reported (s : ServerState) : Action → Prop
  | .main succeeds => succeeds = true ∨ stage s ≠ some (.attrDestroy true)
  | _ => True

instance (s : ServerState) (action : Action) : Decidable (Reported s action) :=
  match action with
  | .main _ => inferInstanceAs (Decidable (_ ∨ _))
  | .thread _ => inferInstanceAs (Decidable True)
  | .sigint => inferInstanceAs (Decidable True)

/-! ## What is still to be done for a client -/

/-- How often the main thread will close the socket. -/
def closesInTurn : Option Stage → Nat
  | none | some (.attrDestroy true) => 0
  | some _ => 1

/-- How often the main thread will free the argument. -/
def freesInTurn : Option Stage → Nat
  | none | some .initThreadArg | some (.attrDestroy true) | some .closeSocket => 0
  | some _ => 1

/-- The main thread has counted the client, and has not left it to a thread. -/
def countsInTurn : Option Stage → Int
  | some .attrInit | some .create | some (.attrDestroy false) | some .atomicRemoveClientCounter => 1
  | _ => 0

/-- How often the thread will close the socket. -/
def closesInThread : Option ThreadPoint → Nat
  | some .threadWork | some .atomicRemoveClientCounter | some .closeSocket => 1
  | _ => 0

/-- How often the thread will free its argument. -/
def freesInThread : Option ThreadPoint → Nat
  | none | some .returned => 0
  | some _ => 1

/-- The thread has not taken the client off the counter. -/
def countsInThread : Option ThreadPoint → Int
  | some .threadWork | some .atomicRemoveClientCounter => 1
  | _ => 0

namespace Connection

/-- There is a thread, and the main thread takes its creation for failed. -/
def doubled (c : Connection) : Bool :=
  c.thread.isSome && c.failed

/-- What the client stands for in `clients_number`. -/
def weight (c : Connection) : Int :=
  countsInTurn c.turn + countsInThread c.thread - c.doubled.toNat

/-- What holds of the thread, its argument and `ret` at a stage of the turn. -/
def Shaped (c : Connection) : Prop :=
  match c.turn with
  | some .initThreadArg => c.thread = none ∧ c.reserved = false ∧ c.failed = false
  | some (.attrDestroy true) => c.thread.isSome = true ∧ c.reserved = true ∧ c.failed = false
  | some .atomicRemoveClientCounter | some .freeArg => c.reserved = true ∧ c.failed = true
  | some .closeSocket => (c.thread.isSome = true → c.reserved = true) ∧ c.failed = true
  | some _ => c.thread = none ∧ c.reserved = true ∧ c.failed = false
  | none => c.thread.isSome = true → c.reserved = true

/-- The socket is closed once and the argument freed as often as it is reserved, by what was
done and what is to be done, and once more each where the client is doubled. -/
structure Accounted (c : Connection) : Prop where
  shaped : c.Shaped
  sockets : c.closed + closesInTurn c.turn + closesInThread c.thread = 1 + c.doubled.toNat
  args : c.freed + freesInTurn c.turn + freesInThread c.thread =
    c.reserved.toNat + c.doubled.toNat

theorem accounted_accepted : accepted.Accounted where
  shaped := ⟨rfl, rfl, rfl⟩
  sockets := rfl
  args := rfl

variable {c : Connection} {debug succeeds : Bool} {clientsNumber : Int}

theorem accounted_turnStep {stage : Stage} (accounted : c.Accounted) (here : c.turn = some stage) :
    (turnStep debug succeeds clientsNumber c stage).2.Accounted := by
  obtain ⟨turn, thread, reserved, freed, closed, failed⟩ := c
  obtain ⟨shaped, sockets, args⟩ := accounted
  dsimp only at here
  subst here
  cases stage with
  | initThreadArg =>
      obtain ⟨rfl, rfl, rfl⟩ := shaped
      dsimp only [turnStep]
      split <;> constructor <;> simp_all [Shaped, closesInTurn, freesInTurn, doubled]
  | atomicAddClientCounter =>
      obtain ⟨rfl, rfl, rfl⟩ := shaped
      dsimp only [turnStep]
      split <;> constructor <;> simp_all [Shaped, closesInTurn, freesInTurn, doubled]
  | attrInit =>
      obtain ⟨rfl, rfl, rfl⟩ := shaped
      dsimp only [turnStep]
      split <;> constructor <;> simp_all [Shaped, closesInTurn, freesInTurn, doubled]
  | create =>
      obtain ⟨rfl, rfl, rfl⟩ := shaped
      dsimp only [turnStep]
      split <;> constructor <;>
        simp_all [Shaped, closesInTurn, freesInTurn, closesInThread, freesInThread, doubled]
  | attrDestroy created =>
      cases created with
      | false =>
          obtain ⟨rfl, rfl, rfl⟩ := shaped
          constructor <;> simp_all [turnStep, Shaped, closesInTurn, freesInTurn, doubled]
      | true =>
          obtain ⟨isThread, rfl, rfl⟩ := shaped
          dsimp only [turnStep]
          cases succeeds <;> constructor <;>
            simp_all [Shaped, closesInTurn, freesInTurn, doubled] <;> omega
  | atomicRemoveClientCounter =>
      obtain ⟨rfl, rfl⟩ := shaped
      exact ⟨⟨rfl, rfl⟩, sockets, args⟩
  | freeArg =>
      obtain ⟨rfl, rfl⟩ := shaped
      exact ⟨⟨fun _ => rfl, rfl⟩, sockets, args⟩
  | closeSocket =>
      obtain ⟨isReserved, rfl⟩ := shaped
      exact ⟨isReserved, sockets, args⟩

/-- The counter changes by what the client stands for in it. -/
theorem weight_turnStep {stage : Stage} (shaped : c.Shaped) (here : c.turn = some stage) :
    (turnStep debug succeeds clientsNumber c stage).1 =
      clientsNumber + ((turnStep debug succeeds clientsNumber c stage).2.weight - c.weight) := by
  obtain ⟨turn, thread, reserved, freed, closed, failed⟩ := c
  dsimp only at here
  subst here
  cases stage with
  | initThreadArg =>
      obtain ⟨rfl, rfl, rfl⟩ := shaped
      dsimp only [turnStep]
      split <;> simp [weight, countsInTurn, doubled]
  | atomicAddClientCounter =>
      obtain ⟨rfl, rfl, rfl⟩ := shaped
      dsimp only [turnStep]
      split <;> simp [weight, countsInTurn, doubled]
  | attrInit =>
      obtain ⟨rfl, rfl, rfl⟩ := shaped
      dsimp only [turnStep]
      split <;> simp [weight, countsInTurn, doubled]
  | create =>
      obtain ⟨rfl, rfl, rfl⟩ := shaped
      dsimp only [turnStep]
      split <;> simp [weight, countsInTurn, countsInThread, doubled]
  | attrDestroy created =>
      cases created with
      | false =>
          obtain ⟨rfl, rfl, rfl⟩ := shaped
          simp [turnStep, weight, countsInTurn, doubled]
      | true =>
          obtain ⟨isThread, rfl, rfl⟩ := shaped
          dsimp only [turnStep]
          cases succeeds <;> simp_all [weight, countsInTurn, doubled]
  | atomicRemoveClientCounter =>
      simp only [turnStep, weight, countsInTurn, doubled]
      omega
  | freeArg =>
      simp only [turnStep, weight, countsInTurn, doubled]
      omega
  | closeSocket =>
      simp only [turnStep, weight, countsInTurn, doubled]
      omega

theorem doubled_turnStep {stage : Stage} (shaped : c.Shaped) (here : c.turn = some stage)
    (reported : succeeds = true ∨ stage ≠ .attrDestroy true) :
    (turnStep debug succeeds clientsNumber c stage).2.doubled = c.doubled := by
  obtain ⟨turn, thread, reserved, freed, closed, failed⟩ := c
  dsimp only at here
  subst here
  cases stage with
  | initThreadArg =>
      obtain ⟨rfl, rfl, rfl⟩ := shaped
      dsimp only [turnStep]
      split <;> rfl
  | atomicAddClientCounter =>
      obtain ⟨rfl, rfl, rfl⟩ := shaped
      dsimp only [turnStep]
      split <;> rfl
  | attrInit =>
      obtain ⟨rfl, rfl, rfl⟩ := shaped
      dsimp only [turnStep]
      split <;> rfl
  | create =>
      obtain ⟨rfl, rfl, rfl⟩ := shaped
      dsimp only [turnStep]
      split <;> rfl
  | attrDestroy created =>
      cases created with
      | false =>
          obtain ⟨rfl, rfl, rfl⟩ := shaped
          rfl
      | true =>
          obtain rfl : succeeds = true := reported.resolve_right (not_not.mpr rfl)
          rfl
  | atomicRemoveClientCounter => rfl
  | freeArg => rfl
  | closeSocket => rfl

/-- A doubled client stays one. -/
theorem doubled_of_turnStep {stage : Stage} (isDoubled : c.doubled = true) (here : c.turn = some stage)
    (shaped : c.Shaped) : (turnStep debug succeeds clientsNumber c stage).2.doubled = true := by
  rw [← isDoubled]
  apply doubled_turnStep shaped here
  right
  rintro rfl
  rw [Shaped, here] at shaped
  rw [doubled, shaped.2.2, Bool.and_false] at isDoubled
  cases isDoubled

theorem accounted_threadStep {point : ThreadPoint} (accounted : c.Accounted)
    (here : c.thread = some point) : (threadStep clientsNumber c point).2.Accounted := by
  obtain ⟨turn, thread, reserved, freed, closed, failed⟩ := c
  obtain ⟨shaped, sockets, args⟩ := accounted
  dsimp only at here
  subst here
  have reshaped (thread : ThreadPoint) (freed closed : Nat) :
      Shaped ⟨turn, some thread, reserved, freed, closed, failed⟩ := by
    unfold Shaped at shaped ⊢
    dsimp only at shaped ⊢
    split at shaped <;> simp_all
  cases point <;> refine ⟨reshaped _ _ _, ?_, ?_⟩
  all_goals
    simp_all only [threadStep, closesInThread, freesInThread, doubled, Option.isSome_some]
    try omega

theorem weight_threadStep {point : ThreadPoint} (here : c.thread = some point) :
    (threadStep clientsNumber c point).1 =
      clientsNumber + ((threadStep clientsNumber c point).2.weight - c.weight) := by
  cases point
  all_goals
    simp only [threadStep, weight, here, countsInThread, doubled, Option.isSome_some]
    omega

theorem doubled_threadStep {point : ThreadPoint} (here : c.thread = some point) :
    (threadStep clientsNumber c point).2.doubled = c.doubled := by
  cases point <;> simp [threadStep, here, doubled]

end Connection

/-! ## What a step of the server does -/

section Step

variable {debug : Bool} {s next : ServerState} {action : Action}

theorem step_cases (stepped : step debug s action = some next) :
    (next.clientsNumber = s.clientsNumber ∧
      (next.connections = s.connections ∨ next.connections = s.connections ++ [accepted])) ∨
    (∃ succeeds k c stage, action = .main succeeds ∧ s.main = .turn k ∧
      s.connections[k]? = some c ∧ c.turn = some stage ∧
      next.clientsNumber = (turnStep debug succeeds s.clientsNumber c stage).1 ∧
      next.connections = s.connections.modify k fun c =>
        (turnStep debug succeeds s.clientsNumber c stage).2) ∨
    ∃ k c point, action = .thread k ∧ s.connections[k]? = some c ∧ c.thread = some point ∧
      next.clientsNumber = (threadStep s.clientsNumber c point).1 ∧
      next.connections = s.connections.modify k fun c => (threadStep s.clientsNumber c point).2 := by
  cases action with
  | sigint =>
      obtain rfl := Option.some.inj stepped
      exact .inl ⟨rfl, .inl rfl⟩
  | thread k =>
      right
      right
      simp only [step, clientStep] at stepped
      cases found : s.connections[k]? with
      | none => simp [found] at stepped
      | some c =>
          cases here : c.thread with
          | none => simp [found, here] at stepped
          | some point =>
              simp only [found, here, Option.some.injEq] at stepped
              subst stepped
              exact ⟨k, c, point, rfl, found, here, rfl, rfl⟩
  | main succeeds =>
      simp only [step, mainStep] at stepped
      cases main : s.main with
      | loopHead =>
          simp only [main, Option.some.injEq] at stepped
          subst stepped
          exact .inl ⟨rfl, .inl rfl⟩
      | acceptClient =>
          simp only [main] at stepped
          split at stepped <;> obtain rfl := Option.some.inj stepped
          · exact .inl ⟨rfl, .inr rfl⟩
          · exact .inl ⟨rfl, .inl rfl⟩
      | turn k =>
          simp only [main] at stepped
          cases found : s.connections[k]? with
          | none => simp [found] at stepped
          | some c =>
              cases here : c.turn with
              | none =>
                  simp only [found, here, Option.some.injEq] at stepped
                  subst stepped
                  exact .inl ⟨rfl, .inl rfl⟩
              | some stage =>
                  simp only [found, here, Option.some.injEq] at stepped
                  subst stepped
                  exact .inr (.inl ⟨succeeds, k, c, stage, rfl, rfl, found, here, rfl, rfl⟩)
      | closeServerSocket =>
          simp only [main, Option.some.injEq] at stepped
          subst stepped
          exact .inl ⟨rfl, .inl rfl⟩
      | returned => simp [main] at stepped

/-- What holds in every state of the server. -/
structure Invariant (debug : Bool) (s : ServerState) : Prop where
  accounted : ∀ c ∈ s.connections, c.Accounted
  counted : s.clientsNumber = (s.connections.map Connection.weight).sum
  bounded : s.clientsNumber ≤ maxClientsThreads debug

theorem invariant_listening : Invariant debug listening where
  accounted := by simp [listening]
  counted := rfl
  bounded := Int.natCast_nonneg _

theorem turnStep_bounded {succeeds : Bool} {c : Connection} {stage : Stage} {clientsNumber : Int}
    (bounded : clientsNumber ≤ maxClientsThreads debug) :
    (turnStep debug succeeds clientsNumber c stage).1 ≤ maxClientsThreads debug := by
  cases stage <;> dsimp only [turnStep] <;> (try split) <;> omega

theorem threadStep_bounded {c : Connection} {point : ThreadPoint} {clientsNumber : Int}
    (bounded : clientsNumber ≤ maxClientsThreads debug) :
    (threadStep clientsNumber c point).1 ≤ maxClientsThreads debug := by
  cases point <;> dsimp only [threadStep] <;> omega

theorem invariant_step (invariant : Invariant debug s) (stepped : step debug s action = some next) :
    Invariant debug next := by
  obtain ⟨accounted, counted, bounded⟩ := invariant
  rcases step_cases stepped with ⟨number, same | more⟩ |
    ⟨succeeds, k, c, stage, rfl, _, found, here, number, changed⟩ |
    ⟨k, c, point, rfl, found, here, number, changed⟩
  · exact ⟨same ▸ accounted, by rw [number, same, counted], by rw [number]; exact bounded⟩
  · constructor
    · rw [more]
      intro c member
      rcases List.mem_append.mp member with old | new
      · exact accounted c old
      · rw [List.mem_singleton.mp new]
        exact Connection.accounted_accepted
    · rw [number, more, counted, List.map_append, List.sum_append]
      simp [Connection.weight, accepted, countsInTurn, countsInThread, Connection.doubled]
    · rw [number]
      exact bounded
  · have cAccounted := accounted c (List.mem_of_getElem? found)
    constructor
    · rw [changed]
      apply Machine.forall_mem_modify accounted
      intro party foundParty
      obtain rfl := Option.some.inj (found.symm.trans foundParty)
      exact Connection.accounted_turnStep cAccounted here
    · rw [number, changed, Machine.sum_map_modify Connection.weight _ found, ← counted]
      exact Connection.weight_turnStep cAccounted.shaped here
    · rw [number]
      exact turnStep_bounded bounded
  · have cAccounted := accounted c (List.mem_of_getElem? found)
    constructor
    · rw [changed]
      apply Machine.forall_mem_modify accounted
      intro party foundParty
      obtain rfl := Option.some.inj (found.symm.trans foundParty)
      exact Connection.accounted_threadStep cAccounted here
    · rw [number, changed, Machine.sum_map_modify Connection.weight _ found, ← counted]
      exact Connection.weight_threadStep here
    · rw [number]
      exact threadStep_bounded bounded

/-- No client is doubled. -/
def NoneDoubled (s : ServerState) : Prop :=
  ∀ c ∈ s.connections, c.doubled = false

theorem noneDoubled_step (invariant : Invariant debug s) (none : NoneDoubled s)
    (reported : Reported s action) (stepped : step debug s action = some next) :
    NoneDoubled next := by
  rcases step_cases stepped with ⟨_, same | more⟩ |
    ⟨succeeds, k, c, stage, rfl, main, found, here, _, changed⟩ |
    ⟨k, c, point, rfl, found, here, _, changed⟩
  · unfold NoneDoubled
    rw [same]
    exact none
  · unfold NoneDoubled
    rw [more]
    intro c member
    rcases List.mem_append.mp member with old | new
    · exact none c old
    · rw [List.mem_singleton.mp new]
      rfl
  · unfold NoneDoubled
    rw [changed]
    apply Machine.forall_mem_modify none
    intro party foundParty
    obtain rfl := Option.some.inj (found.symm.trans foundParty)
    rw [← none c (List.mem_of_getElem? found)]
    apply Connection.doubled_turnStep (invariant.accounted c (List.mem_of_getElem? found)).shaped here
    rcases reported with success | other
    · exact .inl success
    · right
      rintro rfl
      simp [stage, main, found, here] at other
  · unfold NoneDoubled
    rw [changed]
    apply Machine.forall_mem_modify none
    intro party foundParty
    obtain rfl := Option.some.inj (found.symm.trans foundParty)
    rw [← none c (List.mem_of_getElem? found)]
    exact Connection.doubled_threadStep here

/-- Some client is doubled. -/
def SomeDoubled (s : ServerState) : Prop :=
  ∃ c ∈ s.connections, c.doubled = true

theorem someDoubled_modify {k : Nat} {c : Connection} {change : Connection → Connection}
    (marked : SomeDoubled s) (found : s.connections[k]? = some c)
    (stays : c.doubled = true → (change c).doubled = true)
    (changed : next.connections = s.connections.modify k change) : SomeDoubled next := by
  obtain ⟨old, member, isDoubled⟩ := marked
  obtain ⟨i, foundOld⟩ := List.mem_iff_getElem?.mp member
  by_cases same : k = i
  · subst same
    obtain rfl := Option.some.inj (foundOld.symm.trans found)
    have foundNew : next.connections[k]? = some (change old) := by
      rw [changed, List.getElem?_modify_eq, foundOld]
      rfl
    exact ⟨change old, List.mem_of_getElem? foundNew, stays isDoubled⟩
  · have foundNew : next.connections[i]? = some old := by
      rw [changed, List.getElem?_modify_ne _ _ same]
      exact foundOld
    exact ⟨old, List.mem_of_getElem? foundNew, isDoubled⟩

theorem someDoubled_step (invariant : Invariant debug s) (marked : SomeDoubled s)
    (stepped : step debug s action = some next) : SomeDoubled next := by
  rcases step_cases stepped with ⟨_, same | more⟩ |
    ⟨succeeds, k, c, stage, rfl, _, found, here, _, changed⟩ |
    ⟨k, c, point, rfl, found, here, _, changed⟩
  · unfold SomeDoubled
    rw [same]
    exact marked
  · obtain ⟨c, member, isDoubled⟩ := marked
    refine ⟨c, ?_, isDoubled⟩
    rw [more]
    exact List.mem_append_left _ member
  · apply someDoubled_modify marked found _ changed
    intro isDoubled
    exact Connection.doubled_of_turnStep isDoubled here
      (invariant.accounted c (List.mem_of_getElem? found)).shaped
  · apply someDoubled_modify marked found _ changed
    intro isDoubled
    rw [Connection.doubled_threadStep here]
    exact isDoubled

theorem turn_of_stage {isStage : Stage} (here : stage s = some isStage) :
    ∃ k c, s.main = .turn k ∧ s.connections[k]? = some c ∧ c.turn = some isStage := by
  unfold stage at here
  cases main : s.main with
  | turn k =>
      rw [main] at here
      obtain ⟨c, found, turn⟩ := Option.bind_eq_some_iff.mp here
      exact ⟨k, c, rfl, found, turn⟩
  | loopHead => simp [main] at here
  | acceptClient => simp [main] at here
  | closeServerSocket => simp [main] at here
  | returned => simp [main] at here

/-- The one step that doubles a client. -/
theorem someDoubled_of_not_reported (invariant : Invariant debug s)
    (unreported : ¬ Reported s action) (stepped : step debug s action = some next) :
    SomeDoubled next := by
  cases action with
  | sigint => exact absurd trivial unreported
  | thread k => exact absurd trivial unreported
  | main succeeds =>
      unfold Reported at unreported
      push Not at unreported
      obtain ⟨fails, destroys⟩ := unreported
      obtain ⟨k, c, main, found, here⟩ := turn_of_stage destroys
      have shaped := (invariant.accounted c (List.mem_of_getElem? found)).shaped
      rw [Connection.Shaped, here] at shaped
      obtain rfl : succeeds = false := Bool.eq_false_iff.mpr fails
      simp only [step, mainStep, main, found, here, Option.some.injEq] at stepped
      subst stepped
      refine ⟨{ c with turn := .some .atomicRemoveClientCounter, failed := true },
        List.mem_iff_getElem?.mpr ⟨k, ?_⟩, ?_⟩
      · rw [List.getElem?_modify_eq, found]
        rfl
      · rw [Connection.doubled, shaped.1]
        rfl

end Step

/-! ## Runs -/

section Run

variable {debug : Bool} {actions : List Action} {s : ServerState}

theorem invariant_run (ran : Machine.run (step debug) listening actions = some s) :
    Invariant debug s :=
  have free : Machine.Meets (step debug) (fun _ _ => True) listening actions :=
    Machine.meets_of_forall (fun _ _ => trivial) actions
  Machine.keeps_run (fun invariant _ stepped => invariant_step invariant stepped)
    invariant_listening free ran

theorem noneDoubled_run
    (reported : Machine.Meets (step debug) Reported listening actions)
    (ran : Machine.run (step debug) listening actions = some s) : NoneDoubled s := by
  have keepsBoth {s : ServerState} {action : Action} {next : ServerState}
      (both : Invariant debug s ∧ NoneDoubled s) (isReported : Reported s action)
      (stepped : step debug s action = some next) : Invariant debug next ∧ NoneDoubled next :=
    ⟨invariant_step both.1 stepped, noneDoubled_step both.1 both.2 isReported stepped⟩
  have none : NoneDoubled listening := by
    simp [NoneDoubled, listening]
  exact (Machine.keeps_run keepsBoth ⟨invariant_listening, none⟩ reported ran).2

/-- No client is served by more threads than there may be, or behind the closing of its socket or
the freeing of its argument; and the counter is right. -/
structure Sound (debug : Bool) (s : ServerState) : Prop where
  served : s.connections.countP (fun c => c.thread = some .threadWork) ≤ maxClientsThreads debug
  counted : s.clientsNumber =
    s.connections.countP fun c => countsInTurn c.turn = 1 ∨ countsInThread c.thread = 1
  once : ∀ c ∈ s.connections, c.closed ≤ 1 ∧ c.freed ≤ c.reserved.toNat
  isOpen : ∀ c ∈ s.connections, closesInThread c.thread = 1 → c.closed = 0
  alive : ∀ c ∈ s.connections, freesInThread c.thread = 1 → c.freed = 0

theorem countsInTurn_cases (turn : Option Stage) : countsInTurn turn = 0 ∨ countsInTurn turn = 1 := by
  unfold countsInTurn
  split <;> simp

theorem countsInThread_cases (thread : Option ThreadPoint) :
    countsInThread thread = 0 ∨ countsInThread thread = 1 := by
  unfold countsInThread
  split <;> simp

/-- A client that the main thread counts has no thread yet. -/
theorem countsInThread_of_turn {c : Connection} (shaped : c.Shaped) (single : c.doubled = false)
    (counts : countsInTurn c.turn = 1) : countsInThread c.thread = 0 := by
  have none : c.thread = none := by
    unfold Connection.Shaped at shaped
    unfold Connection.doubled at single
    unfold countsInTurn at counts
    split at counts <;> simp_all
  rw [none]
  rfl

theorem weight_eq {c : Connection} (shaped : c.Shaped) (single : c.doubled = false) :
    c.weight = if decide (countsInTurn c.turn = 1 ∨ countsInThread c.thread = 1) then 1 else 0 := by
  rw [Connection.weight, single]
  rcases countsInTurn_cases c.turn with noTurn | turn
  · rcases countsInThread_cases c.thread with noThread | thread
    · simp [noTurn, noThread]
    · simp [noTurn, thread]
  · simp [turn, countsInThread_of_turn shaped single turn]

/-- As long as `pthread_attr_destroy` does not fail behind a thread that was created, the server
is sound. -/
theorem sound_run (reported : Machine.Meets (step debug) Reported listening actions)
    (ran : Machine.run (step debug) listening actions = some s) : Sound debug s := by
  obtain ⟨accounted, counted, bounded⟩ := invariant_run ran
  have single := noneDoubled_run reported ran
  have isCounted : s.clientsNumber = s.connections.countP fun c =>
      decide (countsInTurn c.turn = 1 ∨ countsInThread c.thread = 1) := by
    rw [counted]
    exact Machine.sum_map_eq_countP fun c member =>
      weight_eq (accounted c member).shaped (single c member)
  constructor
  · have working : s.connections.countP (fun c => c.thread = some .threadWork) ≤
        s.connections.countP fun c =>
          decide (countsInTurn c.turn = 1 ∨ countsInThread c.thread = 1) := by
      apply List.countP_mono_left
      intro c _ working
      simp [of_decide_eq_true working, countsInThread]
    omega
  · exact isCounted
  · intro c member
    obtain ⟨_, sockets, args⟩ := accounted c member
    rw [single c member, Bool.toNat_false] at sockets args
    omega
  · intro c member closes
    obtain ⟨_, sockets, _⟩ := accounted c member
    rw [single c member, Bool.toNat_false] at sockets
    omega
  · intro c member frees
    obtain ⟨shaped, _, args⟩ := accounted c member
    rw [single c member, Bool.toNat_false] at args
    have reserved := c.reserved.toNat_le
    omega

/-- Every turn is ended and every thread returned. -/
def Settled (s : ServerState) : Prop :=
  ∀ c ∈ s.connections, c.turn = none ∧ (c.thread = none ∨ c.thread = some .returned)

instance (s : ServerState) : Decidable (Settled s) :=
  inferInstanceAs (Decidable (∀ c ∈ s.connections, _))

/-- Every socket was closed once, and every argument freed once. -/
def ReleasedOnce (s : ServerState) : Prop :=
  ∀ c ∈ s.connections, c.closed = 1 ∧ c.freed = c.reserved.toNat

/-- When all is settled, every socket was closed once and every argument freed once if and only
if `pthread_attr_destroy` has failed behind no thread that was created. -/
theorem releasedOnce_iff (ran : Machine.run (step debug) listening actions = some s)
    (settled : Settled s) :
    ReleasedOnce s ↔ Machine.Meets (step debug) Reported listening actions := by
  have accounts (c : Connection) (member : c ∈ s.connections) :
      c.closed = 1 + c.doubled.toNat ∧ c.freed = c.reserved.toNat + c.doubled.toNat := by
    obtain ⟨_, sockets, args⟩ := (invariant_run ran).accounted c member
    obtain ⟨noTurn, noThread | returned⟩ := settled c member
    · simpa [noTurn, noThread, closesInTurn, closesInThread, freesInTurn, freesInThread]
        using And.intro sockets args
    · simpa [noTurn, returned, closesInTurn, closesInThread, freesInTurn, freesInThread]
        using And.intro sockets args
  constructor
  · intro released
    by_contra unreported
    obtain ⟨c, member, isDoubled⟩ := Machine.marked_run invariant_step someDoubled_step
      someDoubled_of_not_reported invariant_listening unreported ran
    have twice := (accounts c member).1
    rw [isDoubled, (released c member).1] at twice
    cases twice
  · intro reported c member
    have single := noneDoubled_run reported ran c member
    have here := accounts c member
    rw [single] at here
    exact here

end Run

/-! ## One client -/

/-- The main thread accepts a client and starts its thread, which runs to its end. -/
def servedActions : List Action :=
  List.replicate 7 (.main true) ++ List.replicate 4 (.thread 0) ++ [.main true]

def servedState : ServerState :=
  ⟨0, false, .loopHead, [⟨none, some .returned, true, 1, 1, false⟩]⟩

theorem sound_served : Sound false servedState :=
  @sound_run false servedActions _ (by decide) (by decide)

/-- The thread runs, and `pthread_attr_destroy` fails. -/
def unreportedActions : List Action :=
  List.replicate 6 (.main true) ++ .main false :: List.replicate 4 (.thread 0) ++
    List.replicate 4 (.main true)

def releasedTwice : ServerState :=
  ⟨-1, false, .loopHead, [⟨none, some .returned, true, 2, 2, true⟩]⟩

theorem releasedOnce_iff_unreported :
    ReleasedOnce releasedTwice ↔
      Machine.Meets (step false) Reported listening unreportedActions :=
  releasedOnce_iff (by decide) (by decide)

end MainLoop

end Myscm.Old
