/-!
# Signal handlers in flight

Sessions follow one another while signal handlers may start at any time on any thread. A handler
counts itself in, looks where samples go, captures one if there is such a place, and counts itself
out. A session that ends first withdraws its buffer and then waits until no handler is counted, so
that a handler which saw the buffer is done with it.

Every event is one atomic step on what sessions and handlers share.
-/

namespace StackProfiler.Timer

/-- How far a handler has come. -/
inductive HandlerPhase where
  | begun
  /-- It is counted. -/
  | counted
  /-- It has seen where samples go: to the buffer of a session, or nowhere. -/
  | looked (session : Option Nat)
  /-- It has captured a sample into the buffer of a session. -/
  | captured (session : Nat)
  /-- It is no longer counted. -/
  | left
deriving DecidableEq, Repr

/-- The session that a handler may be capturing for: it has seen the buffer and is still counted. -/
def HandlerPhase.session? : HandlerPhase → Option Nat
  | .looked session => session
  | .captured session => some session
  | _ => none

/-- How far a session has come. -/
inductive SessionPhase where
  | armed
  /-- Its buffer is withdrawn, and it waits for handlers. -/
  | withdrawn
  | ended
deriving DecidableEq, Repr

/-- A session. Buffers are told apart by numbers, and several sessions may use the same one. -/
structure TimerSession where
  buffer : Nat
  phase : SessionPhase := .armed
deriving DecidableEq, Repr

/-- What sessions and handlers share, and how far each of them has come. -/
structure SignalState where
  /-- The number of the session whose buffer samples go to. -/
  active : Option Nat := none
  /-- Number of handlers that are counted. -/
  inFlight : Nat := 0
  handlers : List HandlerPhase := []
  /-- All sessions so far, in the order of their starts. -/
  sessions : List TimerSession := []
deriving DecidableEq, Repr

/-- Something that happens in one atomic step. -/
inductive SignalEvent where
  /-- A handler begins. -/
  | signal
  /-- A handler of a number counts itself in. -/
  | countIn (handler : Nat)
  | look (handler : Nat)
  | capture (handler : Nat)
  | countOut (handler : Nat)
  /-- A session starts, which claims the place that samples go to. -/
  | start (buffer : Nat)
  /-- A session withdraws its buffer. -/
  | withdraw (session : Nat)
  /-- A session that waits finds no handler counted. -/
  | finish (session : Nat)
deriving DecidableEq, Repr

namespace SignalState

def setHandler (s : SignalState) (i : Nat) (phase : HandlerPhase) : SignalState :=
  { s with handlers := s.handlers.set i phase }

def setSession (s : SignalState) (k : Nat) (phase : SessionPhase) : SignalState :=
  { s with sessions := s.sessions.modify k fun session => { session with phase } }

def phaseOf? (s : SignalState) (k : Nat) : Option SessionPhase :=
  s.sessions[k]?.map (·.phase)

/-- The state after an event, if the event can happen. -/
def after? (s : SignalState) : SignalEvent → Option SignalState
  | .signal => some { s with handlers := s.handlers ++ [.begun] }
  | .countIn i =>
    match s.handlers[i]? with
    | some .begun => some { s.setHandler i .counted with inFlight := s.inFlight + 1 }
    | _ => none
  | .look i =>
    match s.handlers[i]? with
    | some .counted => some (s.setHandler i (.looked s.active))
    | _ => none
  | .capture i =>
    match s.handlers[i]? with
    | some (.looked (some k)) => some (s.setHandler i (.captured k))
    | _ => none
  | .countOut i =>
    match s.handlers[i]? with
    -- a handler that saw no buffer leaves without a capture
    | some (.looked none) => some { s.setHandler i .left with inFlight := s.inFlight - 1 }
    | some (.captured _) => some { s.setHandler i .left with inFlight := s.inFlight - 1 }
    | _ => none
  | .start buffer =>
    match s.active with
    | some _ => none
    | none =>
      some { s with active := some s.sessions.length, sessions := s.sessions ++ [{ buffer }] }
  | .withdraw k =>
    match s.phaseOf? k with
    | some .armed => some { s.setSession k .withdrawn with active := none }
    | _ => none
  | .finish k =>
    match s.phaseOf? k with
    | some .withdrawn => if s.inFlight = 0 then some (s.setSession k .ended) else none
    | _ => none

/-- The state after several events, if they can happen one after the other. -/
def afterAll? (s : SignalState) (events : List SignalEvent) : Option SignalState :=
  events.foldlM after? s

/-- Whether a state can come about from one without handlers and sessions. -/
def Reachable (s : SignalState) : Prop :=
  ∃ events, afterAll? {} events = some s

end SignalState

end StackProfiler.Timer
