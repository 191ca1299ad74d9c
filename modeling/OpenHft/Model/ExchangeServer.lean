import OpenHft.Model.Ouch

/-!
# `ExchangeTcpServer`, from one system call to the next

`exchange/exchange_tcp_server.cpp` for plaintext clients. The server is one thread and
everything it learns it learns from system calls, so a state is where it waits for the
answer to one (`ServerPhase`), and a step takes an answer and runs the code up to the next call.
An answer that the call cannot give leaves the state as it is.

A `Connection` is the server's `ClientState` together with a record that no code reads:
what the client sends and what of it has not been received, the blocks `handleEnterOrder`
was called with, the responses it returned, and the bytes `send` accepted. `closed` keeps
the connections that have been closed. A fault in the handler ends the run; the state is
then the one in which it was called.
-/

namespace OpenHft

/-- The size of an Enter Order message, and of the buffer it is collected in. -/
def EnterOrderSize : Nat := 47

/-- What the server knows of a client: the block being received, the response being sent, and
how far it has got with either. -/
structure ClientState where
  receiveBuffer : Vector UInt8 EnterOrderSize
  receivedBytes : Nat
  sendBuffer : List UInt8
  sentBytes : Nat

/-- The buffer after bytes were written to it from `offset` on. -/
@[irreducible] def writeBuffer (buffer : Vector UInt8 EnterOrderSize) (offset : Nat)
    (bytes : List UInt8) : Vector UInt8 EnterOrderSize :=
  Vector.ofFn fun i =>
    if i.val < offset then buffer[i] else bytes.getD (i.val - offset) buffer[i]

/-- A client's state and what has passed between the client and the server. -/
structure Connection where
  state : ClientState
  /-- everything the client sends -/
  stream : List UInt8
  /-- what of it the server has not received -/
  unread : List UInt8
  handled : List (Vector UInt8 EnterOrderSize)
  responses : List AcceptedEncoder.Buffer
  sent : List UInt8

namespace Connection

/-- `ClientState state{}`, of a client that sends `stream`. -/
def init (stream : List UInt8) : Connection where
  state :=
    { receiveBuffer := Vector.replicate EnterOrderSize 0
      receivedBytes := 0
      sendBuffer := []
      sentBytes := 0 }
  stream := stream
  unread := stream
  handled := []
  responses := []
  sent := []

/-- What a `recv` of the missing bytes delivers when it delivers up to `count`. -/
def delivered (c : Connection) (count : Nat) : List UInt8 :=
  c.unread.take (min count (EnterOrderSize - c.state.receivedBytes))

/-- `recv` has written the bytes behind those in the buffer. -/
def receive (c : Connection) (bytes : List UInt8) : Connection :=
  { c with
    state := { c.state with
      receiveBuffer := writeBuffer c.state.receiveBuffer c.state.receivedBytes bytes
      receivedBytes := c.state.receivedBytes + bytes.length }
    unread := c.unread.drop bytes.length }

/-- What a `send` of the pending bytes accepts when it accepts up to `count`. -/
def accepted (c : Connection) (count : Nat) : List UInt8 :=
  (c.state.sendBuffer.drop c.state.sentBytes).take count

/-- `send` has taken the bytes. -/
def send (c : Connection) (bytes : List UInt8) : Connection :=
  { c with
    state := { c.state with sentBytes := c.state.sentBytes + bytes.length }
    sent := c.sent ++ bytes }

end Connection

/-- An entry of the array that `epoll_wait` fills. -/
inductive EpollEvent where
  /-- on the listening socket -/
  | listen
  /-- on a client: `EPOLLERR | EPOLLHUP`, `EPOLLOUT`, `EPOLLIN` -/
  | client (fd : Nat) (hangup writable readable : Bool)

/-- Who has called `flushPendingWrite`: `sendAll`, or `pollOnce` for an event that may
have `EPOLLIN` set as well. -/
inductive FlushCaller where
  | sendAll
  | pollOnce (readable : Bool)

/-- The system call whose answer the server waits for; `events` are those of the
`epoll_wait` that are still to be looked at. -/
inductive ServerPhase where
  | epollWait
  | accept (events : List EpollEvent)
  | recv (fd : Nat) (events : List EpollEvent)
  | send (fd : Nat) (caller : FlushCaller) (events : List EpollEvent)
  /-- the `epoll_ctl` of `updateClientEvents`, at the end of `flushPendingWrite` -/
  | updateEvents (fd : Nat) (caller : FlushCaller) (events : List EpollEvent)

/-- What the system answers to a call. -/
inductive Answer where
  /-- of `epoll_wait` -/
  | events (events : List EpollEvent)
  /-- of `accept4`: a client, and whether `epoll_ctl` could add it -/
  | connection (fd : Nat) (added : Bool) (stream : List UInt8)
  /-- of `recv` and `send`: up to `more + 1` bytes -/
  | bytes (more : Nat)
  /-- of `recv`: zero bytes -/
  | closed
  /-- of `epoll_ctl` -/
  | done
  /-- `EAGAIN` -/
  | again
  /-- `EINTR` -/
  | interrupted
  | failed

/-- The members of the server, with the phase it is in, the fault that ended the run and the
connections that have been closed. -/
structure ExchangeTcpServer where
  accountId : AccountId
  handler : ExchangeOuchHandler
  clients : Nat → Option Connection
  phase : ServerPhase
  fault : Option Fault
  closed : List Connection

namespace ExchangeTcpServer

/-- A server that has been started. -/
def init (accountId : AccountId) (handler : ExchangeOuchHandler) : ExchangeTcpServer where
  accountId := accountId
  handler := handler
  clients := fun _ => none
  phase := .epollWait
  fault := none
  closed := []

/-- A write to the state of a client. -/
def setClient (s : ExchangeTcpServer) (fd : Nat) (c : Connection) : ExchangeTcpServer :=
  { s with clients := Function.update s.clients fd (some c) }

/-- A client that there is not is not closed again. -/
def closeClient (s : ExchangeTcpServer) (fd : Nat) : ExchangeTcpServer :=
  match s.clients fd with
  | none => s
  | some c =>
      { s with
        clients := Function.update s.clients fd none
        closed := s.closed ++ [c] }

/-- The loop of `flushPendingWrite`, up to its next `send` or to its end. -/
def flushPendingWrite (s : ExchangeTcpServer) (fd : Nat) (c : Connection)
    (caller : FlushCaller) (events : List EpollEvent) : ExchangeTcpServer :=
  if c.state.sentBytes < c.state.sendBuffer.length then
    { s.setClient fd c with phase := .send fd caller events }
  else
    { s.setClient fd { c with state := { c.state with sendBuffer := [], sentBytes := 0 } } with
      phase := .updateEvents fd caller events }

/-- The loop of `pollOnce` over the events of one `epoll_wait`. -/
def pollEvents (s : ExchangeTcpServer) : List EpollEvent → ExchangeTcpServer
  | [] => { s with phase := .epollWait }
  | .listen :: events => { s with phase := .accept events }
  | .client fd hangup writable readable :: events =>
      if hangup then (s.closeClient fd).pollEvents events
      else
        match s.clients fd with
        -- `handleClientReadable` finds no client, and there is none to close
        | none => s.pollEvents events
        | some c =>
            if writable ∧ c.state.sendBuffer ≠ [] then
              s.flushPendingWrite fd c (.pollOnce readable) events
            else if readable then { s with phase := .recv fd events }
            else s.pollEvents events

/-- `flushPendingWrite` has returned `ok` to its caller. -/
def flushed (s : ExchangeTcpServer) (fd : Nat) (c : Connection) (ok : Bool)
    (caller : FlushCaller) (events : List EpollEvent) : ExchangeTcpServer :=
  if ok then
    match caller with
    | .sendAll =>
        { s.setClient fd { c with state := { c.state with receivedBytes := 0 } } with
          phase := .recv fd events }
    | .pollOnce readable =>
        if readable then { s with phase := .recv fd events } else s.pollEvents events
  else (s.closeClient fd).pollEvents events

/-- A response that is still pending is an error, upon which the caller closes the client. -/
def sendAll (s : ExchangeTcpServer) (fd : Nat) (c : Connection) (data : List UInt8)
    (events : List EpollEvent) : ExchangeTcpServer :=
  if c.state.sendBuffer ≠ [] then
    ((s.setClient fd c).closeClient fd).pollEvents events
  else
    s.flushPendingWrite fd
      { c with state := { c.state with sendBuffer := data, sentBytes := 0 } } .sendAll events

/-- A block is complete. -/
def handleBlock (s : ExchangeTcpServer) (fd : Nat) (c : Connection)
    (events : List EpollEvent) : ExchangeTcpServer :=
  let c := { c with handled := c.handled ++ [c.state.receiveBuffer] }
  match s.handler.handleEnterOrder s.accountId (.ofList c.state.receiveBuffer.toList)
      EnterOrderSize with
  | .error fault => { s.setClient fd c with fault := some fault }
  | .ok (none, handler) =>
      (({ s with handler := handler }.setClient fd c).closeClient fd).pollEvents events
  | .ok (some response, handler) =>
      { s with handler := handler }.sendAll fd
        { c with responses := c.responses ++ [response] } response.toList events

/-- The loop of `handleClientReadable`, after an answer to its `recv`. -/
def handleClientReadable (s : ExchangeTcpServer) (fd : Nat) (c : Connection)
    (events : List EpollEvent) : Answer → ExchangeTcpServer
  | .bytes more =>
      let bytes := c.delivered (more + 1)
      if bytes = [] then s
      else
        let c := c.receive bytes
        if c.state.receivedBytes = EnterOrderSize then s.handleBlock fd c events
        else s.setClient fd c
  | .closed | .failed => (s.closeClient fd).pollEvents events
  | .again => s.pollEvents events
  | _ => s

/-- The loop of `flushPendingWrite`, after an answer to its `send`. -/
def afterSend (s : ExchangeTcpServer) (fd : Nat) (c : Connection) (caller : FlushCaller)
    (events : List EpollEvent) : Answer → ExchangeTcpServer
  | .bytes more => s.flushPendingWrite fd (c.send (c.accepted (more + 1))) caller events
  | .again => { s with phase := .updateEvents fd caller events }
  | .failed => s.flushed fd c false caller events
  | _ => s

/-- `clients_.emplace` of a new client. -/
def emplace (s : ExchangeTcpServer) (fd : Nat) (stream : List UInt8) : ExchangeTcpServer :=
  match s.clients fd with
  | none => s.setClient fd (.init stream)
  | some _ => s

/-- The loop of `acceptClients`. When it fails, `pollOnce` returns at once. -/
def acceptClients (s : ExchangeTcpServer) (events : List EpollEvent) :
    Answer → ExchangeTcpServer
  | .connection fd added stream =>
      if added then s.emplace fd stream else { s with phase := .epollWait }
  | .again => s.pollEvents events
  | .failed => { s with phase := .epollWait }
  | _ => s

/-- The code from the answer to a system call to the next call. -/
def step (s : ExchangeTcpServer) (answer : Answer) : ExchangeTcpServer :=
  if s.fault.isSome then s
  else
    match s.phase with
    | .epollWait =>
        match answer with
        | .events events => s.pollEvents events
        | _ => s
    | .accept events => s.acceptClients events answer
    | .recv fd events =>
        match s.clients fd with
        | none => s
        | some c => s.handleClientReadable fd c events answer
    | .send fd caller events =>
        match s.clients fd with
        | none => s
        | some c => s.afterSend fd c caller events answer
    | .updateEvents fd caller events =>
        match s.clients fd with
        | none => s
        | some c =>
            match answer with
            | .done => s.flushed fd c true caller events
            | .failed => s.flushed fd c false caller events
            | _ => s

/-- The server, given the answers one after the other. -/
def run (s : ExchangeTcpServer) (answers : List Answer) : ExchangeTcpServer :=
  answers.foldl step s

end ExchangeTcpServer

end OpenHft
