import OpenHft.Lib.KeyedList
import OpenHft.Lib.Ledger
import OpenHft.Model.ExchangeServer

/-!
# The exchange process

`apps/exchange_runtime.cpp` with the whole of `exchange/exchange_tcp_server.cpp`: the
server is started, its event loop runs until `pollOnce` fails, it is stopped, and it is
destroyed. Clients speak TLS when the server has a certificate and a key, and plaintext
otherwise. As in `ExchangeServer` a state is a point of the code, mostly one where it waits
for the answer to a call into the system or into OpenSSL, and a step takes it to the next
one. At `poll`, the head of the loop over the events of an `epoll_wait`, nothing is asked
and the answer is not looked at. An answer that a call cannot give leaves the state as it is.

Records that no code reads: `log`, what the process has taken and given back; `closed`, the
clients that are gone; `calls`, the calls of `handleEnterOrder` in their order, each with
the client it was made for. A client has a `serial`, since its descriptor is used again
after it; it has the set that `epoll` watches it for, in which `EPOLLIN` always is; and it
has the bytes of the last `SSL_write` when that is to be repeated.

Not modelled: the log texts, `setsockopt`, whose result nobody looks at, `SSL_shutdown`, and
the `epoll_ctl` that removes a descriptor just before it is closed.
-/

namespace OpenHft

open Lib (Use lookup dropKey alterKey)

deriving instance DecidableEq for EpollEvent, FlushCaller

/-- What the process gets from the system and from OpenSSL and has to give back. -/
inductive Handle where
  | descriptor (fd : Nat)
  | session (ssl : Nat)
  | context (sslContext : Nat)
  deriving DecidableEq, Repr

/-- A `ClientState` with both of its modes. -/
structure Client where
  connection : Connection
  ssl : Option Nat
  tlsHandshakeComplete : Bool
  /-- `EPOLLOUT` is in the set `epoll` watches -/
  watchesWrite : Bool
  /-- the bytes of an `SSL_write` that has to be repeated -/
  offered : Option (List UInt8)
  serial : Nat

/-- The objects that belong to a client, in the order in which they are given back. -/
def Client.handles (fd : Nat) (c : Client) : List Handle :=
  (c.ssl.map Handle.session).toList ++ [.descriptor fd]

/-- A call of `handleEnterOrder` and what it returned. -/
structure HandlerCall where
  serial : Nat
  block : Vector UInt8 EnterOrderSize
  response : Option AcceptedEncoder.Buffer

namespace ExchangeRuntime

/-- The calls that `start` makes, those of `initializeTls` first. -/
inductive StartCall where
  | sslContextNew
  | useCertificateFile
  | usePrivateKeyFile
  | checkPrivateKey
  | socket
  | setNonBlocking
  | bind
  | getsockname
  | listen
  | epollCreate
  | epollAdd
  deriving DecidableEq, Repr

/-- Who has called `updateClientEvents`. -/
inductive UpdateCaller where
  | flushPendingWrite (caller : FlushCaller)
  | handleClientReadable
  | progressTlsHandshake
  deriving DecidableEq

/-- The call whose answer the server waits for; `events` are those of the `epoll_wait` that
are still to be looked at, and `poll` is before the next of them. -/
inductive Phase where
  | start (call : StartCall)
  | epollWait
  | poll (events : List EpollEvent)
  | accept (events : List EpollEvent)
  /-- `SSL_accept` -/
  | handshake (fd : Nat) (events : List EpollEvent)
  /-- `recv` or `SSL_read` -/
  | receive (fd : Nat) (events : List EpollEvent)
  /-- `send` or `SSL_write` -/
  | send (fd : Nat) (caller : FlushCaller) (events : List EpollEvent)
  /-- `epoll_ctl` with `EPOLLIN`, and with `EPOLLOUT` if `writable` -/
  | updateEvents (fd : Nat) (writable : Bool) (caller : UpdateCaller)
      (events : List EpollEvent)
  /-- the server has been destroyed -/
  | exited
  deriving DecidableEq

/-- What happens to a new client between `accept4` and `emplace`. -/
inductive Setup where
  /-- `epoll_ctl` fails -/
  | notAdded
  /-- `SSL_new` fails -/
  | noSession
  /-- `SSL_set_fd` fails -/
  | notAttached (ssl : Nat)
  | ready (ssl : Nat)

/-- What the system or the library answers to a call. -/
inductive Reply where
  /-- a call that only succeeds or fails has succeeded -/
  | done
  /-- of `SSL_CTX_new`, `socket` and `epoll_create1` -/
  | handle (n : Nat)
  /-- of `getsockname` -/
  | bound (port : UInt16)
  /-- of `epoll_wait` -/
  | events (events : List EpollEvent)
  /-- of `accept4` -/
  | connection (fd : Nat) (setup : Setup) (stream : List UInt8)
  /-- up to `more + 1` bytes -/
  | bytes (more : Nat)
  /-- zero bytes, or `SSL_ERROR_ZERO_RETURN` -/
  | closed
  /-- `SSL_ERROR_WANT_READ` -/
  | wantRead
  /-- `SSL_ERROR_WANT_WRITE` -/
  | wantWrite
  /-- `EAGAIN` -/
  | again
  /-- `EINTR` -/
  | interrupted
  | failed

end ExchangeRuntime

/-- The members of the server, and a record that no code reads: the clients that were closed,
the calls of the handler, and the handles that were acquired and released. -/
structure ExchangeRuntime where
  accountId : AccountId
  handler : ExchangeOuchHandler
  port : UInt16
  sslContext : Option Nat
  listenFd : Option Nat
  epollFd : Option Nat
  clients : List (Nat × Client)
  phase : ExchangeRuntime.Phase
  fault : Option Fault
  closed : List Client
  /-- how many clients there have been -/
  accepted : Nat
  calls : List HandlerCall
  log : List (Use Handle)

namespace ExchangeRuntime

/-- The server before `start`; `tls` is that both paths are given, without which
`initializeTls` returns at once. -/
def init (port : UInt16) (accountId : AccountId) (handler : ExchangeOuchHandler)
    (tls : Bool) : ExchangeRuntime where
  accountId := accountId
  handler := handler
  port := port
  sslContext := none
  listenFd := none
  epollFd := none
  clients := []
  phase := .start (if tls then .sslContextNew else .socket)
  fault := none
  closed := []
  accepted := 0
  calls := []
  log := []

/-- The state of the client on a descriptor. -/
def client (s : ExchangeRuntime) (fd : Nat) : Option Client :=
  (lookup Prod.fst fd s.clients).map Prod.snd

/-- A write to the state of a client that there is. -/
def setClient (s : ExchangeRuntime) (fd : Nat) (c : Client) : ExchangeRuntime :=
  { s with clients := alterKey Prod.fst fd (fun _ => (fd, c)) s.clients }

/-- The system has given the server a handle. -/
def acquire (s : ExchangeRuntime) (h : Handle) : ExchangeRuntime :=
  { s with log := s.log ++ [.acquire h] }

/-- The server has given handles back. -/
def release (s : ExchangeRuntime) (handles : List Handle) : ExchangeRuntime :=
  { s with log := s.log ++ handles.map .release }

/-- Everything the server can still give back, in the order of `stop`. -/
def owned (s : ExchangeRuntime) : List Handle :=
  s.clients.flatMap (fun entry => entry.2.handles entry.1) ++
    ((s.epollFd.map Handle.descriptor).toList ++
      ((s.listenFd.map Handle.descriptor).toList ++
        (s.sslContext.map Handle.context).toList))

/-- Also the destructor: the clients first, then the server's own handles. -/
def stop (s : ExchangeRuntime) : ExchangeRuntime :=
  { s.release s.owned with
    closed := s.closed ++ s.clients.map Prod.snd
    clients := []
    epollFd := none
    listenFd := none
    sslContext := none }

/-- `stop` and then the destructor, which stops once more. -/
def exit (s : ExchangeRuntime) : ExchangeRuntime :=
  { s.stop.stop with phase := .exited }

/-- The descriptor is closed whether or not there is a client for it. -/
def closeClient (s : ExchangeRuntime) (fd : Nat) : ExchangeRuntime :=
  match s.client fd with
  | none => s.release [.descriptor fd]
  | some c =>
      { s.release (c.handles fd) with
        clients := dropKey Prod.fst fd s.clients
        closed := s.closed ++ [c] }

/-- A call about the client has failed: `pollOnce` closes it and goes on. -/
def abandon (s : ExchangeRuntime) (fd : Nat) (events : List EpollEvent) : ExchangeRuntime :=
  { s.closeClient fd with phase := .poll events }

/-! ## `start` -/

/-- The call after one that only succeeds or fails. -/
def StartCall.next (port : UInt16) : StartCall → Phase
  | .useCertificateFile => .start .usePrivateKeyFile
  | .usePrivateKeyFile => .start .checkPrivateKey
  | .checkPrivateKey => .start .socket
  | .setNonBlocking => .start .bind
  | .bind => if port = 0 then .start .getsockname else .start .listen
  | .listen => .start .epollCreate
  | .epollAdd => .epollWait
  | call => .start call

/-- When a call fails `start` stops the server and returns `false`, and so does `main`. A
failing `socket` is the exception: there only the destructor stops it. -/
def start (s : ExchangeRuntime) (call : StartCall) : Reply → ExchangeRuntime
  | .done => { s with phase := call.next s.port }
  | .handle n =>
      match call with
      | .sslContextNew =>
          { s.acquire (.context n) with
            sslContext := some n
            phase := .start .useCertificateFile }
      | .socket =>
          { s.acquire (.descriptor n) with
            listenFd := some n
            phase := .start .setNonBlocking }
      | .epollCreate =>
          { s.acquire (.descriptor n) with
            epollFd := some n
            phase := .start .epollAdd }
      | _ => s
  | .bound port =>
      if call = .getsockname then { s with port := port, phase := .start .listen } else s
  | .failed => if call = .socket then { s.stop with phase := .exited } else s.exit
  | _ => s

/-! ## The event loop -/

/-- The loop of `flushPendingWrite`, up to its next call. -/
def flushPendingWrite (s : ExchangeRuntime) (fd : Nat) (c : Client) (caller : FlushCaller)
    (events : List EpollEvent) : ExchangeRuntime :=
  if c.connection.state.sentBytes < c.connection.state.sendBuffer.length then
    { s.setClient fd c with phase := .send fd caller events }
  else
    { s.setClient fd { c with connection := { c.connection with
        state := { c.connection.state with sendBuffer := [], sentBytes := 0 } } } with
      phase := .updateEvents fd false (.flushPendingWrite caller) events }

/-- The loop of `pollOnce` over the events of one `epoll_wait`. -/
def pollOnce (s : ExchangeRuntime) : List EpollEvent → ExchangeRuntime
  | [] => { s with phase := .epollWait }
  | .listen :: events => { s with phase := .accept events }
  | .client fd hangup writable readable :: events =>
      if hangup then s.abandon fd events
      else
        match s.client fd with
        -- only `handleClientReadable` minds that there is no client
        | none => if readable then s.abandon fd events else { s with phase := .poll events }
        | some c =>
            if c.tlsHandshakeComplete = false then
              if c.ssl = none then s.abandon fd events
              else { s with phase := .handshake fd events }
            else if writable ∧ c.connection.state.sendBuffer ≠ [] then
              s.flushPendingWrite fd c (.pollOnce readable) events
            else if readable then { s with phase := .receive fd events }
            else { s with phase := .poll events }

/-- `clients_.emplace`, which does nothing if the key is there. -/
def emplace (s : ExchangeRuntime) (fd : Nat) (c : Client) : ExchangeRuntime :=
  match s.client fd with
  | none => { s with clients := s.clients ++ [(fd, c)], accepted := s.accepted + 1 }
  | some _ => s

/-- A new client, which `epoll` watches for `EPOLLIN`. -/
def newClient (s : ExchangeRuntime) (ssl : Option Nat) (stream : List UInt8) : Client where
  connection := .init stream
  ssl := ssl
  tlsHandshakeComplete := ssl.isNone
  watchesWrite := false
  offered := none
  serial := s.accepted

/-- The loop of `acceptClients`. When it fails so does `pollOnce`, and `main` leaves its
loop. -/
def acceptClients (s : ExchangeRuntime) (events : List EpollEvent) : Reply → ExchangeRuntime
  | .connection fd setup stream =>
      let s := s.acquire (.descriptor fd)
      match setup, s.sslContext with
      | .notAdded, _ => (s.release [.descriptor fd]).exit
      | _, none => s.emplace fd (s.newClient none stream)
      | .noSession, some _ => (s.release [.descriptor fd]).exit
      | .notAttached ssl, some _ =>
          ((s.acquire (.session ssl)).release [.session ssl, .descriptor fd]).exit
      | .ready ssl, some _ =>
          (s.acquire (.session ssl)).emplace fd (s.newClient (some ssl) stream)
  | .again => { s with phase := .poll events }
  | .failed => s.exit
  | _ => s

/-- `progressTlsHandshake`, after `SSL_accept`. -/
def progressTlsHandshake (s : ExchangeRuntime) (fd : Nat) (c : Client)
    (events : List EpollEvent) : Reply → ExchangeRuntime
  | .done =>
      { s.setClient fd { c with tlsHandshakeComplete := true } with
        phase := .updateEvents fd false .progressTlsHandshake events }
  | .wantRead => { s with phase := .updateEvents fd false .progressTlsHandshake events }
  | .wantWrite => { s with phase := .updateEvents fd true .progressTlsHandshake events }
  | .failed => s.abandon fd events
  | _ => s

/-- A response that is still pending is an error, upon which the caller closes the client. -/
def sendAll (s : ExchangeRuntime) (fd : Nat) (c : Client) (data : List UInt8)
    (events : List EpollEvent) : ExchangeRuntime :=
  if c.connection.state.sendBuffer ≠ [] then (s.setClient fd c).abandon fd events
  else
    s.flushPendingWrite fd
      { c with connection := { c.connection with
          state := { c.connection.state with sendBuffer := data, sentBytes := 0 } } }
      .sendAll events

/-- `handleEnterOrder` has been called for a client. -/
def called (s : ExchangeRuntime) (serial : Nat) (block : Vector UInt8 EnterOrderSize)
    (response : Option AcceptedEncoder.Buffer) : ExchangeRuntime :=
  { s with calls := s.calls ++ [⟨serial, block, response⟩] }

/-- A block is complete. -/
def handleBlock (s : ExchangeRuntime) (fd : Nat) (c : Client) (events : List EpollEvent) :
    ExchangeRuntime :=
  let block := c.connection.state.receiveBuffer
  let c := { c with connection :=
    { c.connection with handled := c.connection.handled ++ [block] } }
  match s.handler.handleEnterOrder s.accountId (.ofList block.toList) EnterOrderSize with
  | .error fault => { (s.called c.serial block none).setClient fd c with fault := some fault }
  | .ok (none, handler) =>
      ({ s.called c.serial block none with handler := handler }.setClient fd c).abandon fd events
  | .ok (some response, handler) =>
      { s.called c.serial block (some response) with handler := handler }.sendAll fd
        { c with connection :=
          { c.connection with responses := c.connection.responses ++ [response] } }
        response.toList events

/-- The loop of `handleClientReadable`, after `recv` or `SSL_read`. -/
def handleClientReadable (s : ExchangeRuntime) (fd : Nat) (c : Client)
    (events : List EpollEvent) : Reply → ExchangeRuntime
  | .bytes more =>
      let bytes := c.connection.delivered (more + 1)
      if bytes = [] then s
      else
        let c := { c with connection := c.connection.receive bytes }
        if c.connection.state.receivedBytes = EnterOrderSize then s.handleBlock fd c events
        else s.setClient fd c
  | .closed | .failed => s.abandon fd events
  | .again => if c.ssl = none then { s with phase := .poll events } else s
  | .wantRead =>
      if c.ssl = none then s
      else
        { s with phase :=
          .updateEvents fd (c.connection.state.sendBuffer ≠ []) .handleClientReadable events }
  | .wantWrite =>
      if c.ssl = none then s
      else { s with phase := .updateEvents fd true .handleClientReadable events }
  | _ => s

/-- The loop of `flushPendingWrite`, after `send` or `SSL_write`. -/
def afterSend (s : ExchangeRuntime) (fd : Nat) (c : Client) (caller : FlushCaller)
    (events : List EpollEvent) : Reply → ExchangeRuntime
  | .bytes more =>
      s.flushPendingWrite fd
        { c with
          connection := c.connection.send (c.connection.accepted (more + 1))
          offered := none } caller events
  | .again =>
      if c.ssl = none then
        { s with phase := .updateEvents fd true (.flushPendingWrite caller) events }
      else s
  | .wantRead | .wantWrite =>
      if c.ssl = none then s
      else
        let pending := c.connection.state.sendBuffer.drop c.connection.state.sentBytes
        { s.setClient fd { c with offered := some pending } with
          phase := .updateEvents fd true (.flushPendingWrite caller) events }
  | .failed => s.abandon fd events
  | _ => s

/-- `updateClientEvents`, and back in its caller. -/
def updateClientEvents (s : ExchangeRuntime) (fd : Nat) (c : Client) (writable : Bool)
    (caller : UpdateCaller) (events : List EpollEvent) : Reply → ExchangeRuntime
  | .done =>
      let c := { c with watchesWrite := writable }
      match caller with
      | .flushPendingWrite .sendAll =>
          { s.setClient fd { c with connection := { c.connection with
              state := { c.connection.state with receivedBytes := 0 } } } with
            phase := .receive fd events }
      | .flushPendingWrite (.pollOnce true) =>
          { s.setClient fd c with phase := .receive fd events }
      | .flushPendingWrite (.pollOnce false) | .handleClientReadable
      | .progressTlsHandshake => { s.setClient fd c with phase := .poll events }
  | .failed => s.abandon fd events
  | _ => s

/-! ## A step -/

/-- The code from the answer to a call to the next call. After a fault there is none. -/
def step (s : ExchangeRuntime) (reply : Reply) : ExchangeRuntime :=
  if s.fault.isSome then s
  else
    match s.phase with
    | .start call => s.start call reply
    | .epollWait =>
        match reply with
        | .events events => { s with phase := .poll events }
        | .failed => s.exit
        -- `EINTR`: `pollOnce` returns `true` and is called again
        | _ => s
    | .poll events => s.pollOnce events
    | .accept events => s.acceptClients events reply
    | .handshake fd events =>
        match s.client fd with
        | none => s
        | some c => s.progressTlsHandshake fd c events reply
    | .receive fd events =>
        match s.client fd with
        | none => s
        | some c => s.handleClientReadable fd c events reply
    | .send fd caller events =>
        match s.client fd with
        | none => s
        | some c => s.afterSend fd c caller events reply
    | .updateEvents fd writable caller events =>
        match s.client fd with
        | none => s
        | some c => s.updateClientEvents fd c writable caller events reply
    | .exited => s

/-- The server, given the answers one after the other. -/
def run (s : ExchangeRuntime) (replies : List Reply) : ExchangeRuntime :=
  replies.foldl step s

end ExchangeRuntime

end OpenHft
