import OpenHft.Model.ExchangeRuntime
import OpenHft.Model.OuchClient

/-!
# `TlsOuchTransport`

`execution/ouch/tls_ouch_transport.cpp`: a session is built up call by call, and whatever
fails on the way takes everything down again. Messages go out through `SSL_write` and
responses come in through `SSL_read`, each in a loop, since either may move less than it was
asked to; unlike the loops of `TcpOuchTransport` these give up on every error.

What OpenSSL and the system will answer is given: to a `connect` with the call, to
`SSL_write` and `SSL_read` by the other side of the session, which also has the bytes that
can be read. When it has no answer left the session is broken. `established`, `wire`,
`sends`, `receives` and `log` are a record that no code reads: what was answered to the
`connect` that holds, the bytes that `SSL_write` has taken, the calls of `send` and
`receive` since then, and what was taken and given back.

Not modelled: the lines that are printed, `SSL_shutdown`, and null pointers for data.
-/

namespace OpenHft

open Lib (Use)

/-- What `SSL_write` or `SSL_read` returns. -/
inductive SslResult where
  /-- one byte and up to so many more -/
  | bytes (more : Nat)
  /-- zero or less -/
  | failed

/-- The other side of a session. -/
structure SslPeer where
  writes : List SslResult := []
  reads : List SslResult := []
  incoming : List UInt8 := []

/-- The answers to the calls of `connect`, in the order in which they are made. -/
structure ConnectAnswers where
  /-- `SSL_CTX_new` -/
  context : Option Nat
  /-- `SSL_CTX_load_verify_locations` -/
  certificateLoaded : Bool
  /-- `socket` -/
  socket : Option Nat
  /-- `inet_pton` -/
  addressParsed : Bool
  /-- `connect` -/
  connected : Bool
  /-- `SSL_new` -/
  session : Option Nat
  /-- `SSL_set_fd` -/
  attached : Bool
  /-- `SSL_get0_param` -/
  hasParameters : Bool
  /-- `X509_VERIFY_PARAM_set1_ip_asc` -/
  addressExpected : Bool
  /-- `SSL_connect` -/
  handshake : Bool
  /-- `SSL_get_verify_result` -/
  verified : Bool
  peer : SslPeer

/-- The members of the transport and the peer behind them, with a record that no code reads:
the answers the connection was made with, the bytes the peer took, the calls since then, and
the handles acquired and released. -/
structure TlsOuchTransport where
  socketFd : Option Nat := none
  sslContext : Option Nat := none
  ssl : Option Nat := none
  peer : SslPeer := {}
  established : Option ConnectAnswers := none
  wire : List UInt8 := []
  /-- the messages, and whether `send` returned `true` -/
  sends : List (List UInt8 × Bool) := []
  /-- the lengths asked for, what the buffer was filled with, and the result -/
  receives : List (Nat × List UInt8 × Bool) := []
  log : List (Use Handle) := []

namespace TlsOuchTransport

/-- There is a socket, and a session on it. -/
def isConnected (t : TlsOuchTransport) : Bool := t.socketFd.isSome && t.ssl.isSome

/-- What the transport can give back, in the order of `close`. -/
def handles (t : TlsOuchTransport) : List Handle :=
  (t.ssl.map Handle.session).toList ++
    ((t.socketFd.map Handle.descriptor).toList ++ (t.sslContext.map Handle.context).toList)

/-- Also the destructor. -/
def close (t : TlsOuchTransport) : TlsOuchTransport :=
  { t with
    ssl := none
    socketFd := none
    sslContext := none
    established := none
    log := t.log ++ t.handles.map .release }

/-- The system or the library has given the transport a handle. -/
def acquire (t : TlsOuchTransport) (h : Handle) : TlsOuchTransport :=
  { t with log := t.log ++ [.acquire h] }

/-- The part of `connect` behind `SSL_new`. -/
def secure (t : TlsOuchTransport) (answers : ConnectAnswers) : Bool × TlsOuchTransport :=
  if answers.attached = false then (false, t.close)
  else if answers.hasParameters = false then (false, t.close)
  else if answers.addressExpected = false then (false, t.close)
  else if answers.handshake = false then (false, t.close)
  else if answers.verified = false then (false, t.close)
  else
    (true, { t with
      peer := answers.peer
      established := some answers
      wire := []
      sends := []
      receives := [] })

/-- The part of `connect` behind `socket`. -/
def reach (t : TlsOuchTransport) (answers : ConnectAnswers) : Bool × TlsOuchTransport :=
  if answers.addressParsed = false then (false, t.close)
  else if answers.connected = false then (false, t.close)
  else
    match answers.session with
    | none => (false, { t with ssl := none }.close)
    | some ssl => { t.acquire (.session ssl) with ssl := some ssl }.secure answers

/-- A connection that there is stays. Every failure behind `SSL_CTX_new` closes what there is. -/
def connect (t : TlsOuchTransport) (answers : ConnectAnswers) : Bool × TlsOuchTransport :=
  if t.isConnected then (true, t)
  else
    match answers.context with
    -- nothing is closed here
    | none => (false, { t with sslContext := none })
    | some context =>
        let t := { t.acquire (.context context) with sslContext := some context }
        if answers.certificateLoaded = false then (false, t.close)
        else
          match answers.socket with
          | none => (false, { t with socketFd := none }.close)
          | some fd => { t.acquire (.descriptor fd) with socketFd := some fd }.reach answers

/-- The loop of `send`: whether all was sent, the bytes taken, and the answers left. -/
def sendLoop (data : List UInt8) (totalSent : Nat) (taken : List UInt8) :
    List SslResult → Bool × List UInt8 × List SslResult
  | [] => (decide (data.length ≤ totalSent), taken, [])
  | answer :: answers =>
      if totalSent < data.length then
        match answer with
        | .bytes more =>
            let sent := min (more + 1) (data.length - totalSent)
            sendLoop data (totalSent + sent) (taken ++ (data.drop totalSent).take sent) answers
        | .failed => (false, taken, answers)
      else (true, taken, answer :: answers)

/-- Nothing is sent without a connection. -/
def send : OuchTransport TlsOuchTransport := fun data t =>
  if t.isConnected = false then (false, t)
  else
    match sendLoop data 0 [] t.peer.writes with
    | (sent, taken, writes) =>
        (sent, { t with
          peer := { t.peer with writes := writes }
          wire := t.wire ++ taken
          sends := t.sends ++ [(data, sent)] })

/-- The loop of `receive`, with what has been received and what can be read. -/
def receiveLoop (length : Nat) (received incoming : List UInt8) :
    List SslResult → Bool × List UInt8 × List UInt8 × List SslResult
  | [] => (decide (length ≤ received.length), received, incoming, [])
  | answer :: answers =>
      if received.length < length then
        match answer, incoming with
        | .bytes more, byte :: rest =>
            let count := min more (length - received.length - 1)
            receiveLoop length (received ++ byte :: rest.take count) (rest.drop count) answers
        | _, incoming => (false, received, incoming, answers)
      else (true, received, incoming, answer :: answers)

/-- `true` when the buffer has been filled. -/
def receive (t : TlsOuchTransport) (length : Nat) : Bool × List UInt8 × TlsOuchTransport :=
  if t.isConnected = false then (false, [], t)
  else
    match receiveLoop length [] t.peer.incoming t.peer.reads with
    | (filled, received, incoming, reads) =>
        (filled, received, { t with
          peer := { t.peer with incoming := incoming, reads := reads }
          receives := t.receives ++ [(length, received, filled)] })

end TlsOuchTransport

/-- The functions of the transport that its owner calls. -/
inductive TlsCall where
  | connect (answers : ConnectAnswers)
  | send (data : List UInt8)
  | receive (length : Nat)
  | close

namespace TlsOuchTransport

/-- A call, for what it does to the transport. -/
def step (t : TlsOuchTransport) : TlsCall → TlsOuchTransport
  | .connect answers => (t.connect answers).2
  | .send data => (send data t).2
  | .receive length => (t.receive length).2.2
  | .close => t.close

/-- Calls one after the other. -/
def run (t : TlsOuchTransport) (calls : List TlsCall) : TlsOuchTransport := calls.foldl step t

end TlsOuchTransport

end OpenHft
