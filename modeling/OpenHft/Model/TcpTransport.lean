import OpenHft.Model.OuchClient

/-!
# `TcpOuchTransport`

`send` of `execution/ouch/tcp_ouch_transport.cpp` over a socket whose kernel side is a list
of answers: what each call of `::send` on it will return. `MSG_NOSIGNAL` leaves an error
code where there would be a signal, and `errno` is looked at for `EINTR` only, so all other
errors are one. A count of zero, which the loop treats like an error, is one of them.
-/

namespace OpenHft

/-- What `::send` returns: a count, `-1` with `EINTR`, or anything else. -/
inductive SendResult where
  /-- the kernel takes one byte and so many more, or all it is given -/
  | sent (more : Nat)
  | interrupted
  | failed
  deriving DecidableEq

/-- What has become of a call of `send`. -/
structure SendOutcome where
  /-- what it returned, if it has returned -/
  result : Option Bool
  /-- the bytes that the kernel took -/
  taken : List UInt8
  /-- the answers to come -/
  results : List SendResult
  deriving DecidableEq

/-- `socketFd_` -/
structure TcpOuchTransport where
  socketFd : Int := -1

namespace TcpOuchTransport

/-- A socket has been connected and not closed. -/
def isConnected (transport : TcpOuchTransport) : Bool := decide (transport.socketFd ≥ 0)

/-- The loop of `send`. While the kernel has not answered nothing is returned. -/
def sendLoop (data : List UInt8) (totalSent : Nat) (taken : List UInt8) :
    List SendResult → SendOutcome
  | [] => ⟨if totalSent < data.length then none else some true, taken, []⟩
  | answer :: results =>
      if totalSent < data.length then
        match answer with
        | .sent more =>
            let sent := min (more + 1) (data.length - totalSent)
            sendLoop data (totalSent + sent) (taken ++ (data.drop totalSent).take sent) results
        | .interrupted => sendLoop data totalSent taken results
        | .failed => ⟨some false, taken, results⟩
      else ⟨some true, taken, answer :: results⟩

/-- Nothing is sent without a connection. -/
def send (transport : TcpOuchTransport) (data : List UInt8) (results : List SendResult) :
    SendOutcome :=
  if transport.isConnected = false then ⟨some false, [], results⟩
  else sendLoop data 0 [] results

/-- A call, with its message. -/
structure SendCall where
  message : OuchEncoder.Buffer
  result : Option Bool
  taken : List UInt8
  deriving DecidableEq

/-- Calls one after the other; there is none behind a call that has not returned. -/
def sends (transport : TcpOuchTransport) :
    List OuchEncoder.Buffer → List SendResult → List SendCall
  | [], _ => []
  | message :: messages, results =>
      let outcome := transport.send message.toList results
      ⟨message, outcome.result, outcome.taken⟩ ::
        match outcome.result with
        | none => []
        | some _ => transport.sends messages outcome.results

end TcpOuchTransport

end OpenHft
