import OpenHft.Model.Itch
import OpenHft.Model.Pipeline

/-!
# The replay mode of `trading_runtime`

`market_data/replay/itch_replay_reader.cpp` and the replay branch of `main` in
`apps/trading_runtime.cpp`: start the pipeline, read the file message by message and
submit each, wait until the worker has processed as many as were accepted, stop. The main
thread is the pipeline's controlling thread. One turn of it reads a message or is one turn
inside the call it is making; the worker's turns are the pipeline's.
-/

namespace OpenHft

/-- `stream_`: what is left of the file, and that no read has failed yet. -/
structure ItchReplayReader where
  stream : List UInt8
  good : Bool

namespace ItchReplayReader

/-- A file that has been opened. -/
def init (file : List UInt8) : ItchReplayReader where
  stream := file
  good := true

/-- `stream_.read`: a read beyond the end takes what there is and fails. -/
def read (reader : ItchReplayReader) (count : Nat) :
    Option (List UInt8) × ItchReplayReader :=
  if reader.good = false then (none, reader)
  else if count ≤ reader.stream.length then
    (some (reader.stream.take count), { reader with stream := reader.stream.drop count })
  else (none, { stream := [], good := false })

/-- The message, when `readNext` returns `true`. -/
def readNext (reader : ItchReplayReader) : Option (List UInt8) × ItchReplayReader :=
  match reader.read 2 with
  | (none, reader) => (none, reader)
  | (some networkLength, reader) =>
      let messageLength := readUint16 (.ofList networkLength)
      if messageLength = 0 then (none, reader) else reader.read messageLength.toNat

/-- The same with the caller's `message`, which a call that fails early leaves as it is. -/
def readNextInto (reader : ItchReplayReader) (message : List UInt8) :
    Bool × List UInt8 × ItchReplayReader :=
  match reader.read 2 with
  | (none, reader) => (false, message, reader)
  | (some networkLength, reader) =>
      let messageLength := readUint16 (.ofList networkLength)
      if messageLength = 0 then (false, message, reader)
      else match reader.read messageLength.toNat with
        | (none, reader) => (false, [], reader)
        | (some bytes, reader) => (true, bytes, reader)

/-- Calls one after the other with the same `message`: what each returns and leaves in it. -/
def calls (reader : ItchReplayReader) (message : List UInt8) :
    Nat → List (Bool × List UInt8)
  | 0 => []
  | count + 1 =>
      match reader.readNextInto message with
      | (result, message, reader) => (result, message) :: calls reader message count

end ItchReplayReader

/-- Where the main thread stands. -/
inductive ReplayPhase where
  | start
  | readNext
  | submit (event : MarketDataEvent)
  | wait
  | stop
  /-- `stop` has returned; what `main` does then, over TLS a `receive`, is not part of this -/
  | complete

/-- The reader, the pipeline, and the variables of `main` in replay mode. -/
structure TradingRuntime where
  reader : ItchReplayReader
  pipeline : MarketDataPipeline
  replayedMessages : UInt64
  phase : ReplayPhase

namespace TradingRuntime

/-- Before `start`. -/
def init (buffer : Fin QueueCapacity → MarketDataEvent) (file : List UInt8) :
    TradingRuntime where
  reader := .init file
  pipeline := .init buffer
  replayedMessages := 0
  phase := .start

/-- A turn inside a call of the pipeline; `returned` says how to go on when the call
returns. -/
def callPipeline (s : TradingRuntime) (call : PipelineCall)
    (returned : TradingRuntime → PipelineReturn → TradingRuntime) : TradingRuntime :=
  match s.pipeline.controlStep call with
  | (pipeline, none) => { s with pipeline := pipeline }
  | (pipeline, some result) => returned { s with pipeline := pipeline } result

/-- The event a message is dispatched as. -/
def messageEvent (message : List UInt8) : Option MarketDataEvent :=
  ItchReplayDispatcher.event (.ofList message) message.length

/-- `dispatch` has returned what `submit` did. -/
def dispatched (s : TradingRuntime) : PipelineReturn → TradingRuntime
  | .submitted true =>
      { s with replayedMessages := s.replayedMessages + 1, phase := .readNext }
  | _ => { s with phase := .readNext }

/-- The condition of the loop that waits for the worker. -/
def waited (s : TradingRuntime) : PipelineReturn → TradingRuntime
  | .count value => if value < s.replayedMessages then s else { s with phase := .stop }
  | _ => s

/-- A turn of the main thread: an access inside a call of the pipeline, or the reading of a
message. -/
def mainStep (s : TradingRuntime) : TradingRuntime :=
  match s.phase with
  | .start => s.callPipeline .start fun s _ => { s with phase := .readNext }
  | .readNext =>
      match s.reader.readNext with
      | (none, reader) => { s with reader := reader, phase := .wait }
      | (some message, reader) =>
          match messageEvent message with
          -- `dispatch` has returned `false`
          | none => { s with reader := reader }
          | some event => { s with reader := reader, phase := .submit event }
  | .submit event => s.callPipeline (.submit event) dispatched
  | .wait => s.callPipeline .processedCount waited
  | .stop => s.callPipeline .stop fun s _ => { s with phase := .complete }
  | .complete => s

end TradingRuntime

namespace ItchReplayReader

/-- The events that reading on will give, in so many calls. -/
def eventsIn : Nat → ItchReplayReader → List MarketDataEvent
  | 0, _ => []
  | calls + 1, reader =>
      match reader.readNext with
      | (none, _) => []
      | (some message, reader) =>
          (TradingRuntime.messageEvent message).toList ++ eventsIn calls reader

/-- All of them: a message takes at least a byte. -/
def remaining (reader : ItchReplayReader) : List MarketDataEvent :=
  eventsIn reader.stream.length reader

end ItchReplayReader

/-- The events of a file, however it ends. -/
def fileFeed (file : List UInt8) : List MarketDataEvent :=
  (ItchReplayReader.init file).remaining

/-- Whose turn it is. -/
inductive ReplayTurn where
  | main
  | worker

namespace TradingRuntime

/-- The worker's turns are those of the pipeline. -/
def step (s : TradingRuntime) : ReplayTurn → TradingRuntime
  | .main => s.mainStep
  | .worker => { s with pipeline := s.pipeline.workerStep }

/-- Turns in any order. -/
def run (s : TradingRuntime) (turns : List ReplayTurn) : TradingRuntime :=
  turns.foldl step s

end TradingRuntime

end OpenHft
