import OpenHft.Model.MarketData
import OpenHft.Model.SpscRing

/-!
# `MarketDataPipeline`: a thread that controls and a thread that works

`pipeline/market_data_pipeline.cpp` and `pipeline/dispatcher.cpp` over the queue of
`SpscRing`. One thread calls `start`, `submit`, `stop` and `processedCount`; the worker
that `start` creates runs `processingLoop`. A thread is where it stands in its code, and
one turn of it is one access to what the two share: `running_`, `processedCount_`, or the
queue by one access of `tryPush` or `tryPop`. Handing an event to the consumer, creating
the worker and joining it are turns of their own.

`consumed` and `sessionStart` are a record that no code reads: the events handed to the
consumer, and how many there were when the last session began.
-/

namespace OpenHft

/-- The template argument of `EventQueue`. -/
def QueueCapacity : Nat := 4096

/-- The functions of the pipeline that the controlling thread calls. -/
inductive PipelineCall where
  | start
  | submit (event : MarketDataEvent)
  | stop
  | processedCount

/-- What a call returns. Of a `stop`, which returns nothing, whether it ended a
session. -/
inductive PipelineReturn where
  | started
  | submitted (accepted : Bool)
  | stopped (ended : Bool)
  | count (value : UInt64)

/-- Where the controlling thread stands: each phase is named after its next access. -/
inductive Control where
  | idle
  | exchangeTrue
  | resetCount
  | createWorker
  | tryPush (event : MarketDataEvent)
  | exchangeFalse
  | join
  | loadCount
  /-- a thread was assigned over one that has not been joined: `std::terminate` -/
  | terminated

/-- Where the worker stands. `draining` is the dispatch after the loop. -/
inductive Worker where
  | loadRunning
  | tryPop (draining : Bool) (dispatchedCount : UInt64)
  | consume (draining : Bool) (dispatchedCount : UInt64) (event : MarketDataEvent)
  | fetchAdd (draining : Bool) (processed : UInt64)
  | finished

/-- The members of the pipeline, and where its two threads stand. -/
structure MarketDataPipeline where
  queue : System MarketDataEvent QueueCapacity
  running : Bool
  processedCount : UInt64
  /-- `worker_`; `none` when it is not joinable -/
  worker : Option Worker
  control : Control
  consumed : List MarketDataEvent
  sessionStart : Nat

namespace MarketDataPipeline

/-- A new pipeline, which has no worker. -/
def init (buffer : Fin QueueCapacity → MarketDataEvent) : MarketDataPipeline where
  queue := .init (by decide) buffer
  running := false
  processedCount := 0
  worker := none
  control := .idle
  consumed := []
  sessionStart := 0

/-- One access of the `tryPush` that `submit` calls. -/
def push (p : MarketDataPipeline) (event : MarketDataEvent) :
    MarketDataPipeline × Option PipelineReturn :=
  let queue := p.queue.step (.producer event)
  match (producerStep event p.queue.ring p.queue.producer).2.2 with
  | none => ({ p with queue := queue, control := .tryPush event }, none)
  | some accepted =>
      ({ p with queue := queue, control := .idle }, some (.submitted accepted))

/-- A turn of the controlling thread; when it is idle it makes the call `next`. The last
component is what a call returns, if it returns now. -/
def controlStep (p : MarketDataPipeline) (next : PipelineCall) :
    MarketDataPipeline × Option PipelineReturn :=
  match p.control with
  | .idle =>
      match next with
      | .start => ({ p with control := .exchangeTrue }, none)
      | .submit event => p.push event
      | .stop => ({ p with control := .exchangeFalse }, none)
      | .processedCount => ({ p with control := .loadCount }, none)
  | .exchangeTrue =>
      if p.running then ({ p with control := .idle }, some .started)
      else
        ({ p with
            running := true
            control := .resetCount
            sessionStart := p.consumed.length }, none)
  | .resetCount => ({ p with processedCount := 0, control := .createWorker }, none)
  | .createWorker =>
      match p.worker with
      | none => ({ p with worker := some .loadRunning, control := .idle }, some .started)
      | some _ => ({ p with control := .terminated }, none)
  | .tryPush event => p.push event
  | .exchangeFalse =>
      if p.running then ({ p with running := false, control := .join }, none)
      else ({ p with control := .idle }, some (.stopped false))
  | .join =>
      match p.worker with
      | none => ({ p with control := .idle }, some (.stopped true))
      | some .finished =>
          ({ p with worker := none, control := .idle }, some (.stopped true))
      -- `join` blocks
      | some _ => (p, none)
  | .loadCount => ({ p with control := .idle }, some (.count p.processedCount))
  | .terminated => (p, none)

end MarketDataPipeline

/-- Where the worker goes on after a dispatch. -/
def Worker.next (draining : Bool) : Worker :=
  if draining then .finished else .loadRunning

/-- The worker when `dispatch` has returned. -/
def Worker.dispatched (draining : Bool) (processed : UInt64) : Worker :=
  if processed > 0 then .fetchAdd draining processed else .next draining

namespace MarketDataPipeline

/-- A turn of the worker, if there is one. -/
def workerStep (p : MarketDataPipeline) : MarketDataPipeline :=
  match p.worker with
  | none => p
  | some .loadRunning => { p with worker := some (.tryPop (!p.running) 0) }
  | some (.tryPop draining dispatchedCount) =>
      let queue := p.queue.step .consumer
      match (consumerStep p.queue.ring p.queue.consumer).2.2 with
      | none => { p with queue := queue }
      | some (some event) =>
          { p with queue := queue, worker := some (.consume draining dispatchedCount event) }
      | some none =>
          { p with queue := queue, worker := some (.dispatched draining dispatchedCount) }
  | some (.consume draining dispatchedCount event) =>
      { p with
        consumed := p.consumed ++ [event]
        worker := some (.tryPop draining (dispatchedCount + 1)) }
  | some (.fetchAdd draining processed) =>
      { p with
        processedCount := p.processedCount + processed
        worker := some (.next draining) }
  | some .finished => p

end MarketDataPipeline

/-- Whose turn it is. An idle controlling thread makes the call it is given. -/
inductive PipelineTurn where
  | control (next : PipelineCall)
  | worker

namespace MarketDataPipeline

/-- One access of the thread whose turn it is. -/
def step (p : MarketDataPipeline) : PipelineTurn → MarketDataPipeline
  | .control next => (p.controlStep next).1
  | .worker => p.workerStep

/-- Turns in any order. -/
def run (p : MarketDataPipeline) (turns : List PipelineTurn) : MarketDataPipeline :=
  turns.foldl step p

end MarketDataPipeline

end OpenHft
