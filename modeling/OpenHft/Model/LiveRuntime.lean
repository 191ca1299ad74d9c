import OpenHft.Lib.Ledger
import OpenHft.Model.Ingestion
import OpenHft.Model.TradingRuntime

/-!
# The live mode of `trading_runtime`

`Receiver::run` of `dpdk/receiver/receiver.cpp` between `pipeline.start()` and
`pipeline.stop()`: the port is set up, then packets come in bursts for as long as the process
lives. A packet is taken apart by `Receiver.receive`; one for our port is counted, and its
payload is submitted to the pipeline as an ITCH message. Whatever becomes of it, its buffer is
freed before the next packet is looked at. A report once a second starts the counters again.

The main thread is the pipeline's controlling thread, as in the replay mode, and a turn of it
is one call of the driver, one packet, or one turn inside a call of the pipeline. What the
driver answers is not known. `received`, `handled`, `reports` and `log` are a record that no
code reads. Pinning the thread, the lines that are printed and the statistics of the card
leave nothing behind and are left out.
-/

namespace OpenHft

open Lib

/-- `BURST_SIZE`. -/
def BurstSize : Nat := 32

/-- `rte_mbuf`: a buffer, the memory from its first byte on, and how much was received. -/
structure Mbuf where
  id : Nat
  data : Bytes
  length : Nat

/-- What the driver answers to the call that is made. -/
structure DpdkAnswer where
  /-- of a call that can fail -/
  succeeded : Bool := true
  /-- `rte_eth_dev_count_avail` -/
  ports : Nat := 1
  /-- `rte_eth_rx_burst` -/
  packets : List Mbuf := []
  /-- a second has passed since the last report -/
  elapsed : Bool := false

/-- Where the main thread stands: each phase is named after its next call. -/
inductive LivePhase where
  | ealInit
  | start
  | createMempool
  | countPorts
  | configurePort
  | setupRxQueue
  | setupTxQueue
  | startPort
  | rxBurst
  | packet
  /-- the payload of this packet is being submitted -/
  | submit (packet : Mbuf) (event : MarketDataEvent)
  | report
  | stop
  | finished

/-- The receiver over the pipeline, with a record that no code reads: the packets of all
bursts, those that have been looked at, the reports, and the packets taken and freed. -/
structure LiveRuntime where
  pipeline : MarketDataPipeline
  phase : LivePhase
  /-- the packets of the burst that have not been looked at -/
  packets : List Mbuf
  packetCount : UInt64
  byteCount : UInt64
  received : List Mbuf
  handled : List Mbuf
  reports : List (UInt64 × UInt64)
  log : List (Use Nat)

namespace Receiver

/-- What the loop submits of a packet: the payload of one for our port. -/
def payload (packet : Mbuf) : Option Span := (receive true packet.data packet.length).run.1

end Receiver

namespace LiveRuntime

/-- Before `rte_eal_init`. -/
def init (buffer : Fin QueueCapacity → MarketDataEvent) : LiveRuntime where
  pipeline := .init buffer
  phase := .ealInit
  packets := []
  packetCount := 0
  byteCount := 0
  received := []
  handled := []
  reports := []
  log := []

/-- A turn inside a call of the pipeline, after which the code goes on with `returned`. -/
def callPipeline (s : LiveRuntime) (call : PipelineCall)
    (returned : LiveRuntime → LiveRuntime) : LiveRuntime :=
  match s.pipeline.controlStep call with
  | (pipeline, none) => { s with pipeline := pipeline }
  | (pipeline, some _) => returned { s with pipeline := pipeline }

/-- A call of the setup; when it fails, `run` returns. -/
def setUp (s : LiveRuntime) (succeeded : Bool) (next : LivePhase) : LiveRuntime :=
  { s with phase := if succeeded then next else .stop }

/-- `rte_pktmbuf_free`, and the loop goes on with the next packet. -/
def free (s : LiveRuntime) (packet : Mbuf) : LiveRuntime :=
  { s with log := s.log ++ [.release packet.id], phase := .packet }

/-- `rte_eth_rx_burst`: the packets now belong to the receiver. -/
def rxBurst (s : LiveRuntime) (packets : List Mbuf) : LiveRuntime :=
  { s with
    packets := packets
    received := s.received ++ packets
    log := s.log ++ packets.map fun packet => .acquire packet.id
    phase := .packet }

/-- The counters, for a packet to our port. -/
def count (s : LiveRuntime) (packet : Mbuf) : LiveRuntime :=
  { s with
    packetCount := s.packetCount + 1
    byteCount := s.byteCount + UInt64.ofNat packet.length }

/-- The body of the loop, up to the call of `submit` of the pipeline. -/
def handle (s : LiveRuntime) (packet : Mbuf) : LiveRuntime :=
  match Receiver.payload packet with
  | none => s.free packet
  | some payload =>
      match ItchReplayDispatcher.event (packet.data.drop payload.start) payload.size with
      -- `dispatch` has returned `false`
      | none => (s.count packet).free packet
      | some event => { s.count packet with phase := .submit packet event }

/-- The end of a turn of the outer loop: after a second the counters are printed and start anew. -/
def report (s : LiveRuntime) (elapsed : Bool) : LiveRuntime :=
  if elapsed then
    { s with
      reports := s.reports ++ [(s.packetCount, s.byteCount)]
      packetCount := 0
      byteCount := 0
      phase := .rxBurst }
  else { s with phase := .rxBurst }

/-- A turn of the main thread: an access inside a call of the pipeline, or the code up to the
next call of DPDK. -/
def mainStep (s : LiveRuntime) (answer : DpdkAnswer) : LiveRuntime :=
  match s.phase with
  -- without it the process ends before the pipeline is started
  | .ealInit => { s with phase := if answer.succeeded then .start else .finished }
  | .start => s.callPipeline .start fun s => { s with phase := .createMempool }
  | .createMempool => s.setUp answer.succeeded .countPorts
  | .countPorts => s.setUp (decide (answer.ports ≠ 0)) .configurePort
  | .configurePort => s.setUp answer.succeeded .setupRxQueue
  | .setupRxQueue => s.setUp answer.succeeded .setupTxQueue
  | .setupTxQueue => s.setUp answer.succeeded .startPort
  | .startPort => s.setUp answer.succeeded .rxBurst
  | .rxBurst => s.rxBurst answer.packets
  | .packet =>
      match s.packets with
      | [] => { s with phase := .report }
      | packet :: packets =>
          { s with packets := packets, handled := s.handled ++ [packet] }.handle packet
  | .submit packet event => s.callPipeline (.submit event) fun s => s.free packet
  | .report => s.report answer.elapsed
  | .stop => s.callPipeline .stop fun s => { s with phase := .finished }
  | .finished => s

end LiveRuntime

/-- Whose turn it is, with what DPDK answers to the main thread. -/
inductive LiveTurn where
  | main (answer : DpdkAnswer)
  | worker

namespace LiveRuntime

/-- The worker's turns are those of the pipeline. -/
def step (s : LiveRuntime) : LiveTurn → LiveRuntime
  | .main answer => s.mainStep answer
  | .worker => { s with pipeline := s.pipeline.workerStep }

/-- Turns in any order. -/
def run (s : LiveRuntime) (turns : List LiveTurn) : LiveRuntime := turns.foldl step s

end LiveRuntime

end OpenHft
