import OpenHft.Model.Itch
import OpenHft.Model.Packet

/-!
# Packets into market data

`dpdk/receiver/itch_udp_payload_sink.hpp`: the payload of a packet is dispatched as one
ITCH message. The receiver does not look at what `submit` returns.
-/

namespace OpenHft

/-- `submit` of a payload in the packet memory, over a sink of events with a state of its
own. -/
def ItchUdpPayloadSink.submit {σ : Type} (submitEvent : MarketDataEvent → σ → Bool × σ)
    (data : Bytes) (payload : Span) (sink : σ) : Bool × σ :=
  ItchReplayDispatcher.dispatch submitEvent (data.drop payload.start) payload.size sink

end OpenHft
