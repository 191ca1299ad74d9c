import Mathlib.Init

/-!
# The Ethernet parser of the FPGA

`fpga/ethernet/ethernet_parser.sv`, one clock cycle after the other. The registers are a
structure and `posedge` is the `always_ff` block: every register is given its new value from
the old ones and from what the two stream interfaces carry in the cycle. The interfaces of
`axis_stream_if.sv` are 64 bits wide. `s_axis.tready` is not registered: it is
`m_axis.tready` of the same cycle, an input.
-/

namespace OpenHft.Fpga

/-- What is transferred on a stream in one cycle. -/
structure Beat where
  tdata : BitVec 64
  tlast : Bool
  deriving DecidableEq, Repr

/-- The inputs in one cycle: `s_axis.tvalid`, `s_axis.tdata` and `s_axis.tlast` of the
sender and `m_axis.tready` of the receiver. -/
structure Cycle where
  tvalid : Bool
  tdata : BitVec 64
  tlast : Bool
  tready : Bool
  deriving DecidableEq, Repr

/-- `state_t`, with the value that its two bits have besides the three that are named. -/
inductive ParserState where
  | idle
  | readHeader2
  | forwardPayload
  | unnamed
  deriving DecidableEq, Repr

/-- The registers. `mData`, `mValid` and `mLast` are the outputs `m_axis.tdata`,
`m_axis.tvalid` and `m_axis.tlast`. -/
structure EthernetParser where
  state : ParserState
  dstMacReg : BitVec 48
  srcMacReg : BitVec 48
  etherType : BitVec 16
  headerValid : Bool
  mData : BitVec 64
  mValid : Bool
  mLast : Bool
  deriving DecidableEq, Repr

namespace EthernetParser

/-- `assign s_axis.tready = m_axis.tready` -/
def sReady (c : Cycle) : Bool := c.tready

/-- The beat that is transferred on `s_axis` in the cycle, if one is. -/
def transferIn (c : Cycle) : Option Beat :=
  if c.tvalid && sReady c then some ⟨c.tdata, c.tlast⟩ else none

/-- The beat that is transferred on `m_axis` in the cycle, if one is. -/
def transferOut (p : EthernetParser) (c : Cycle) : Option Beat :=
  if p.mValid && c.tready then some ⟨p.mData, p.mLast⟩ else none

/-- The `case` over the state, for a beat that is transferred. -/
def accept (p : EthernetParser) (beat : Beat) : EthernetParser :=
  match p.state with
  | .idle =>
      { p with
        -- `s_axis.tdata[63:16]` and `src_mac_reg[47:32] <= s_axis.tdata[15:0]`
        dstMacReg := beat.tdata.extractLsb' 16 48
        srcMacReg := beat.tdata.extractLsb' 0 16 ++ p.srcMacReg.extractLsb' 0 32
        state := .readHeader2 }
  | .readHeader2 =>
      { p with
        -- `src_mac_reg[31:0] <= s_axis.tdata[63:32]` and `s_axis.tdata[31:16]`
        srcMacReg := p.srcMacReg.extractLsb' 32 16 ++ beat.tdata.extractLsb' 32 32
        etherType := beat.tdata.extractLsb' 16 16
        headerValid := true
        mData := beat.tdata
        mValid := true
        mLast := beat.tlast
        state := .forwardPayload }
  | .forwardPayload =>
      { p with
        mData := beat.tdata
        mValid := true
        mLast := beat.tlast
        state := if beat.tlast then .idle else .forwardPayload }
  | .unnamed => { p with state := .idle }

/-- The registers after the clock edge. -/
def posedge (rst : Bool) (p : EthernetParser) (c : Cycle) : EthernetParser :=
  if rst then
    { state := .idle
      dstMacReg := 0
      srcMacReg := 0
      etherType := 0
      headerValid := false
      mData := 0
      mValid := false
      mLast := false }
  else
    let p := { p with headerValid := false, mValid := false, mLast := false }
    match transferIn c with
    | some beat => p.accept beat
    | none => p

/-- Cycles without a reset. -/
def run (p : EthernetParser) (cycles : List Cycle) : EthernetParser :=
  cycles.foldl (posedge false) p

/-- What is transferred on `s_axis` in a run. -/
def transfersIn (cycles : List Cycle) : List Beat := cycles.filterMap transferIn

/-- What is transferred on `m_axis` in a run. -/
def transfersOut (p : EthernetParser) : List Cycle → List Beat
  | [] => []
  | c :: cycles => (p.transferOut c).toList ++ (p.posedge false c).transfersOut cycles

/-- The values of `ether_type` that `header_valid` announces in a run. -/
def headers (p : EthernetParser) : List Cycle → List (BitVec 16)
  | [] => []
  | c :: cycles =>
      let p := p.posedge false c
      (if p.headerValid then [p.etherType] else []) ++ p.headers cycles

end EthernetParser

end OpenHft.Fpga
