import OpenHft.Model.Arguments

/-!
# The command lines as they are meant

The options of the two programs and how they are written. They may come in any order and more
than once, and the last of a kind counts. A number is written in decimal digits, with as many
zeros in front as one likes, and has to fit.
-/

namespace OpenHft

open Lib (OptionGrammar)

/-- The text is the number in decimal. -/
structure Numeral (text : String) (n : Nat) : Prop where
  some : text.toList ≠ []
  digits : ∀ c ∈ text.toList, c.isDigit = true
  value : Nat.ofDigitChars 10 text.toList 0 = n

/-! ## `trading_runtime` -/

/-- An option with its value, as text where the program reads a number. -/
inductive TradingOption where
  | replay (file : String)
  | dpdk
  | rxCpu (text : String)
  | pipelineCpu (text : String)
  | execution (mode : ExecutionMode)
  | host (address : String)
  | port (text : String)
  | ca (path : String)

/-- The word for a mode. -/
def ExecutionMode.text : ExecutionMode → String
  | .recording => "recording"
  | .tls => "tls"

namespace TradingOption

/-- The arguments that an option is written as. -/
def render : TradingOption → List String
  | replay file => ["--mode", "replay", file]
  | dpdk => ["--mode", "dpdk"]
  | rxCpu text => ["--rx-cpu", text]
  | pipelineCpu text => ["--pipeline-cpu", text]
  | execution mode => ["--execution", mode.text]
  | host address => ["--host", address]
  | port text => ["--port", text]
  | ca path => ["--ca", path]

/-- CPUs have 64 bits, and ports 16, but for zero. -/
def Valid : TradingOption → Prop
  | rxCpu text | pipelineCpu text => ∃ n < 2 ^ 64, Numeral text n
  | port text => ∃ n < 2 ^ 16, n ≠ 0 ∧ Numeral text n
  | _ => True

/-- The mode that an option sets, if it sets one; the next seven are alike. -/
def mode? : TradingOption → Option InputMode
  | replay _ => some .replay
  | dpdk => some .dpdk
  | _ => none

/-- The file. -/
def replayFile? : TradingOption → Option String
  | replay file => some file
  | _ => none

/-- The CPU of the receiver. -/
def rxCpu? : TradingOption → Option UInt64
  | rxCpu text => some (UInt64.ofNat (Nat.ofDigitChars 10 text.toList 0))
  | _ => none

/-- The CPU of the pipeline. -/
def pipelineCpu? : TradingOption → Option UInt64
  | pipelineCpu text => some (UInt64.ofNat (Nat.ofDigitChars 10 text.toList 0))
  | _ => none

/-- The execution mode. -/
def execution? : TradingOption → Option ExecutionMode
  | execution mode => some mode
  | _ => none

/-- The address of the exchange. -/
def host? : TradingOption → Option String
  | host address => some address
  | _ => none

/-- The port of the exchange. -/
def port? : TradingOption → Option UInt16
  | port text => some (UInt16.ofNat (Nat.ofDigitChars 10 text.toList 0))
  | _ => none

/-- The certificate of the authority. -/
def ca? : TradingOption → Option String
  | ca path => some path
  | _ => none

/-- The last option of each kind. -/
def settings (options : List TradingOption) : TradingOptions where
  mode := (options.filterMap mode?).getLast?
  replayFile := (options.filterMap replayFile?).getLast?
  rxCpu := (options.filterMap rxCpu?).getLast?
  pipelineCpu := (options.filterMap pipelineCpu?).getLast?
  executionMode := (options.filterMap execution?).getLast?.getD .recording
  executionHost := (options.filterMap host?).getLast?.getD "127.0.0.1"
  executionPort := (options.filterMap port?).getLast?.getD 0
  caCertificatePath := (options.filterMap ca?).getLast?.getD ""

/-- What one option more changes. -/
def apply (o : TradingOptions) : TradingOption → TradingOptions
  | replay file => { o with mode := some .replay, replayFile := some file }
  | dpdk => { o with mode := some .dpdk }
  | rxCpu text => { o with rxCpu := some (UInt64.ofNat (Nat.ofDigitChars 10 text.toList 0)) }
  | pipelineCpu text =>
      { o with pipelineCpu := some (UInt64.ofNat (Nat.ofDigitChars 10 text.toList 0)) }
  | execution mode => { o with executionMode := mode }
  | host address => { o with executionHost := address }
  | port text => { o with executionPort := UInt16.ofNat (Nat.ofDigitChars 10 text.toList 0) }
  | ca path => { o with caCertificatePath := path }

/-- The three together. -/
def grammar : OptionGrammar String TradingOptions TradingOption := ⟨render, Valid, apply⟩

end TradingOption

namespace TradingOptions

/-- There is a mode, a replay has a file and no receiving CPU, and a session has a port and an
authority. -/
structure Complete (o : TradingOptions) : Prop where
  mode : o.mode ≠ none
  replay : o.mode = some .replay → o.replayFile ≠ none ∧ o.rxCpu = none
  tls : o.executionMode = .tls → o.executionPort ≠ 0 ∧ o.caCertificatePath ≠ ""

/-- Options that give these settings. -/
def options (o : TradingOptions) : List TradingOption :=
  o.replayFile.toList.map .replay ++ (if o.mode = some .dpdk then [.dpdk] else []) ++
    o.rxCpu.toList.map (fun cpu => .rxCpu cpu.toNat.repr) ++
    o.pipelineCpu.toList.map (fun cpu => .pipelineCpu cpu.toNat.repr) ++
    [.execution o.executionMode, .host o.executionHost] ++
    (if o.executionPort = 0 then [] else [.port o.executionPort.toNat.repr]) ++
    [.ca o.caCertificatePath]

/-- The arguments that they are written as. -/
def arguments (o : TradingOptions) : List String := (o.options.map TradingOption.render).flatten

end TradingOptions

/-! ## `exchange_runtime` -/

/-- An option with its value. -/
inductive ExchangeOption where
  | port (text : String)
  | cert (path : String)
  | key (path : String)

namespace ExchangeOption

/-- The arguments that an option is written as. -/
def render : ExchangeOption → List String
  | port text => ["--port", text]
  | cert path => ["--cert", path]
  | key path => ["--key", path]

/-- Ports have 16 bits, and zero is one. -/
def Valid : ExchangeOption → Prop
  | port text => ∃ n < 2 ^ 16, Numeral text n
  | _ => True

/-- The port to listen on. -/
def port? : ExchangeOption → Option UInt16
  | port text => some (UInt16.ofNat (Nat.ofDigitChars 10 text.toList 0))
  | _ => none

/-- The certificate of the server. -/
def cert? : ExchangeOption → Option String
  | cert path => some path
  | _ => none

/-- The key of the server. -/
def key? : ExchangeOption → Option String
  | key path => some path
  | _ => none

/-- The last option of each kind. -/
def settings (options : List ExchangeOption) : ExchangeOptions where
  port := (options.filterMap port?).getLast?.getD 0
  certificatePath := (options.filterMap cert?).getLast?.getD ""
  privateKeyPath := (options.filterMap key?).getLast?.getD ""

/-- What one option more changes. -/
def apply (o : ExchangeOptions) : ExchangeOption → ExchangeOptions
  | port text => { o with port := UInt16.ofNat (Nat.ofDigitChars 10 text.toList 0) }
  | cert path => { o with certificatePath := path }
  | key path => { o with privateKeyPath := path }

/-- The three together. -/
def grammar : OptionGrammar String ExchangeOptions ExchangeOption := ⟨render, Valid, apply⟩

end ExchangeOption

end OpenHft
