import OpenHft.Lib.Arguments
import OpenHft.Model.ExchangeRuntime

/-!
# The command lines

What `main` of `apps/trading_runtime.cpp` and of `apps/exchange_runtime.cpp` make of their
arguments, without the name of the program. Both go through them in a loop in which an option
takes the arguments behind it as its values; the trading side then looks at the options
together. An error is the check at which `main` returns 1, with the text that it is about.

Not modelled: what is printed, on an error and, about CPU affinity, when all is well.
-/

namespace OpenHft

open Lib (readArguments)

/-- `std::from_chars` for an unsigned type of so many bits: the number that `text` begins with,
and what is behind it. -/
def fromChars (bits : Nat) (text : List Char) : Option (Nat × List Char) :=
  let digits := text.takeWhile Char.isDigit
  if digits = [] then none
  else
    let value := Nat.ofDigitChars 10 digits 0
    if value < 2 ^ bits then some (value, text.dropWhile Char.isDigit) else none

/-! ## `trading_runtime` -/

/-- Where the market data comes from, `--mode`. -/
inductive InputMode where
  | replay
  | dpdk
  deriving DecidableEq, Repr

/-- Where the orders go, `--execution`. -/
inductive ExecutionMode where
  | recording
  | tls
  deriving DecidableEq, Repr

/-- The variables of `main` that the arguments are put into. -/
structure TradingOptions where
  mode : Option InputMode := none
  replayFile : Option String := none
  rxCpu : Option UInt64 := none
  pipelineCpu : Option UInt64 := none
  executionMode : ExecutionMode := .recording
  executionHost : String := "127.0.0.1"
  executionPort : UInt16 := 0
  caCertificatePath : String := ""
  deriving DecidableEq, Repr

/-- Why `main` returns before it has constructed anything, one for each place it does so. -/
inductive TradingArgumentError where
  | tooFew
  | missingValue (option : String)
  | missingReplayFile
  | unknownMode (value : String)
  | invalidRxCpu (value : String)
  | invalidPipelineCpu (value : String)
  | unknownExecution (value : String)
  | invalidPort (value : String)
  | unknownArgument (argument : String)
  | noMode
  | noReplayFile
  | rxCpuInReplay
  | noPort
  | noCa
  deriving DecidableEq, Repr

namespace TradingOptions

/-- All of the text has to be digits, of a number that fits into a `std::size_t`. -/
def parseCpuIndex (value : String) : Option UInt64 :=
  match fromChars 64 value.toList with
  | some (cpuIndex, []) => some (UInt64.ofNat cpuIndex)
  | _ => none

/-- All of the text has to be digits, of a number from 1 to 65535. -/
def parsePort (value : String) : Option UInt16 :=
  match fromChars 32 value.toList with
  | some (parsedPort, []) =>
      if parsedPort = 0 ∨ 65535 < parsedPort then none else some (UInt16.ofNat parsedPort)
  | _ => none

/-- A turn of the loop, and how many values were taken. -/
def parseArgument (o : TradingOptions) (argument : String) (rest : List String) :
    Except TradingArgumentError (TradingOptions × Nat) :=
  if argument = "--mode" then
    match rest with
    | [] => .error (.missingValue "--mode")
    | modeValue :: rest =>
        if modeValue = "replay" then
          match rest with
          | [] => .error .missingReplayFile
          | replayFile :: _ =>
              .ok ({ o with mode := some .replay, replayFile := some replayFile }, 2)
        else if modeValue = "dpdk" then .ok ({ o with mode := some .dpdk }, 1)
        else .error (.unknownMode modeValue)
  else if argument = "--rx-cpu" then
    match rest with
    | [] => .error (.missingValue "--rx-cpu")
    | value :: _ =>
        match parseCpuIndex value with
        | none => .error (.invalidRxCpu value)
        | some cpuIndex => .ok ({ o with rxCpu := some cpuIndex }, 1)
  else if argument = "--pipeline-cpu" then
    match rest with
    | [] => .error (.missingValue "--pipeline-cpu")
    | value :: _ =>
        match parseCpuIndex value with
        | none => .error (.invalidPipelineCpu value)
        | some cpuIndex => .ok ({ o with pipelineCpu := some cpuIndex }, 1)
  else if argument = "--execution" then
    match rest with
    | [] => .error (.missingValue "--execution")
    | executionValue :: _ =>
        if executionValue = "recording" then .ok ({ o with executionMode := .recording }, 1)
        else if executionValue = "tls" then .ok ({ o with executionMode := .tls }, 1)
        else .error (.unknownExecution executionValue)
  else if argument = "--host" then
    match rest with
    | [] => .error (.missingValue "--host")
    | value :: _ => .ok ({ o with executionHost := value }, 1)
  else if argument = "--port" then
    match rest with
    | [] => .error (.missingValue "--port")
    | value :: _ =>
        match parsePort value with
        | none => .error (.invalidPort value)
        | some port => .ok ({ o with executionPort := port }, 1)
  else if argument = "--ca" then
    match rest with
    | [] => .error (.missingValue "--ca")
    | value :: _ => .ok ({ o with caCertificatePath := value }, 1)
  else .error (.unknownArgument argument)

/-- What is looked at behind the loop. -/
def check (o : TradingOptions) : Except TradingArgumentError TradingOptions :=
  match o.mode with
  | none => .error .noMode
  | some mode =>
      if mode = .replay ∧ o.replayFile = none then .error .noReplayFile
      else if mode = .replay ∧ o.rxCpu ≠ none then .error .rxCpuInReplay
      else if o.executionMode = .tls ∧ o.executionPort = 0 then .error .noPort
      else if o.executionMode = .tls ∧ o.caCertificatePath = "" then .error .noCa
      else .ok o

/-- `main` up to the construction of the components. -/
def parse (arguments : List String) : Except TradingArgumentError TradingOptions :=
  if arguments.length + 1 < 3 then .error .tooFew
  else readArguments parseArgument {} 0 arguments >>= check

end TradingOptions

/-! ## `exchange_runtime` -/

/-- The variables of `main` that the arguments are put into. -/
structure ExchangeOptions where
  port : UInt16 := 0
  certificatePath : String := ""
  privateKeyPath : String := ""
  deriving DecidableEq, Repr

/-- Why `main` returns before it has constructed the server. -/
inductive ExchangeArgumentError where
  | missingValue (option : String)
  | invalidPort (value : String)
  | unknownArgument (argument : String)
  | noCertificate
  | noPrivateKey
  deriving DecidableEq, Repr

namespace ExchangeOptions

/-- Port 0 is taken here: the system then chooses one. -/
def parsePort (value : String) : Option UInt16 :=
  match fromChars 32 value.toList with
  | some (parsedPort, []) =>
      if 65535 < parsedPort then none else some (UInt16.ofNat parsedPort)
  | _ => none

/-- A turn of the loop, and how many values were taken. -/
def parseArgument (o : ExchangeOptions) (argument : String) (rest : List String) :
    Except ExchangeArgumentError (ExchangeOptions × Nat) :=
  if argument = "--port" then
    match rest with
    | [] => .error (.missingValue "--port")
    | value :: _ =>
        match parsePort value with
        | none => .error (.invalidPort value)
        | some port => .ok ({ o with port := port }, 1)
  else if argument = "--cert" then
    match rest with
    | [] => .error (.missingValue "--cert")
    | value :: _ => .ok ({ o with certificatePath := value }, 1)
  else if argument = "--key" then
    match rest with
    | [] => .error (.missingValue "--key")
    | value :: _ => .ok ({ o with privateKeyPath := value }, 1)
  else .error (.unknownArgument argument)

/-- What is looked at behind the loop. The port may be missing. -/
def check (o : ExchangeOptions) : Except ExchangeArgumentError ExchangeOptions :=
  if o.certificatePath = "" then .error .noCertificate
  else if o.privateKeyPath = "" then .error .noPrivateKey
  else .ok o

/-- `main` up to the construction of the server. -/
def parse (arguments : List String) : Except ExchangeArgumentError ExchangeOptions :=
  readArguments parseArgument {} 0 arguments >>= check

/-- The server that `main` constructs. -/
def server (o : ExchangeOptions) (stdHash : OrderId → Nat) : ExchangeRuntime :=
  .init o.port 1001 (.init stdHash) (o.certificatePath != "" && o.privateKeyPath != "")

end ExchangeOptions

end OpenHft
