import TokenGate.Json.Decode
import TokenGate.Time.Duration
/-!
# `TokenGate.Config.Transport`: settings of the validation service

The service reads requests from one topic and answers on another (or on the reply
topic a request names), holds at most `maxPending` requests awaiting a result, gives up
on a request after `requestTimeout`, sweeps finished results and waits for new requests
every `pollInterval`, and records how far it has read every `commitInterval`.

The settings are read from JSON with every field required and no other field allowed;
the three spans are human duration texts (`Duration.parse`) and are written back in
their canonical human form (`Duration.humanText`).

`TransportConfig.validate` checks, in this order, that neither topic is blank, that
the topics differ, that the limit is positive, that no span is zero (timeout, poll,
commit), and that the timeout is not shorter than the poll interval. The first broken
rule is reported.
-/

set_option autoImplicit false

namespace TokenGate

open Json

/-- The settings of the validation service. -/
structure TransportConfig where
  requestsTopic : String
  responsesTopic : String
  maxPending : Nat
  requestTimeout : Duration
  pollInterval : Duration
  commitInterval : Duration
  deriving DecidableEq, Inhabited

/-- A broken rule of the settings. -/
inductive ConfigError where
  /-- The named topic is blank. -/
  | emptyTopic (field : String)
  /-- Both topics are this one. -/
  | sameTopic (topic : String)
  /-- The pending limit is unusable. -/
  | invalidLimit (reason : String)
  /-- A span is unusable. -/
  | invalidDuration (reason : String)
  deriving DecidableEq, Inhabited

namespace ConfigError

/-- The name of the broken rule. -/
def kindName : ConfigError → String
  | .emptyTopic _ => "EmptyTopic"
  | .sameTopic _ => "SameTopic"
  | .invalidLimit _ => "InvalidLimit"
  | .invalidDuration _ => "InvalidDuration"

/-- The report of the broken rule. -/
def message : ConfigError → String
  | .emptyTopic f => f ++ " must not be empty"
  | .sameTopic t => "requests and responses share topic " ++ t
  | .invalidLimit r => "invalid limit: " ++ r
  | .invalidDuration r => "invalid duration: " ++ r

end ConfigError

/-- Read a span from its human text; a span too long to represent aborts. -/
def Duration.reader : Reader Duration :=
  Reader.strThen "a duration" fun s =>
    match Duration.parse s with
    | .ok d => pure d
    | .error .invalid => Reader.failUnplaced (Msg.invalidValue (.str s) "a duration")
    | .error .overflow => Reader.abort Duration.overflowMessage

namespace TransportConfig

/-- The fields read so far. -/
structure Draft where
  requestsTopic : Option String := none
  responsesTopic : Option String := none
  maxPending : Option Nat := none
  requestTimeout : Option Duration := none
  pollInterval : Option Duration := none
  commitInterval : Option Duration := none

/-- The field names, in declaration order. -/
def fieldNames : List String :=
  ["requests_topic", "responses_topic", "max_pending_requests", "request_timeout",
    "request_poll_interval", "request_auto_commit_interval"]

/-- How the settings are read. -/
def spec : RecordSpec Draft where
  name := "TransportApiConfig"
  fields := fieldNames
  strict := true
  optional _ := false
  has d
    | 0 => d.requestsTopic.isSome
    | 1 => d.responsesTopic.isSome
    | 2 => d.maxPending.isSome
    | 3 => d.requestTimeout.isSome
    | 4 => d.pollInterval.isSome
    | _ => d.commitInterval.isSome
  read
    | 0, d => do pure { d with requestsTopic := some (← Reader.string) }
    | 1, d => do pure { d with responsesTopic := some (← Reader.string) }
    | 2, d => do pure { d with maxPending := some (← Reader.unsigned "usize" Reader.u64Max) }
    | 3, d => do pure { d with requestTimeout := some (← Duration.reader) }
    | 4, d => do pure { d with pollInterval := some (← Duration.reader) }
    | _, d => do pure { d with commitInterval := some (← Duration.reader) }

/-- The settings a complete draft describes. -/
def ofDraft (d : Draft) : TransportConfig :=
  { requestsTopic := d.requestsTopic.getD "", responsesTopic := d.responsesTopic.getD "",
    maxPending := d.maxPending.getD 0, requestTimeout := d.requestTimeout.getD default,
    pollInterval := d.pollInterval.getD default, commitInterval := d.commitInterval.getD default }

/-- Read the settings. -/
def reader : Reader TransportConfig := ofDraft <$> Reader.record spec {}

/-- Read the settings from a whole JSON document. -/
def parse (bytes : List UInt8) : Except ReadFailure TransportConfig :=
  read reader bytes

/-- The settings as a JSON object, spans in human form. -/
def toValue (c : TransportConfig) : Value :=
  .object [("requests_topic", .string c.requestsTopic),
    ("responses_topic", .string c.responsesTopic),
    ("max_pending_requests", .number (.nat c.maxPending)),
    ("request_timeout", .string c.requestTimeout.humanText),
    ("request_poll_interval", .string c.pollInterval.humanText),
    ("request_auto_commit_interval", .string c.commitInterval.humanText)]

/-- The first zero span, by name, in the order timeout, poll, commit. -/
def zeroSpan (c : TransportConfig) : Option String :=
  if c.requestTimeout.nanos == 0 then some "request_timeout"
  else if c.pollInterval.nanos == 0 then some "request_poll_interval"
  else if c.commitInterval.nanos == 0 then some "request_auto_commit_interval"
  else none

/-- Check the rules of the settings; the first broken one is reported. -/
def validate (c : TransportConfig) : Except ConfigError Unit :=
  if (Space.trim c.requestsTopic).isEmpty then .error (.emptyTopic "requests_topic")
  else if (Space.trim c.responsesTopic).isEmpty then .error (.emptyTopic "responses_topic")
  else if c.requestsTopic == c.responsesTopic then .error (.sameTopic c.requestsTopic)
  else if c.maxPending == 0 then .error (.invalidLimit "max_pending_requests cannot be 0")
  else match c.zeroSpan with
    | some name => .error (.invalidDuration (name ++ " cannot be 0"))
    | none =>
      if c.requestTimeout.nanos < c.pollInterval.nanos then
        .error (.invalidDuration ("request_timeout " ++ c.requestTimeout.debugText
          ++ " is shorter than request_poll_interval " ++ c.pollInterval.debugText))
      else .ok ()

end TransportConfig

end TokenGate
