import TokenGate.Bus.SipHash
import TokenGate.Text.Utf8
/-!
# `TokenGate.Bus.Broker`: a partitioned message log

The bus the validation service reads requests from and writes responses to.

* A topic has a fixed number of partitions, each an append-only log. A topic is
  created on first use with the broker's default partition count.
* A record with a key goes to partition `hash(key) % partitions` (`SipHash`), so
  records with one key stay in order. Records without a key go round-robin.
* Offsets count from zero per partition and never restart. Each partition keeps only
  its newest `retention` records; reading from before the oldest kept record reads
  from the oldest kept record.
* A consumer reads one partition for a consumer group. It starts at the group's
  committed offset (zero when none) and commits its position on request.
* A closed broker refuses to send and to poll.
-/

set_option autoImplicit false

namespace TokenGate

/-- A stored record. -/
structure BusRecord where
  topic : String
  partition : Nat
  offset : Nat
  key : Option String
  value : List UInt8

/-- Where a sent record was stored. -/
structure RecordMetadata where
  topic : String
  partition : Nat
  offset : Nat
  deriving DecidableEq

/-- Why a bus operation failed. -/
inductive BusError where
  | closed
  | unknownTopic (topic : String)
  | unknownPartition (topic : String) (partition : Nat)
  deriving DecidableEq, Inhabited

namespace BusError

/-- The name of the kind of failure. -/
def kindName : BusError → String
  | .closed => "Closed"
  | .unknownTopic _ => "UnknownTopic"
  | .unknownPartition .. => "UnknownPartition"

/-- The text of the failure. -/
def message : BusError → String
  | .closed => "Broker closed"
  | .unknownTopic t => "Unknown topic: " ++ t
  | .unknownPartition t p => "Unknown partition " ++ toString p ++ " for topic " ++ t

end BusError

/-- One partition: the kept tail of its log and the offset of its oldest record. -/
structure PartitionLog where
  base : Nat
  records : List BusRecord

namespace PartitionLog

/-- The offset the next record will get. -/
def endOffset (log : PartitionLog) : Nat := log.base + log.records.length

/-- Drop the oldest records until at most `retention` are kept. -/
def truncate (log : PartitionLog) (retention : Nat) : PartitionLog :=
  let excess := log.records.length - retention
  ⟨log.base + excess, log.records.drop excess⟩

/-- Append a record, then drop the oldest records until at most `retention` are kept. -/
def append (log : PartitionLog) (retention : Nat) (r : BusRecord) : PartitionLog :=
  (⟨log.base, log.records ++ [r]⟩ : PartitionLog).truncate retention

end PartitionLog

/-- A topic: its partitions and the round-robin counter for records without a key. -/
structure Topic where
  name : String
  partitions : Array PartitionLog
  nextUnkeyed : Nat

/-- A new topic with `n` empty partitions (at least one). -/
def Topic.fresh (name : String) (n : Nat) : Topic := ⟨name, Array.replicate (max n 1) ⟨0, []⟩, 0⟩

/-- A consumer group's committed offset on one partition. -/
structure Commit where
  group : String
  topic : String
  partition : Nat
  offset : Nat

/-- The broker. -/
structure Broker where
  topics : List Topic
  commits : List Commit
  closed : Bool
  defaultPartitions : Nat
  retention : Nat
  published : Nat

/-- A consumer of one partition for one group, and its read position. -/
structure Consumer where
  group : String
  topic : String
  partition : Nat
  position : Nat

/-- The number of records a partition keeps unless told otherwise. -/
def defaultRetention : Nat := 100000

namespace Broker

/-- A broker whose new topics get `partitions` partitions (at least one) and whose
partitions keep `retention` records (at least one). -/
def withRetention (partitions retention : Nat) : Broker :=
  ⟨[], [], false, max partitions 1, max retention 1, 0⟩

/-- A broker with the default retention. -/
def withPartitions (partitions : Nat) : Broker := withRetention partitions defaultRetention

/-- The topic of a name. -/
def topic? (b : Broker) (name : String) : Option Topic := b.topics.find? (·.name == name)

/-- Create a topic with `partitions` partitions (at least one), unless it exists. -/
def createTopic (b : Broker) (name : String) (partitions : Nat) : Broker :=
  if (b.topic? name).isSome then b
  else { b with topics := b.topics ++ [Topic.fresh name partitions] }

/-- The partition count of a topic, creating the topic when needed. -/
def partitions (b : Broker) (name : String) : Nat × Broker :=
  let b := b.createTopic name b.defaultPartitions
  (((b.topic? name).map (·.partitions.size)).getD b.defaultPartitions, b)

/-- Change a topic. -/
def updateTopic (b : Broker) (name : String) (f : Topic → Topic) : Broker :=
  { b with topics := b.topics.map fun t => if t.name == name then f t else t }

/-- The partition a record goes to, and the topic with its counter moved on. -/
def partitionFor (t : Topic) (key : Option String) : Nat × Topic :=
  let count := t.partitions.size
  match key with
  | some k => ((SipHash.hash (Utf8.encode k ++ [0xFF])).toNat % count, t)
  | none => (t.nextUnkeyed % count, { t with nextUnkeyed := (t.nextUnkeyed + 1) % Nat.pow 2 64 })

/-- Append a record to a topic. -/
def send (b : Broker) (topicName : String) (key : Option String) (value : List UInt8) :
    Except BusError (RecordMetadata × Broker) :=
  if b.closed then .error .closed
  else
    let b := b.createTopic topicName b.defaultPartitions
    match b.topic? topicName with
    | none => .error (.unknownTopic topicName)
    | some t =>
      let (p, t) := partitionFor t key
      let log := t.partitions.getD p ⟨0, []⟩
      let offset := log.endOffset
      let log := log.append b.retention ⟨topicName, p, offset, key, value⟩
      let t := { t with partitions := t.partitions.set! p log }
      let b := { b.updateTopic topicName (fun _ => t) with published := b.published + 1 }
      .ok (⟨topicName, p, offset⟩, b)

/-- The committed offset of a group on a partition. -/
def committed (b : Broker) (group topic : String) (partition : Nat) : Option Nat :=
  (b.commits.find? fun c => c.group == group && c.topic == topic && c.partition == partition).map
    (·.offset)

/-- Record a group's committed offset on a partition. -/
def commit (b : Broker) (group topic : String) (partition offset : Nat) : Broker :=
  let same (c : Commit) : Bool := c.group == group && c.topic == topic && c.partition == partition
  if b.commits.any same then
    { b with commits := b.commits.map fun c => if same c then { c with offset } else c }
  else { b with commits := b.commits ++ [⟨group, topic, partition, offset⟩] }

/-- Open a consumer on one partition for a group, at the group's committed offset. The
topic is created when needed, also when the partition turns out not to exist. -/
def consumer (b : Broker) (group topic : String) (partition : Nat) :
    Except BusError Consumer × Broker :=
  let (count, b) := b.partitions topic
  if partition ≥ count then (.error (.unknownPartition topic partition), b)
  else (.ok ⟨group, topic, partition, (b.committed group topic partition).getD 0⟩, b)

/-- The next opening of `consumers`: the consumer of partition `p`, unless an earlier
opening failed. -/
def openNext (group topic : String) (acc : Except BusError (List Consumer) × Broker) (p : Nat) :
    Except BusError (List Consumer) × Broker :=
  match acc with
  | (.ok cs, b) =>
    match b.consumer group topic p with
    | (.ok c, b) => (.ok (cs ++ [c]), b)
    | (.error e, b) => (.error e, b)
  | stopped => stopped

/-- Open one consumer per partition of a topic for a group, stopping at the first
failure. -/
def consumers (b : Broker) (group topic : String) : Except BusError (List Consumer) × Broker :=
  let (n, b) := b.partitions topic
  (List.range n).foldl (openNext group topic) (.ok [], b)

/-- The log of a partition, if the topic and partition exist. -/
def log? (b : Broker) (topic : String) (partition : Nat) : Option PartitionLog :=
  (b.topic? topic).bind fun t => t.partitions[partition]?

/-- The offset the next record of a partition will get; zero when unknown. -/
def endOffset (b : Broker) (topic : String) (partition : Nat) : Nat :=
  ((b.log? topic partition).map (·.endOffset)).getD 0

/-- The offset of the oldest kept record of a partition; zero when unknown. -/
def startOffset (b : Broker) (topic : String) (partition : Nat) : Nat :=
  ((b.log? topic partition).map (·.base)).getD 0

/-- At most `max` records of a partition from `offset` (from the oldest kept record
when `offset` is older). -/
def fetch (b : Broker) (topic : String) (partition offset max : Nat) :
    Except BusError (List BusRecord) :=
  match b.topic? topic with
  | none => .ok []
  | some t =>
    match t.partitions[partition]? with
    | none => .error (.unknownPartition topic partition)
    | some log => .ok ((log.records.drop (offset - log.base)).take max)

/-- Close the broker. -/
def close (b : Broker) : Broker := { b with closed := true }

end Broker

namespace Consumer

/-- The consumer's `topic/partition` label. -/
def label (c : Consumer) : String := c.topic ++ "/" ++ toString c.partition

/-- Take at most `max` records at the consumer's position and move past them. -/
def take (c : Consumer) (b : Broker) (max : Nat) : Except BusError (List BusRecord × Consumer) := do
  let rs ← b.fetch c.topic c.partition c.position max
  match rs.getLast? with
  | some r => pure (rs, { c with position := r.offset + 1 })
  | none => pure (rs, c)

/-- One look for records: refused when the broker is closed. An empty result means
the caller must wait. -/
def poll (c : Consumer) (b : Broker) (max : Nat) : Except BusError (List BusRecord × Consumer) :=
  if b.closed then .error .closed else c.take b max

/-- Make the consumer's position the group's committed offset. -/
def commit (c : Consumer) (b : Broker) : Broker := b.commit c.group c.topic c.partition c.position

end Consumer

end TokenGate
