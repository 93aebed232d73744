import TokenGate.Exchange.Run
import TokenGate.Config.Node
/-!
# `TokenGate.Exchange.Node`: a validation node

A node is a server for the validation service, set up from the node's settings: its
consumer group is the node's group, and its client replies on the node's own reply
topic. Starting the node starts one more set of serving tasks each time. Shutting it
down asks every task to stop and waits for each serving task in turn, each for at most
two seconds; its answer is the server's final counters.
-/

set_option autoImplicit false

namespace TokenGate

/-- A validation node: its settings, its exchange, and the serving tasks it started. -/
structure NodeRuntime where
  config : NodeConfig
  exchange : Exchange
  serving : List Nat

namespace NodeRuntime

/-- A node over a broker, with empty registry stores, not yet started. -/
def create (config : NodeConfig) (broker : Broker) : NodeRuntime :=
  ⟨config, Exchange.create config.transportApi config.node.groupId broker
    (Backend.ofRegistry Registry.empty), []⟩

/-- A node over a broker, or the abort of a pending limit too large for a semaphore. -/
def setUp (config : NodeConfig) (broker : Broker) : Except String NodeRuntime :=
  if config.transportApi.maxPending > Sched.Semaphore.maxPermits then
    .error Sched.Semaphore.tooManyPermits
  else .ok (create config broker)

/-- Start serving. -/
def start (r : NodeRuntime) : NodeRuntime :=
  let (ids, x) := r.exchange.startServer
  { r with exchange := x, serving := r.serving ++ ids }

/-- Stop every task and wait for the serving ones: the final counters, and the exchange
left behind. -/
def shutdown (r : NodeRuntime) : ServeCounters × Exchange :=
  let x := r.exchange.requestStop
  let x := Exchange.runUntilDone { x with main := .join r.serving none,
                                          core := { x.core with mainWoken := true } }
  (x.server.counters, x)

end NodeRuntime

end TokenGate
