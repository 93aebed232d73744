import TokenGate.Launch.Startup
/-!
# `TokenGate.Main`: the node's command line

Starts a validation node from the environment (`DA_CONFIG`, `DA_PARTITIONS`,
`DA_SEED_FILE`) and serves until its input ends, then shuts down and exits with 0. A
failure to start writes the report to standard error and exits with 1.
-/

set_option autoImplicit false

namespace TokenGate.Cli

/-- A file fault as the library names it. -/
def fileError (e : IO.Error) : FileError :=
  match e with
  | .noFileOrDirectory .. => .notFound
  | .inappropriateType _ code _ =>
    if code == 21 then .isDirectory else if code == 20 then .notDirectory else .other (toString e)
  | _ => .other (toString e)

/-- Read a text file from disk. -/
def readText (path : String) : IO (Except FileError String) := do
  try
    let text ← IO.FS.readFile path
    pure (.ok text)
  catch e =>
    pure (.error (fileError e))

/-- Wait until the input ends. -/
partial def awaitEnd (stdin : IO.FS.Stream) : IO Unit := do
  let line ← stdin.getLine
  if line.isEmpty then pure () else awaitEnd stdin

end TokenGate.Cli

open TokenGate in
/-- Start the node, serve until the input ends, and stop. -/
def main : IO UInt32 := do
  let names := ["DA_CONFIG", "DA_PARTITIONS", "DA_SEED_FILE"]
  let values ← names.mapM fun k => do pure (k, ← IO.getEnv k)
  let env (k : String) : Option String := (values.lookup k).join
  match ← launch Cli.readText env with
  | .failed r =>
    IO.eprint r.render
    pure 1
  | .aborted msg =>
    IO.eprintln ("thread \x27main\x27 panicked:\n" ++ msg)
    pure 101
  | .running node =>
    IO.println "Node is running. Press Ctrl+C to stop."
    Cli.awaitEnd (← IO.getStdin)
    let (counters, _) := node.shutdown
    IO.println ("Shutdown complete: completed=" ++ toString counters.completed ++ " timed_out="
      ++ toString counters.timedOut ++ " skipped=" ++ toString counters.skipped)
    pure 0
