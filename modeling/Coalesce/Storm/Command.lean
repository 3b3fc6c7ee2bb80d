import Coalesce.Storm.Arguments
import Coalesce.Storm.Report
import Coalesce.Storm.Simulation
/-! # The command line of a storm -/
namespace Coalesce.Storm

structure Response where
  code : UInt32
  output : List String := []
  errors : String := ""
deriving DecidableEq

def usage : List String :=
  ["batch-storm: request coalescing load simulator",
   "",
   "USAGE:",
   "    batch-storm [OPTIONS]",
   "",
   "OPTIONS:",
   "    --requests <N>      Number of concurrent requests (default 300)",
   "    --keys <K>          Distinct batch keys; 0 means one key per request (default 0)",
   "    --workers <W>       Max concurrent executions",
   "    --exec-ms <MS>      Simulated backend latency per batch (default 1000)",
   "    --idle-ms <MS>      Batch idle timeout",
   "    --max-ms <MS>       Batch max timeout",
   "    --config <FILE>     Load batcher settings from a YAML or JSON file",
   "    -h, --help          Show this help message",
   "",
   "ENVIRONMENT:",
   "    REQUEST_BATCHER_IDLE_TIMEOUT_MS, REQUEST_BATCHER_MAX_TIMEOUT_MS,",
   "    REQUEST_BATCHER_MAX_WORKERS, REQUEST_BATCHER_NAME",
   "    RUST_LOG                    Log filter (e.g. request_batcher=debug)"]

def indented (start : String) (further : Nat) (text : String) : String :=
  start ++ ("\n" ++ String.ofList (List.replicate further ' ')).intercalate (text.splitOn "\n")

def causeLines : List String → List String
  | [] => []
  | [cause] => [indented "    " 4 cause]
  | causes => causes.mapIdx fun i cause =>
    indented (String.ofList ((List.replicate (5 - (Text.decimal i).length) ' ') ++ Text.decimal i)
      ++ ": ") 7 cause

def errorText (message : String) (causes : List String) : String :=
  let below := if causes.isEmpty then [] else "" :: "Caused by:" :: causeLines causes
  "\n".intercalate (("Error: " ++ message) :: below) ++ "\n"

def fail (message : String) (causes : List String) : Response where
  code := 1
  errors := errorText message causes

def panic (thread : Nat) (place message : String) : Response where
  code := 101
  errors := "\nthread 'main' (" ++ Text.decimalText thread ++ ") panicked at " ++ place ++ ":\n"
    ++ message
    ++ "\nnote: run with `RUST_BACKTRACE=1` environment variable to display a backtrace\n"

def refuseSlots : Response :=
  panic 4 ("/usr/local/cargo/registry/src/index.crates.io-1949cf8c6b5b557f/tokio-1.54.1"
      ++ "/src/sync/batch_semaphore.rs:148:9")
    ("a semaphore may not have more than MAX_PERMITS permits ("
      ++ Text.decimalText Pool.mostSlots ++ ")")

def runPlan (p : Plan) : Response :=
  match Storm.start p with
  | .error (.invalid e) => fail e.message e.causes
  | .error .tooManyWorkers => refuseSlots
  | .ok storm =>
    let done := Simulation.run p storm
    { code := 0, output := (done.storm.report p).lines (done.now.since ⟨0⟩) }

def respond (env : Settings.Environment) (read : Settings.FileReader) (arguments : List String) :
    Response :=
  match readArguments env read arguments with
  | .error fault => fail fault.message fault.causes
  | .ok none => { code := 0, output := usage }
  | .ok (some p) => runPlan p

end Coalesce.Storm
