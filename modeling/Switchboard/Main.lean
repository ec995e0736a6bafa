import Switchboard.Bench.Demo

/-! Prints the demonstration, with the configuration in the file that the environment names. -/
namespace Switchboard

open Client Rpc

def readConfig : IO (Except CallError Config) := do
  match ← IO.getEnv "MESHRPC_CONFIG" with
  | none => pure (.ok {})
  | some path =>
    try
      let content ← IO.FS.readBinFile path
      pure (Config.ofFile (some content.toList))
    catch _ => pure (Config.ofFile none)

end Switchboard

def main : IO UInt32 := do
  match ← Switchboard.readConfig with
  | .error e =>
    IO.eprintln e.message
    pure 1
  | .ok config =>
    (Switchboard.Bench.Demo.transcript config).forM IO.println
    pure 0
