import FxPulse.Archive.Lines
import FxPulse.Archive.Scan

/-!
# `Main.lean` — the command line

Reads an archive from standard input, scans the bars of its symbols, and writes the archive with the
rows found to standard output. Settings come from the environment. The exit code is 0 when all symbols
were scanned, 1 when the settings or the archive cannot be read, and 2 when some symbol failed.
-/

set_option autoImplicit false

namespace FxPulse.CommandLine

/-- The settings that the environment gives. -/
def readSettings : IO Config.Lookup := do
  let given ← Config.names.mapM fun name => do return (name, ← IO.getEnv name)
  return fun name => (given.lookup name).join

/-- What is left of a stream, behind what has been read. -/
partial def readAll (stream : IO.FS.Stream) (before : ByteArray) : IO ByteArray := do
  let more ← stream.read 65536
  if more.isEmpty then return before else readAll stream (before ++ more)

/-- Ends the program with a line of complaint. -/
def complain (code : UInt32) (line : String) : IO UInt32 := do
  IO.eprintln line
  return code

def scan (lookup : Config.Lookup) (input : ByteArray) : IO UInt32 := do
  match Archive.ofBytes input.toList with
  | .error cause => complain 1 ("Fatal error: " ++ cause.message)
  | .ok archive =>
    match archive.run lookup with
    | .error _ => complain 1 "Fatal error"
    | .ok report =>
      match report.complaint with
      | some line => complain (UInt32.ofNat report.exitCode) line
      | none =>
        IO.print report.archive.text
        return UInt32.ofNat report.exitCode

end FxPulse.CommandLine

open FxPulse in
def main : IO UInt32 := do
  let lookup ← CommandLine.readSettings
  CommandLine.scan lookup (← CommandLine.readAll (← IO.getStdin) ByteArray.empty)
