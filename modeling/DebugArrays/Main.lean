import DebugArrays.Server.Lines
import DebugArrays.Server.LogFilter

/-!
The command line: a server on standard input and output, configured by the environment. Input is
read in chunks, and the lines that a chunk completes are answered before more is read.
-/
namespace DebugArrays.Server

/-- No logging library is behind this command line: it takes the plain filters, and nothing comes of
them. It has one complaint. -/
def plainPlatform : Platform where
  acceptsFilter := LogFilter.accepts
  complaint _ := "expected a request"

def chunkSize : USize := 4096

/-- Reads and answers until a line or the end of input ends the run. `pending` holds the bytes after
the last line feed. -/
partial def serve (input out : IO.FS.Stream) (handler : Handler) (pending : List UInt8) :
    IO UInt32 := do
  let chunk ← input.read chunkSize
  let (lines, last) :=
    if chunk.isEmpty then (splitLines pending, []) else cutLines (pending ++ chunk.toList)
  let progress := advance plainPlatform handler lines
  for answer in progress.written do
    out.putStr (answer ++ "\n")
  out.flush
  match progress.status with
  | .ended exit => return exit.toUInt32
  | .running handler =>
    if chunk.isEmpty then return 0 else serve input out handler last

end DebugArrays.Server

def main : IO UInt32 := do
  let logFilter ← IO.getEnv DebugArrays.Config.logVariable
  let byReference ← IO.getEnv DebugArrays.Config.byReferenceVariable
  let config := DebugArrays.Config.ofLookup fun name =>
    if name = DebugArrays.Config.logVariable then logFilter else byReference
  if DebugArrays.Server.plainPlatform.acceptsFilter config.logFilter then
    DebugArrays.Server.serve (← IO.getStdin) (← IO.getStdout) (.new config) []
  else return 1
