import LoxExpr.Command.Session

/-!
# The program

Reads files, measures time and writes the reply. All else is decided by `Command.respond`.
-/

namespace LoxExpr.Command

/-- A count of nanoseconds in a larger unit, with three decimal places. -/
def inUnit (nanoseconds unit : Nat) (name : String) : String :=
  let thousandths := nanoseconds * 1000 / unit
  let places := (toString (1000 + thousandths % 1000)).toList.drop 1
  toString (thousandths / 1000) ++ "." ++ String.ofList places ++ name

/-- A count of nanoseconds in the largest unit that it fills. -/
def elapsedText (nanoseconds : Nat) : String :=
  if nanoseconds < 1000 then toString nanoseconds ++ "ns"
  else if nanoseconds < 1000000 then inUnit nanoseconds 1000 "µs"
  else if nanoseconds < 1000000000 then inUnit nanoseconds 1000000 "ms"
  else inUnit nanoseconds 1000000000 "s"

/-- Reads a file of the system. -/
def readSystemFile (path : String) : IO (Except ReadFailure ByteArray) := do
  try
    return .ok (← IO.FS.readBinFile path)
  catch failure =>
    match failure with
    | .noFileOrDirectory .. => return .error .notFound
    | .inappropriateType .. => return .error .isDirectory
    | _ => return .error (.other (toString failure))

/-- The world that the program really runs in. -/
def systemWorld : World IO where
  contents := readSystemFile
  timed work := do
    let before ← IO.monoNanosNow
    let result ← IO.lazyPure work
    let after ← IO.monoNanosNow
    return (result, elapsedText (after - before))

end LoxExpr.Command

/-- Runs the program on its arguments. -/
def main (arguments : List String) : IO UInt32 := do
  let reply ← LoxExpr.Command.respond LoxExpr.Command.systemWorld arguments
  (← IO.getStderr).putStr reply.errors
  (← IO.getStdout).putStr reply.output
  return reply.code
