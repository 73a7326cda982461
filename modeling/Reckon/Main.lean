import Reckon.Command.Session
/-!
# The program

Runs a session on the arguments of the process and hands its texts and its status on. Messages are coloured only on a
terminal, and not if the variable `NO_COLOR` is set.
-/

def main (args : List String) : IO UInt32 := do
  let errors ← IO.getStderr
  let isTerminal := (← errors.isTty) && (← IO.getEnv "NO_COLOR").isNone
  let session := Reckon.Session.run args isTerminal
  (← IO.getStdout).putStr session.output
  errors.putStr session.errors
  return UInt32.ofNat session.status
