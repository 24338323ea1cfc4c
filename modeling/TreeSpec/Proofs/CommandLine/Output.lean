import TreeSpec.CommandLine.Program

/-!
# What a run shows

A run shows an exit status, unless it gives up, and messages on the standard output. They are found
part by part: what comes after a part that gives up or exits is not shown. A list of messages is
shown up to the first one that cannot be written.
-/

namespace TreeSpec.CommandLine

set_option autoImplicit false

/-- The exit status of a run, or why it gives up, with the messages on the standard output. -/
abbrev Seen := Except Failure Nat × List Message

def seen (x : Effect Written Nat) : Seen := (x.result, x.trace.filterMap Written.out?)

namespace Program

variable {α β : Type}

end Program

namespace Packages

variable (p : Packages)

/-- What is seen if a message is to be shown before the rest. -/
def showFirst (m : Message) (rest : Seen) : Seen :=
  match p.write m with
  | .ok () => (rest.1, m :: rest.2)
  | .error e => (.error e, [])

/-- What is seen of messages that are shown one by one before the run ends with the status. -/
def shown (status : Nat) (messages : List Message) : Seen :=
  messages.foldr p.showFirst (.ok status, [])

variable {p} {m : Message} {messages : List Message} {status : Nat}

end Packages

end TreeSpec.CommandLine
