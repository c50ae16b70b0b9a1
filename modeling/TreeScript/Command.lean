import TreeScript.Files.Tree

/-!
# Commands

What a command is to a program: it is run by name in a directory, gets its arguments as they are,
and leaves a status and two outputs. Which commands there are, and what they do to the files, is up
to the host.
-/

namespace TreeScript.Command

/-- What a command leaves. -/
structure Outcome where
  /-- The status; a signal that ends a command is a negative status. -/
  status : Int
  /-- The output. -/
  out : List UInt8
  /-- The messages. -/
  messages : List UInt8
  deriving DecidableEq, Repr, Inhabited

/-- How a host runs a command (`create_subprocess_exec`): in a directory, by its name, with
arguments. A command can change the files, and it can be one that cannot be started. -/
abbrev Runner :=
  (directory name : String) → (args : List String) → FileSystem.Change Outcome

end TreeScript.Command
