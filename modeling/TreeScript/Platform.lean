import TreeScript.Command
import TreeScript.Yaml.Library

/-!
# The platform

What a host has from the machine and the libraries that it is built on, and what nothing in this
project decides.
-/

namespace TreeScript

/-- What a host is built on. -/
structure Platform where
  /-- The YAML library. -/
  yaml : Yaml.Library
  /-- How commands are run. -/
  run : Command.Runner
  /-- The character that has a name. -/
  named? : String → Option Char

end TreeScript
