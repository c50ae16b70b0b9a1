import TreeScript.Command.Tools
import TreeScript.Platform
import TreeScript.Text.Name
import TreeScript.Yaml.Bundled

/-!
# The bundled platform

A platform that needs nothing from outside: the YAML library of this project, small commands, and
the names of common characters.
-/

namespace TreeScript

/-- The platform of this project. -/
def Platform.bundled : Platform where
  yaml := .bundled
  run := Command.tools
  named? := Text.named?

end TreeScript
