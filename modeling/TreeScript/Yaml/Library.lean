import TreeScript.Value.Data
import TreeScript.Yaml.Fault

/-!
# YAML libraries

What is asked of a YAML library: to load a text, and to dump a value. Programs and settings are read
and written by whichever library a host has, and what is said of them is said for all libraries;
what has to be known of a library besides is a hypothesis where it is needed. Only that nothing but
plain data is loaded belongs to every library.
-/

namespace TreeScript.Yaml

/-- A YAML library. -/
structure Library where
  /-- The value of a text (`safe_load`). -/
  load : String → Outcome Value
  /-- The text of a value (`safe_dump`). -/
  dump : Value → Result String
  /-- A text has plain data for a value. -/
  load_isData : ∀ {text : String} {v : Value}, load text = .ok v → v.isData = true

end TreeScript.Yaml
