/-!
# Records of what happened

Each stage can tell what it did. What it tells is computed beside the result and never changes it.
-/

namespace Frontend

/-- How much attention a record asks for. -/
inductive Level where
  | trace
  | debug
  | warn
  deriving DecidableEq

def Level.name : Level → String
  | .trace => "TRACE"
  | .debug => "DEBUG"
  | .warn => "WARN"

structure Record where
  level : Level
  text : String
  deriving DecidableEq

end Frontend
