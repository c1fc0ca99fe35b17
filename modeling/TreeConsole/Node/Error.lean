import TreeConsole.Text.Quoted

/-!
# Failures of a node store

Why a store of nodes refuses a request. Each failure carries the path, or for a lost connection
the reason, that its message names.
-/

namespace TreeConsole

/-- A failure reported by a store of nodes. -/
inductive NodeError where
  /-- No node is at the path. -/
  | noNode (path : String)
  /-- The node still has children. -/
  | notEmpty (path : String)
  /-- A node is already at the path. -/
  | nodeExists (path : String)
  /-- The text is not a node path. -/
  | invalidPath (path : String)
  /-- The store cannot be reached. -/
  | connection (reason : String)
  deriving DecidableEq, Repr, Inhabited

namespace NodeError

/-- The short name of a failure. -/
def kind : NodeError → String
  | noNode _ => "no_node"
  | notEmpty _ => "not_empty"
  | nodeExists _ => "node_exists"
  | invalidPath _ => "invalid_path"
  | connection _ => "connection"

/-- The sentence that describes a failure. A text that is no path is quoted, since what is wrong
with it may not be visible. -/
def message : NodeError → String
  | noNode path => "no node at " ++ path
  | notEmpty path => "node " ++ path ++ " has children"
  | nodeExists path => "node " ++ path ++ " already exists"
  | invalidPath path => "invalid path " ++ Text.quoted path
  | connection reason => "connection failure: " ++ reason

end NodeError
end TreeConsole
