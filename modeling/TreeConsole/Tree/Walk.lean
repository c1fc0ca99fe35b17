import TreeConsole.Tree.Basic

/-!
# Walking a tree

The nodes of a tree in the order in which a reader would list them: a node before its children, the
children in order. The walk follows the names that the nodes list and never looks at the table as a
whole, so that it finds the same nodes as the table exactly when the two records of a child agree.
-/

namespace TreeConsole.Tree

/-- The nodes at and below a path, as many levels down as the number says. -/
def walkFrom (t : Tree) : Nat → NodePath → List (NodePath × Node)
  | 0, _ => []
  | depth + 1, p =>
    match t.find? p with
    | none => []
    | some n => (p, n) :: (n.children.filterMap p.child?).flatMap (walkFrom t depth)

/-- Every node, a node before its children. No way has more nodes on it than there are. -/
def walk (t : Tree) : List (NodePath × Node) := t.walkFrom t.size .root

end TreeConsole.Tree
