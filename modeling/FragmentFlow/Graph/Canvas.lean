import FragmentFlow.Graph.Basic

/-!
# Canvases

What a graph consists of while it is drawn: its nodes, its edges, and the index by which
the nodes for a part of the tree are found.  A node is added without edges; an edge is
added once and is then listed at both of its ends.
-/

namespace FragmentFlow.Graph

/-- The beginning of an edge without a target. -/
structure Tip where
  source : Nat
  kind : EdgeKind
  deriving DecidableEq, Repr

/-- A node in its place in the tree or, while copying, a further copy of it. -/
def Node.at (tree : Nat) (copying : Bool) (action : Action) (operands : List Nat) : Node :=
  { action, tree := some tree, isCopy := copying, operands }

/-- A node that evaluates nothing of the tree. -/
def Node.implicit (action : Action) (operands : List Nat) : Node :=
  { action, tree := none, isCopy := false, operands }

/-- The drawn part of a graph. -/
structure Canvas where
  nodes : Array Node := #[]
  edges : Array Edge := #[]
  /-- The nodes by what they evaluate. -/
  index : Index := []

namespace Canvas

/-- Adds a node without edges. -/
def addNode (canvas : Canvas) (node : Node) : Nat × Canvas :=
  let id := canvas.nodes.size
  (id, { canvas with
    nodes := canvas.nodes.push node
    index := match node.tree with
      | some tree => canvas.index.add tree id node.isCopy
      | none => canvas.index })

/-- Whether a node has a certain edge. -/
def hasEdge (canvas : Canvas) (edge : Edge) : Bool :=
  match canvas.nodes[edge.source]? with
  | some node => node.outgoing.any fun id => canvas.edges[id]? == some edge
  | none => false

/-- Adds an edge unless there is one like it. -/
def addEdge (canvas : Canvas) (edge : Edge) : Canvas :=
  if canvas.hasEdge edge then canvas
  else
    let id := canvas.edges.size
    { canvas with
      edges := canvas.edges.push edge
      nodes :=
        (canvas.nodes.modify edge.source fun node =>
          { node with outgoing := node.outgoing ++ [id] })
          |>.modify edge.target fun node => { node with incoming := node.incoming ++ [id] } }

/-- Ends some tips at a node. -/
def connect (canvas : Canvas) (tips : List Tip) (target : Nat) : Canvas :=
  tips.foldl (fun canvas tip => canvas.addEdge { source := tip.source, target, kind := tip.kind })
    canvas

/-- Ends some tips at a new node. -/
def endAt (canvas : Canvas) (action : Action) (tips : List Tip) : Canvas :=
  let (id, drawn) := canvas.addNode (.implicit action [])
  drawn.connect tips id

/-- The graph with both exits, where what leads to them ends. -/
def finish (canvas : Canvas) (label : String) (completing raising : List Tip) : Graph :=
  let completed := canvas.endAt .exit completing
  let drawn := completed.endAt .exceptionalExit raising
  { label, nodes := drawn.nodes, edges := drawn.edges, index := drawn.index
    exit := canvas.nodes.size, exceptionalExit := completed.nodes.size
    freeNames := (usedNames drawn.nodes).diff (declaredNames drawn.nodes) }

end Canvas

end FragmentFlow.Graph
