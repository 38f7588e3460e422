import FragmentFlow.Tree.Path

/-!
# Fragments

A fragment is a piece of code that is analysed on its own: a method, a lambda, an
initializer block of a class, or the initializer of a field.  The code of a
nested lambda belongs to the lambda alone.
-/

namespace FragmentFlow

open FragmentFlow.Tree (Node Path)

namespace Fragment

/-- The sort of a fragment. -/
inductive Kind where
  | method
  | lambda
  | initializer
  | fieldInitializer
  deriving DecidableEq, Repr

/-- How messages name the sort of a fragment. -/
def Kind.label : Kind → String
  | method => "Method"
  | lambda => "Lambda"
  | initializer => "Initializer"
  | fieldInitializer => "FieldInitializer"

/-- The code of a fragment. -/
inductive Code where
  | method (decl : Tree.Method)
  | lambda (id : Nat) (params : List String) (body : Tree.LambdaBody)
  | initializer (body : Tree.Block)
  | fieldInitializer (decl : Tree.Field) (init : Tree.Expr)

namespace Code

/-- The sort of a fragment in words. -/
def kindName : Code → String
  | method _ => "method"
  | lambda .. => "lambda"
  | initializer _ => "initializer"
  | fieldInitializer .. => "field_initializer"

/-- The sort of a fragment. -/
def kind : Code → Kind
  | method _ => .method
  | lambda .. => .lambda
  | initializer _ => .initializer
  | fieldInitializer .. => .fieldInitializer

/-- The node at the root of the code. -/
def node : Code → Node
  | method decl => .method decl
  | lambda id params body => .expr (.lambda id params body)
  | initializer body => body.toNode
  | fieldInitializer decl init => .field { decl with init := some init }

/-- The number of the node at the root of the code. -/
def id : Code → Nat
  | method decl => decl.id
  | lambda id .. => id
  | initializer body => body.id
  | fieldInitializer decl _ => decl.id

/-- The node that is evaluated; only a method may have none. -/
def body? : Code → Option Node
  | method decl => decl.body.map Tree.Block.toNode
  | lambda _ _ body => some body.toNode
  | initializer body => some body.toNode
  | fieldInitializer _ init => some (.expr init)

/-- The part of a fragment's name after its class. -/
def localName : Code → String
  | method decl => decl.name
  | lambda id .. => "lambda$" ++ toString id
  | initializer body => if body.isStatic then "<clinit>" else "<init>"
  | fieldInitializer decl _ => decl.name

end Code

/-- The code that a node roots, given its parent. -/
def classify (node : Node) (parent : Option Node) : Option Code :=
  match node, parent with
  | .method decl, _ => some (.method decl)
  | .expr (.lambda id params body), _ => some (.lambda id params body)
  | .stmt (.block body), some (.classDecl _) => some (.initializer body)
  | .field decl, some (.classDecl _) => decl.init.map (.fieldInitializer decl)
  | _, _ => none

/-- The code of a node for which it counts as being inside: a lambda does so only
for what is below it. -/
def classifyInside (node : Node) (parent : Option Node) : Option Code :=
  match node with
  | .method _ | .field _ | .stmt (.block _) => classify node parent
  | _ => none

end Fragment

/-- A piece of code that is analysed on its own, with its position. -/
structure Fragment where
  path : Path
  code : Fragment.Code

namespace Fragment

/-- The number of the node at the root of the fragment. -/
def root (fragment : Fragment) : Nat :=
  fragment.path.leaf.id

/-- The node that is evaluated; only a method may have none. -/
def body? (fragment : Fragment) : Option Node :=
  fragment.code.body?

/-- Whether there is something to evaluate. -/
def hasBody (fragment : Fragment) : Bool :=
  fragment.body?.isSome

/-- The name of a fragment: its class and its place in it. -/
def name (fragment : Fragment) : String :=
  (fragment.path.enclosingClass?.getD "<unit>") ++ "." ++ fragment.code.localName

/-- Whether two fragments are the same code of the same tree. -/
def same (fragment other : Fragment) : Bool :=
  fragment.path.same other.path && fragment.code.kindName == other.code.kindName

/-- The innermost fragment around a node, searched from the node upwards. -/
def locateFrom (tree : Tree) (node : Node) : List Node → Option Fragment
  | [] =>
    (classifyInside node none).map fun code => { path := { tree, leaf := node, above := [] }, code }
  | parent :: above =>
    match classifyInside node (some parent) with
    | some code => some { path := { tree, leaf := node, above := parent :: above }, code }
    | none =>
      match parent with
      | .expr (.lambda id params body) =>
        some { path := { tree, leaf := parent, above }, code := .lambda id params body }
      | _ => locateFrom tree parent above

/-- The innermost fragment around a position. -/
def locate (path : Path) : Option Fragment :=
  locateFrom path.tree path.leaf path.above

/-- The fragment rooted at a position, if there is one. -/
def ofPath? (path : Path) : Option Fragment :=
  (classify path.leaf path.above.head?).map fun code => { path, code }

end Fragment

/-- All fragments of a tree in source order. -/
def Tree.fragments (tree : Tree) : List Fragment :=
  tree.paths.filterMap Fragment.ofPath?

/-- Whether a node is a lambda. -/
def Tree.Node.isLambda : Node → Bool
  | .expr (.lambda ..) => true
  | _ => false

/-- The nodes of a subtree in preorder, without those below a lambda. -/
def Tree.Node.ownNodes (node : Node) : List Node :=
  if node.isLambda then [node]
  else node :: node.children.attach.flatMap fun child => child.1.ownNodes
termination_by node.size
decreasing_by exact Tree.Node.size_lt_of_mem_children child.2

/-- The nodes that belong to a fragment, in source order. -/
def Fragment.nodes (fragment : Fragment) : List Node :=
  match fragment.body? with
  | none => []
  | some body => body.ownNodes

end FragmentFlow
