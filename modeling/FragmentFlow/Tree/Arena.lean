import FragmentFlow.Tree.Kind

/-!
# Arenas

An arena stores the nodes of a tree side by side, each at its number.  A unit is lowered
in postorder: the parts of a construct are stored before the construct, and when it is
stored itself they get it as their parent.  Parents lead up to the root, parts lead down.
Both walks follow whatever is stored; a walk that takes more steps than there are nodes, or
meets a number that is not there, has no result.
-/

namespace FragmentFlow.Tree

/-- A stored node. -/
structure Entry where
  kind : Kind Nat
  parent : Option Nat := none

/-- The nodes of a tree by their numbers, and the number of the root. -/
structure Arena where
  entries : Array Entry
  root : Nat

/-! ### Lowering -/

/-- A part of lowering a unit, with the nodes stored so far. -/
abbrev Lowering := StateM (Array Entry)

namespace Lowering

/-- Makes a node the parent of some others. -/
def adopt (id : Nat) (parts : List Nat) (entries : Array Entry) : Array Entry :=
  parts.foldl (fun entries part => entries.modify part fun entry => { entry with parent := id })
    entries

/-- Stores a node, which its parts get as their parent. -/
def push (kind : Kind Nat) : Lowering Nat := fun entries =>
  let id := entries.size
  (id, (adopt id kind.parts entries).push { kind })

/-- Stores a block behind its statements. -/
def block (isStatic : Bool) (stmts : Lowering (List Nat)) : Lowering Nat := do
  push (.block isStatic (← stmts))

/-- Lowers the items of a list in order. -/
def list {α : Type} (lower : α → Lowering Nat) : List α → Lowering (List Nat)
  | [] => return []
  | item :: items => do
    let id ← lower item
    return id :: (← list lower items)

mutual

/-- Lowers an expression. -/
def expr : Source.Expr → Lowering Nat
  | .literal value => push (.literal value)
  | .ident name => push (.ident name)
  | .assign target value => do
    push (.assign target (← expr value))
  | .binary op lhs rhs => do
    let lhs ← expr lhs
    push (.binary op lhs (← expr rhs))
  | .unary op operand => do
    push (.unary op (← expr operand))
  | .conditional cond whenTrue whenFalse => do
    let cond ← expr cond
    let whenTrue ← expr whenTrue
    push (.conditional cond whenTrue (← expr whenFalse))
  | .call callee args => do
    push (.call callee (← exprs args))
  | .new ty args => do
    push (.new ty (← exprs args))
  | .lambda params body => do
    push (.lambda params (← lambdaBody body))

/-- Lowers the body of a lambda. -/
def lambdaBody : Source.LambdaBody → Lowering Nat
  | .value result => expr result
  | .block body => block false (stmts body)

/-- Lowers a statement. -/
def stmt : Source.Stmt → Lowering Nat
  | .localDecl name ty init => do
    push (.localDecl name ty (← expr? init))
  | .exprStmt value => do
    push (.exprStmt (← expr value))
  | .ifElse cond whenTrue whenFalse => do
    let cond ← expr cond
    let whenTrue ← block false (stmts whenTrue)
    push (.ifElse cond whenTrue (← block? whenFalse))
  | .whileLoop cond body => do
    let cond ← expr cond
    push (.whileLoop cond (← block false (stmts body)))
  | .forLoop init cond update body => do
    let init ← stmts init
    let cond ← expr? cond
    let update ← exprs update
    push (.forLoop init cond update (← block false (stmts body)))
  | .returnValue value => do
    push (.returnValue (← expr? value))
  | .breakLoop => push .breakLoop
  | .continueLoop => push .continueLoop
  | .throwValue value => do
    push (.throwValue (← expr value))
  | .tryCatch body catches cleanup => do
    let body ← block false (stmts body)
    let catches ← clauses catches
    push (.tryCatch body catches (← block? cleanup))
  | .block body => block false (stmts body)

/-- Lowers a catch clause. -/
def clause : Source.Catch → Lowering Nat
  | .mk name ty body => do
    push (.catchClause name ty (← block false (stmts body)))

/-- Lowers expressions in order. -/
def exprs : List Source.Expr → Lowering (List Nat)
  | [] => return []
  | first :: rest => do
    let id ← expr first
    return id :: (← exprs rest)

/-- Lowers an expression that may be absent. -/
def expr? : Option Source.Expr → Lowering (Option Nat)
  | none => return none
  | some value => return some (← expr value)

/-- Lowers statements in order. -/
def stmts : List Source.Stmt → Lowering (List Nat)
  | [] => return []
  | first :: rest => do
    let id ← stmt first
    return id :: (← stmts rest)

/-- Lowers a block that may be absent. -/
def block? : Option (List Source.Stmt) → Lowering (Option Nat)
  | none => return none
  | some body => return some (← block false (stmts body))

/-- Lowers catch clauses in order. -/
def clauses : List Source.Catch → Lowering (List Nat)
  | [] => return []
  | first :: rest => do
    let id ← clause first
    return id :: (← clauses rest)

end

/-- Lowers an annotation. -/
def annot (decl : Source.Annot) : Lowering Nat := do
  push (.annot decl.name (← exprs decl.args))

/-- Lowers a member. -/
def member : Source.Member → Lowering Nat
  | .method name params annotations body => do
    let annotations ← list annot annotations
    push (.method name params annotations (← block? body))
  | .field name ty isStatic init => do
    push (.field name ty isStatic (← expr? init))
  | .initializer isStatic body => block isStatic (stmts body)

/-- Lowers a class: its annotations first, then its members. -/
def classDecl (decl : Source.Class) : Lowering Nat := do
  let annotations ← list annot decl.annotations
  let members ← list member decl.members
  push (.classDecl decl.name (annotations ++ members))

/-- Lowers a unit. -/
def unit (source : Source.CompilationUnit) : Lowering Nat := do
  let imports ← list (fun path => push (.importDecl path)) source.imports
  let classes ← list classDecl source.classes
  push (.root source.name (imports ++ classes))

end Lowering

namespace Arena

/-- The arena of a unit. -/
def ofUnit (source : Source.CompilationUnit) : Arena :=
  let (root, entries) := Lowering.unit source #[]
  { entries, root }

/-! ### Walks -/

variable (arena : Arena)

/-- The parent of a node. -/
def parent? (id : Nat) : Option Nat :=
  arena.entries[id]?.bind Entry.parent

/-- The parts of a node. -/
def children (id : Nat) : List Nat :=
  (arena.entries[id]?.map fun entry => entry.kind.parts).getD []

/-- Goes on from the nodes on a stack, the top one first, to so many nodes at most, and adds
all that it meets to those met before. -/
def walk : Nat → List Nat → Array Nat → Option (Array Nat)
  | _, [], met => some met
  | 0, _ :: _, _ => none
  | limit + 1, id :: stack, met =>
    match arena.entries[id]? with
    | none => none
    -- the first part is on top of the stack afterwards
    | some entry => walk limit (entry.kind.parts ++ stack) (met.push id)

/-- A node and all below it, each before the nodes below it. -/
def descendants (id : Nat) : Option (List Nat) :=
  (arena.walk arena.entries.size [id] #[]).map Array.toList

/-- Goes on upwards from a node to so many nodes at most, with the nodes on the way so far. -/
def climb : Nat → Nat → List Nat → Option (List Nat)
  | 0, _, _ => none
  | limit + 1, id, way =>
    match arena.entries[id]? with
    | none => none
    | some entry =>
      match entry.parent with
      | none => some (id :: way)
      | some parent => climb limit parent (id :: way)

/-- The nodes from the root down to a node. -/
def pathTo? (id : Nat) : Option (List Nat) :=
  arena.climb arena.entries.size id []

end Arena

end FragmentFlow.Tree
