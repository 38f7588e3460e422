import FragmentFlow.Proofs.Tree.Numbering
import Mathlib.Data.List.Basic

/-!
# Units from arenas

Constructs that differ only in their place look alike in an arena, but the arena determines
the unit nevertheless.  Read from its start it is the unit in postfix order, so the parts of
a construct are those last built.
-/

namespace FragmentFlow.Tree

/-! ### Rebuilding units -/

/-- A part of a unit that is rebuilt. -/
inductive Piece where
  | expr (expr : Source.Expr)
  | stmt (stmt : Source.Stmt)
  | block (isStatic : Bool) (body : List Source.Stmt)
  | clause (clause : Source.Catch)
  | annot (annot : Source.Annot)
  | member (member : Source.Member)
  | importPath (path : String)
  | decl (decl : Source.Class)
  | unit (unit : Source.CompilationUnit)

namespace Piece

/-- A piece as an expression. -/
def expr? : Piece → Option Source.Expr
  | expr inner => some inner
  | _ => none

/-- A piece as the body of a statement or a method. -/
def body? : Piece → Option (List Source.Stmt)
  | block _ body => some body
  | _ => none

/-- A piece as a statement; a block is one too. -/
def stmt? : Piece → Option Source.Stmt
  | stmt inner => some inner
  | block _ body => some (.block body)
  | _ => none

/-- A piece as a catch clause. -/
def clause? : Piece → Option Source.Catch
  | clause inner => some inner
  | _ => none

/-- A piece as an annotation. -/
def annot? : Piece → Option Source.Annot
  | annot inner => some inner
  | _ => none

/-- A piece as a member of a class; a block is an initializer. -/
def member? : Piece → Option Source.Member
  | member inner => some inner
  | block isStatic body => some (.initializer isStatic body)
  | _ => none

/-- A piece as the path of an import. -/
def importPath? : Piece → Option String
  | importPath path => some path
  | _ => none

/-- A piece as a class. -/
def decl? : Piece → Option Source.Class
  | decl inner => some inner
  | _ => none

end Piece

/-- The construct that a node is, given the pieces for its parts in source order. -/
def Kind.assemble (kind : Kind Nat) (parts : List Piece) : Option Piece :=
  match kind with
  | root name _ =>
    some (.unit { name, imports := parts.filterMap Piece.importPath?,
                  classes := parts.filterMap Piece.decl? })
  | importDecl path => some (.importPath path)
  | classDecl name _ =>
    some (.decl { name, annotations := parts.filterMap Piece.annot?,
                  members := parts.filterMap Piece.member? })
  | annot name _ => some (.annot { name, args := parts.filterMap Piece.expr? })
  | method name params _ _ =>
    some (.member (.method name params (parts.filterMap Piece.annot?)
      (parts.filterMap Piece.body?).head?))
  | field name ty isStatic _ =>
    some (.member (.field name ty isStatic (parts.filterMap Piece.expr?).head?))
  | block isStatic _ => some (.block isStatic (parts.filterMap Piece.stmt?))
  | localDecl name ty _ =>
    some (.stmt (.localDecl name ty (parts.filterMap Piece.expr?).head?))
  | exprStmt _ =>
    match parts with
    | [.expr expr] => some (.stmt (.exprStmt expr))
    | _ => none
  | ifElse _ _ _ =>
    match parts with
    | .expr cond :: .block _ whenTrue :: rest =>
      some (.stmt (.ifElse cond whenTrue (rest.filterMap Piece.body?).head?))
    | _ => none
  | whileLoop _ _ =>
    match parts with
    | [.expr cond, .block _ body] => some (.stmt (.whileLoop cond body))
    | _ => none
  | forLoop init cond _ _ =>
    -- a block among the first statements is not the body, hence the cut by number
    let rest := parts.drop init.length
    let exprs := rest.filterMap Piece.expr?
    (rest.filterMap Piece.body?).head?.map fun body =>
      .stmt (.forLoop ((parts.take init.length).filterMap Piece.stmt?)
        (exprs.take cond.toList.length).head? (exprs.drop cond.toList.length) body)
  | returnValue _ => some (.stmt (.returnValue (parts.filterMap Piece.expr?).head?))
  | breakLoop => some (.stmt .breakLoop)
  | continueLoop => some (.stmt .continueLoop)
  | throwValue _ =>
    match parts with
    | [.expr value] => some (.stmt (.throwValue value))
    | _ => none
  | tryCatch _ _ _ =>
    match parts with
    | .block _ body :: rest =>
      some (.stmt (.tryCatch body (rest.filterMap Piece.clause?)
        (rest.filterMap Piece.body?).head?))
    | _ => none
  | catchClause name ty _ =>
    match parts with
    | [.block _ body] => some (.clause (.mk name ty body))
    | _ => none
  | literal value => some (.expr (.literal value))
  | ident name => some (.expr (.ident name))
  | assign target _ =>
    match parts with
    | [.expr value] => some (.expr (.assign target value))
    | _ => none
  | binary op _ _ =>
    match parts with
    | [.expr lhs, .expr rhs] => some (.expr (.binary op lhs rhs))
    | _ => none
  | unary op _ =>
    match parts with
    | [.expr operand] => some (.expr (.unary op operand))
    | _ => none
  | conditional _ _ _ =>
    match parts with
    | [.expr cond, .expr whenTrue, .expr whenFalse] =>
      some (.expr (.conditional cond whenTrue whenFalse))
    | _ => none
  | call callee _ => some (.expr (.call callee (parts.filterMap Piece.expr?)))
  | new ty _ => some (.expr (.new ty (parts.filterMap Piece.expr?)))
  | lambda params _ =>
    match parts with
    | [.expr result] => some (.expr (.lambda params (.value result)))
    | [.block _ body] => some (.expr (.lambda params (.block body)))
    | _ => none

/-- Builds the constructs of a list of nodes one after the other; the pieces that are not
yet part of a larger one are kept, the last one first. -/
def assembleAll : List (Kind Nat) → List Piece → Option (List Piece)
  | [], pieces => some pieces
  | kind :: kinds, pieces =>
    match kind.assemble (pieces.take kind.parts.length).reverse with
    | none => none
    | some piece => assembleAll kinds (piece :: pieces.drop kind.parts.length)

/-- The unit of the nodes of an arena. -/
def rebuild (entries : Array Entry) : Option Source.CompilationUnit :=
  match assembleAll (entries.toList.map Entry.kind) [] with
  | some [.unit unit] => some unit
  | _ => none

/-- The nodes of some subtrees, in postorder, are rebuilt to some pieces. -/
structure Rebuilds (nodes : List Node) (pieces : List Piece) : Prop where
  length : nodes.length = pieces.length
  run : ∀ kinds before, assembleAll ((nodes.flatMap Node.postorder).map Node.kind ++ kinds) before =
    assembleAll kinds (pieces.reverse ++ before)

namespace Rebuilds

variable {nodes others : List Node} {node : Node} {pieces later : List Piece} {piece : Piece}

theorem nil : Rebuilds [] [] := by
  refine ⟨rfl, fun kinds before => ?_⟩
  rfl

theorem append (one : Rebuilds nodes pieces) (other : Rebuilds others later) :
    Rebuilds (nodes ++ others) (pieces ++ later) := by
  refine ⟨?_, fun kinds before => ?_⟩
  · rw [List.length_append, List.length_append, one.length, other.length]
  · rw [List.flatMap_append, List.map_append, List.append_assoc, one.run, other.run,
      List.reverse_append, List.append_assoc]

/-- A node is rebuilt from the pieces of its children. -/
theorem parent (below : Rebuilds node.children pieces)
    (assembled : node.kind.assemble pieces = some piece) : Rebuilds [node] [piece] := by
  refine ⟨rfl, fun kinds before => ?_⟩
  have arity : node.kind.parts.length = pieces.reverse.length := by
    rw [Node.parts_kind, List.length_map, below.length, List.length_reverse]
  rw [List.flatMap_singleton, Node.postorder_eq, List.map_append, List.append_assoc, below.run]
  simp only [List.map_cons, List.map_nil, List.singleton_append, assembleAll]
  rw [arity, List.take_left, List.drop_left, List.reverse_reverse, assembled]
  rfl

theorem cons (one : Rebuilds [node] [piece]) (rest : Rebuilds others later) :
    Rebuilds (node :: others) (piece :: later) :=
  one.append rest

end Rebuilds

/-! ### The pieces of source constructs -/

/-- The piece of a statement. -/
def Piece.ofStmt : Source.Stmt → Piece
  | .block body => .block false body
  | inner => .stmt inner

/-- The piece of the body of a lambda. -/
def Piece.ofLambdaBody : Source.LambdaBody → Piece
  | .value result => .expr result
  | .block body => .block false body

/-- The piece of a member. -/
def Piece.ofMember : Source.Member → Piece
  | .initializer isStatic body => .block isStatic body
  | inner => .member inner

/-- The piece of a statement holds it. -/
@[simp] theorem Piece.stmt?_ofStmt (inner : Source.Stmt) : (ofStmt inner).stmt? = some inner := by
  cases inner <;> rfl

/-- The piece of a member holds it. -/
@[simp] theorem Piece.member?_ofMember (inner : Source.Member) :
    (ofMember inner).member? = some inner := by
  cases inner <;> rfl

@[simp] theorem Piece.annot?_ofMember (inner : Source.Member) : (ofMember inner).annot? = none := by
  cases inner <;> rfl

/-- The parts of a `for` are told apart by how many there are of each. -/
theorem assemble_forLoop {init update : List Nat} {cond : Option Nat} {body : Nat}
    {first : List Source.Stmt} {test : Option Source.Expr} {step : List Source.Expr}
    {stmts : List Source.Stmt} (sameInit : init.length = first.length)
    (sameCond : cond.toList.length = test.toList.length) :
    (Kind.forLoop init cond update body).assemble (first.map Piece.ofStmt ++
      test.toList.map .expr ++ step.map .expr ++ [.block false stmts]) =
      some (.stmt (.forLoop first test step stmts)) := by
  have cut : init.length = (first.map Piece.ofStmt).length := by
    rw [sameInit, List.length_map]
  simp only [Kind.assemble, List.append_assoc, cut, List.take_left, List.drop_left, sameCond,
    List.filterMap_append, List.filterMap_map, Function.comp_def, Piece.stmt?_ofStmt, Piece.expr?,
    Piece.body?, List.filterMap_some, List.filterMap_none, List.nil_append, Option.head?_toList]
  simp [Piece.expr?, Piece.body?]

/-! ### Numbered constructs are rebuilt -/

theorem Rebuilds.block {stmts : List Stmt} {body : List Source.Stmt}
    (inner : Rebuilds (stmts.map .stmt) (body.map Piece.ofStmt)) (id : Nat) (isStatic : Bool) :
    Rebuilds [Block.toNode (.mk id isStatic stmts)] [.block isStatic body] := by
  refine .parent inner ?_
  simp [Block.toNode, Node.kind, Node.shape, Stmt.shape, Kind.map, Block.isStatic, Kind.assemble]

mutual

theorem rebuilds_numberExpr (next : Nat) (expr : Source.Expr) :
    Rebuilds [.expr (numberExpr next expr).1] [.expr expr] := by
  match expr with
  | .literal value => exact .parent .nil rfl
  | .ident name => exact .parent .nil rfl
  | .assign target value => exact .parent (rebuilds_numberExpr next value) rfl
  | .binary op lhs rhs =>
      exact .parent ((rebuilds_numberExpr next lhs).cons (rebuilds_numberExpr _ rhs)) rfl
  | .unary op operand => exact .parent (rebuilds_numberExpr next operand) rfl
  | .conditional cond whenTrue whenFalse =>
      exact .parent ((rebuilds_numberExpr next cond).cons
        ((rebuilds_numberExpr _ whenTrue).cons (rebuilds_numberExpr _ whenFalse))) rfl
  | .call callee args =>
      refine .parent (rebuilds_numberExprs next args) ?_
      simp [numberExpr, Node.kind, Node.shape, Expr.shape, Kind.map, Kind.assemble,
        Function.comp_def, Piece.expr?]
  | .new ty args =>
      refine .parent (rebuilds_numberExprs next args) ?_
      simp [numberExpr, Node.kind, Node.shape, Expr.shape, Kind.map, Kind.assemble,
        Function.comp_def, Piece.expr?]
  | .lambda params body =>
      refine .parent (rebuilds_numberLambdaBody next body) ?_
      cases body <;> rfl

theorem rebuilds_numberLambdaBody (next : Nat) (body : Source.LambdaBody) :
    Rebuilds [(numberLambdaBody next body).1.toNode] [Piece.ofLambdaBody body] := by
  match body with
  | .value result => exact rebuilds_numberExpr next result
  | .block body => exact (rebuilds_numberStmts next body).block _ false

theorem rebuilds_numberStmt (next : Nat) (stmt : Source.Stmt) :
    Rebuilds [.stmt (numberStmt next stmt).1] [Piece.ofStmt stmt] := by
  match stmt with
  | .localDecl name ty init =>
      refine .parent (rebuilds_numberExpr? next init) ?_
      cases init <;> rfl
  | .exprStmt expr => exact .parent (rebuilds_numberExpr next expr) rfl
  | .ifElse cond whenTrue whenFalse =>
      refine .parent ((rebuilds_numberExpr next cond).cons
        (((rebuilds_numberStmts _ whenTrue).block _ false).cons
          (rebuilds_numberBlock? _ whenFalse))) ?_
      cases whenFalse <;> rfl
  | .whileLoop cond body =>
      exact .parent ((rebuilds_numberExpr next cond).cons
        ((rebuilds_numberStmts _ body).block _ false)) rfl
  | .forLoop init cond update body =>
      refine .parent ((((rebuilds_numberStmts next init).append
        (rebuilds_numberExpr? _ cond)).append (rebuilds_numberExprs _ update)).append
          ((rebuilds_numberStmts _ body).block _ false)) ?_
      apply assemble_forLoop
      · simpa using (rebuilds_numberStmts next init).length
      · simpa [Option.toList_map] using (rebuilds_numberExpr? _ cond).length
  | .returnValue value =>
      refine .parent (rebuilds_numberExpr? next value) ?_
      cases value <;> rfl
  | .breakLoop => exact .parent .nil rfl
  | .continueLoop => exact .parent .nil rfl
  | .throwValue value => exact .parent (rebuilds_numberExpr next value) rfl
  | .tryCatch body catches cleanup =>
      refine .parent (((rebuilds_numberStmts next body).block _ false).cons
        ((rebuilds_numberCatches _ catches).append (rebuilds_numberBlock? _ cleanup))) ?_
      simp only [numberStmt, Node.kind, Node.shape, Stmt.shape, Kind.map, Kind.assemble,
        List.filterMap_append, List.filterMap_map, Function.comp_def, Piece.clause?, Piece.body?,
        Piece.ofStmt, List.filterMap_some, List.filterMap_none, List.nil_append, List.append_nil,
        Option.head?_toList]
  | .block body => exact (rebuilds_numberStmts next body).block _ false

theorem rebuilds_numberCatch (next : Nat) (clause : Source.Catch) :
    Rebuilds [.catchClause (numberCatch next clause).1] [.clause clause] := by
  match clause with
  | .mk name ty body => exact .parent ((rebuilds_numberStmts next body).block _ false) rfl

theorem rebuilds_numberExprs (next : Nat) (exprs : List Source.Expr) :
    Rebuilds ((numberExprs next exprs).1.map .expr) (exprs.map .expr) := by
  match exprs with
  | [] => exact .nil
  | expr :: exprs => exact (rebuilds_numberExpr next expr).cons (rebuilds_numberExprs _ exprs)

theorem rebuilds_numberExpr? (next : Nat) (expr : Option Source.Expr) :
    Rebuilds ((numberExpr? next expr).1.toList.map .expr) (expr.toList.map .expr) := by
  match expr with
  | none => exact .nil
  | some expr => exact rebuilds_numberExpr next expr

theorem rebuilds_numberStmts (next : Nat) (stmts : List Source.Stmt) :
    Rebuilds ((numberStmts next stmts).1.map .stmt) (stmts.map Piece.ofStmt) := by
  match stmts with
  | [] => exact .nil
  | stmt :: stmts => exact (rebuilds_numberStmt next stmt).cons (rebuilds_numberStmts _ stmts)

theorem rebuilds_numberBlock? (next : Nat) (block : Option (List Source.Stmt)) :
    Rebuilds ((numberBlock? next block).1.toList.map Block.toNode)
      (block.toList.map (.block false)) := by
  match block with
  | none => exact .nil
  | some stmts => exact (rebuilds_numberStmts next stmts).block _ false

theorem rebuilds_numberCatches (next : Nat) (clauses : List Source.Catch) :
    Rebuilds ((numberCatches next clauses).1.map .catchClause) (clauses.map .clause) := by
  match clauses with
  | [] => exact .nil
  | clause :: clauses =>
      exact (rebuilds_numberCatch next clause).cons (rebuilds_numberCatches _ clauses)

end

/-- Items that are rebuilt one by one are rebuilt as a list. -/
theorem rebuilds_numberList {α β : Type} {number : Nat → α → β × Nat} {toNode : β → Node}
    {toPiece : α → Piece}
    (each : ∀ next item, Rebuilds [toNode (number next item).1] [toPiece item])
    (next : Nat) (items : List α) :
    Rebuilds ((numberList number next items).1.map toNode) (items.map toPiece) := by
  induction items generalizing next with
  | nil => exact .nil
  | cons item items ih => exact (each next item).cons (ih _)

theorem rebuilds_numberAnnot (next : Nat) (annot : Source.Annot) :
    Rebuilds [.annot (numberAnnot next annot).1] [.annot annot] := by
  refine .parent (rebuilds_numberExprs next annot.args) ?_
  simp [numberAnnot, Node.kind, Node.shape, Kind.map, Kind.assemble, Function.comp_def, Piece.expr?]

theorem rebuilds_numberMember (next : Nat) (member : Source.Member) :
    Rebuilds [(numberMember next member).1.toNode] [Piece.ofMember member] := by
  cases member with
  | method name params annotations body =>
      refine .parent ((rebuilds_numberList rebuilds_numberAnnot next annotations).append
        (rebuilds_numberBlock? _ body)) ?_
      simp only [numberMember, Node.kind, Node.shape, Kind.map, Kind.assemble,
        List.filterMap_append, List.filterMap_map, Function.comp_def, Piece.annot?, Piece.body?,
        Piece.ofMember, List.filterMap_some, List.filterMap_none, List.nil_append, List.append_nil,
        Option.head?_toList, Member.toNode]
  | field name ty isStatic init =>
      refine .parent (rebuilds_numberExpr? next init) ?_
      cases init <;> rfl
  | initializer isStatic body => exact (rebuilds_numberStmts next body).block _ isStatic

theorem rebuilds_numberClass (next : Nat) (decl : Source.Class) :
    Rebuilds [.classDecl (numberClass next decl).1] [.decl decl] := by
  refine .parent ((rebuilds_numberList rebuilds_numberAnnot next decl.annotations).append
    (rebuilds_numberList rebuilds_numberMember _ decl.members)) ?_
  have isAnnot : ∀ annot, (Piece.annot annot).annot? = some annot := fun _ => rfl
  have notMember : ∀ annot, (Piece.annot annot).member? = none := fun _ => rfl
  simp only [numberClass, Node.kind, Node.shape, Kind.map, Kind.assemble,
    List.filterMap_append, List.filterMap_map, Function.comp_def, isAnnot, notMember,
    Piece.annot?_ofMember, Piece.member?_ofMember, List.filterMap_some, List.filterMap_none,
    List.nil_append, List.append_nil]

theorem rebuilds_numberImport (next : Nat) (path : String) :
    Rebuilds [.importDecl (numberImport next path).1] [.importPath path] :=
  .parent .nil rfl

theorem rebuilds_numberUnit (unit : Source.CompilationUnit) :
    Rebuilds [.root (numberUnit unit)] [.unit unit] := by
  refine .parent ((rebuilds_numberList rebuilds_numberImport 0 unit.imports).append
    (rebuilds_numberList rebuilds_numberClass _ unit.classes)) ?_
  simp only [numberUnit, Node.kind, Node.shape, Kind.map, Kind.assemble,
    List.filterMap_append, List.filterMap_map, Function.comp_def, Piece.importPath?, Piece.decl?,
    List.filterMap_some, List.filterMap_none, List.nil_append, List.append_nil]

/-- A subtree is stored in postorder. -/
theorem Node.map_kind_stored (parent : Option Nat) (node : Node) :
    (node.stored parent).map Entry.kind = node.postorder.map Node.kind := by
  rw [stored_eq, postorder_eq, List.map_append, List.map_append, List.map_flatMap,
    List.map_flatMap]
  congr 1
  exact List.flatMap_congr fun child member => child.map_kind_stored (some node.id)
termination_by node.size
decreasing_by exact Node.size_lt_of_mem_children member

/-- The unit can be rebuilt from the entries of its arena. -/
theorem rebuild_arena (unit : Source.CompilationUnit) (serial : Nat) :
    rebuild (ofUnit unit serial).arena.entries = some unit := by
  have run := (rebuilds_numberUnit unit).run [] []
  rw [List.flatMap_singleton, List.append_nil, List.append_nil] at run
  rw [rebuild, arena_ofUnit, Node.map_kind_stored]
  change (match assembleAll ((Node.root (numberUnit unit)).postorder.map Node.kind) [] with
    | some [.unit unit] => some unit
    | _ => none) = some unit
  rw [run]
  rfl

/-- The arena of a tree holds all of the unit: the unit can be rebuilt from the nodes in it,
so units with the same nodes are the same. -/
theorem arena_determines_unit (unit : Source.CompilationUnit) (serial : Nat) :
    rebuild (ofUnit unit serial).arena.entries = some unit ∧
    ∀ other otherSerial,
      (ofUnit other otherSerial).arena.entries = (ofUnit unit serial).arena.entries →
        other = unit := by
  refine ⟨rebuild_arena unit serial, fun other otherSerial same => ?_⟩
  have rebuilt := rebuild_arena other otherSerial
  rw [same, rebuild_arena] at rebuilt
  exact (Option.some.inj rebuilt).symm

end FragmentFlow.Tree
