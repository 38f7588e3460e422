import FragmentFlow.Proofs.Drawing.Rendering
import FragmentFlow.Proofs.Tree.Positions

/-!
# The type names of a fragment

A graph mentions the types of the parameters or of the field and those of the
declarations, instance creations and catch clauses of the fragment, also where control
never comes.  Types in a nested lambda belong to the lambda.  So whether there is a
graph depends on these names alone, and which graph it is does not depend on the environment.
-/

namespace FragmentFlow

/-- The type that a node names. -/
def Tree.Node.typeName? : Tree.Node → Option String
  | .stmt (.localDecl _ _ ty _) => some ty
  | .expr (.new _ ty _) => some ty
  | .catchClause clause => some clause.ty
  | _ => none

/-- The types named outside the body of a fragment. -/
def Fragment.Code.headTypes : Fragment.Code → List String
  | .method decl => decl.params.map Source.Param.ty
  | .fieldInitializer decl _ => [decl.ty]
  | _ => []

/-- The types that a fragment names. -/
def Fragment.typeNames (fragment : Fragment) : List String :=
  fragment.code.headTypes ++ fragment.nodes.filterMap Tree.Node.typeName?

namespace Tree

/-- A type is named below a node, outside nested lambdas. -/
def Node.Mentions (node : Node) (ty : String) : Prop :=
  ∃ inner ∈ node.ownNodes, inner.typeName? = some ty

theorem Node.mentions_iff (node : Node) {ty : String} :
    node.Mentions ty ↔ node.typeName? = some ty ∨
      node.isLambda = false ∧ ∃ child ∈ node.children, child.Mentions ty := by
  unfold Mentions
  constructor
  · rintro ⟨inner, member, named⟩
    rcases Node.mem_ownNodes.1 member with rfl | ⟨inside, child, isChild, below⟩
    · exact Or.inl named
    · exact Or.inr ⟨inside, child, isChild, inner, below, named⟩
  · rintro (named | ⟨inside, child, isChild, inner, below, named⟩)
    · exact ⟨node, Node.mem_ownNodes.2 (Or.inl rfl), named⟩
    · exact ⟨inner, Node.mem_ownNodes.2 (Or.inr ⟨inside, child, isChild, below⟩), named⟩

/-- A type is named in some statements. -/
def MentionsStmts (list : List Stmt) (ty : String) : Prop :=
  ∃ statement ∈ list, (Node.stmt statement).Mentions ty

/-- A type is named in some expressions. -/
def MentionsExprs (list : List Expr) (ty : String) : Prop :=
  ∃ value ∈ list, (Node.expr value).Mentions ty

/-- A type is named in an optional block. -/
def MentionsBlock? (block? : Option Block) (ty : String) : Prop :=
  ∃ block, block? = some block ∧ MentionsStmts block.stmts ty

theorem not_mentionsBlock?_none {ty : String} : ¬ MentionsBlock? none ty := by
  rintro ⟨block, absent, -⟩
  cases absent

/-- A block mentions what its statements mention. -/
theorem mentionsBlock?_some {block : Block} {ty : String} :
    MentionsBlock? (some block) ty ↔ MentionsStmts block.stmts ty := by
  simp [MentionsBlock?]

/-- The node of a block mentions what its statements mention. -/
theorem Block.mentions_toNode (block : Block) {ty : String} :
    block.toNode.Mentions ty ↔ MentionsStmts block.stmts ty := by
  rw [Node.mentions_iff]
  simp [Block.toNode, Node.typeName?, Node.isLambda, Node.children, Stmt.children, MentionsStmts]

/-- An expression mentions the types that it creates and those in its operands. -/
theorem mentions_expr (value : Expr) {ty : String} :
    (Node.expr value).Mentions ty ↔
      match value with
      | .literal .. | .ident .. | .lambda .. => False
      | .assign _ _ operand | .unary _ _ operand => (Node.expr operand).Mentions ty
      | .binary _ _ lhs rhs => (Node.expr lhs).Mentions ty ∨ (Node.expr rhs).Mentions ty
      | .conditional _ cond whenTrue whenFalse =>
        ((Node.expr cond).Mentions ty ∨ (Node.expr whenTrue).Mentions ty) ∨
          (Node.expr whenFalse).Mentions ty
      | .call _ _ args => MentionsExprs args ty
      | .new _ name args => name = ty ∨ MentionsExprs args ty := by
  rw [Node.mentions_iff]
  cases value <;>
    simp [Node.typeName?, Node.isLambda, Node.children, Expr.children, MentionsExprs, or_assoc]

/-- A catch clause mentions its type and those in its body. -/
theorem mentions_catch (clause : Catch) {ty : String} :
    (Node.catchClause clause).Mentions ty ↔
      clause.ty = ty ∨ MentionsStmts clause.body.stmts ty := by
  rw [Node.mentions_iff]
  simp [Node.typeName?, Node.isLambda, Node.children, Block.mentions_toNode]

/-- A statement mentions the type that it declares and those in its parts. -/
theorem mentions_stmt (statement : Stmt) {ty : String} :
    (Node.stmt statement).Mentions ty ↔
      match statement with
      | .localDecl _ _ name init => name = ty ∨ MentionsExprs init.toList ty
      | .exprStmt _ value | .throwValue _ value => (Node.expr value).Mentions ty
      | .ifElse _ cond whenTrue whenFalse =>
        ((Node.expr cond).Mentions ty ∨ MentionsStmts whenTrue.stmts ty) ∨
          MentionsBlock? whenFalse ty
      | .whileLoop _ cond body => (Node.expr cond).Mentions ty ∨ MentionsStmts body.stmts ty
      | .forLoop _ init cond update body =>
        (MentionsStmts init ty ∨ MentionsExprs cond.toList ty) ∨
          (MentionsStmts body.stmts ty ∨ MentionsExprs update ty)
      | .returnValue _ value => MentionsExprs value.toList ty
      | .breakLoop _ | .continueLoop _ => False
      | .tryCatch _ body catches cleanup =>
        ((∃ clause ∈ catches, clause.ty = ty) ∨ MentionsStmts body.stmts ty ∨
          ∃ clause ∈ catches, MentionsStmts clause.body.stmts ty) ∨ MentionsBlock? cleanup ty
      | .block inner => MentionsStmts inner.stmts ty := by
  rw [Node.mentions_iff]
  cases statement with
  | tryCatch id body catches cleanup =>
      simp only [Node.typeName?, Node.isLambda, Node.children, Stmt.children, MentionsBlock?,
        List.mem_cons, List.mem_append, List.mem_map,
        Option.mem_toList]
      grind [Block.mentions_toNode, mentions_catch]
  | forLoop id init cond update body =>
      simp only [Node.typeName?, Node.isLambda, Node.children, Stmt.children, MentionsStmts,
        MentionsExprs, List.mem_append, List.mem_map, List.mem_singleton]
      grind [Block.mentions_toNode, MentionsStmts]
  | ifElse id cond whenTrue whenFalse =>
      simp [Node.typeName?, Node.isLambda, Node.children, Stmt.children, MentionsBlock?,
        Block.mentions_toNode, or_assoc]
  | _ =>
      simp [Node.typeName?, Node.isLambda, Node.children, Stmt.children, MentionsExprs,
        MentionsStmts, Block.mentions_toNode]

end Tree

namespace Graph

/-- A type is named in a `finally` block of some frames. -/
def Scope.Mentions (scope : Scope) (ty : String) : Prop :=
  ∃ frame ∈ scope, Tree.MentionsBlock? frame.cleanup? ty

/-- A scope mentions what the cleanups of its frames mention. -/
theorem Scope.mentions_cons {frame : Frame} {outer : Scope} {ty : String} :
    Scope.Mentions (frame :: outer) ty ↔
      Tree.MentionsBlock? frame.cleanup? ty ∨ outer.Mentions ty := by
  simp [Scope.Mentions]

/-- A loop around the scope mentions nothing. -/
theorem Scope.mentions_loop {outer : Scope} {ty : String} :
    Scope.Mentions (.loop :: outer) ty ↔ outer.Mentions ty := by
  rw [mentions_cons]
  exact or_iff_right Tree.not_mentionsBlock?_none

namespace Builder

/-- Drawing notes all types of one sort, and otherwise at most those of another. -/
structure Notes (own around : String → Prop) (b later : Builder) : Prop where
  kept : ∀ ty ∈ b.typeNames, ty ∈ later.typeNames
  noted : ∀ ty, own ty → ty ∈ later.typeNames
  only : ∀ ty ∈ later.typeNames, ty ∈ b.typeNames ∨ own ty ∨ around ty

namespace Notes

open FragmentFlow.Tree (MentionsStmts MentionsExprs MentionsBlock?)

variable {own other around further : String → Prop} {b later last : Builder} {scope : Scope}
  {copying : Bool}

theorem refl (b : Builder) : Notes (fun _ => False) around b b where
  kept _ member := member
  noted _ never := never.elim
  only _ member := Or.inl member

theorem trans (first : Notes own around b later) (second : Notes other around later last) :
    Notes (fun ty => own ty ∨ other ty) around b last where
  kept ty member := second.kept ty (first.kept ty member)
  noted ty named := by
    rcases named with here | there
    · exact second.kept ty (first.noted ty here)
    · exact second.noted ty there
  only ty member := by
    rcases second.only ty member with before | named | outside
    · rcases first.only ty before with old | named | outside
      · exact Or.inl old
      · exact Or.inr (Or.inl (Or.inl named))
      · exact Or.inr (Or.inr outside)
    · exact Or.inr (Or.inl (Or.inr named))
    · exact Or.inr (Or.inr outside)

/-- What is noted may be counted in another way. -/
theorem count (notes : Notes own around b later) (fewer : ∀ ty, other ty → own ty)
    (more : ∀ ty, own ty ∨ around ty → other ty ∨ further ty) : Notes other further b later where
  kept := notes.kept
  noted ty named := notes.noted ty (fewer ty named)
  only ty member := (notes.only ty member).imp_right (more ty)

theorem congr (notes : Notes own around b later) (same : ∀ ty, other ty ↔ own ty) :
    Notes other around b later :=
  notes.count (fun ty => (same ty).1) fun ty => Or.imp_left (same ty).2

/-- A step may be allowed more types from around it. -/
theorem widen (notes : Notes own around b later) (more : ∀ ty, around ty → further ty) :
    Notes own further b later :=
  notes.count (fun _ named => named) fun ty => Or.imp_right (more ty)

/-- Only the type names at the start count. -/
theorem of_eq {first : Builder} (notes : Notes own around first later)
    (same : first.typeNames = b.typeNames) : Notes own around b later where
  kept ty member := notes.kept ty (same ▸ member)
  noted := notes.noted
  only ty member := same ▸ notes.only ty member

/-- Only the type names at the end count. -/
theorem to_eq (notes : Notes own around b later) (same : last.typeNames = later.typeNames) :
    Notes own around b last where
  kept ty member := same ▸ notes.kept ty member
  noted ty named := same ▸ notes.noted ty named
  only ty member := notes.only ty (same ▸ member)

theorem of_tips {tips : List Tip} (notes : Notes own around { b with tips } later) :
    Notes own around b later :=
  notes.of_eq rfl

theorem to_tips (notes : Notes own around b later) (tips : List Tip) :
    Notes own around b { later with tips } :=
  notes.to_eq rfl

theorem jump (notes : Notes own around b later) (exit : Exit) (kind : EdgeKind) :
    Notes own around b (later.jump exit kind) :=
  notes.to_eq rfl

theorem leaveFrame (notes : Notes own around b later) (before : List (Exit × Tip))
    (ending : List Exit) : Notes own around b (later.leaveFrame before ending) :=
  notes.to_eq rfl

theorem mention (b : Builder) (name : String) :
    Notes (fun ty => name = ty) around b (b.mention name) where
  kept _ member := Array.mem_push_of_mem _ member
  noted _ same := same ▸ Array.mem_push_self
  only _ member := (Array.mem_push.1 member).imp_right fun same => Or.inl same.symm

theorem push (notes : Notes own around b later) (node : Node) :
    Notes own around b (later.push node).2 :=
  notes.to_eq (typeNames_push later node)

theorem connect (notes : Notes own around b later) (tips : List Tip) (target : Nat) :
    Notes own around b (later.connect tips target) :=
  notes.to_eq (typeNames_connect later tips target)

theorem raise (notes : Notes own around b later) (scope : Scope) (source : Nat) :
    Notes own around b (later.raise scope source) :=
  notes.to_eq (typeNames_raise later scope source)

mutual

/-- An expression notes the types that it mentions. -/
theorem expr (scope : Scope) (copying : Bool) (b : Builder) (value : Tree.Expr) :
    Notes (Tree.Node.expr value).Mentions around b (b.expr scope copying value).2 := by
  refine congr ?_ fun ty => Tree.mentions_expr value
  match value with
  | .literal id value => exact (refl b).push _
  | .ident id name => exact (refl b).push _
  | .assign id target value => exact (expr scope copying b value).push _
  | .binary id op lhs rhs =>
      have left := expr scope copying b lhs
      rw [Builder.expr]
      dsimp only
      split
      · exact ((left.trans (of_tips (expr scope copying _ rhs))).to_tips _).push _
      · have drawn := left.trans (expr scope copying _ rhs)
        split
        · exact (drawn.push _).raise scope _
        · exact drawn.push _
  | .unary id op operand => exact (expr scope copying b operand).push _
  | .conditional id cond whenTrue whenFalse =>
      exact ((((expr scope copying b cond).trans (of_tips (expr scope copying _ whenTrue))).trans
        (of_tips (expr scope copying _ whenFalse))).to_tips _).push _
  | .call id callee args => exact ((exprs scope copying b args).push _).raise scope _
  | .new id ty args =>
      exact (((mention b ty).trans (exprs scope copying _ args)).push _).raise scope _
  | .lambda id params body => exact (refl b).push _

theorem exprs (scope : Scope) (copying : Bool) (b : Builder) (values : List Tree.Expr) :
    Notes (MentionsExprs values) around b (b.exprs scope copying values).2 := by
  match values with
  | [] => exact (refl b).congr (by simp [MentionsExprs])
  | value :: values =>
      exact ((expr scope copying b value).trans
        (exprs scope copying (b.expr scope copying value).2 values)).congr
          (by simp [MentionsExprs])

end

theorem expr? (scope : Scope) (copying : Bool) (b : Builder) (value : Option Tree.Expr) :
    Notes (MentionsExprs value.toList) around b (b.expr? scope copying value).2 := by
  cases value with
  | none => exact exprs scope copying b []
  | some value => exact exprs scope copying b [value]

theorem enterCatches (copying : Bool) (b : Builder) (clauses : List Tree.Catch) :
    Notes (fun ty => ∃ clause ∈ clauses, clause.ty = ty) around b
      (b.enterCatches copying clauses).2 := by
  induction clauses generalizing b with
  | nil => exact (refl b).congr (by simp)
  | cons clause clauses ih =>
      have added : Notes _ around b ((b.mention clause.ty).addNode
          (.at clause.id copying (.catchParam clause.name clause.ty) [])).2 :=
        (mention b clause.ty).to_eq rfl
      exact (added.trans (ih _)).congr (by simp)

theorem looping {tips exits : List Tip} {head : Nat} {update : List Tree.Expr}
    {body : Tree.Block}
    (drawn : ∀ b : Builder, Notes (MentionsStmts body.stmts) (Scope.Mentions (.loop :: scope)) b
      (b.stmts (.loop :: scope) copying body.stmts)) :
    Notes (fun ty => MentionsStmts body.stmts ty ∨ MentionsExprs update ty) scope.Mentions b
      (b.looping scope copying tips exits head update body) := by
  have turned : Notes _ _ b _ :=
    ((drawn { b with tips, parked := [] }).widen fun ty => Scope.mentions_loop.1).of_eq rfl
  have left := turned.leaveFrame b.parked [.breaks scope.length, .continues scope.length]
  exact ((left.trans (of_tips (exprs scope copying _ update))).connect _ head).to_tips _

/-- The copy of a `finally` block for exceptions notes at most what the block
mentions. -/
theorem cleaningUp {raised : List Tip} {block : Tree.Block}
    (drawn : ∀ b : Builder, Notes (MentionsStmts block.stmts) around b
      (b.stmts scope true block.stmts)) :
    Notes (fun _ => False) (fun ty => MentionsStmts block.stmts ty ∨ around ty) b
      (b.cleaningUp scope raised block) := by
  unfold Builder.cleaningUp
  split
  · exact refl b
  · exact (((drawn { b with tips := raised }).of_tips.push _).raise scope _).count (by simp)
      (by simp)

theorem guarded {handlers : List Handler} {body : Tree.Block} {catches : List Tree.Catch}
    {cleanup : Option Tree.Block}
    (drawn : ∀ b : Builder, Notes (MentionsStmts body.stmts)
      (Scope.Mentions (.region handlers cleanup :: scope)) b
      (b.stmts (.region handlers cleanup :: scope) copying body.stmts))
    (caught : ∀ b : Builder,
      Notes (fun ty => ∃ clause ∈ catches, MentionsStmts clause.body.stmts ty)
        (Scope.Mentions (.region [] cleanup :: scope)) b
        (b.clauses (.region [] cleanup :: scope) copying (handlers.map Handler.entry) catches)) :
    Notes (fun ty => MentionsStmts body.stmts ty ∨
        ∃ clause ∈ catches, MentionsStmts clause.body.stmts ty)
      (fun ty => MentionsBlock? cleanup ty ∨ scope.Mentions ty) b
      (b.guarded scope copying handlers body catches cleanup) := by
  have tried : Notes _ _ b _ :=
    ((drawn { b with parked := [] }).widen fun ty => Scope.mentions_cons.1).of_eq rfl
  exact tried.trans ((caught _).widen fun ty => Scope.mentions_cons.1)

/-- Each statement notes the types that it mentions, if its parts do. -/
theorem drawingCases : DrawingCases
    (fun scope list => ∀ copying (b : Builder),
      Notes (MentionsStmts list) scope.Mentions b (b.stmts scope copying list))
    (fun scope statement => ∀ copying (b : Builder),
      Notes (Tree.Node.stmt statement).Mentions scope.Mentions b (b.stmt scope copying statement))
    (fun scope list => ∀ copying (b : Builder) (entries : List Nat), list.length ≤ entries.length →
      Notes (fun ty => ∃ clause ∈ list, MentionsStmts clause.body.stmts ty) scope.Mentions b
        (b.clauses scope copying entries list))
    (fun scope => ∀ keep (b : Builder),
      Notes (fun _ => False) scope.Mentions b (b.unwind scope keep)) where
  nil scope copying b := by
    rw [stmts_nil]
    exact (refl b).congr (by simp [MentionsStmts])
  cons scope first rest head tail copying b := by
    rw [stmts_cons]
    exact ((head copying b).trans (tail copying _)).congr (by simp [MentionsStmts])
  block scope inner drawn copying b := by
    rw [stmt_block]
    exact (drawn copying b).congr fun ty => Tree.mentions_stmt _
  localDecl scope id name ty init copying b := by
    rw [stmt_localDecl]
    exact (((mention b ty).trans (expr? scope copying _ init)).push _).congr
      fun ty => Tree.mentions_stmt _
  exprStmt scope id value copying b := by
    rw [stmt_exprStmt]
    exact (expr scope copying b value).congr fun ty => Tree.mentions_stmt _
  ifElse scope id cond whenTrue whenFalse first second copying b := by
    refine congr ?_ fun ty => Tree.mentions_stmt _
    have tested : Notes _ scope.Mentions _ _ := expr scope copying b cond
    cases whenFalse with
    | none =>
        rw [stmt_ifElse_none]
        refine ((tested.trans (of_tips (first copying _))).to_tips _).congr fun ty => ?_
        exact or_iff_left Tree.not_mentionsBlock?_none
    | some block =>
        rw [stmt_ifElse_some]
        refine (((tested.trans (of_tips (first copying _))).trans
          (of_tips (second block rfl copying _))).to_tips _).congr fun ty => ?_
        exact or_congr_right Tree.mentionsBlock?_some
  whileLoop scope id cond body drawn copying b := by
    rw [stmt_whileLoop]
    have tested : Notes _ scope.Mentions b _ :=
      (expr scope copying (b.push (.at id copying .loopHead [])).2 cond).of_eq
        (typeNames_push b _)
    refine (tested.trans (looping (drawn copying))).congr fun ty => ?_
    rw [Tree.mentions_stmt]
    simp [MentionsExprs]
  forLoop scope id init cond update body started drawn copying b := by
    rw [stmt_forLoop]
    have tested := ((started copying b).push (.at id copying .loopHead [])).trans
      (expr? scope copying _ cond)
    exact (tested.trans (looping (drawn copying))).congr fun ty => Tree.mentions_stmt _
  returnValue scope id value left copying b := by
    rw [stmt_returnValue]
    refine congr ?_ fun ty => Tree.mentions_stmt _
    exact ((((expr? scope copying b value).push _).trans (left 0 _)).jump _ _).congr fun ty =>
      (or_iff_left not_false).symm
  breakLoop scope id left copying b := by
    refine congr ?_ fun ty => Tree.mentions_stmt _
    cases found : scope.innermostLoop? with
    | none =>
        rw [stmt_breakLoop_outside scope copying b id found]
        exact (refl b).to_tips []
    | some frame =>
        rw [stmt_breakLoop scope copying b id found]
        exact (left (frame + 1) b).jump _ _
  continueLoop scope id left copying b := by
    refine congr ?_ fun ty => Tree.mentions_stmt _
    cases found : scope.innermostLoop? with
    | none =>
        rw [stmt_continueLoop_outside scope copying b id found]
        exact (refl b).to_tips []
    | some frame =>
        rw [stmt_continueLoop scope copying b id found]
        exact (left (frame + 1) b).jump _ _
  throwValue scope id value copying b := by
    rw [stmt_throwValue]
    refine congr ?_ fun ty => Tree.mentions_stmt _
    exact (((expr scope copying b value).push _).to_tips []).raise scope _
  tryCatch scope id body catches cleanup drawn caught finished copying b := by
    refine congr ?_ fun ty => Tree.mentions_stmt _
    have enough : catches.length ≤
        ((b.enterCatches copying catches).1.map Handler.entry).length := by
      apply Nat.le_of_eq
      rw [List.length_map, length_enterCatches]
    have tried := (enterCatches copying b catches).trans (guarded (drawn _ copying)
      fun b => caught copying b _ enough)
    cases cleanup with
    | none =>
        rw [stmt_tryCatch_none]
        refine (tried.leaveFrame _ _).count (fun ty named => ?_) fun ty named => ?_
        · exact named.resolve_right Tree.not_mentionsBlock?_none
        · exact named.imp Or.inl fun around => around.resolve_left Tree.not_mentionsBlock?_none
    | some block =>
        rw [stmt_tryCatch_some]
        have known := tried.widen fun ty => Or.imp_left Tree.mentionsBlock?_some.1
        refine (((known.leaveFrame _ _).trans (cleaningUp (finished block rfl true))).trans
          ((of_tips (finished block rfl copying _)).widen fun ty => Or.inr)).count
          (fun ty named => ?_) fun ty named => ?_
        · exact named.imp Or.inl Tree.mentionsBlock?_some.1
        · have inBlock : MentionsStmts block.stmts ty → MentionsBlock? (some block) ty :=
            Tree.mentionsBlock?_some.2
          rcases named with ((inner | never) | block) | block | around
          · exact Or.inl (Or.inl inner)
          · exact never.elim
          · exact Or.inl (Or.inr (inBlock block))
          · exact Or.inl (Or.inr (inBlock block))
          · exact Or.inr around
  noClause scope copying b entries _ := by
    rw [clauses_nil]
    exact (refl b).congr (by simp)
  clause scope clause rest drawn others copying b entries enough := by
    cases entries with
    | nil => cases enough
    | cons entry entries =>
        rw [clauses_cons]
        refine ((of_tips (drawn copying _)).trans
          (of_tips (others copying _ entries (Nat.le_of_succ_le_succ enough)))).congr fun ty => ?_
        simp
  unwound keep b := by
    rw [unwind_nil]
    exact refl b
  unwind frame outer drawn left keep b := by
    have outside : ∀ ty, outer.Mentions ty → Scope.Mentions (frame :: outer) ty :=
      fun ty named => Scope.mentions_cons.2 (Or.inr named)
    by_cases kept : outer.length < keep
    · rw [unwind_kept b frame outer kept]
      exact refl b
    · cases present : frame.cleanup? with
      | none =>
          rw [unwind_left b frame outer (Nat.le_of_not_lt kept) present]
          exact (left keep b).widen outside
      | some block =>
          rw [unwind_cleanup b frame outer (Nat.le_of_not_lt kept) present]
          refine ((drawn block present true b).trans (left keep _)).count (fun _ => False.elim)
            fun ty named => Or.inr ?_
          rcases named with (mentioned | never) | around
          · exact Scope.mentions_cons.2 (Or.inl ⟨block, present, mentioned⟩)
          · exact never.elim
          · exact outside ty around

theorem params (notes : Notes own around b later) (names : List String) :
    Notes own around b (later.params names) :=
  params_keep (motive := Notes own around b) (fun _ _ notes => notes.push _) notes names

theorem typedParams (b : Builder) (list : List Source.Param) :
    Notes (fun ty => ∃ param ∈ list, param.ty = ty) around b
      (list.foldl (fun b param => (b.mention param.ty).params [param.name]) b) := by
  induction list generalizing b with
  | nil => exact (refl b).congr (by simp)
  | cons param list ih =>
      exact (((mention b param.ty).params [param.name]).trans (ih _)).congr (by simp)

theorem block (b : Builder) (body : Tree.Block) :
    Notes body.toNode.Mentions (fun _ => False) b (b.stmts [] false body.stmts) :=
  ((drawingCases.stmts [] body.stmts false b).widen (by simp [Scope.Mentions])).congr fun ty =>
    body.mentions_toNode

/-- The types that code mentions are those at its head and in its body. -/
theorem code (b : Builder) (code : Fragment.Code) :
    Notes (fun ty => ty ∈ code.headTypes ∨ ∃ body, code.body? = some body ∧ body.Mentions ty)
      (fun _ => False) b (b.code code) := by
  match code with
  | .method decl =>
      have bound : Notes _ (fun _ => False) b _ := typedParams b decl.params
      rw [Builder.code]
      cases present : decl.body with
      | none =>
          exact bound.congr (by simp [Fragment.Code.headTypes, Fragment.Code.body?, present])
      | some body =>
          exact (bound.trans (block _ body)).congr
            (by simp [Fragment.Code.headTypes, Fragment.Code.body?, present])
  | .lambda id names (.block body) =>
      exact (((refl b).params names).trans (block _ body)).congr
        (by simp [Fragment.Code.headTypes, Fragment.Code.body?, Tree.LambdaBody.toNode])
  | .lambda id names (.value result) =>
      exact (((((refl b).params names).trans (expr [] false _ result)).push _).jump _ _).congr
        (by simp [Fragment.Code.headTypes, Fragment.Code.body?, Tree.LambdaBody.toNode])
  | .initializer body =>
      exact (block b body).congr (by simp [Fragment.Code.headTypes, Fragment.Code.body?])
  | .fieldInitializer decl init =>
      exact (((mention b decl.ty).trans (expr [] false _ init)).push _).congr
        (by simp [Fragment.Code.headTypes, Fragment.Code.body?, eq_comm])

end Notes

end Builder

/-- Drawing a fragment meets exactly the type names of the fragment. -/
theorem mem_typeNames_draw {fragment : Fragment} {ty : String} :
    ty ∈ (draw fragment).typeNames ↔ ty ∈ fragment.typeNames := by
  have notes := Builder.Notes.code .start fragment.code
  have empty : Builder.start.typeNames = #[] := Builder.typeNames_push {} _
  have parts : ty ∈ fragment.typeNames ↔ ty ∈ fragment.code.headTypes ∨
      ∃ body, fragment.code.body? = some body ∧ body.Mentions ty := by
    rw [Fragment.typeNames, List.mem_append, Fragment.nodes, Fragment.body?]
    cases fragment.code.body? with
    | none => simp
    | some body => simp [Tree.Node.Mentions]
  rw [parts]
  constructor
  · intro member
    rcases notes.only ty member with old | named | never
    · rw [empty] at old
      exact absurd old (Array.not_mem_empty ty)
    · exact named
    · exact never.elim
  · exact notes.noted ty

/-- A fragment with code has a graph unless a type name in it is not known. -/
theorem ofFragment_of_code {fragment : Fragment} (env : Environment)
    (isCode : fragment.hasBody = true) : ofFragment fragment env =
      match (draw fragment).unknown? env with
      | some ty => .error (.unresolved ty)
      | none => .ok ((draw fragment).finish fragment.name) := by
  rw [ofFragment_eq, drawnFrom, if_pos]
  · rfl
  · exact isCode

/-- Only the type names of a fragment are looked up. -/
theorem ofFragment_congr {fragment : Fragment} {env other : Environment}
    (alike : ∀ ty ∈ fragment.typeNames, env.resolves ty = other.resolves ty) :
    ofFragment fragment env = ofFragment fragment other := by
  have same : (Builder.start.code fragment.code).unknown? env =
      (Builder.start.code fragment.code).unknown? other := by
    rw [Builder.unknown?, Builder.unknown?, ← List.head?_filter, ← List.head?_filter]
    refine congrArg List.head? (List.filter_congr fun ty member => ?_)
    rw [alike ty (mem_typeNames_draw.1 (Array.mem_toList_iff.1 member))]
  rw [ofFragment_eq, ofFragment_eq, drawnFrom, drawnFrom, same]

/-- If a type name of a fragment is unknown, there is no graph. -/
theorem ofFragment_unresolved {fragment : Fragment} {env : Environment} {ty : String}
    (isCode : fragment.hasBody = true) (named : ty ∈ fragment.typeNames)
    (unknown : env.resolves ty = false) :
    ∃ first, ofFragment fragment env = .error (.unresolved first) := by
  rw [ofFragment_of_code env isCode]
  split
  · exact ⟨_, rfl⟩
  · rename_i none
    have resolved := List.find?_eq_none.1 none ty
      (Array.mem_toList_iff.2 (mem_typeNames_draw.2 named))
    simp [unknown] at resolved

/-- If all type names of a fragment are known, there is a graph. -/
theorem ofFragment_resolved {fragment : Fragment} {env : Environment}
    (isCode : fragment.hasBody = true)
    (known : ∀ ty ∈ fragment.typeNames, env.resolves ty = true) :
    ofFragment fragment env = .ok ((draw fragment).finish fragment.name) := by
  have none : (draw fragment).unknown? env = none := by
    refine List.find?_eq_none.2 fun ty member => ?_
    rw [known ty (mem_typeNames_draw.1 (Array.mem_toList_iff.1 member))]
    exact Bool.false_ne_true
  rw [ofFragment_of_code env isCode, none]

end Graph

end FragmentFlow
