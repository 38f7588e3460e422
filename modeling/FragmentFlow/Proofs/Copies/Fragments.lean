import FragmentFlow.Proofs.Copies.Presence
import FragmentFlow.Proofs.Copies.Statements
import FragmentFlow.Proofs.Drawing.Actions
import FragmentFlow.Proofs.Raising.Nesting
import FragmentFlow.Proofs.Tree.Conditions

/-!
# Copies are aligned

In the graph of a fragment the evaluated parts of the code have nodes, and no other part of
the tree has any.  Only what lies in a `finally` block has more than one.  The nodes for a
part and those for its operands are equally many, and each node uses the values of the
nodes for the operands that have the same position.
-/

namespace FragmentFlow

namespace Fragment

open FragmentFlow.Tree (Node)

/-- A number belongs to a `finally` block of a fragment. -/
def InFinally (fragment : Fragment) (id : Nat) : Prop :=
  ∃ number body catches block,
    .stmt (.tryCatch number body catches (some block)) ∈ fragment.nodes ∧
      ∃ inner ∈ block.toNode.ownNodes, inner.id = id

variable {unit : Source.CompilationUnit} {serial : Nat} {fragment : Fragment}

/-- A fragment stands at a node of its tree. -/
theorem root_mem_nodes (member : fragment ∈ (Tree.ofUnit unit serial).fragments) :
    fragment.path.leaf ∈ (Tree.ofUnit unit serial).nodes :=
  Tree.mem_nodes_iff.2 (Tree.leaf_mem_preorder (mem_fragments.1 member).1)

/-- The root of a fragment for a field is the field. -/
theorem root_field (member : fragment ∈ (Tree.ofUnit unit serial).fragments) {decl : Tree.Field}
    {init : Tree.Expr} (isCode : fragment.code = .fieldInitializer decl init) :
    fragment.path.leaf = .field decl ∧ decl.init = some init :=
  eq_of_classify_field (isCode ▸ (mem_fragments.1 member).2)

theorem mem_nodes_of_mem_parts (member : fragment ∈ (Tree.ofUnit unit serial).fragments)
    {node : Node} (isPart : node ∈ fragment.parts) : node ∈ (Tree.ofUnit unit serial).nodes := by
  rcases mem_parts.1 isPart with isNode | ⟨decl, init, isCode, rfl⟩
  · exact mem_nodes_of_mem_nodes member isNode
  · rw [← (root_field member isCode).1]
    exact root_mem_nodes member

/-- The value of a lambda is no operand. -/
theorem not_operand_value (member : fragment ∈ (Tree.ofUnit unit serial).fragments) {id : Nat}
    {params : List String} {result : Tree.Expr}
    (isCode : fragment.code = .lambda id params (.value result)) {node : Node}
    (isNode : node ∈ (Tree.ofUnit unit serial).nodes) : ∀ part ∈ node.operands, part ≠ result := by
  rintro part isPart rfl
  have isRoot := eq_of_classify_lambda (isCode ▸ (mem_fragments.1 member).2)
  have isResult : Node.expr part ∈ fragment.path.leaf.children := by
    rw [isRoot]
    exact List.mem_cons_self
  have same := Tree.parent_unique isNode (Node.mem_children_of_operand isPart)
    (root_mem_nodes member) isResult rfl
  rw [same, isRoot] at isPart
  cases isPart

/-- What uses the value of a part of a fragment is a part of it. -/
theorem mem_parts_of_operand (member : fragment ∈ (Tree.ofUnit unit serial).fragments)
    {node : Node} (isNode : node ∈ (Tree.ofUnit unit serial).nodes) {part : Tree.Expr}
    (isPart : part ∈ node.operands) (inside : .expr part ∈ fragment.nodes) :
    node ∈ fragment.parts := by
  obtain ⟨body, isBody, isOwn⟩ := body_of_mem_nodes inside
  by_cases same : Node.expr part = body
  -- of all that a fragment can have as its body, only the initial value of a field is used
  · subst same
    cases isCode : fragment.code with
    | method decl =>
        rw [body?, isCode] at isBody
        obtain ⟨block, -, never⟩ := Option.map_eq_some_iff.1 isBody
        cases never
    | lambda id params value =>
        rw [body?, isCode] at isBody
        cases value with
        | block body => cases isBody
        | value result =>
            cases isBody
            exact absurd rfl (not_operand_value member isCode isNode part isPart)
    | initializer body =>
        rw [body?, isCode] at isBody
        cases isBody
    | fieldInitializer decl init =>
        rw [body?, isCode] at isBody
        cases isBody
        obtain ⟨isRoot, present⟩ := root_field member isCode
        have isInit : Node.expr part ∈ (Node.field decl).children := by
          rw [Node.children, present]
          exact List.mem_cons_self
        have same := Tree.parent_unique isNode (Node.mem_children_of_operand isPart)
          (isRoot ▸ root_mem_nodes member) isInit rfl
        exact mem_parts.2 (Or.inr ⟨decl, part, isCode, same⟩)
  · obtain ⟨parent, isParent, -, isChild⟩ := Node.exists_parent isOwn same
    have inNodes : parent ∈ fragment.nodes := by
      rw [nodes, isBody]
      exact isParent
    have same := Tree.parent_unique isNode (Node.mem_children_of_operand isPart)
      (mem_nodes_of_mem_nodes member inNodes) isChild rfl
    exact mem_parts.2 (Or.inl (same ▸ inNodes))

/-- The parts of a fragment have numbers of their own. -/
theorem collection (member : fragment ∈ (Tree.ofUnit unit serial).fragments) :
    Tree.Collection fragment.parts where
  eq_of_id node isNode other isOther same :=
    Tree.eq_of_id (mem_nodes_of_mem_parts member isNode) (mem_nodes_of_mem_parts member isOther)
      same
  closed node isNode outside child isChild := by
    refine mem_parts.2 (Or.inl ?_)
    rcases mem_parts.1 isNode with isNode | ⟨decl, init, isCode, rfl⟩
    · exact mem_nodes_of_child isNode outside isChild
    · rw [Node.children, (root_field member isCode).2] at isChild
      cases List.mem_singleton.1 isChild
      exact mem_nodes_body (by rw [body?, isCode]; rfl)
  parent node isNode other isOther child isChild isPart :=
    Tree.parent_unique (mem_nodes_of_mem_parts member isNode) isChild
      (mem_nodes_of_mem_parts member isOther) isPart rfl
  marks node isNode :=
    Graph.marks_le_one ((Tree.nodup_ids_ofUnit unit serial).sublist ((Node.preorder_sublist
      (Tree.mem_nodes_iff.1 (mem_nodes_of_mem_parts member isNode))).map Node.id))

/-- Some of them lie in its `finally` blocks, with all that is below them. -/
theorem setting (member : fragment ∈ (Tree.ofUnit unit serial).fragments) :
    Tree.Setting fragment.parts fragment.InFinally where
  toCollection := collection member
  inside node isNode final outside child isChild := by
    obtain ⟨number, body, catches, block, isTry, inner, isOwn, same⟩ := final
    have isBlock : block.toNode ∈ fragment.nodes := mem_nodes_of_child isTry rfl
      (List.mem_cons_of_mem _ (List.mem_append_right _ List.mem_cons_self))
    have isInner := (collection member).own (mem_parts.2 (Or.inl isBlock)) isOwn
    cases (collection member).eq_of_id inner isInner node isNode same
    exact ⟨number, body, catches, block, isTry, child,
      Node.mem_ownNodes_of_child isOwn outside isChild, rfl⟩
  cleanup id body catches block isTry := by
    rcases mem_parts.1 isTry with isNode | ⟨decl, init, -, never⟩
    · exact ⟨id, body, catches, block, isNode, _, Node.mem_ownNodes.2 (Or.inl rfl), rfl⟩
    · cases never

end Fragment

namespace Graph

namespace Builder

variable {nodes : List Tree.Node} {finals : Nat → Prop} {b : Builder}

/-! ### Whole fragments are drawn -/

namespace Matched

theorem params (matched : Matched nodes finals b) (collection : Tree.Collection nodes)
    (names : List String) : Matched nodes finals (b.params names) :=
  params_keep (motive := Matched nodes finals)
    (fun _ name matched => matched.implicit collection (.param name) []) matched names

theorem typedParams (matched : Matched nodes finals b) (collection : Tree.Collection nodes)
    (list : List Source.Param) : Matched nodes finals
      (list.foldl (fun b param => (b.mention param.ty).params [param.name]) b) :=
  typedParams_keep (motive := Matched nodes finals)
    (fun _ name matched => matched.implicit collection (.param name) [])
    (fun _ _ matched => matched.of_nodes rfl) matched list

theorem block (matched : Matched nodes finals b) (setting : Tree.Setting nodes finals)
    {body : Tree.Block} (isNode : body.toNode ∈ nodes) :
    Matched nodes finals (b.stmts [] false body.stmts) := by
  have listed : body.toNode.Listed nodes finals false := ⟨isNode, Bool.noConfusion⟩
  exact matched.stmts setting fun _ member => setting.stmts listed member

/-- A field is declared behind its initial value. -/
theorem field (matched : Matched nodes finals b) (setting : Tree.Setting nodes finals)
    {decl : Tree.Field} {init : Tree.Expr} (isNode : .field decl ∈ nodes)
    (present : decl.init = some init) :
    Matched nodes finals (b.code (.fieldInitializer decl init)) := by
  have listed : (Tree.Node.field decl).Listed nodes finals false := ⟨isNode, Bool.noConfusion⟩
  have mentioned : Matched nodes finals (b.mention decl.ty) := matched.of_nodes rfl
  exact mentioned.afterValue setting listed rfl rfl [] (some init)
    (by rw [Tree.Node.children, present]) (by rw [Tree.Node.operands, present]) (.decl decl.name)

/-- The code of a fragment keeps nodes and operands matched. -/
theorem code (matched : Matched nodes finals b) (setting : Tree.Setting nodes finals)
    {code : Fragment.Code} (body : ∀ node, code.body? = some node → node ∈ nodes)
    (free : ∀ id params result, code = .lambda id params (.value result) →
      ∀ other ∈ nodes, ∀ part ∈ other.operands, part ≠ result)
    (field : ∀ decl init, code = .fieldInitializer decl init →
      .field decl ∈ nodes ∧ decl.init = some init) : Matched nodes finals (b.code code) := by
  match code with
  | .method decl =>
      have bound := matched.typedParams setting.toCollection decl.params
      rw [Builder.code]
      cases present : decl.body with
      | none => exact bound
      | some block =>
          refine bound.block setting (body _ ?_)
          rw [Fragment.Code.body?, present]
          rfl
  | .lambda id names (.block block) =>
      exact (matched.params setting.toCollection names).block setting (body _ rfl)
  | .lambda id names (.value result) =>
      have listed : (Tree.Node.expr result).Listed nodes finals false :=
        ⟨body _ rfl, Bool.noConfusion⟩
      have bound := matched.params setting.toCollection names
      have evaluated := bound.subtree setting listed
        (fun other isOther part isPart same => free id names result rfl other isOther part isPart
          (Tree.Node.expr.inj same))
        (Evaluated.expr [] false (b.params names) result (setting.within listed)).toEvaluation
      exact (evaluated.implicit setting.toCollection .returnValue
        [((b.params names).expr [] false result).1]).jump _ _
  | .initializer block => exact matched.block setting (body _ rfl)
  | .fieldInitializer decl init =>
      obtain ⟨isNode, present⟩ := field decl init rfl
      exact matched.field setting isNode present

/-- Nodes and operands are matched at the start. -/
theorem start (collection : Tree.Collection nodes) : Matched nodes finals Builder.start := by
  have empty : Matched nodes finals {} := by
    refine ⟨fun id node tree found => ?_, fun inner isNode copying position part isPart => rfl⟩
    cases found
  exact empty.implicit collection .entry []

end Matched

/-- The code of a fragment shows its body. -/
theorem ShowsAll.code (b : Builder) (code : Fragment.Code) {body : Tree.Node}
    (isBody : code.body? = some body) : (b.code code).ShowsAll false body := by
  have stmts := fun b (list : List Tree.Stmt) => drawingCases.stmts [] list false b
  match code with
  | .method decl =>
      obtain ⟨block, present, rfl⟩ := Option.map_eq_some_iff.1 isBody
      rw [Builder.code, present]
      exact .block (stmts _ block.stmts)
  | .lambda id names (.block block) =>
      cases isBody
      exact .block (stmts _ block.stmts)
  | .lambda id names (.value result) =>
      cases isBody
      exact ((expr [] false _ result).grow (.push _ _)).grow (Extends.jump _ _ _).grows
  | .initializer block =>
      cases isBody
      exact .block (stmts _ block.stmts)
  | .fieldInitializer decl init =>
      cases isBody
      exact (expr [] false _ init).grow (.push _ _)

/-! ### What the nodes for a part have in common -/

/-- All nodes for a part of the tree, those in its place first. -/
def nodesFor (b : Builder) (tree : Nat) : List Nat :=
  b.drawings false tree ++ b.drawings true tree

theorem mem_nodesFor {tree id : Nat} :
    id ∈ b.nodesFor tree ↔ ∃ node, b.bare? id = some node ∧ node.tree = some tree := by
  rw [nodesFor, List.mem_append, drawings, drawings, mem_nodesWhere, mem_nodesWhere, ← exists_or]
  refine exists_congr fun node => ?_
  rw [Node.isDrawing_iff, Node.isDrawing_iff]
  cases node.isCopy <;> simp

theorem nodup_nodesFor (b : Builder) (tree : Nat) : (b.nodesFor tree).Nodup := by
  refine List.Nodup.append (List.nodup_range.filter _) (List.nodup_range.filter _) ?_
  intro id inPlace isCopy
  obtain ⟨node, found, isOriginal⟩ := mem_nodesWhere.1 inPlace
  obtain ⟨other, present, copied⟩ := mem_nodesWhere.1 isCopy
  cases found.symm.trans present
  have isTrue := (Node.isDrawing_iff.1 copied).2
  rw [(Node.isDrawing_iff.1 isOriginal).2] at isTrue
  cases isTrue

namespace Matched

variable {inner : Tree.Node} {part : Tree.Expr}

/-- The operands at a position are the nodes for the part at that position. -/
theorem map_operand (matched : Matched nodes finals b) (isNode : inner ∈ nodes) {position : Nat}
    (isPart : inner.operands[position]? = some part) :
    (b.nodesFor inner.id).map (b.operand? position) = (b.nodesFor part.id).map some := by
  rw [nodesFor, nodesFor, List.map_append, List.map_append,
    matched.operands inner isNode false position part isPart,
    matched.operands inner isNode true position part isPart]

theorem length_nodesFor (matched : Matched nodes finals b) (isNode : inner ∈ nodes)
    (isPart : part ∈ inner.operands) :
    (b.nodesFor part.id).length = (b.nodesFor inner.id).length := by
  obtain ⟨position, isAt⟩ := List.mem_iff_getElem?.1 isPart
  have lengths := congrArg List.length (matched.map_operand isNode isAt)
  rw [List.length_map, List.length_map] at lengths
  exact lengths.symm

/-- The operands of a node are the nodes for the operands at the same index. -/
theorem operands_nodesFor (matched : Matched nodes finals b) (collection : Tree.Collection nodes)
    (isNode : inner ∈ nodes) {index id : Nat} (isAt : (b.nodesFor inner.id)[index]? = some id)
    {node : Node} (found : b.bare? id = some node) :
    node.operands.map some = inner.operands.map fun part => (b.nodesFor part.id)[index]? := by
  obtain ⟨other, present, isTree⟩ := mem_nodesFor.1 (List.mem_of_getElem? isAt)
  cases found.symm.trans present
  obtain ⟨same, isSame, sameId, -, length, -⟩ := matched.trees id node inner.id found isTree
  cases collection.eq_of_id same isSame inner isNode sameId
  refine List.ext_getElem? fun position => ?_
  rw [List.getElem?_map, List.getElem?_map]
  cases isPart : inner.operands[position]? with
  | none =>
      have behind := List.getElem?_eq_none_iff.1 isPart
      rw [List.getElem?_eq_none (length ▸ behind)]
      rfl
  | some part =>
      have mapped := congrArg (·[index]?) (matched.map_operand isNode isPart)
      rw [List.getElem?_map, List.getElem?_map, isAt] at mapped
      obtain ⟨operand, isOperand, value⟩ := Option.map_eq_some_iff.1 mapped.symm
      have atPosition : b.operand? position id = node.operands[position]? := by
        rw [operand?, found]
        rfl
      rw [← atPosition, ← value, Option.map_some, Option.map_some, isOperand]

end Matched

end Builder

section Built

variable {unit : Source.CompilationUnit} {serial : Nat} {fragment : Fragment} {env : Environment}
  {graph : Graph}

/-- No part of a tree has two nodes in its place, so that the index of the finished graph lists
the nodes in the order of their numbers but for the copies, which come last. -/
theorem nodesFor_finish (member : fragment ∈ (Tree.ofUnit unit serial).fragments)
    (label : String) (tree : Nat) :
    ((draw fragment).finish label).nodesFor tree = (draw fragment).nodesFor tree := by
  have drawings : ∀ copying, ((draw fragment).finish label).toBuilder.drawings copying tree =
      (draw fragment).drawings copying tree := fun copying =>
    Builder.nodesWhere_finish fun _ => rfl
  have single : ((draw fragment).drawings false tree).length ≤ 1 := by
    rw [← Builder.originals_eq]
    exact length_originals_draw member tree
  have same : ((draw fragment).drawings false tree).reverse =
      (draw fragment).drawings false tree := by
    rcases Nat.le_one_iff_eq_zero_or_eq_one.1 single with none | one
    · rw [List.length_eq_zero_iff.1 none]
      rfl
    · obtain ⟨id, alone⟩ := List.length_eq_one_iff.1 one
      rw [alone]
      rfl
  rw [(wellDrawn_finish fragment label).nodesFor_eq, drawings, drawings, Builder.nodesFor, same]

/-- In the drawing of a fragment nodes and operands are matched. -/
theorem matched_draw (member : fragment ∈ (Tree.ofUnit unit serial).fragments) :
    Builder.Matched fragment.parts fragment.InFinally (draw fragment) := by
  have setting := Fragment.setting member
  refine (Builder.Matched.start setting.toCollection).code setting ?_ ?_ ?_
  · intro body isBody
    exact Fragment.mem_parts.2 (Or.inl (Fragment.mem_nodes_body isBody))
  · intro id params result isCode other isOther
    exact Fragment.not_operand_value member isCode (Fragment.mem_nodes_of_mem_parts member isOther)
  · intro decl init isCode
    exact ⟨Fragment.mem_parts.2 (Or.inr ⟨decl, init, isCode, rfl⟩),
      (Fragment.root_field member isCode).2⟩

/-- Each evaluated part of a fragment has a node in its place. -/
theorem shows_draw {node : Tree.Node} (isPart : node ∈ fragment.parts)
    (evaluated : node.isEvaluated = true) : (draw fragment).Shows false node.id := by
  rcases Fragment.mem_parts.1 isPart with isNode | ⟨decl, init, isCode, rfl⟩
  · obtain ⟨body, isBody, isOwn⟩ := Fragment.body_of_mem_nodes isNode
    exact Builder.ShowsAll.code .start fragment.code isBody node isOwn evaluated
  · rw [draw, isCode]
    exact .push _ false decl.id (.decl decl.name) _

/-- A part of the tree with a node is an evaluated part of the fragment. -/
theorem exists_part (member : fragment ∈ (Tree.ofUnit unit serial).fragments) {number id : Nat}
    (isCopy : id ∈ (draw fragment).nodesFor number) :
    ∃ node ∈ fragment.parts, node.id = number ∧ node.isEvaluated = true := by
  obtain ⟨drawn, found, isTree⟩ := Builder.mem_nodesFor.1 isCopy
  obtain ⟨node, isPart, same, evaluated, -⟩ :=
    (matched_draw member).trees id drawn number found isTree
  exact ⟨node, isPart, same, evaluated⟩

theorem mem_parts_of_mem_nodesFor (member : fragment ∈ (Tree.ofUnit unit serial).fragments)
    {node : Tree.Node} (isNode : node ∈ (Tree.ofUnit unit serial).nodes) {id : Nat}
    (isCopy : id ∈ (draw fragment).nodesFor node.id) : node ∈ fragment.parts := by
  obtain ⟨other, isPart, same, -⟩ := exists_part member isCopy
  cases Tree.eq_of_id (Fragment.mem_nodes_of_mem_parts member isPart) isNode same
  exact isPart

theorem length_nodesFor_draw (member : fragment ∈ (Tree.ofUnit unit serial).fragments)
    {node : Tree.Node} (isNode : node ∈ (Tree.ofUnit unit serial).nodes) {part : Tree.Expr}
    (isPart : part ∈ node.operands) :
    ((draw fragment).nodesFor part.id).length = ((draw fragment).nodesFor node.id).length := by
  by_cases inside : node ∈ fragment.parts
  · exact (matched_draw member).length_nodesFor inside isPart
  · have none : (draw fragment).nodesFor node.id = [] :=
      List.eq_nil_iff_forall_not_mem.2 fun id isCopy =>
        inside (mem_parts_of_mem_nodesFor member isNode isCopy)
    have nonePart : (draw fragment).nodesFor part.id = [] := by
      refine List.eq_nil_iff_forall_not_mem.2 fun id isCopy => inside ?_
      have inTree := Tree.child_mem_nodes isNode (Tree.Node.mem_children_of_operand isPart)
      rcases Fragment.mem_parts.1 (mem_parts_of_mem_nodesFor member inTree isCopy) with
        isOwn | ⟨decl, init, -, never⟩
      · exact Fragment.mem_parts_of_operand member isNode isPart isOwn
      · cases never
    rw [none, nonePart]

/-- What has two nodes has a copy. -/
theorem inFinally_of_copies (member : fragment ∈ (Tree.ofUnit unit serial).fragments)
    {number : Nat} (several : 1 < ((draw fragment).nodesFor number).length) :
    fragment.InFinally number := by
  have one : ((draw fragment).drawings false number).length ≤ 1 := by
    have same : Node.isDrawing false number = Node.isOriginal number := by
      funext node
      rw [Node.isDrawing, Node.isOriginal, beq_false]
    rw [Builder.drawings, same]
    exact length_originals_draw member number
  rw [Builder.nodesFor, List.length_append] at several
  obtain ⟨id, isCopy⟩ := List.exists_mem_of_length_pos
    (show 0 < ((draw fragment).drawings true number).length by omega)
  obtain ⟨node, found, isDrawing⟩ := Builder.mem_nodesWhere.1 isCopy
  obtain ⟨isTree, copied⟩ := Node.isDrawing_iff.1 isDrawing
  obtain ⟨-, -, -, -, -, final⟩ := (matched_draw member).trees id node number found isTree
  exact final copied

/-- The nodes of a graph stand for the evaluated parts of a fragment, and the copies of a part
keep together with those of its operands. -/
structure Aligned (graph : Graph) (tree : Tree) (fragment : Fragment) : Prop where
  evaluated : ∀ number, graph.nodesFor number ≠ [] ↔
    (∃ node ∈ fragment.nodes, node.id = number ∧ node.isEvaluated = true) ∨
      (∃ decl init, fragment.code = .fieldInitializer decl init) ∧ number = fragment.root
  nodup : ∀ number, (graph.nodesFor number).Nodup
  nodes : ∀ number id, id ∈ graph.nodesFor number ↔
    ∃ node, graph.nodes[id]? = some node ∧ node.tree = some number
  copied : ∀ number, 1 < (graph.nodesFor number).length → fragment.InFinally number
  equal : ∀ node ∈ tree.nodes, ∀ part ∈ node.operands,
    (graph.nodesFor part.id).length = (graph.nodesFor node.id).length
  operands : ∀ node ∈ tree.nodes, ∀ index id : Nat, (graph.nodesFor node.id)[index]? = some id →
    ∃ drawn : Node, graph.nodes[id]? = some drawn ∧
      drawn.operands.map some = node.operands.map fun part => (graph.nodesFor part.id)[index]?
  canonical : ∀ node ∈ tree.nodes, ∀ id, graph.nodeFor? node.id = some id →
    ∃ drawn : Node, graph.nodes[id]? = some drawn ∧
      drawn.operands.map some = node.operands.map fun part => graph.nodeFor? part.id

/-- The operands of a node of a built graph are the nodes for the operands at the same
index. -/
theorem exists_drawn (member : fragment ∈ (Tree.ofUnit unit serial).fragments)
    {node : Tree.Node} (isNode : node ∈ (Tree.ofUnit unit serial).nodes) {index id : Nat}
    (isAt : ((draw fragment).nodesFor node.id)[index]? = some id) (label : String) :
    ∃ drawn : Node, ((draw fragment).finish label).nodes[id]? = some drawn ∧
      drawn.operands.map some =
        node.operands.map fun part => ((draw fragment).nodesFor part.id)[index]? := by
  have isCopy := List.mem_of_getElem? isAt
  have isPart := mem_parts_of_mem_nodesFor member isNode isCopy
  obtain ⟨bare, found, -⟩ := Builder.mem_nodesFor.1 isCopy
  have operands := (matched_draw member).operands_nodesFor (Fragment.collection member) isPart isAt
    found
  have finished : ((draw fragment).finish label).toBuilder.bare? id = some bare :=
    Builder.grows_finish.nodes id bare found
  obtain ⟨drawn, present, rfl⟩ := Option.map_eq_some_iff.1 finished
  exact ⟨drawn, present, operands⟩

/-- Every evaluated part of a fragment has its nodes in step with those of its operands. -/
theorem copies_aligned (member : fragment ∈ (Tree.ofUnit unit serial).fragments)
    (built : ofFragment fragment env = .ok graph) :
    graph.Aligned (Tree.ofUnit unit serial) fragment := by
  obtain ⟨-, rfl⟩ := eq_finish_of_ofFragment built
  have nodesFor := nodesFor_finish member fragment.name
  refine ⟨fun number => ?_, fun number => ?_,
    fun number id => (wellDrawn_finish fragment _).mem_nodesFor, fun number => ?_,
    fun node isNode part isPart => ?_, fun node isNode index id isAt => ?_,
    fun node isNode id isFirst => ?_⟩
  · rw [nodesFor]
    constructor
    · intro some
      obtain ⟨id, isCopy⟩ := List.exists_mem_of_ne_nil _ some
      obtain ⟨node, isPart, rfl, evaluated⟩ := exists_part member isCopy
      rcases Fragment.mem_parts.1 isPart with isNode | ⟨decl, init, isCode, rfl⟩
      · exact Or.inl ⟨node, isNode, rfl, evaluated⟩
      · refine Or.inr ⟨⟨decl, init, isCode⟩, ?_⟩
        rw [Fragment.root, (Fragment.root_field member isCode).1]
    · intro isEvaluated
      have drawn : (draw fragment).Shows false number := by
        rcases isEvaluated with ⟨node, isNode, rfl, evaluated⟩ | ⟨⟨decl, init, isCode⟩, rfl⟩
        · exact shows_draw (Fragment.mem_parts.2 (Or.inl isNode)) evaluated
        · rw [Fragment.root, (Fragment.root_field member isCode).1]
          exact shows_draw (Fragment.mem_parts.2 (Or.inr ⟨decl, init, isCode, rfl⟩)) rfl
      obtain ⟨id, inPlace⟩ := drawn
      exact List.ne_nil_of_mem (List.mem_append_left _ inPlace)
  · rw [nodesFor]
    exact Builder.nodup_nodesFor _ number
  · rw [nodesFor]
    exact inFinally_of_copies member
  · rw [nodesFor, nodesFor]
    exact length_nodesFor_draw member isNode isPart
  · rw [nodesFor] at isAt
    simp only [nodesFor]
    exact exists_drawn member isNode isAt fragment.name
  · rw [nodeFor?, nodesFor, List.head?_eq_getElem?] at isFirst
    simp only [nodeFor?, nodesFor, List.head?_eq_getElem?]
    exact exists_drawn member isNode isFirst fragment.name

end Built

/-- A class whose method leaves a loop through a `finally` block that computes a sum. -/
def loggingLoop : Source.CompilationUnit where
  name := "Logging"
  classes := [{ name := "Logging", members := [.method "run" [] [] (some
    [.whileLoop (.ident "open")
      [.tryCatch [.ifElse (.ident "done") [.breakLoop] none, .exprStmt (.call "risky" [])] []
        (some [.exprStmt (.call "log" [.binary .add (.ident "a") (.ident "b")])])]])] }]

theorem fragments_loggingLoop_ne_nil : (Tree.ofUnit loggingLoop 0).fragments ≠ [] := by
  decide +kernel

/-- The method of the class. -/
def loggingRun : Fragment :=
  (Tree.ofUnit loggingLoop 0).fragments.head fragments_loggingLoop_ne_nil

/-- The sum and its operands have three nodes each: at the end of the body, behind the `break`
and for exceptions. -/
theorem loggingRun_aligned : ∃ graph, ofFragment loggingRun .builtins = .ok graph ∧
    graph.nodesFor 8 = [14, 4, 9] ∧ graph.nodesFor 9 = [15, 5, 10] ∧
    graph.nodesFor 10 = [16, 6, 11] ∧ loggingRun.InFinally 10 ∧
    graph.Aligned (Tree.ofUnit loggingLoop 0) loggingRun := by
  have built : ofFragment loggingRun .builtins =
      .ok ((draw loggingRun).finish loggingRun.name) := by
    decide +kernel
  have member : loggingRun ∈ (Tree.ofUnit loggingLoop 0).fragments :=
    List.head_mem fragments_loggingLoop_ne_nil
  have aligned := copies_aligned member built
  have three : ((draw loggingRun).finish loggingRun.name).nodesFor 10 = [16, 6, 11] := by
    decide +kernel
  refine ⟨_, built, by decide +kernel, by decide +kernel, three, aligned.copied 10 ?_, aligned⟩
  rw [three]
  decide

end Graph

end FragmentFlow
