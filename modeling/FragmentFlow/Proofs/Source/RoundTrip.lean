import FragmentFlow.Command.Run
import FragmentFlow.Proofs.Source.Meaning

/-!
# Reading undoes writing

A unit is read back from the text it is written as, if its value nests no deeper than
the reader allows (`CompilationUnit.parse_write`).
-/

namespace FragmentFlow.Source

open Json (Accepts FormOf Reading RecordRun accepts_readList accepts_readText readList readText)

theorem accepts_readForm {α : Type} {tag : String} {forms : List String}
    {meaning : String → Json.Contents → Option α} {json : Json} {value : α}
    (written : FormOf tag forms meaning json value) :
    Accepts (readForm tag forms meaning) json value := by
  obtain ⟨member, untagged, exact, meant⟩ := written
  have tagged := Json.accepts_readTagged member untagged exact
  refine ⟨tagged.starts, fun fits ends => ?_⟩
  obtain ⟨shorter, read⟩ := tagged.reads fits ends
  refine ⟨shorter, ?_⟩
  simp only [readForm, read, meant]

theorem exprsToJson_eq_map (exprs : List Expr) : exprsToJson exprs = exprs.map Expr.toJson := by
  induction exprs with
  | nil => rfl
  | cons expr exprs ih => rw [exprsToJson, ih, List.map_cons]

namespace Draft

variable {α β γ : Type} {json : Json}

theorem accepts_finish {reading : Reading (Draft α β)} {draft : Draft α β} {name : String}
    (build : String → List α → List β → γ) (accepts : Accepts reading json draft)
    (named : draft.name = some name) :
    Accepts (fun room text => finish build (reading room text)) json
      (build name (draft.first.getD []) (draft.second.getD [])) := by
  refine ⟨accepts.starts, fun fits ends => ?_⟩
  obtain ⟨shorter, read⟩ := accepts.reads fits ends
  refine ⟨shorter, ?_⟩
  simp only [finish, read, named]

theorem accepts_nameField (draft : Draft α β) (name : String) :
    Accepts (fun room => nameField.read room draft) (.str name) { draft with name := some name } :=
  (accepts_readText name).map fun name => ({ draft with name := some name } : Draft α β)

theorem accepts_firstField (draft : Draft α β) (label : String) {item : Reading α} {items : List α}
    (accepts : Accepts (readList item) json items) :
    Accepts (fun room => (firstField label item).read room draft) json
      { draft with first := some items } :=
  accepts.map fun items => ({ draft with first := some items } : Draft α β)

theorem accepts_secondField (draft : Draft α β) (label : String) {item : Reading β} {items : List β}
    (accepts : Accepts (readList item) json items) :
    Accepts (fun room => (secondField label item).read room draft) json
      { draft with second := some items } :=
  accepts.map fun items => ({ draft with second := some items } : Draft α β)

end Draft

theorem accepts_readAnnot (annot : Annot) : Accepts readAnnot annot.toJson annot := by
  have args := accepts_readList (fun expr => accepts_readForm (form_expr expr)) annot.args
  rw [← exprsToJson_eq_map] at args
  have run : RecordRun [Draft.nameField, Draft.firstField "args" readExpr] ({} : Draft Expr Empty)
      [("name", .str annot.name), ("args", .arr (exprsToJson annot.args))]
      { name := some annot.name, first := some annot.args } :=
    .cons rfl rfl (Draft.accepts_nameField _ annot.name)
      (.cons rfl rfl (Draft.accepts_firstField _ _ args) (.nil _))
  exact Draft.accepts_finish _ run.accepts rfl

theorem accepts_readClass (decl : Class) : Accepts readClass decl.toJson decl := by
  have annotations := accepts_readList accepts_readAnnot decl.annotations
  have members := accepts_readList (fun member => accepts_readForm (form_member member))
    decl.members
  have run : RecordRun [Draft.nameField, Draft.firstField "annotations" readAnnot,
        Draft.secondField "members" readMember] {}
      [("name", .str decl.name), ("annotations", .arr (decl.annotations.map (·.toJson))),
        ("members", .arr (decl.members.map (·.toJson)))]
      { name := some decl.name, first := some decl.annotations, second := some decl.members } :=
    .cons rfl rfl (Draft.accepts_nameField _ decl.name)
      (.cons rfl rfl (Draft.accepts_firstField _ _ annotations)
        (.cons rfl rfl (Draft.accepts_secondField _ _ members) (.nil _)))
  exact Draft.accepts_finish _ run.accepts rfl

theorem accepts_readUnit (unit : CompilationUnit) : Accepts readUnit unit.toJson unit := by
  have imports := accepts_readList accepts_readText unit.imports
  have classes := accepts_readList accepts_readClass unit.classes
  have run : RecordRun [Draft.nameField, Draft.firstField "imports" readText,
        Draft.secondField "classes" readClass] {}
      [("name", .str unit.name), ("imports", textsToJson unit.imports),
        ("classes", .arr (unit.classes.map (·.toJson)))]
      { name := some unit.name, first := some unit.imports, second := some unit.classes } :=
    .cons rfl rfl (Draft.accepts_nameField _ unit.name)
      (.cons rfl rfl (Draft.accepts_firstField _ _ imports)
        (.cons rfl rfl (Draft.accepts_secondField _ _ classes) (.nil _)))
  exact Draft.accepts_finish _ run.accepts rfl

/-- Reading undoes writing: a unit whose value nests at most 127 arrays and objects is
read back from its text, so the tree of a file with that text is the tree of the
unit. -/
theorem CompilationUnit.parse_write (unit : CompilationUnit)
    (shallow : unit.toJson.nesting ≤ 127) :
    parse unit.write = .ok unit ∧
      ∀ (files : Command.Files) (file : String) (serial : Nat), files file = .ok unit.write →
        Command.loadTree files file serial = .ok (Tree.ofUnit unit serial) := by
  have written : unit.write.toList = unit.toJson.write ++ [] := by
    rw [write, Json.compact, String.toList_ofList, List.append_nil]
  have reads : Json.Reads (readUnit Json.maxNesting unit.write.toList) unit [] := by
    rw [written]
    exact (accepts_readUnit unit).reads shallow Json.endsValue_nil
  have parsed : parse unit.write = .ok unit := by
    obtain ⟨shorter, read⟩ := reads
    rw [parse, read]
    rfl
  refine ⟨parsed, fun files file serial found => ?_⟩
  simp only [Command.loadTree, found, Except.mapError, bind, Except.bind, parsed, pure, Except.pure]

/-- A unit with quotes, a control character and a letter beyond ASCII in its names, the
least literal, a lambda with a block in an annotation, and parts that are absent. -/
def guarded : CompilationUnit where
  name := "say \"\\\x01\n\""
  imports := ["é", ""]
  classes := [{
    name := "Main"
    annotations := [{
      name := "Guard"
      args := [.lambda ["x"] (.block [.returnValue none])] }]
    members := [
      .field "least" "long" true (some (.literal (.int Int64.minValue))),
      .method "run" [⟨"p", "int"⟩] [] none,
      .initializer false [
        .tryCatch [.throwValue (.ident "p")] [.mk "e" "Error" [.breakLoop]] (some [])]] }]

/-- The unit with unusual names is read back from what is written for it. -/
theorem parse_write_guarded :
    guarded.toJson.nesting = 11 ∧ CompilationUnit.parse guarded.write = .ok guarded ∧
      Command.loadTree (fun _ => .ok guarded.write) "Main" 3 = .ok (Tree.ofUnit guarded 3) := by
  have nested : guarded.toJson.nesting = 11 := by decide
  have read := guarded.parse_write (by rw [nested]; decide)
  exact ⟨nested, read.1, read.2 _ _ _ rfl⟩

end FragmentFlow.Source
