import ModelAtlas.Source.File

/-!
# What statements declare

The readers of declarations, said of the nodes that they read. A statement assigns to a name, defines
a function or a class, or holds a pair of a dictionary just if its nodes are of the kinds named here;
every other statement is passed over.
-/

namespace ModelAtlas.Source

variable {statement definition body : Node}

namespace Node

/-! ### Assignments -/

/-- A statement that is an assignment to a name. -/
inductive Assigns : Node → Attribute → Prop
  | mk {statement assignment left right : Node} : statement.is "expression_statement" →
    statement.namedChildren.head? = some assignment → assignment.is "assignment" →
    assignment.child? "left" = some left → left.is "identifier" →
    assignment.child? "right" = some right →
    Assigns statement ⟨left.text, Expr.ofNode right, assignment.range⟩

theorem attribute?_eq_some_iff {a : Attribute} :
    statement.attribute? = some a ↔ Assigns statement a := by
  constructor
  · intro read
    obtain ⟨_, first, read⟩ := Option.bind_eq_some_iff.mp read
    dsimp only at read
    split at read
    case isFalse => cases read
    case isTrue isStatement =>
      obtain ⟨isAssignment, read⟩ := Option.ite_none_right_eq_some.mp read
      obtain ⟨left, isLeft, read⟩ := Option.bind_eq_some_iff.mp read
      obtain ⟨right, isRight, read⟩ := Option.bind_eq_some_iff.mp read
      obtain ⟨isName, same⟩ := Option.ite_none_right_eq_some.mp read
      obtain rfl := Option.some.inj same
      exact .mk isStatement first isAssignment isLeft isName isRight
  · rintro ⟨isStatement, first, isAssignment, isLeft, isName, isRight⟩
    simp [attribute?, isStatement, first, isAssignment, isLeft, isName, isRight]

/-! ### Functions -/

/-- The source behind each `@` of a decorated definition. -/
def decoratorTexts (statement : Node) : List String :=
  (statement.parts.filter (·.is "decorator")).filterMap fun d => d.namedChildren.head?.map text

/-- A statement that is the definition of a function, decorated or not. -/
inductive Defines : Node → FunctionDecl → Prop
  | plain {definition : Node} : definition.is "function_definition" →
    Defines definition (definition.function [])
  | decorated {statement definition : Node} : statement.is "decorated_definition" →
    statement.child? "definition" = some definition → definition.is "function_definition" →
    Defines statement (definition.function statement.decoratorTexts)

/-- A node has one kind. -/
theorem is_unique {n : Node} {kind other : String} (isKind : n.is kind) (isOther : n.is other) :
    kind = other := by
  rw [is, Bool.and_eq_true, beq_iff_eq] at isKind isOther
  exact isKind.2.symm.trans isOther.2

theorem function?_eq_some_iff {f : FunctionDecl} :
    statement.function? = some f ↔ Defines statement f := by
  constructor
  · intro read
    rw [function?] at read
    split at read
    case isTrue isFunction =>
      obtain rfl := Option.some.inj read
      exact .plain isFunction
    case isFalse =>
      split at read
      case isFalse => cases read
      case isTrue isDecorated =>
        obtain ⟨definition, isDefinition, read⟩ := Option.bind_eq_some_iff.mp read
        obtain ⟨isFunction, same⟩ := Option.ite_none_right_eq_some.mp read
        obtain rfl := Option.some.inj same
        exact .decorated isDecorated isDefinition isFunction
  · intro defines
    cases defines with
    | plain isFunction => rw [function?, if_pos isFunction]
    | decorated isDecorated isDefinition isFunction =>
      have noFunction : ¬ statement.is "function_definition" = true := fun isFunction =>
        absurd (is_unique isDecorated isFunction) (by decide)
      rw [function?, if_neg noFunction, if_pos isDecorated, isDefinition]
      exact if_pos isFunction

/-! ### Classes -/

/-- A statement that is the definition of a class, decorated or not. -/
inductive Declares : Node → Node → Prop
  | plain {definition : Node} : definition.is "class_definition" → Declares definition definition
  | decorated {statement definition : Node} : statement.is "decorated_definition" →
    statement.child? "definition" = some definition → definition.is "class_definition" →
    Declares statement definition

theorem classDecl?_eq_some_iff {c : ClassDecl} :
    statement.classDecl? = some c ↔ ∃ definition, Declares statement definition ∧
      c = definition.classDecl := by
  constructor
  · intro read
    rw [classDecl?] at read
    split at read
    case isTrue isClass => exact ⟨statement, .plain isClass, (Option.some.inj read).symm⟩
    case isFalse =>
      split at read
      case isFalse => cases read
      case isTrue isDecorated =>
        obtain ⟨definition, isDefinition, read⟩ := Option.bind_eq_some_iff.mp read
        obtain ⟨isClass, same⟩ := Option.ite_none_right_eq_some.mp read
        exact ⟨definition, .decorated isDecorated isDefinition isClass, (Option.some.inj same).symm⟩
  · rintro ⟨definition, declares, rfl⟩
    cases declares with
    | plain isClass => rw [classDecl?, if_pos isClass]
    | decorated isDecorated isDefinition isClass =>
      have noClass : ¬ statement.is "class_definition" = true := fun isClass =>
        absurd (is_unique isDecorated isClass) (by decide)
      rw [classDecl?, if_neg noClass, if_pos isDecorated, isDefinition]
      exact if_pos isClass

/-- The statements of a class body. -/
def statements (definition : Node) : List Node := ((definition.child? "body").map parts).getD []

/-! ### Dictionaries -/

/-- A pair of a dictionary whose key is a string literal without replacement fields. -/
inductive Enters : Node → String × Expr → Prop
  | mk {pair key value : Node} {content : String} :
    pair.children.find? (fun c => c.field == some "key" && c.is "string") = some key →
    pair.children.find? (fun c => c.field == some "value" && c.named) = some value →
    key.content? = some content → Enters pair (content, Expr.ofNode value)

theorem entry?_eq_some_iff {pair : Node} {entry : String × Expr} :
    pair.entry? = some entry ↔ Enters pair entry := by
  constructor
  · intro read
    obtain ⟨key, isKey, read⟩ := Option.bind_eq_some_iff.mp read
    obtain ⟨value, isValue, read⟩ := Option.bind_eq_some_iff.mp read
    obtain ⟨content, isContent, same⟩ := Option.bind_eq_some_iff.mp read
    obtain rfl := Option.some.inj same
    exact .mk isKey isValue isContent
  · rintro ⟨isKey, isValue, isContent⟩
    unfold entry?
    simp [isKey, isValue, isContent]

/-- The pairs of the dictionaries that a statement consists of. -/
def pairs (statement : Node) : List Node :=
  if statement.is "expression_statement" then
    (statement.children.filter (·.is "dictionary")).flatMap fun d => d.children.filter (·.is "pair")
  else []

theorem entries_eq : entries = fun statement => statement.pairs.filterMap entry? := by
  funext statement
  rw [entries, pairs]
  split
  · rw [List.filterMap_flatMap]
  · rfl

/-! ### The last declaration of a name -/

section Last

variable {β : Type} {declares : Node → β → Prop} {name : β → String} {nodes : List Node} {b : β}

/-- One of the nodes declares `b`, and none behind it declares anything of that name. -/
def LastDeclared (declares : Node → β → Prop) (name : β → String) (nodes : List Node) (b : β) :
    Prop :=
  ∃ before node after, nodes = before ++ node :: after ∧ declares node b ∧
    ∀ later ∈ after, ∀ other, declares later other → name other ≠ name b

theorem find?_reverse_filterMap {read : Node → Option β}
    (reads : ∀ node b, read node = some b ↔ declares node b) :
    (nodes.filterMap read).reverse.find? (name · == name b) = some b ↔
      LastDeclared declares name nodes b := by
  rw [← List.filterMap_reverse, List.find?_filterMap, Option.bind_eq_some_iff]
  constructor
  · rintro ⟨node, found, isRead⟩
    obtain ⟨_, later, earlier, split, others⟩ := List.find?_eq_some_iff_append.mp found
    refine ⟨earlier.reverse, node, later.reverse, ?_, (reads node b).mp isRead, ?_⟩
    · rw [← List.reverse_reverse nodes, split]
      simp
    · intro next behind other declared same
      have missed := others next (List.mem_reverse.mp behind)
      simp [(reads next other).mpr declared, same] at missed
  · rintro ⟨before, node, after, rfl, declared, others⟩
    refine ⟨node, List.find?_eq_some_iff_append.mpr ⟨by simp [(reads node b).mpr declared],
      after.reverse, before.reverse, by simp, fun next behind => ?_⟩, (reads node b).mpr declared⟩
    cases isRead : read next with
    | none => rfl
    | some other =>
      have differs := others next (List.mem_reverse.mp behind) other ((reads next other).mp isRead)
      simpa using differs

end Last

end Node

/-! ### Sources -/

/-- The statements of a module. -/
def Node.top (root : Node) : List Node := if root.is "module" then root.children else []

theorem Contents.ofNode_eq (root : Node) :
    ofNode root = ⟨root.top.filterMap Node.classDecl?, root.top.flatMap Node.entries⟩ := by
  rw [ofNode, Node.top]
  split <;> rfl

/-- The statements at the top of a text. -/
def topStatements (text : String) : List Node :=
  (Node.ofTree Parse.sourceAutomaton.grammar none none
    (Parse.treeOf Parse.sourceAutomaton text.toList)).top

theorem contents_parse (path text : String) : (SourceFile.parse path text).contents =
    ⟨(topStatements text).filterMap Node.classDecl?, (topStatements text).flatMap Node.entries⟩ := by
  rw [SourceFile.parse, Contents.ofSource, Contents.ofNode_eq, topStatements]

/-- The classes of a text are those that the statements at its top define. -/
theorem mem_classes_parse {path text : String} {c : ClassDecl} :
    c ∈ (SourceFile.parse path text).classes ↔ ∃ statement ∈ topStatements text, ∃ definition,
      Node.Declares statement definition ∧ c = definition.classDecl := by
  rw [SourceFile.classes, contents_parse]
  simp only [List.mem_filterMap, Node.classDecl?_eq_some_iff]

/-- The entries of a text are the pairs of the statements at its top. -/
theorem manifestEntries_parse (path text : String) :
    (SourceFile.parse path text).manifestEntries =
      ((topStatements text).flatMap Node.pairs).filterMap Node.entry? := by
  rw [SourceFile.manifestEntries, contents_parse, List.filterMap_flatMap, Node.entries_eq]

end ModelAtlas.Source
