import ModelAtlas.Proofs.Source.Plain.Nodes

/-!
# Declarations of plain nodes

What the nodes of plain sources declare: the nodes of values give their expressions, those of rows
attributes, and the node of a class its declaration.
-/

namespace ModelAtlas.Source

open Grammar (Terminal)

namespace Node

variable (kind : String) (named : Bool) (field : Option String) (start : Cursor) (stop : Mark)
variable (children : List Node) (n : Node)

@[simp] theorem kind_mk : (mk kind named field start stop children).kind = kind := rfl
@[simp] theorem named_mk : (mk kind named field start stop children).named = named := rfl
@[simp] theorem field_mk : (mk kind named field start stop children).field = field := rfl
@[simp] theorem children_mk : (mk kind named field start stop children).children = children := rfl

@[simp] theorem text_under : (n.under field).text = n.text := by cases n; rfl
@[simp] theorem range_under : (n.under field).range = n.range := by cases n; rfl
@[simp] theorem parts_under : (n.under field).parts = n.parts := by cases n; rfl

theorem field_under (unnamed : n.field = none) : (n.under field).field = field := by
  cases n
  simp_all [under, Node.field]

end Node

theorem Token.text_node (terminal : Terminal) (m : Mark) (s rest : List Char) (field : Option String) :
    ((Token.spelling terminal m s rest).node field).text = String.ofList s :=
  Cursor.textUpTo_past m s rest

namespace Plain

/-! ### Values -/

section Values

variable (field : Option String) (m : Mark) (rest : List Char)

theorem content?_stringNode (s : List Char) :
    (stringNode field m s rest).content? = some (String.ofList s) := by
  let opening := Token.spelling .stringStart m ['\''] (s ++ '\'' :: rest)
  let text := Token.spelling .stringText (past m ['\'']) s ('\'' :: rest)
  let closing := Token.spelling .stringEnd (past (past m ['\'']) s) ['\''] rest
  let content := Node.mk "string_content" true none text.start text.stop.mark []
  have first : opening.node.text = "'" := Token.text_node _ m ['\''] _ none
  have second : content.text = String.ofList s := Cursor.textUpTo_past (past m ['\'']) s ('\'' :: rest)
  have kinds : opening.node.kind = "string_start" ∧ content.kind = "string_content" ∧
      closing.node.kind = "string_end" := ⟨rfl, rfl, rfl⟩
  have made : stringNode field m s rest = .mk "string" true field opening.start closing.stop.mark
      (opening.node :: (if s.isEmpty then [] else [content]) ++ [closing.node]) := rfl
  rw [made]
  generalize opening.node = opens at first kinds
  generalize closing.node = closes at kinds
  generalize content = inside at second kinds
  cases s with
  | nil => simp [Node.content?, kinds, first]
  | cons c s => simp [Node.content?, kinds, first, second]

theorem read_stringNode (fuel : Nat) (s : List Char) :
    Expr.read (fuel + 1) (stringNode field m s rest) = .str (String.ofList s) := by
  have isString : (stringNode field m s rest).is "string" = true := rfl
  rw [Expr.read, if_pos isString, content?_stringNode]

theorem callee_qualifiedNode (qualifier name : List Char) :
    (qualifiedNode field m qualifier name rest).callee =
      .qualified (String.ofList qualifier) (String.ofList name) := by
  have object : ((Token.spelling .identifier m qualifier ('.' :: (name ++ rest))).node "object").text =
      String.ofList qualifier := Token.text_node ..
  have member : ((Token.spelling .identifier (past (past m qualifier) ['.']) name rest).node
      "attribute").text = String.ofList name := Token.text_node ..
  have notName : (qualifiedNode field m qualifier name rest).is "identifier" = false := rfl
  have isAttribute : (qualifiedNode field m qualifier name rest).is "attribute" = true := rfl
  rw [Node.callee, notName, isAttribute, ← object, ← member]
  rfl

theorem read_callNode (fuel : Nat) (qualifier name : List Char) :
    Expr.read (fuel + 1) (callNode field m qualifier name rest) =
      .call ⟨.qualified (String.ofList qualifier) (String.ofList name), [], []⟩ := by
  rw [← callee_qualifiedNode (some "function") m ('(' :: ')' :: rest) qualifier name]
  rfl

/-- The elements of a list are those of its nodes that are named. -/
theorem read_elementNodes (fuel : Nat) (contents : List (List Char)) :
    (((elementNodes m rest contents).filter (·.named)).filter (!·.is "comment")).map
      (Expr.read (fuel + 1)) = contents.map fun s => .str (String.ofList s) := by
  have isElement (m : Mark) (s rest : List Char) : (stringNode none m s rest).named = true ∧
      (!(stringNode none m s rest).is "comment") = true := ⟨rfl, rfl⟩
  have isComma (m : Mark) (rest : List Char) : (Token.spelling .comma m [','] rest).node.named = false :=
    rfl
  induction contents using enumerated.induct generalizing m with
  | case1 => rfl
  | case2 s => simp [elementNodes, isElement, read_stringNode]
  | case3 s others some ih =>
    obtain ⟨next, others, rfl⟩ := List.exists_cons_of_ne_nil some
    simpa [elementNodes, isElement, isComma, read_stringNode] using
      ih (past (past m (quoted s)) [',', ' '])

theorem depthOf_pos {nodes : List Node} (some : nodes ≠ []) : 0 < Node.depthOf nodes := by
  obtain ⟨n, nodes, rfl⟩ := List.exists_cons_of_ne_nil some
  cases n
  rw [Node.depthOf, Node.depth]
  omega

theorem read_listNode {fuel : Nat} (deep : 0 < fuel) (contents : List (List Char)) :
    Expr.read (fuel + 1) (listNode field m contents rest) =
      .list (contents.map fun s => .str (String.ofList s)) := by
  obtain ⟨fuel, rfl⟩ := Nat.exists_eq_add_one.mpr deep
  have parts : (listNode field m contents rest).parts =
      ((elementNodes (past m ['[']) (']' :: rest) contents).filter (·.named)).filter
        (!·.is "comment") := by
    simp only [Node.parts, Node.namedChildren]
    congr 1
    have opening (rest : List Char) :
        (Token.spelling .openBracket m ['['] rest).node.named = false := rfl
    have closing (m : Mark) (rest : List Char) :
        (Token.spelling .closeBracket m [']'] rest).node.named = false := rfl
    simp [listNode, opening, closing]
  rw [← read_elementNodes (past m ['[']) (']' :: rest), ← parts]
  rfl

/-- The node of a value is read as the expression that the value is. -/
theorem ofNode_node (v : Value) : Expr.ofNode (v.node field m rest) = v.expr := by
  cases v with
  | str content => exact read_stringNode field m rest _ content
  | call qualifier name => exact read_callNode field m rest _ qualifier name
  | list contents =>
    exact read_listNode field m rest (depthOf_pos (List.cons_ne_nil _ _)) contents

end Values

/-! ### Rows -/

section Rows

variable (m : Mark)

/-- The node of an assignment declares an attribute. -/
theorem attribute?_node (x : Assignment) (rest : List Char) :
    (x.node m rest).attribute? =
      some ⟨String.ofList x.name, x.value.expr, ⟨m.position, (past m x.spell).position⟩⟩ := by
  let name := Token.spelling .identifier m x.name (" = ".toList ++ (x.value.spell ++ rest))
  let value := x.value.node (some "right") (past (past m x.name) " = ".toList) rest
  have read : (x.node m rest).attribute? = some
      ⟨(name.node "left").text, Expr.ofNode value, ⟨m.position, (past m x.spell).position⟩⟩ := by
    obtain ⟨_, v⟩ := x
    cases v <;> rfl
  have text : (name.node "left").text = String.ofList x.name := Token.text_node ..
  rw [read, ofNode_node, text]

variable (more : List Char)

theorem attributes_rowNodes (as : List Assignment) :
    (rowNodes m more as).filterMap Node.attribute? = (declareRows m (past m ['\n']) as).1 ∧
      endOfRows m as = (declareRows m (past m ['\n']) as).2 := by
  suffices ∀ stop, (rowNodes m more as).filterMap Node.attribute? =
      (declareRows stop (past m ['\n']) as).1 ∧
      (as ≠ [] ∨ stop = m → endOfRows m as = (declareRows stop (past m ['\n']) as).2) from
    ⟨(this m).1, (this m).2 (.inr rfl)⟩
  induction as generalizing m with
  | nil => exact fun stop => ⟨rfl, by simp [endOfRows, declareRows, eq_comm]⟩
  | cons x as ih =>
    intro stop
    obtain ⟨attributes, last⟩ := ih (past (past m ['\n', '\t']) x.spell)
      (past (past m ['\n', '\t']) x.spell)
    rw [rowNodes, List.filterMap_cons_some (attribute?_node _ x _), attributes]
    exact ⟨rfl, fun _ => last (.inr rfl)⟩

theorem parts_rowNodes (as : List Assignment) :
    ((rowNodes m more as).filter (·.named)).filter (!·.is "comment") = rowNodes m more as := by
  have isRow (m : Mark) (x : Assignment) (rest : List Char) : (x.node m rest).named = true ∧
      (!(x.node m rest).is "comment") = true := ⟨rfl, rfl⟩
  induction as generalizing m with
  | nil => rfl
  | cons x as ih => simpa [rowNodes, isRow] using ih (past (past m ['\n', '\t']) x.spell)

/-- Plain rows define no functions. -/
theorem functions_rowNodes (as : List Assignment) :
    (rowNodes m more as).filterMap Node.function? = [] := by
  have isRow (m : Mark) (x : Assignment) (rest : List Char) : (x.node m rest).function? = none := rfl
  induction as generalizing m with
  | nil => rfl
  | cons x as ih => rw [rowNodes, List.filterMap_cons_none (isRow ..), ih]

/-- The body of a plain class starts with no docstring. -/
theorem docstring_rowNodes (as : List Assignment) {body : Node}
    (parts : body.parts = rowNodes m more as) :
    body.docstring = none := by
  rw [Node.docstring, parts]
  cases as with
  | nil => rfl
  | cons x as => rfl

end Rows

/-! ### Classes -/

/-- The node of a class, made of its parts. -/
def classNode (keyword name superclasses colon indent rows dedent : Part) : Node :=
  .mk "class_definition" true none keyword.start dedent.stop.mark
    (keyword.nodes ++ (name.nodes.map (.under "name") ++
      (superclasses.nodes.map (.under "superclasses") ++ (colon.nodes ++
        (indent.nodes.map (.under "body") ++
          [.mk "block" true "body" rows.start dedent.stop.mark (rows.nodes ++ dedent.nodes)])))))

/-- What the parts of a class header show, for a class at a mark. -/
structure IsHeader (c : Class) (m : Mark) (keyword name superclasses colon indent : Part) : Prop where
  start : keyword.start.mark = m
  keyword : ∃ n, keyword.nodes = [n] ∧ n.field = none
  name : ∃ n, name.nodes = [n] ∧ n.field = none ∧ n.text = String.ofList c.name ∧
    n.range = ⟨(past m "class ".toList).position, (past (past m "class ".toList) c.name).position⟩
  superclasses : ∃ n, superclasses.nodes = [n] ∧ n.field = none ∧
    (n.parts.filter (!·.is "keyword_argument")).map Node.base =
      [.qualified (String.ofList c.qualifier) (String.ofList c.base)]
  colon : ∃ n, colon.nodes = [n] ∧ n.field = none
  indent : indent.nodes = []

/-- The node of a class declares what the class does. -/
theorem classDecl_classNode {c : Class} {m : Mark}
    {keyword name superclasses colon indent rows dedent : Part}
    (header : IsHeader c m keyword name superclasses colon indent) {more : List Char}
    (body : rows.nodes ++ dedent.nodes =
      rowNodes (past (past m "class ".toList) c.heading) more c.assignments)
    (stop : dedent.stop.mark = endOfRows (past (past m "class ".toList) c.heading) c.assignments) :
    (classNode keyword name superclasses colon indent rows dedent).classDecl = c.declare m := by
  obtain ⟨start, ⟨k, isKeyword, kField⟩, ⟨n, isName, nField, text, range⟩,
    ⟨s, isSuper, sField, bases⟩, ⟨x, isColon, xField⟩, isIndent⟩ := header
  let block : Node := .mk "block" true "body" rows.start dedent.stop.mark (rows.nodes ++ dedent.nodes)
  have children : (classNode keyword name superclasses colon indent rows dedent).children =
      [k, n.under "name", s.under "superclasses", x, block] := by
    simp [classNode, isKeyword, isName, isSuper, isColon, isIndent, block]
  generalize made : classNode keyword name superclasses colon indent rows dedent = node at children
  have isBody : node.child? "body" = some block := by
    simp [Node.child?, children, kField, xField, Node.field_under, nField, sField, block]
  have isName : node.child? "name" = some (n.under "name") := by
    simp [Node.child?, children, kField, Node.field_under, nField]
  have isBases : node.child? "superclasses" = some (s.under "superclasses") := by
    simp [Node.child?, children, kField, Node.field_under, nField, sField]
  have parts : block.parts = rowNodes (past (past m "class ".toList) c.heading) more c.assignments := by
    rw [← parts_rowNodes, ← body]
    rfl
  have span : node.span = ⟨m, endOfRows (past (past m "class ".toList) c.heading) c.assignments⟩ := by
    rw [← made, ← stop]
    exact congrArg (Span.mk · _) start
  obtain ⟨attributes, last⟩ :=
    attributes_rowNodes (past (past m "class ".toList) c.heading) more c.assignments
  rw [Node.classDecl, isBody, isName, isBases, span]
  simp only [Option.map_some, Option.getD_some, Option.bind_some, parts, attributes, last,
    functions_rowNodes, docstring_rowNodes _ _ _ parts, Node.text_under, text, Node.range_under, range,
    Node.parts_under, bases]
  rfl

end Plain

end ModelAtlas.Source
