import ModelAtlas.Source.Grammar.Rule

/-!
# Productions

A grammar as a table: terminals and nonterminals are numbered, terminals first, and every rule is
written out into productions, one for each way to go through its alternatives. Each repeated body
becomes a nonterminal of its own, shared by the rules that repeat it.
-/

namespace ModelAtlas.Source.Grammar

/-- One symbol of a production, and what the rule says at its place. -/
structure Step where
  symbol : Nat
  level : Option Int := none
  side : Option Side := none
  guise : Option Guise := none
  field : Option Field := none
deriving BEq, Repr

structure Production where
  steps : List Step
  dynamic : Int := 0
deriving BEq, Repr

structure Nonterminal where
  kind : String
  /-- Whether it stands for a repeated body. -/
  repeated : Bool := false
  /-- Whether it has nodes. -/
  shown : Bool := true
deriving Repr

namespace Nonterminal

/-- A rule's nonterminal. Kinds that start with `_` have no nodes. -/
def ofDefinition (g : RuleBook) (d : Definition) : Nonterminal :=
  { kind := d.kind, shown := d.kind.toList.head? != some '_' && !g.groups.contains d.name }

def ofBody : Nonterminal := { kind := "", repeated := true, shown := false }

end Nonterminal

/-- A production, by the place of its nonterminal among all nonterminals and its own place among the
productions that make it. -/
structure Way where
  nonterminal : Nat
  choice : Nat
deriving DecidableEq, Hashable, Repr

namespace Way

def symbol (w : Way) : Nat := Terminal.count + w.nonterminal

/-- Whether a production is listed before another or is the same. -/
def le (a b : Way) : Bool :=
  a.nonterminal < b.nonterminal || (a.nonterminal = b.nonterminal && a.choice ≤ b.choice)

end Way

structure Productions where
  nonterminals : Array Nonterminal
  /-- The productions of each nonterminal. The last ones make nothing: it is the start alone. -/
  rows : Array (List Production)
deriving Repr

/-! ### Numbering -/

namespace RuleName

/-- Rules have the numbers behind all terminals. -/
def number (name : RuleName) : Nat := Terminal.count + name.ctorIdx

def count : Nat := 138

end RuleName

/-- The repeated bodies of a rule, inner ones first. -/
def Rule.bodies : Rule → List Rule
  | .blank | .ref _ | .terminal _ => []
  | .seq a b | .alt a b => a.bodies ++ b.bodies
  | .many1 r => r.bodies ++ [r]
  | .field _ r | .as _ r | .level _ _ r | .dynamic _ r => r.bodies

/-- The repeated bodies of a grammar. -/
def RuleBook.bodies (g : RuleBook) : List Rule :=
  (g.definitions.flatMap fun d => d.body.bodies).eraseDups

/-- The number of a repeated body, behind all rules. -/
def bodyNumber (bodies : List Rule) (body : Rule) : Nat :=
  Terminal.count + RuleName.count + bodies.idxOf body

/-! ### Writing out -/

namespace Rule

/-- The ways to go through a rule's alternatives. -/
def choices : Rule → List Rule
  | .blank => [.blank]
  | .terminal t => [.terminal t]
  | .ref name => [.ref name]
  | .many1 r => [.many1 r]
  | .alt a b => a.choices ++ b.choices
  | .seq a b => a.choices.flatMap fun x => b.choices.map (.seq x)
  | .field f r => r.choices.map (.field f)
  | .as guise r => r.choices.map (.as guise)
  | .level n side r => r.choices.map (.level n side)
  | .dynamic n r => r.choices.map (.dynamic n)

/-- The dynamic level of a choice: the one farthest from zero. -/
def dynamicLevel : Rule → Int
  | .blank | .terminal _ | .ref _ | .many1 _ => 0
  | .alt a b | .seq a b =>
    if a.dynamicLevel.natAbs < b.dynamicLevel.natAbs then b.dynamicLevel else a.dynamicLevel
  | .field _ r | .as _ r | .level _ _ r => r.dynamicLevel
  | .dynamic n r =>
    if n.natAbs < r.dynamicLevel.natAbs then r.dynamicLevel else n

/-- Changes the last of some steps. -/
def changeLast (f : Step → Step) : List Step → List Step
  | [] => []
  | [s] => [f s]
  | s :: rest => s :: changeLast f rest

/-- The steps of a choice. `outer` holds what the rules around it say; the last step before the end
of a level takes the level around it, unless the production ends there too. -/
def steps (bodies : List Rule) (outer : Step) (atEnd : Bool) : Rule → List Step
  | .blank | .alt _ _ => []
  | .terminal t => [{ outer with symbol := t.number }]
  | .ref name => [{ outer with symbol := name.number }]
  | .many1 r => [{ outer with symbol := bodyNumber bodies r }]
  | .seq a b => a.steps bodies outer false ++ b.steps bodies outer atEnd
  | .field f r => r.steps bodies { outer with field := some f } atEnd
  | .as guise r => r.steps bodies { outer with guise := some guise } atEnd
  | .dynamic _ r => r.steps bodies outer atEnd
  | .level n side r =>
    let inner := r.steps bodies { outer with level := some n, side := side.or outer.side } atEnd
    if atEnd then inner
    else inner |> changeLast fun s =>
      { s with level := outer.level, side := if side.isSome then outer.side else s.side }

/-- The productions of a rule. -/
def productions (bodies : List Rule) (r : Rule) : List Production :=
  (r.choices.map fun c =>
    { steps := c.steps bodies { symbol := 0 } true, dynamic := c.dynamicLevel : Production }).eraseDups

end Rule

/-! ### Inlining -/

namespace Production

/-- Puts another production in place of the step at an index. -/
def expand (p : Production) (index : Nat) (place : Step) (q : Production) : Production :=
  let marked := q.steps.map fun s =>
    { s with guise := place.guise.or s.guise, field := place.field.or s.field }
  let inserted := marked |> Rule.changeLast fun s =>
    { s with level := s.level.or place.level, side := s.side.or place.side }
  { steps := p.steps.take index ++ inserted ++ p.steps.drop (index + 1)
    dynamic := if p.dynamic.natAbs < q.dynamic.natAbs then q.dynamic else p.dynamic }

/-- Replaces inlined nonterminals, at most `fuel` of them one inside the other. -/
def inline (productionsOf : Nat → List Production) (isInlined : Nat → Bool) :
    Nat → Production → List Production
  | 0, p => [p]
  | fuel + 1, p =>
    match p.steps.findIdx? fun s => isInlined s.symbol with
    | none => [p]
    | some index =>
      match p.steps[index]? with
      | none => [p]
      | some place =>
        (productionsOf place.symbol).flatMap fun q =>
          (p.expand index place q).inline productionsOf isInlined fuel

end Production

namespace Productions

/-- How many inlined nonterminals a production may lead through. -/
def inlineLimit : Nat := 16

def ofRules (g : RuleBook) : Productions :=
  let bodies := g.bodies
  let named := g.definitions.map fun d => d.body.productions bodies
  let repeated := bodies.map fun body =>
    let again : Step := { symbol := bodyNumber bodies body }
    { steps := [again, again] } :: body.productions bodies
  let all := named ++ repeated
  let productionsOf (symbol : Nat) := all[symbol - Terminal.count]?.getD []
  let inlined := g.inlined.map RuleName.number
  let written := all.map fun ps =>
    (ps.flatMap (·.inline productionsOf inlined.contains inlineLimit)).eraseDups
  { nonterminals :=
      (g.definitions.map (Nonterminal.ofDefinition g) ++ bodies.map fun _ => Nonterminal.ofBody).toArray
    rows := (written ++ [[{ steps := [{ symbol := g.start.number }] : Production }]]).toArray }

/-- How many symbols there are, the one that the start alone stands for included. -/
def symbolCount (g : Productions) : Nat := Terminal.count + g.rows.size

/-- The production that is the start alone. -/
def startWay (g : Productions) : Way := ⟨g.rows.size - 1, 0⟩

def production? (g : Productions) (w : Way) : Option Production := do
  (← g.rows[w.nonterminal]?)[w.choice]?

def stepAt? (g : Productions) (w : Way) (dot : Nat) : Option Step := do
  (← g.production? w).steps[dot]?

def nonterminal? (g : Productions) (symbol : Nat) : Option Nonterminal :=
  g.nonterminals[symbol - Terminal.count]?

/-- Whether a symbol stands for a repeated body. -/
def isRepeated (g : Productions) (symbol : Nat) : Bool :=
  match Terminal.ofNumber? symbol with
  | some _ => false
  | none => (g.nonterminal? symbol).any (·.repeated)

/-- Whether a symbol appears in the tree. -/
def isShown (g : Productions) (symbol : Nat) : Bool :=
  match Terminal.ofNumber? symbol with
  | some t => t.form.shown
  | none => (g.nonterminal? symbol).any (·.shown)

/-- Whether nodes of a symbol count as named. -/
def isNamed (symbol : Nat) : Bool := (Terminal.ofNumber? symbol).all (·.form.named)

def kindOf (g : Productions) (symbol : Nat) : String :=
  match Terminal.ofNumber? symbol with
  | some t => t.form.kind
  | none => ((g.nonterminal? symbol).map (·.kind)).getD ""

end Productions

end ModelAtlas.Source.Grammar
