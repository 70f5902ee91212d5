import ModelAtlas.Proofs.Source.Plain.Declarations
import ModelAtlas.Proofs.Source.Plain.Rows

/-!
# Reading plain class headers

Behind its keyword, the header of a class is read in one go up to the indentation of its body.
-/

namespace ModelAtlas.Source

open Grammar (Terminal RuleName Automaton Forest)
open Grammar.Plain
open Parse Plain

section Headings

variable {a : Automaton} {start : Cursor} {m : Mark} {rest : List Char} {prior : List Part}
variable {c : Plain.Class}

/-- The tokens of a class header behind the keyword, and the indentation of the body. -/
def headingLexemes (c : Plain.Class) : List Lexeme :=
  [⟨.space, .identifier, c.name⟩, ⟨.none, .openParen, ['(']⟩, ⟨.none, .identifier, c.qualifier⟩,
    ⟨.none, .dot, ['.']⟩, ⟨.none, .identifier, c.base⟩, ⟨.none, .closeParen, [')']⟩,
    ⟨.none, .colon, [':']⟩, ⟨.none, .indent, []⟩]

theorem spell_headingLexemes (c : Plain.Class) (rest : List Char) :
    Lexeme.spell (headingLexemes c) rest = ' ' :: (c.heading ++ rest) := by
  simp [headingLexemes, Lexeme.spell, Gap.chars, Class.heading]

theorem stand_heading (name : isName c.name) (qualifier : isName c.qualifier) (base : isName c.base)
    (next : NextRow rest 8) : Lexeme.Stand {} (headingLexemes c) rest rowLayout :=
  .name rfl nofun name rfl (by decide) <|
  .sign (.openParen, '(') rfl rfl (by decide) (endsSign_name qualifier _) <|
  .name rfl nofun qualifier rfl (by decide) <|
  .sign (.dot, '.') rfl rfl (by decide) (endsSign_name base _) <|
  .name rfl nofun base rfl (by decide) <|
  .sign (.closeParen, ')') rfl rfl (by decide) rfl <|
  .sign (.colon, ':') rfl rfl (by decide) next.endsSign <|
  Lexeme.Stand.cons (fun _ => .nil) fun _ => .indent rfl next (by decide)

/-- The keyword that begins a class. -/
def keywordToken (m : Mark) (c : Plain.Class) (rest : List Char) : Token :=
  .spelling .classWord m "class".toList (' ' :: (c.heading ++ rest))

/-- The base of a class is the one part of the parentheses in its header. -/
theorem superclasses_heading (isSource : a.tables = sourceTables) (here : Mark) (c : Plain.Class)
    (rest : List Char) :
    ∃ n, forestNodes a.grammar (slotsOf a.grammar [] (Lexeme.tokens here (headingLexemes c) rest))
        (.ofRule .argumentList none 1 5 [.ofSlot 1, .ofRule .attributeAccess none 2 4
          [.ofSlot 2 (some .object), .ofSlot 3, .ofSlot 4 (some .member)], .ofSlot 5]) = [n] ∧
      n.field = none ∧ (n.parts.filter (!·.is "keyword_argument")).map Node.base =
        [.qualified (String.ofList c.qualifier) (String.ofList c.base)] := by
  let opening := Token.spelling .openParen (past (past here [' ']) c.name) ['(']
    (c.qualifier ++ '.' :: (c.base ++ ')' :: ':' :: rest))
  let closing := Token.spelling .closeParen
    (past (past (past opening.stop.mark c.qualifier) ['.']) c.base) [')'] (':' :: rest)
  let base := qualifiedNode none opening.stop.mark c.qualifier c.base (')' :: ':' :: rest)
  refine ⟨.mk "argument_list" true none opening.start closing.stop.mark
    [opening.node, base, closing.node], ?_, rfl, ?_⟩
  · simp only [forestNodes_ofRule, List.flatMap_cons, List.flatMap_nil, forestNodes_ofSlot,
      kindOf_rule (grammar_eq isSource)]
    rfl
  · have qualified : base.base = .qualified (String.ofList c.qualifier) (String.ofList c.base) := by
      have callee := callee_qualifiedNode none opening.stop.mark (')' :: ':' :: rest) c.qualifier c.base
      have notCall : base.is "call" = false := rfl
      rw [Node.base, notCall, callee]
      rfl
    rw [← qualified]
    rfl

theorem covers_heading (isSource : a.tables = sourceTables)
    (isBase : reachedState a (.ofToken a.grammar (keywordToken m c rest) :: prior) =
      Grammar.stateAfter a.tables a.startState [Terminal.classWord.number])
    (name : isName c.name) (qualifier : isName c.qualifier) (base : isName c.base)
    (next : NextRow rest 8) :
    ∃ name superclasses colon indent : Part,
      [name, superclasses, colon, indent].map (·.symbol) = [Terminal.identifier.number,
        RuleName.argumentList.number, Terminal.colon.number, Terminal.indent.number] ∧
      IsHeader c m (.ofToken a.grammar (keywordToken m c rest)) name superclasses colon indent ∧
      indent.stop = ⟨past (past m "class ".toList) c.heading, rest⟩ ∧
      Covers a start 8 (.ofToken a.grammar (keywordToken m c rest) :: prior) {}
        (indent :: colon :: superclasses :: name :: .ofToken a.grammar (keywordToken m c rest) ::
          prior) rowLayout := by
  have listed : Grammar.Plain.heading ∈ phrases := by simp [phrases]
  let here := past m "class".toList
  have behind : past here [' '] = past m "class ".toList := rfl
  have covers := (stand_heading name qualifier base next).covers start (holds_of_mem isSource listed)
    rfl isBase [] rfl here (congrArg (Cursor.mk here) (spell_headingLexemes c rest).symm) rfl
    (Nat.le_refl 8)
  have ends : Lexeme.behind here (headingLexemes c) = past (past here [' ']) c.heading := by
    rw [Lexeme.behind_eq, spell_headingLexemes, List.append_nil]
    rfl
  rw [behind] at ends
  have starts : (Part.ofToken a.grammar (keywordToken m c rest)).start.mark = m := rfl
  generalize here = here at *
  refine ⟨_, _, _, _, rfl, ⟨starts, ⟨_, rfl, rfl⟩, ⟨_, rfl, rfl, Token.text_node .., ?_⟩,
    superclasses_heading isSource here c rest, ⟨_, rfl, rfl⟩, rfl⟩, ?_, covers⟩
  · rw [← behind]
    rfl
  · rw [← ends]
    rfl

end Headings

end ModelAtlas.Source
