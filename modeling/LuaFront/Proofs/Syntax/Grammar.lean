import LuaFront.Syntax.Reading.Expression
import Mathlib.Logic.Relation

/-!
# LuaFront.Proofs.Syntax.Grammar

The grammar of Lua 5.4, as a relation between syntax trees and tokens.

`Derives p i o`: the tokens `i` start with a phrase that `p` is a derivation of, and `o` is what
follows it. A tree stores everything of a phrase but some punctuation: semicolons after
statements, the separator after a field, the brackets around arguments. Spans are free except
those of names and literals, which are the spans of their tokens. Operators associate in any
way; which of the derivations the parser chooses is not said here.

The grammar is ambiguous in one place: `f` on one line and `(g)()` on the next. A parenthesis, a
string or a brace behind a prefix expression always continues it, so nothing of that kind may
follow an expression or a call that ends in one (`Closed`).
-/

namespace LuaFront
namespace Syntax
namespace Grammar

/-- A token of a kind. -/
inductive Terminal (k : Kind) : List Token → List Token → Prop where
  | mk {t : Token} {o : List Token} : t.kind = k → Terminal k (t :: o) o

/-- An identifier. -/
inductive Word : Name → List Token → List Token → Prop where
  | mk {t : Token} {o : List Token} : t.kind = .name → Word ⟨t.name, t.span⟩ (t :: o) o

/-- Whether a kind of token writes a literal. -/
def isLiteral : Kind → Bool
  | .keyword .nil | .keyword .«true» | .keyword .«false» | .integer | .float | .string => true
  | _ => false

/-- Whether a kind of token starts the arguments of a call. -/
def opensArguments : Kind → Bool
  | .sign .openParenthesis | .string | .sign .openBrace => true
  | _ => false

/-- Whether a kind of token starts a prefix expression. -/
def startsPrefix : Kind → Bool
  | .name | .sign .openParenthesis => true
  | _ => false

/-- A prefix expression may end before these tokens. -/
def Closed (o : List Token) : Prop := ∀ t ∈ o.head?, opensArguments t.kind = false

/-- Any number of items. -/
inductive Repeated {α : Type} (item : α → List Token → List Token → Prop) :
    List α → List Token → List Token → Prop where
  | nil {o : List Token} : Repeated item [] o o
  | cons {a : α} {as : List α} {i m o : List Token} : item a i m → Repeated item as m o →
      Repeated item (a :: as) i o

/-- Any number of items, each behind a separator. -/
def Following {α : Type} (separator : Kind) (item : α → List Token → List Token → Prop) :
    List α → List Token → List Token → Prop :=
  Repeated fun a => Relation.Comp (Terminal separator) (item a)

/-- One or more items with separators between them. -/
def Separated {α : Type} (separator : Kind) (item : α → List Token → List Token → Prop) :
    List α → List Token → List Token → Prop
  | [] => fun _ _ => False
  | a :: as => Relation.Comp (item a) (Following separator item as)

theorem Repeated.snoc {α : Type} {item : α → List Token → List Token → Prop} {as : List α} {a : α}
    {i m o : List Token} (h : Repeated item as i m) (ha : item a m o) :
    Repeated item (as ++ [a]) i o := by
  induction h with
  | nil => exact .cons ha .nil
  | cons hb _ ih => exact .cons hb (ih ha)

/-- Parameters: names, three dots, or names and then three dots. -/
inductive Parameters : List Name → Bool → List Token → List Token → Prop where
  | last {n : Name} {i o : List Token} : Word n i o → Parameters [n] false i o
  | dots {i o : List Token} : Terminal (.sign .dotDotDot) i o → Parameters [] true i o
  | more {n : Name} {ns : List Name} {vararg : Bool} {i m m' o : List Token} : Word n i m →
      Terminal (.sign .comma) m m' → Parameters ns vararg m' o → Parameters (n :: ns) vararg i o

/-- The name of a function that is declared. -/
inductive DeclaredName : FunctionName → List Token → List Token → Prop where
  | plain {path : List Name} {s : Text.Span} {i o : List Token} :
      Separated (.sign .dot) Word path i o → DeclaredName ⟨path, none, s⟩ i o
  | method {path : List Name} {n : Name} {s : Text.Span} {i m m' o : List Token} :
      Separated (.sign .dot) Word path i m → Terminal (.sign .colon) m m' → Word n m' o →
      DeclaredName ⟨path, some n, s⟩ i o

/-- A variable of a local declaration. -/
inductive Declaration : LocalDeclaration → List Token → List Token → Prop where
  | plain {n : Name} {s : Text.Span} {i o : List Token} : Word n i o → Declaration ⟨n, none, s⟩ i o
  | attributed {n a : Name} {s : Text.Span} {i m₁ m₂ m₃ o : List Token} : Word n i m₁ →
      Terminal (.sign .less) m₁ m₂ → Word a m₂ m₃ → Terminal (.sign .greater) m₃ o →
      Declaration ⟨n, some a, s⟩ i o

/-- What the productions are about. -/
inductive Phrase where
  | expression (e : Expression)
  | expressions (es : List Expression)
  /-- Expressions behind a comma each. -/
  | moreExpressions (es : List Expression)
  /-- An expression that may be indexed and called. -/
  | prefixed (e : Expression)
  | arguments (es : List Expression)
  /-- A table constructor. -/
  | table (fs : List Field)
  | fields (fs : List Field)
  | field (f : Field)
  | functionBody (f : FunctionBody)
  | block (b : Block)
  | statements (ss : List Statement)
  | statement (s : Statement)
  | target (e : Expression)
  /-- Targets behind a comma each. -/
  | moreTargets (es : List Expression)
  /-- The values that an equals sign may introduce. -/
  | initializer (es : List Expression)
  /-- The step of a loop, if there is one. -/
  | step (e : Option Expression)
  | elseIfs (es : List ElseIf)
  | otherwise (b : Option Block)
  | result (r : Return)
  /-- The values of a return, if there are any. -/
  | results (es : List Expression)

inductive Derives : Phrase → List Token → List Token → Prop where
  -- Expressions.
  | literal {t : Token} {o : List Token} : isLiteral t.kind = true →
      Derives (.expression (.literal (Read.literalOf t) t.span)) (t :: o) o
  | vararg {s : Text.Span} {i o : List Token} : Terminal (.sign .dotDotDot) i o →
      Derives (.expression (.vararg s)) i o
  | function {f : FunctionBody} {s : Text.Span} {i m o : List Token} :
      Terminal (.keyword .function) i m → Derives (.functionBody f) m o →
      Derives (.expression (.function f s)) i o
  | table {fs : List Field} {s : Text.Span} {i o : List Token} : Derives (.table fs) i o →
      Derives (.expression (.table fs s)) i o
  | prefixed {e : Expression} {i o : List Token} : Derives (.prefixed e) i o → Closed o →
      Derives (.expression e) i o
  | unary {op : UnaryOperator} {e : Expression} {s : Text.Span} {i m o : List Token} :
      Terminal op.kind i m → Derives (.expression e) m o → Derives (.expression (.unary op e s)) i o
  | binary {op : BinaryOperator} {l r : Expression} {s : Text.Span} {i m m' o : List Token} :
      Derives (.expression l) i m → Terminal op.kind m m' → Derives (.expression r) m' o →
      Derives (.expression (.binary l op r s)) i o
  | expressions {e : Expression} {es : List Expression} {i m o : List Token} :
      Derives (.expression e) i m → Derives (.moreExpressions es) m o →
      Derives (.expressions (e :: es)) i o
  | noExpressions {o : List Token} : Derives (.moreExpressions []) o o
  | moreExpressions {e : Expression} {es : List Expression} {i m m' o : List Token} :
      Terminal (.sign .comma) i m → Derives (.expression e) m m' →
      Derives (.moreExpressions es) m' o → Derives (.moreExpressions (e :: es)) i o
  -- Prefix expressions and calls.
  | name {n : Name} {i o : List Token} : Word n i o → Derives (.prefixed (.name n)) i o
  | parenthesized {e : Expression} {s : Text.Span} {i m m' o : List Token} :
      Terminal (.sign .openParenthesis) i m → Derives (.expression e) m m' →
      Terminal (.sign .closeParenthesis) m' o → Derives (.prefixed (.parenthesized e s)) i o
  | dotted {e : Expression} {n : Name} {s : Text.Span} {i m m' o : List Token} :
      Derives (.prefixed e) i m → Terminal (.sign .dot) m m' → Word n m' o →
      Derives (.prefixed (.dotted e n s)) i o
  | index {e x : Expression} {s : Text.Span} {i m₁ m₂ m₃ o : List Token} :
      Derives (.prefixed e) i m₁ → Terminal (.sign .openBracket) m₁ m₂ →
      Derives (.expression x) m₂ m₃ → Terminal (.sign .closeBracket) m₃ o →
      Derives (.prefixed (.index e x s)) i o
  | call {e : Expression} {es : List Expression} {s : Text.Span} {i m o : List Token} :
      Derives (.prefixed e) i m → Derives (.arguments es) m o →
      Derives (.prefixed (.call e none es s)) i o
  | methodCall {e : Expression} {n : Name} {es : List Expression} {s : Text.Span}
      {i m₁ m₂ m₃ o : List Token} : Derives (.prefixed e) i m₁ → Terminal (.sign .colon) m₁ m₂ →
      Word n m₂ m₃ → Derives (.arguments es) m₃ o →
      Derives (.prefixed (.call e (some n) es s)) i o
  | stringArgument {t : Token} {o : List Token} : t.kind = .string →
      Derives (.arguments [.literal (Read.literalOf t) t.span]) (t :: o) o
  | tableArgument {fs : List Field} {s : Text.Span} {i o : List Token} : Derives (.table fs) i o →
      Derives (.arguments [.table fs s]) i o
  | noArguments {i m o : List Token} : Terminal (.sign .openParenthesis) i m →
      Terminal (.sign .closeParenthesis) m o → Derives (.arguments []) i o
  | someArguments {es : List Expression} {i m m' o : List Token} :
      Terminal (.sign .openParenthesis) i m → Derives (.expressions es) m m' →
      Terminal (.sign .closeParenthesis) m' o → Derives (.arguments es) i o
  -- Tables and functions.
  | braces {fs : List Field} {i m m' o : List Token} : Terminal (.sign .openBrace) i m →
      Derives (.fields fs) m m' → Terminal (.sign .closeBrace) m' o → Derives (.table fs) i o
  | noFields {o : List Token} : Derives (.fields []) o o
  | lastField {f : Field} {i o : List Token} : Derives (.field f) i o → Derives (.fields [f]) i o
  | moreFields {f : Field} {fs : List Field} {k : Kind} {i m m' o : List Token} :
      Derives (.field f) i m → k = .sign .comma ∨ k = .sign .semicolon → Terminal k m m' →
      Derives (.fields fs) m' o → Derives (.fields (f :: fs)) i o
  | positional {e : Expression} {s : Text.Span} {i o : List Token} : Derives (.expression e) i o →
      Derives (.field (.positional e s)) i o
  | named {n : Name} {e : Expression} {s : Text.Span} {i m m' o : List Token} : Word n i m →
      Terminal (.sign .equals) m m' → Derives (.expression e) m' o →
      Derives (.field (.named n e s)) i o
  | keyed {k e : Expression} {s : Text.Span} {i m₁ m₂ m₃ m₄ o : List Token} :
      Terminal (.sign .openBracket) i m₁ → Derives (.expression k) m₁ m₂ →
      Terminal (.sign .closeBracket) m₂ m₃ → Terminal (.sign .equals) m₃ m₄ →
      Derives (.expression e) m₄ o → Derives (.field (.keyed k e s)) i o
  | niladic {b : Block} {s : Text.Span} {i m₁ m₂ m₃ o : List Token} :
      Terminal (.sign .openParenthesis) i m₁ → Terminal (.sign .closeParenthesis) m₁ m₂ →
      Derives (.block b) m₂ m₃ → Terminal (.keyword .«end») m₃ o →
      Derives (.functionBody ⟨[], false, b, s⟩) i o
  | parametric {ns : List Name} {vararg : Bool} {b : Block} {s : Text.Span}
      {i m₁ m₂ m₃ m₄ o : List Token} : Terminal (.sign .openParenthesis) i m₁ →
      Parameters ns vararg m₁ m₂ → Terminal (.sign .closeParenthesis) m₂ m₃ →
      Derives (.block b) m₃ m₄ → Terminal (.keyword .«end») m₄ o →
      Derives (.functionBody ⟨ns, vararg, b, s⟩) i o
  -- Blocks.
  | openBlock {ss : List Statement} {s : Text.Span} {i o : List Token} :
      Derives (.statements ss) i o → Derives (.block ⟨ss, none, s⟩) i o
  | returning {ss : List Statement} {r : Return} {s : Text.Span} {i m o : List Token} :
      Derives (.statements ss) i m → Derives (.result r) m o → Derives (.block ⟨ss, some r, s⟩) i o
  | noStatements {o : List Token} : Derives (.statements []) o o
  | semicolon {ss : List Statement} {i m o : List Token} : Terminal (.sign .semicolon) i m →
      Derives (.statements ss) m o → Derives (.statements ss) i o
  | moreStatements {s : Statement} {ss : List Statement} {i m o : List Token} :
      Derives (.statement s) i m → Derives (.statements ss) m o → Derives (.statements (s :: ss)) i o
  | result {es : List Expression} {s : Text.Span} {i m o : List Token} :
      Terminal (.keyword .«return») i m → Derives (.results es) m o → Derives (.result ⟨es, s⟩) i o
  | resultClosed {es : List Expression} {s : Text.Span} {i m m' o : List Token} :
      Terminal (.keyword .«return») i m → Derives (.results es) m m' →
      Terminal (.sign .semicolon) m' o → Derives (.result ⟨es, s⟩) i o
  | noResults {o : List Token} : Derives (.results []) o o
  | someResults {es : List Expression} {i o : List Token} : Derives (.expressions es) i o →
      Derives (.results es) i o
  -- Statements.
  | assign {t : Expression} {ts es : List Expression} {s : Text.Span} {i m₁ m₂ m₃ o : List Token} :
      Derives (.target t) i m₁ → Derives (.moreTargets ts) m₁ m₂ →
      Terminal (.sign .equals) m₂ m₃ → Derives (.expressions es) m₃ o →
      Derives (.statement (.assign (t :: ts) es s)) i o
  | target {e : Expression} {i o : List Token} : Derives (.prefixed e) i o →
      e.isVariable = true → Derives (.target e) i o
  | noTargets {o : List Token} : Derives (.moreTargets []) o o
  | moreTargets {e : Expression} {es : List Expression} {i m m' o : List Token} :
      Terminal (.sign .comma) i m → Derives (.target e) m m' → Derives (.moreTargets es) m' o →
      Derives (.moreTargets (e :: es)) i o
  | callStatement {e : Expression} {n : Option Name} {es : List Expression} {s s' : Text.Span}
      {i o : List Token} : Derives (.prefixed (.call e n es s)) i o → Closed o →
      Derives (.statement (.call (.call e n es s) s')) i o
  | label {n : Name} {s : Text.Span} {i m m' o : List Token} : Terminal (.sign .colonColon) i m →
      Word n m m' → Terminal (.sign .colonColon) m' o → Derives (.statement (.label n s)) i o
  | breakLoop {s : Text.Span} {i o : List Token} : Terminal (.keyword .«break») i o →
      Derives (.statement (.breakLoop s)) i o
  | goto {n : Name} {s : Text.Span} {i m o : List Token} : Terminal (.keyword .goto) i m →
      Word n m o → Derives (.statement (.goto n s)) i o
  | doBlock {b : Block} {s : Text.Span} {i m m' o : List Token} : Terminal (.keyword .«do») i m →
      Derives (.block b) m m' → Terminal (.keyword .«end») m' o →
      Derives (.statement (.doBlock b s)) i o
  | whileDo {e : Expression} {b : Block} {s : Text.Span} {i m₁ m₂ m₃ m₄ o : List Token} :
      Terminal (.keyword .«while») i m₁ → Derives (.expression e) m₁ m₂ →
      Terminal (.keyword .«do») m₂ m₃ → Derives (.block b) m₃ m₄ →
      Terminal (.keyword .«end») m₄ o → Derives (.statement (.whileDo e b s)) i o
  | repeatUntil {b : Block} {e : Expression} {s : Text.Span} {i m₁ m₂ m₃ o : List Token} :
      Terminal (.keyword .«repeat») i m₁ → Derives (.block b) m₁ m₂ →
      Terminal (.keyword .«until») m₂ m₃ → Derives (.expression e) m₃ o →
      Derives (.statement (.repeatUntil b e s)) i o
  | ifThen {e : Expression} {b : Block} {es : List ElseIf} {other : Option Block} {s : Text.Span}
      {i m₁ m₂ m₃ m₄ m₅ m₆ o : List Token} : Terminal (.keyword .«if») i m₁ →
      Derives (.expression e) m₁ m₂ → Terminal (.keyword .«then») m₂ m₃ →
      Derives (.block b) m₃ m₄ → Derives (.elseIfs es) m₄ m₅ → Derives (.otherwise other) m₅ m₆ →
      Terminal (.keyword .«end») m₆ o → Derives (.statement (.ifThen e b es other s)) i o
  | noElseIfs {o : List Token} : Derives (.elseIfs []) o o
  | moreElseIfs {e : Expression} {b : Block} {es : List ElseIf} {s : Text.Span}
      {i m₁ m₂ m₃ m₄ o : List Token} : Terminal (.keyword .«elseif») i m₁ →
      Derives (.expression e) m₁ m₂ → Terminal (.keyword .«then») m₂ m₃ →
      Derives (.block b) m₃ m₄ → Derives (.elseIfs es) m₄ o →
      Derives (.elseIfs (⟨e, b, s⟩ :: es)) i o
  | noOtherwise {o : List Token} : Derives (.otherwise none) o o
  | otherwise {b : Block} {i m o : List Token} : Terminal (.keyword .«else») i m →
      Derives (.block b) m o → Derives (.otherwise (some b)) i o
  | numericFor {n : Name} {a l : Expression} {step : Option Expression} {b : Block} {s : Text.Span}
      {i m₁ m₂ m₃ m₄ m₅ m₆ m₇ m₈ m₉ o : List Token} : Terminal (.keyword .«for») i m₁ →
      Word n m₁ m₂ → Terminal (.sign .equals) m₂ m₃ → Derives (.expression a) m₃ m₄ →
      Terminal (.sign .comma) m₄ m₅ → Derives (.expression l) m₅ m₆ → Derives (.step step) m₆ m₇ →
      Terminal (.keyword .«do») m₇ m₈ → Derives (.block b) m₈ m₉ →
      Terminal (.keyword .«end») m₉ o → Derives (.statement (.numericFor n a l step b s)) i o
  | noStep {o : List Token} : Derives (.step none) o o
  | step {e : Expression} {i m o : List Token} : Terminal (.sign .comma) i m →
      Derives (.expression e) m o → Derives (.step (some e)) i o
  | genericFor {ns : List Name} {es : List Expression} {b : Block} {s : Text.Span}
      {i m₁ m₂ m₃ m₄ m₅ m₆ o : List Token} : Terminal (.keyword .«for») i m₁ →
      Separated (.sign .comma) Word ns m₁ m₂ → Terminal (.keyword .«in») m₂ m₃ →
      Derives (.expressions es) m₃ m₄ → Terminal (.keyword .«do») m₄ m₅ → Derives (.block b) m₅ m₆ →
      Terminal (.keyword .«end») m₆ o → Derives (.statement (.genericFor ns es b s)) i o
  | functionStatement {n : FunctionName} {f : FunctionBody} {s : Text.Span}
      {i m m' o : List Token} : Terminal (.keyword .function) i m → DeclaredName n m m' →
      Derives (.functionBody f) m' o → Derives (.statement (.function n f s)) i o
  | localFunction {n : Name} {f : FunctionBody} {s : Text.Span} {i m₁ m₂ m₃ o : List Token} :
      Terminal (.keyword .«local») i m₁ → Terminal (.keyword .function) m₁ m₂ → Word n m₂ m₃ →
      Derives (.functionBody f) m₃ o → Derives (.statement (.localFunction n f s)) i o
  | declare {ds : List LocalDeclaration} {es : List Expression} {s : Text.Span}
      {i m m' o : List Token} : Terminal (.keyword .«local») i m →
      Separated (.sign .comma) Declaration ds m m' → Derives (.initializer es) m' o →
      Derives (.statement (.declare ds es s)) i o
  | noInitializer {o : List Token} : Derives (.initializer []) o o
  | initializer {es : List Expression} {i m o : List Token} : Terminal (.sign .equals) i m →
      Derives (.expressions es) m o → Derives (.initializer es) i o

/-- A program: a block before the end of the file. -/
def Program (c : Chunk) (tokens : List Token) : Prop :=
  ∃ eof, eof.kind = .endOfFile ∧ Derives (.block c.block) tokens [eof]

end Grammar
end Syntax
end LuaFront
