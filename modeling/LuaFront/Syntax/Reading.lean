import LuaFront.Journal
import LuaFront.Syntax.Basic
import LuaFront.Token.Lexer

/-!
# LuaFront.Syntax.Reading

A text being read token by token. Reading never fails on account of the text: a token that is
absent is reported, and one of width zero is supplied in its place.

A token that was looked at before its turn waits in a buffer of one place.
-/

namespace LuaFront
namespace Syntax

open Text (Span Source)

structure Reading where
  current : Token
  /-- The lexeme after the current token, if it was looked at before its turn. -/
  buffer : Option Lexeme
  /-- What the lexer has yet to hand out. Nothing is left once it has handed out the end of file. -/
  unread : List Lexeme
  /-- The end of the last token that was consumed or supplied. -/
  previousEnd : Nat
  journal : Journal
deriving Inhabited

namespace Reading

/-- The start of what a lexer hands out, where the first token is current. -/
def ofLexemes : List Lexeme → Reading
  | [] => ⟨⟨.endOfFile, Span.empty 0, .none, false⟩, none, [], 0, .empty⟩
  | l :: unread => ⟨l.token, none, unread, 0, Journal.empty.reportAll l.diagnostics⟩

/-- The start of a text. -/
def ofSource (s : Source) : Reading := ofLexemes (Lexer.ofSource s).lexemes

/-- The lexemes after the current token. -/
def ahead (r : Reading) : List Lexeme := r.buffer.toList ++ r.unread

end Reading

/-- Readers of tokens. They give nothing only where a bound on their depth, or on the turns of a
loop, is exceeded; both bounds come from the number of tokens ahead. -/
abbrev Read := StateT Reading Option

namespace Read

def kind : Read Kind := return (← get).current.kind

/-- Where the current token starts. -/
def start : Read Nat := return (← get).current.span.start

/-- Where the current token is. -/
def span : Read Span := return (← get).current.span

/-- The lexer's next lexeme, if it has one. What is wrong with it is noted. -/
def lex : Read (Option Lexeme) := do
  let s ← get
  match s.unread with
  | [] => return none
  | l :: unread =>
    set { s with unread, journal := s.journal.reportAll l.diagnostics }
    return some l

/-- The lexeme after the current token: the one in the buffer, which is emptied, or else the lexer's
next one. -/
def fetch : Read (Option Lexeme) := do
  let s ← get
  match s.buffer with
  | some l =>
    set { s with buffer := none }
    return some l
  | none => lex

/-- Consumes the current token. The end of file stays current however often it is consumed. -/
def take : Read Token := do
  let taken := (← get).current
  modify fun s => { s with
    previousEnd := max s.previousEnd taken.span.stop
    journal := s.journal.record (.took taken) }
  match ← fetch with
  | some l => modify fun s => { s with current := l.token }
  | none => pure ()
  return taken

/-- Consumes the current token if it is of the given kind, and says whether it was. -/
def takeIf (k : Kind) : Read Bool := do
  if (← kind) = k then
    let _ ← take
    return true
  else return false

/-- The kind of the token after the current one, which waits in the buffer from then on. -/
def peekKind : Read Kind := do
  match ← fetch with
  | some l =>
    modify fun s => { s with buffer := some l }
    return l.token.kind
  | none => kind

/-- The stretch from an offset to the end of the last token. -/
def spanFrom (start : Nat) : Read Span :=
  return ⟨start, max (← get).previousEnd start⟩

/-- Notes a diagnostic, unless the latest one is about the very same stretch of text. -/
def report (at_ : Span) (cause : Cause) : Read Unit := do
  let s ← get
  if (s.journal.lastDiagnostic?.map Diagnostic.span) ≠ some at_ then
    set { s with journal := s.journal.report ⟨at_, cause⟩ }

/-- Makes up a token of width zero without consuming anything. -/
def supply (k : Kind) : Read Token := do
  let s ← get
  let offset := max s.current.span.start s.previousEnd
  set { s with previousEnd := offset, journal := s.journal.record (.supplied k offset) }
  return Token.absent k offset

/-- Consumes a token of the given kind, or reports its absence and supplies one. -/
def expect (k : Kind) : Read Token := do
  if (← kind) = k then take
  else
    report (← span) (.unexpectedToken k (← kind))
    supply k

def name : Read Name := do
  let t ← expect .name
  return ⟨t.name, t.span⟩

/-- Repeats a step until it gives a result, for at most `turns` turns. -/
def loopWith {σ α : Type} (step : σ → Read (σ ⊕ α)) : Nat → σ → Read α
  | 0, _ => failure
  | turns + 1, a => do
    match ← step a with
    | .inl a' => loopWith step turns a'
    | .inr b => return b

/-- Repeats a step until it gives a result. A step that is followed by another one consumes a
token, so there are no more turns than tokens. -/
def loop {σ α : Type} (step : σ → Read (σ ⊕ α)) (a : σ) : Read α := do
  loopWith step ((← get).ahead.length + 1) a

/-- As many items as there are separators, each after its separator. -/
def following {α : Type} (separator : Kind) (item : Read α) : Read (List α) :=
  loop (fun items => do
    if ← takeIf separator then return .inl (items ++ [← item]) else return .inr items) []

/-- One or more items with separators between them. -/
def separated {α : Type} (separator : Kind) (item : Read α) : Read (List α) := do
  let first ← item
  return first :: (← following separator item)

end Read
end Syntax
end LuaFront
