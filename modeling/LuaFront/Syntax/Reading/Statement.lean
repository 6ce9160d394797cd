import LuaFront.Syntax.Reading.Expression

/-!
# LuaFront.Syntax.Reading.Statement

Reading statements, blocks and whole programs.
-/

namespace LuaFront
namespace Syntax

open Text (Span)

namespace Read

/-- Whether a token ends a block. -/
def endsBlock : Kind → Bool
  | .endOfFile | .keyword .«end» | .keyword .«until» | .keyword .«else» | .keyword .«elseif» => true
  | _ => false

/-- Whether a token may start a statement, or ends a block. -/
def startsStatement : Kind → Bool
  | .name | .sign .openParenthesis | .sign .semicolon | .sign .colonColon => true
  | .keyword .«if» | .keyword .«while» | .keyword .«do» | .keyword .«for» | .keyword .«repeat» => true
  | .keyword .function | .keyword .«local» | .keyword .«return» => true
  | .keyword .goto | .keyword .«break» => true
  | k => endsBlock k

/-- A block up to and including its `end`. -/
def blockToEnd (inner : Nested) : Read Block := do
  let block ← inner.block
  let _ ← expect (.keyword .«end»)
  return block

/-- The values of a return, if there are any. -/
def results (inner : Nested) : Read (List Expression) := do
  if endsBlock (← kind) ∨ (← kind) = .sign .semicolon then return [] else inner.expressions

def result (inner : Nested) : Read Return := do
  let start ← start
  let _ ← expect (.keyword .«return»)
  let values ← results inner
  let _ ← takeIf (.sign .semicolon)
  return { values, span := ← spanFrom start }

def elseIf (inner : Nested) : Read ElseIf := do
  let start ← start
  let _ ← take
  let condition ← inner.expression
  let _ ← expect (.keyword .«then»)
  let block ← inner.block
  return { condition, block, span := ← spanFrom start }

def elseIfs (inner : Nested) : Read (List ElseIf) :=
  loop (fun elseIfs => do
    if (← kind) = .keyword .«elseif» then return .inl (elseIfs ++ [← elseIf inner])
    else return .inr elseIfs) []

/-- The block that an `else` introduces, if there is one. -/
def otherwise (inner : Nested) : Read (Option Block) := do
  if ← takeIf (.keyword .«else») then some <$> inner.block else return none

def ifThen (inner : Nested) : Read Statement := do
  let start ← start
  let _ ← expect (.keyword .«if»)
  let condition ← inner.expression
  let _ ← expect (.keyword .«then»)
  let block ← inner.block
  let elseIfs ← elseIfs inner
  let otherwise ← otherwise inner
  let _ ← expect (.keyword .«end»)
  return .ifThen condition block elseIfs otherwise (← spanFrom start)

/-- The step of a numeric loop, if there is one. -/
def step (inner : Nested) : Read (Option Expression) := do
  if ← takeIf (.sign .comma) then some <$> inner.expression else return none

def forLoop (inner : Nested) : Read Statement := do
  let start ← start
  let _ ← expect (.keyword .«for»)
  let first ← name
  if ← takeIf (.sign .equals) then
    let initial ← inner.expression
    let _ ← expect (.sign .comma)
    let limit ← inner.expression
    let step ← step inner
    let _ ← expect (.keyword .«do»)
    let block ← blockToEnd inner
    return .numericFor first initial limit step block (← spanFrom start)
  else
    let more ← following (.sign .comma) name
    let _ ← expect (.keyword .«in»)
    let values ← inner.expressions
    let _ ← expect (.keyword .«do»)
    let block ← blockToEnd inner
    return .genericFor (first :: more) values block (← spanFrom start)

/-- The method that a colon introduces, if there is one. -/
def method : Read (Option Name) := do
  if ← takeIf (.sign .colon) then some <$> name else return none

def functionName : Read FunctionName := do
  let start ← start
  let path ← separated (.sign .dot) name
  let method ← method
  return { path, method, span := ← spanFrom start }

def function (inner : Nested) : Read Statement := do
  let start ← start
  let _ ← expect (.keyword .function)
  let name ← functionName
  let body ← functionBody inner
  return .function name body (← spanFrom start)

/-- The attribute of a variable, if there is one. -/
def attrib : Read (Option Name) := do
  if ← takeIf (.sign .less) then
    let attrib ← name
    let _ ← expect (.sign .greater)
    return some attrib
  else return none

def declaration : Read LocalDeclaration := do
  let start ← start
  let name ← name
  let attrib ← attrib
  return { name, attrib, span := ← spanFrom start }

/-- The values that an equals sign introduces, if there are any. -/
def initializer (inner : Nested) : Read (List Expression) := do
  if ← takeIf (.sign .equals) then inner.expressions else return []

def localStatement (inner : Nested) : Read Statement := do
  let start ← start
  let _ ← expect (.keyword .«local»)
  if ← takeIf (.keyword .function) then
    let name ← name
    let body ← functionBody inner
    return .localFunction name body (← spanFrom start)
  let declarations ← separated (.sign .comma) declaration
  let values ← initializer inner
  return .declare declarations values (← spanFrom start)

/-- Reports a target that cannot be assigned to. It is kept all the same. -/
def checkTarget (target : Expression) : Read Expression := do
  if !target.isVariable then report target.span .invalidAssignmentTarget
  return target

/-- A call or an assignment. -/
def callOrAssign (inner : Nested) : Read Statement := do
  let start ← start
  let (first, shape) ← prefixExpression inner
  if shape = .call then return .call first (← spanFrom start)
  let first ← checkTarget first
  let more ← following (.sign .comma) do checkTarget (← prefixExpression inner).1
  let _ ← expect (.sign .equals)
  let values ← inner.expressions
  return .assign (first :: more) values (← spanFrom start)

/-- Consumes tokens up to one that may start a statement or ends a block. -/
def skipToStatement : Read Unit :=
  loop (fun _ => do
    if startsStatement (← kind) then return .inr ()
    let _ ← take
    return .inl ()) ()

/-- A statement, or nothing after skipping tokens that cannot start one. -/
def statement (inner : Nested) : Read (Option Statement) := do
  let start ← start
  match ← kind with
  | .keyword .«if» => some <$> ifThen inner
  | .keyword .«for» => some <$> forLoop inner
  | .keyword .function => some <$> function inner
  | .keyword .«local» => some <$> localStatement inner
  | .name | .sign .openParenthesis => some <$> callOrAssign inner
  | .keyword .«while» =>
    let _ ← take
    let condition ← inner.expression
    let _ ← expect (.keyword .«do»)
    let block ← blockToEnd inner
    return some (.whileDo condition block (← spanFrom start))
  | .keyword .«repeat» =>
    let _ ← take
    let block ← inner.block
    let _ ← expect (.keyword .«until»)
    let condition ← inner.expression
    return some (.repeatUntil block condition (← spanFrom start))
  | .keyword .«do» =>
    let _ ← take
    let block ← blockToEnd inner
    return some (.doBlock block (← spanFrom start))
  | .sign .colonColon =>
    let _ ← take
    let name ← name
    let _ ← expect (.sign .colonColon)
    return some (.label name (← spanFrom start))
  | .keyword .goto =>
    let _ ← take
    let label ← name
    return some (.goto label (← spanFrom start))
  | .keyword .«break» =>
    let _ ← take
    return some (.breakLoop (← spanFrom start))
  | actual =>
    report (← span) (.expectedExpression actual)
    let _ ← take
    skipToStatement
    return none

/-- A statement, or nothing where one cannot start; a token is dropped if none was consumed. -/
def statementOrSkip (inner : Nested) : Read (Option Statement) := do
  let before ← start
  let statement ← statement inner
  if (← start) = before ∧ (← kind) ≠ .endOfFile then
    let k ← kind
    modify fun s => { s with journal := s.journal.record (.forced k before) }
    let _ ← take
  return statement

/-- Statements up to the end of a block, and the return that may end it. -/
def block (inner : Nested) : Read Block := do
  let start ← start
  let (statements, result) ← loop (fun statements => do
    if endsBlock (← kind) then return .inr (statements, none)
    else if (← kind) = .keyword .«return» then return .inr (statements, some (← result inner))
    else if ← takeIf (.sign .semicolon) then return .inl statements
    else return .inl (statements ++ (← statementOrSkip inner).toList)) []
  let span ←
    if (← Read.start) = start then pure (Span.empty (min (← get).previousEnd start))
    else spanFrom start
  return { statements, result, span }

/-- A whole program. What is left after its block is reported, and reading goes on behind it. -/
def chunk (inner : Nested) : Read Chunk := do
  let block ← inner.block
  let block ← loop (fun (block : Block) => do
    if (← kind) = .endOfFile then return .inr block
    report (← span) (.unexpectedToken .endOfFile (← kind))
    let _ ← take
    let rest ← inner.block
    return .inl { statements := block.statements ++ rest.statements
                  result := block.result <|> rest.result
                  span := ← spanFrom block.span.start }) block
  return { block, span := ⟨0, (← span).stop⟩ }

end Read

/-- Readers for constructs that are nested no deeper than `depth`. -/
def Nested.upTo : Nat → Nested
  | 0 => ⟨fun _ => failure, failure⟩
  | depth + 1 => ⟨Read.operand (upTo depth), Read.block (upTo depth)⟩

namespace Reading

/-- Nested constructs of any depth that the text can have. Whatever is nested starts behind a
token of its own, so there are no more levels than tokens. -/
def nested (r : Reading) : Nested := Nested.upTo (r.ahead.length + 1)

/-- The result of a reader, and the reading after it. -/
def run {α : Type} [Inhabited α] (r : Reading) (read : Nested → Read α) : α × Reading :=
  ((read r.nested).run r).getD (default, r)

end Reading
end Syntax
end LuaFront
