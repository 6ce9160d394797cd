import LuaFront.Resolved.Resolve

/-!
# LuaFront.Resolved.Flat

Flattening control flow: conditionals and loops become labels and jumps within the block around
them. Everything else stays, blocks included. The symbols made up on the way are numbered from one.
-/

namespace LuaFront
namespace Resolved

/-- Work that makes up symbols, given how many there are so far. -/
abbrev Flatten := StateM Nat

namespace Flatten

def freshLabel : Flatten Label := do
  modify (· + 1)
  let n ← get
  return ⟨.generated n, s!"label#{n}"⟩

def freshLocal (name : String) : Flatten Local := do
  modify (· + 1)
  let n ← get
  return Local.plain (.generated n) s!"{name}#{n}"

/-- The condition on which a numeric loop goes on: the counter has not passed the limit in the
direction of the step. -/
def withinLimit (counter limit step : Local) : Expression :=
  .binary
    (.binary (.binary (.name step) .greaterThan (.integer 0)) .logicalAnd
      (.binary (.name counter) .lessThanOrEqual (.name limit)))
    .logicalOr
    (.binary (.binary (.name step) .lessThanOrEqual (.integer 0)) .logicalAnd
      (.binary (.name counter) .greaterThanOrEqual (.name limit)))

/-- The start of one turn of a generic loop: the next values, the way out if the first is nil, and
the note of the first. -/
def nextValues (symbols : List Local) (iterator state control : Local) (exit : Label) : Block :=
  let call : Expression := .call (.name iterator) none [.name state, .name control]
  match symbols with
  | [] => [.expression call]
  | first :: _ =>
    [.declare symbols [call],
      .gotoIf exit (.binary (.name first) .equal .nil) true,
      .assign [.name control] [.name first]]

mutual

def expression : Expression → Flatten Expression
  | .literal value => return .literal value
  | .name symbol => return .name symbol
  | .vararg => return .vararg
  | .function parameters vararg body => return .function parameters vararg (← block body)
  | .table entries => return .table (← fields entries)
  | .unary op operand => return .unary op (← expression operand)
  | .binary left op right => do
    let left ← expression left
    return .binary left op (← expression right)
  | .parenthesized inner => return .parenthesized (← expression inner)
  | .call receiver method arguments => do
    let receiver ← expression receiver
    return .call receiver method (← expressions arguments)
  | .index target index => do
    let target ← expression target
    return .index target (← expression index)
  | .error => return .error

def expressions : List Expression → Flatten (List Expression)
  | [] => return []
  | e :: later => do
    let e ← expression e
    return e :: (← expressions later)

def fields : List Field → Flatten (List Field)
  | [] => return []
  | .positional position value :: later => do
    let value ← expression value
    return .positional position value :: (← fields later)
  | .keyed key value :: later => do
    let key ← expression key
    let value ← expression value
    return .keyed key value :: (← fields later)

/-- Branches that are tried in order, each of which jumps to `stop` at its end. -/
def branches (stop : Label) : List Branch → Flatten Block
  | [] => return []
  | ⟨condition, body⟩ :: later => do
    let next ← freshLabel
    let condition ← expression condition
    let body ← block body
    return .gotoIf next condition false :: body ++ .goto stop :: .label next ::
      (← branches stop later)

def statement : Statement → Flatten Block
  | .expression e => return [.expression (← expression e)]
  | .assign targets values => do
    let targets ← expressions targets
    return [.assign targets (← expressions values)]
  | .declare symbols values => return [.declare symbols (← expressions values)]
  | .result values => return [.result (← expressions values)]
  | .ifThen condition body elseIfs otherwise => do
    let stop ← freshLabel
    let next ← freshLabel
    let condition ← expression condition
    let body ← block body
    let later ← branches stop elseIfs
    let last ← match otherwise with
      | none => pure []
      | some body => block body
    return .gotoIf next condition false :: body ++ .goto stop :: .label next ::
      later ++ last ++ [.label stop]
  | .whileDo condition body exit => do
    let check ← freshLabel
    let condition ← expression condition
    let body ← block body
    return .label check :: .gotoIf exit condition false :: body ++ [.goto check, .label exit]
  | .repeatUntil body condition exit => do
    let start ← freshLabel
    let body ← block body
    let condition ← expression condition
    return .label start :: body ++ [.gotoIf start condition false, .label exit]
  | .numericFor counter initial limit step body exit => do
    let start ← freshLabel
    let limitSymbol ← freshLocal "limit"
    let stepSymbol ← freshLocal "step"
    let initial ← expression initial
    let limit ← expression limit
    let step ← expression step
    let body ← block body
    return .declare [counter, limitSymbol, stepSymbol] [initial, limit, step] :: .label start ::
      .gotoIf exit (withinLimit counter limitSymbol stepSymbol) false :: body ++
      [.assign [.name counter] [.binary (.name counter) .add (.name stepSymbol)],
        .goto start, .label exit]
  | .genericFor symbols values body exit => do
    let start ← freshLabel
    let iterator ← freshLocal "iterator"
    let state ← freshLocal "state"
    let control ← freshLocal "control"
    let values ← expressions values
    let body ← block body
    return .declare [iterator, state, control] values :: .label start ::
      nextValues symbols iterator state control exit ++ body ++ [.goto start, .label exit]
  | .doBlock body => return [.doBlock (← block body)]
  | .goto label => return [.goto label]
  | .gotoIf label condition wanted => return [.gotoIf label (← expression condition) wanted]
  | .label label => return [.label label]

def block : List Statement → Flatten (List Statement)
  | [] => return []
  | s :: later => do
    let s ← statement s
    return s ++ (← block later)

end
end Flatten

/-- A block without structured control flow. -/
def Block.flatten (b : Block) : Block := ((Flatten.block b).run 0).1

/-- A program without structured control flow, and what happened while it was flattened. -/
def Program.flatten (p : Program) : Program :=
  let (body, count) := (Flatten.block p.body).run 0
  { p with body, journal := p.journal.record (.flattened count) }

end Resolved
end LuaFront
