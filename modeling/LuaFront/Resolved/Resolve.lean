import LuaFront.Journal
import LuaFront.Resolved.Printer
import LuaFront.Resolved.Scope
import LuaFront.Syntax.Tree

/-!
# LuaFront.Resolved.Resolve

Resolving names. Each name is looked up in the scopes that are open where it stands, each jump
among the labels visible from it, and each `break` goes to the innermost loop of its function.
-/

namespace LuaFront
namespace Resolved

open Text (Span)

/-- What is known at one place of a program while its names are resolved. -/
structure Context where
  /-- The unit of the program, which tells its symbols from those of others. -/
  unit : Nat
  /-- The number of the next symbol. -/
  next : Nat
  scopes : Scopes
  journal : Journal
  /-- Where to leave the loops around the place, the innermost first. -/
  exits : List Label
  /-- The number of loops so far. -/
  loops : Nat
  /-- Whether the function around the place takes any number of arguments. -/
  vararg : Bool
  /-- The variable whose fields are the global variables. -/
  environment : Local

/-- The name of the variable whose fields are the global variables. -/
def environmentName : String := "_ENV"

/-- The start of a program, outside of all scopes. The program itself takes any number of
arguments. -/
def Context.ofUnit (unit : Nat) : Context where
  unit := unit
  next := 1
  scopes := .empty
  journal := .empty
  exits := []
  loops := 0
  vararg := true
  environment := Local.plain (.declared unit 0) environmentName

abbrev Resolve := StateM Context

namespace Resolve

def fresh : Resolve SymbolId := do
  let c ← get
  set { c with next := c.next + 1 }
  return .declared c.unit c.next

def report (at_ : Span) (cause : Cause) : Resolve Unit :=
  modify fun c => { c with journal := c.journal.report ⟨at_, cause⟩ }

def modifyScopes (change : Scopes → Scopes) : Resolve Unit :=
  modify fun c => { c with scopes := change c.scopes }

def declareVariable (symbol : Local) : Resolve Unit := modifyScopes (·.declareVariable symbol)

/-- Runs something in a new scope. -/
def inScope {α : Type} (boundary : Bool) (body : Resolve α) : Resolve α := do
  modifyScopes (·.push boundary)
  let a ← body
  modifyScopes Scopes.pop
  return a

/-- Runs something inside a new loop, given the label at which the loop is left. -/
def inLoop {α : Type} (body : Label → Resolve α) : Resolve α := do
  let id ← fresh
  modify fun c => { c with loops := c.loops + 1 }
  let exit : Label := ⟨id, s!"break#{(← get).loops}"⟩
  modify fun c => { c with exits := exit :: c.exits }
  let a ← body exit
  modify fun c => { c with exits := c.exits.tail }
  return a

/-- Declares a variable without attributes. -/
def declare (name : String) : Resolve Local := do
  let symbol := Local.plain (← fresh) name
  declareVariable symbol
  return symbol

def declareAll : List Syntax.Name → Resolve (List Local)
  | [] => return []
  | n :: later => do
    let symbol ← declare n.text
    return symbol :: (← declareAll later)

/-- A visible variable, or else a field of the environment visible here. -/
def name (n : Syntax.Name) : Resolve Expression := do
  let c ← get
  match c.scopes.lookupVariable? n.text with
  | some symbol => return .name symbol
  | none =>
    let environment := (c.scopes.lookupVariable? environmentName).getD c.environment
    return .index (.name environment) (.string n.text)

/-- A name that is assigned to. -/
def targetName (n : Syntax.Name) : Resolve Expression := do
  let e ← name n
  if let .name symbol := e then
    if symbol.isConstant then report n.span (.assignToConstant n.text)
  return e

/-- Declares the labels among some statements, so that jumps may go forward to them. -/
def declareLabels : List Syntax.Statement → Resolve Unit
  | [] => return
  | .label n _ :: later => do
    if (← get).scopes.labelClashes n.text n.span.start then
      report n.span (.duplicateLabel n.text)
    let label : Label := ⟨← fresh, n.text⟩
    modifyScopes (·.declareLabel label n.span.start)
    declareLabels later
  | _ :: later => declareLabels later

/-- The variables of a declaration, which are not yet visible. `closed` says whether one before
these is to be closed. -/
def declaredSymbols (closed : Bool) : List Syntax.LocalDeclaration → Resolve (List Local)
  | [] => return []
  | d :: later => do
    let attrib := d.attrib.map Syntax.Name.text
    if attrib = some "close" ∧ closed then report d.span .multipleToBeClosed
    if let some a := d.attrib then
      if a.text ≠ "const" ∧ a.text ≠ "close" then report a.span (.unknownAttribute a.text)
    let symbol : Local :=
      ⟨← fresh, d.name.text, decide (attrib = some "const"), decide (attrib = some "close")⟩
    return symbol :: (← declaredSymbols (closed || decide (attrib = some "close")) later)

/-- A jump to the end of the innermost loop. -/
def breakLoop (at_ : Span) : Resolve Statement := do
  match (← get).exits with
  | exit :: _ => return .goto exit
  | [] =>
    report at_ .unexpectedBreak
    return .expression .error

def goto (n : Syntax.Name) : Resolve Statement := do
  match (← get).scopes.lookupLabel? n.text with
  | some label => return .goto label
  | none =>
    report n.span (.undefinedLabel n.text)
    return .expression .error

/-- The label that was declared where `n` stands. -/
def label (n : Syntax.Name) : Resolve Statement := do
  match (← get).scopes.localLabel? n.span.start with
  | some label => return .label label
  | none => return .label ⟨← fresh, n.text⟩

/-- What the name of a declared function assigns to, unless the name is empty. -/
def functionTarget? (f : Syntax.FunctionName) : Resolve (Option Expression) := do
  match f.path, f.method with
  | [], _ => return none
  | [n], none => return some (← targetName n)
  | n :: keys, method =>
    let first ← name n
    return some ((keys ++ method.toList).foldl (fun e key => .index e (.string key.text)) first)

/-- Runs something in a function of its own. -/
def inFunction {α : Type} (vararg : Bool) (body : Resolve α) : Resolve α := do
  let c ← get
  set { c with exits := [], vararg := vararg }
  let a ← inScope true body
  modify fun later => { later with exits := c.exits, vararg := c.vararg }
  return a

mutual

def expression : Syntax.Expression → Resolve Expression
  | .literal value _ => return .literal value
  | .vararg at_ => do
    if (← get).vararg then return .vararg
    report at_ .varargOutsideVarargFunction
    return .error
  | .function body _ => functionBody false body
  | .table fields _ => return .table (← tableFields 0 fields)
  | .unary op operand _ => return .unary op (← expression operand)
  | .binary left op right _ => do
    let left ← expression left
    return .binary left op (← expression right)
  | .parenthesized inner _ => return .parenthesized (← expression inner)
  | .call receiver method arguments _ => do
    let receiver ← expression receiver
    return .call receiver (method.map Syntax.Name.text) (← expressions arguments)
  | .name n => name n
  | .index target index _ => do
    let target ← expression target
    return .index target (← expression index)
  | .dotted target key _ => return .index (← expression target) (.string key.text)

def expressions : List Syntax.Expression → Resolve (List Expression)
  | [] => return []
  | e :: later => do
    let e ← expression e
    return e :: (← expressions later)

/-- Expressions that are assigned to. -/
def targets : List Syntax.Expression → Resolve (List Expression)
  | [] => return []
  | .name n :: later => do
    let e ← targetName n
    return e :: (← targets later)
  | e :: later => do
    let e ← expression e
    return e :: (← targets later)

/-- The entries of a table, of which those without a key are numbered from `position` on. -/
def tableFields (position : Nat) : List Syntax.Field → Resolve (List Field)
  | [] => return []
  | .positional value _ :: later => do
    let value ← expression value
    return .positional position value :: (← tableFields (position + 1) later)
  | .named key value _ :: later => do
    let value ← expression value
    return .keyed (.string key.text) value :: (← tableFields position later)
  | .keyed key value _ :: later => do
    let key ← expression key
    let value ← expression value
    return .keyed key value :: (← tableFields position later)

/-- A function; a method has the parameter `self` in front of those written. -/
def functionBody (method : Bool) : Syntax.FunctionBody → Resolve Expression
  | ⟨parameters, vararg, block, _⟩ => inFunction vararg do
    let receiver ← if method then pure [← declare "self"] else pure []
    let parameters ← declareAll parameters
    return .function (receiver ++ parameters) vararg (← statements block)

/-- The statements of a block, in the scope that is open. -/
def statements : Syntax.Block → Resolve Block
  | ⟨body, result, _⟩ => do
    declareLabels body
    let body ← statementList body
    match result with
    | none => return body
    | some ⟨values, _⟩ => return body ++ [.result (← expressions values)]

def statementList : List Syntax.Statement → Resolve (List Statement)
  | [] => return []
  | s :: later => do
    let s ← statement s
    return s :: (← statementList later)

def elseIfs : List Syntax.ElseIf → Resolve (List Branch)
  | [] => return []
  | ⟨condition, block, _⟩ :: later => do
    let condition ← expression condition
    let block ← inScope false (statements block)
    return ⟨condition, block⟩ :: (← elseIfs later)

def statement : Syntax.Statement → Resolve Statement
  | .assign ts vs _ => do
    let ts ← targets ts
    return .assign ts (← expressions vs)
  | .declare ds vs _ => do
    let vs ← expressions vs
    let symbols ← declaredSymbols false ds
    symbols.forM declareVariable
    return .declare symbols vs
  | .call e _ => return .expression (← expression e)
  | .ifThen c b es o _ => do
    let c ← expression c
    let b ← inScope false (statements b)
    let es ← elseIfs es
    match o with
    | none => return .ifThen c b es none
    | some o => return .ifThen c b es (some (← inScope false (statements o)))
  | .whileDo c b _ => do
    let c ← expression c
    inLoop fun exit => return .whileDo c (← inScope false (statements b)) exit
  | .repeatUntil b c _ => inLoop fun exit => inScope false do
    let b ← statements b
    return .repeatUntil b (← expression c) exit
  | .numericFor n initial limit step b _ => do
    let initial ← expression initial
    let limit ← expression limit
    let step ← match step with
      | none => pure (.integer 1)
      | some step => expression step
    inLoop fun exit => inScope false do
      let counter ← declare n.text
      return .numericFor counter initial limit step (← statements b) exit
  | .genericFor ns vs b _ => do
    let vs ← expressions vs
    inLoop fun exit => inScope false do
      let symbols ← declareAll ns
      return .genericFor symbols vs (← statements b) exit
  | .doBlock b _ => return .doBlock (← inScope false (statements b))
  | .breakLoop at_ => breakLoop at_
  | .goto n _ => goto n
  | .label n _ => label n
  | .function f body _ => do
    match ← functionTarget? f with
    | none => return .expression .error
    | some target => return .assign [target] [← functionBody f.method.isSome body]
  | .localFunction n body _ => do
    let symbol ← declare n.text
    return .declare [symbol] [← functionBody false body]

end

/-- The statements of a program, in a scope that holds the environment. -/
def program (b : Syntax.Block) : Resolve Block := inScope true do
  declareVariable (← get).environment
  statements b

end Resolve

/-- A resolved program. -/
structure Program where
  body : Block
  /-- What was found wrong before names were resolved. -/
  earlier : List Diagnostic
  /-- What happened while names were resolved. -/
  journal : Journal

namespace Program

/-- Resolves the names of a program. Its symbols belong to the given unit. -/
def ofTree (tree : Syntax.Tree) (unit : Nat) : Program :=
  let (body, context) := (Resolve.program tree.root.block).run (.ofUnit unit)
  { body
    earlier := tree.diagnostics
    journal := context.journal.record (.resolved context.journal.diagnostics.length) }

def diagnostics (p : Program) : List Diagnostic := p.earlier ++ p.journal.diagnostics

def render (p : Program) : String := Block.render p.body

end Program
end Resolved
end LuaFront
