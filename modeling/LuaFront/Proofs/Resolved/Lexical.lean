import LuaFront.Proofs.Syntax.Labels
import LuaFront.Resolved.Resolve

/-!
# LuaFront.Proofs.Resolved.Lexical

Static scoping, said without scopes that are opened and closed: what is visible at a place is an
environment that is passed inward and onward, and nothing is ever taken back.

* A variable is visible from behind its declaration to the end of the block, a local function in its
  own body too. The latest declaration of a name counts.
* The labels of a block are visible in the whole block and in the blocks in it, but not in
  functions in it. The nearest block with a label of a name counts, and there the first one.
* A loop can be left from its block and the blocks in it, but not from functions in it.

Only the numbers of symbols and loops are counted on from place to place (`Supply`).
-/

namespace LuaFront
namespace Resolved
namespace Lexical

/-- The numbers of the next symbol and of the loops so far. -/
structure Supply where
  next : Nat
  loops : Nat

abbrev Numbered := StateM Supply

/-- What is visible at one place of a program. -/
structure Env where
  unit : Nat
  /-- The variable whose fields are the global variables of the whole program. -/
  environment : Local
  /-- The latest declaration first. -/
  locals : List Local
  /-- The labels of the blocks around the place in its function, the innermost block first. -/
  blocks : List (List Label)
  /-- Where to leave the innermost loop around the place in its function. -/
  exit : Option Label
  vararg : Bool

namespace Env

def symbol? (env : Env) (name : String) : Option Local := env.locals.find? (·.name = name)

def label? (env : Env) (name : String) : Option Label :=
  env.blocks.findSome? (·.find? (·.name = name))

/-- A visible variable, or else a field of the environment visible here. -/
def name (env : Env) (n : Syntax.Name) : Expression :=
  match env.symbol? n.text with
  | some symbol => .name symbol
  | none => .index (.name ((env.symbol? environmentName).getD env.environment)) (.string n.text)

/-- What the name of a declared function assigns to, unless the name is empty. -/
def functionTarget? (env : Env) (f : Syntax.FunctionName) : Option Expression :=
  match f.path with
  | [] => none
  | n :: keys =>
    some ((keys ++ f.method.toList).foldl (fun e key => .index e (.string key.text)) (env.name n))

/-- Behind a declaration. -/
def declares (env : Env) (symbols : List Local) : Env :=
  { env with locals := symbols.reverse ++ env.locals }

/-- In a block with these labels. -/
def inBlock (env : Env) (labels : List Label) : Env := { env with blocks := labels :: env.blocks }

def inLoop (env : Env) (exit : Label) : Env := { env with exit := some exit }

def inFunction (env : Env) (vararg : Bool) : Env := { env with blocks := [], exit := none, vararg }

end Env

def fresh (unit : Nat) : Numbered SymbolId := do
  let s ← get
  set { s with next := s.next + 1 }
  return .declared unit s.next

def declareAll (unit : Nat) : List String → Numbered (List Local)
  | [] => return []
  | n :: later => do
    let symbol := Local.plain (← fresh unit) n
    return symbol :: (← declareAll unit later)

def declared (unit : Nat) : List Syntax.LocalDeclaration → Numbered (List Local)
  | [] => return []
  | d :: later => do
    let attrib := d.attrib.map Syntax.Name.text
    let symbol : Local :=
      ⟨← fresh unit, d.name.text, decide (attrib = some "const"), decide (attrib = some "close")⟩
    return symbol :: (← declared unit later)

/-- The label at which one more loop is left. -/
def newExit (unit : Nat) : Numbered Label := do
  let id ← fresh unit
  let s ← get
  set { s with loops := s.loops + 1 }
  return ⟨id, s!"break#{s.loops + 1}"⟩

/-- The labels of these names, numbered from `first` on. -/
def labelsFrom (unit first : Nat) : List Syntax.Name → List Label
  | [] => []
  | n :: later => ⟨.declared unit first, n.text⟩ :: labelsFrom unit (first + 1) later

/-- Sets numbers aside, and gives the first of them. -/
def reserve (count : Nat) : Numbered Nat := do
  let s ← get
  set { s with next := s.next + count }
  return s.next

mutual

def expression (env : Env) : Syntax.Expression → Numbered Expression
  | .literal value _ => return .literal value
  | .vararg _ => return if env.vararg then .vararg else .error
  | .function body _ => functionBody env false body
  | .table fields _ => return .table (← tableFields env 0 fields)
  | .unary op operand _ => return .unary op (← expression env operand)
  | .binary left op right _ => do
    let left ← expression env left
    return .binary left op (← expression env right)
  | .parenthesized inner _ => return .parenthesized (← expression env inner)
  | .call receiver method arguments _ => do
    let receiver ← expression env receiver
    return .call receiver (method.map Syntax.Name.text) (← expressions env arguments)
  | .name n => return env.name n
  | .index target index _ => do
    let target ← expression env target
    return .index target (← expression env index)
  | .dotted target key _ => return .index (← expression env target) (.string key.text)

def expressions (env : Env) : List Syntax.Expression → Numbered (List Expression)
  | [] => return []
  | e :: later => do
    let e ← expression env e
    return e :: (← expressions env later)

/-- The entries of a table, of which those without a key are numbered from `position` on. -/
def tableFields (env : Env) (position : Nat) : List Syntax.Field → Numbered (List Field)
  | [] => return []
  | .positional value _ :: later => do
    let value ← expression env value
    return .positional position value :: (← tableFields env (position + 1) later)
  | .named key value _ :: later => do
    let value ← expression env value
    return .keyed (.string key.text) value :: (← tableFields env position later)
  | .keyed key value _ :: later => do
    let key ← expression env key
    let value ← expression env value
    return .keyed key value :: (← tableFields env position later)

/-- A function, whose parameters are visible in it only. -/
def functionBody (env : Env) (method : Bool) : Syntax.FunctionBody → Numbered Expression
  | ⟨parameters, vararg, body, _⟩ => do
    let self := if method then ["self"] else []
    let symbols ← declareAll env.unit (self ++ parameters.map Syntax.Name.text)
    let body ← block ((env.inFunction vararg).declares symbols) body
    return .function symbols vararg body.1

/-- A block, and what is visible at its end. -/
def block (env : Env) : Syntax.Block → Numbered (Block × Env)
  | ⟨body, result, _⟩ => do
    let names := Syntax.labelNames body
    let first ← reserve names.length
    let body ← statements (env.inBlock (labelsFrom env.unit first names)) first body
    match result with
    | none => return body
    | some ⟨values, _⟩ => return (body.1 ++ [.result (← expressions body.2 values)], body.2)

/-- Statements in a row, whose labels are numbered from `number` on. -/
def statements (env : Env) (number : Nat) : List Syntax.Statement → Numbered (Block × Env)
  | [] => return ([], env)
  | s :: later => do
    let first ← statement env number s
    let later ← statements first.2 (number + (Syntax.labelNames [s]).length) later
    return (first.1 :: later.1, later.2)

def elseIfs (env : Env) : List Syntax.ElseIf → Numbered (List Branch)
  | [] => return []
  | ⟨condition, body, _⟩ :: later => do
    let condition ← expression env condition
    let body ← block env body
    return ⟨condition, body.1⟩ :: (← elseIfs env later)

/-- A statement, and what is visible behind it. -/
def statement (env : Env) (number : Nat) : Syntax.Statement → Numbered (Statement × Env)
  | .assign ts vs _ => do
    let ts ← expressions env ts
    return (.assign ts (← expressions env vs), env)
  | .declare ds vs _ => do
    let vs ← expressions env vs
    let symbols ← declared env.unit ds
    return (.declare symbols vs, env.declares symbols)
  | .call e _ => return (.expression (← expression env e), env)
  | .ifThen c b es o _ => do
    let c ← expression env c
    let b ← block env b
    let es ← elseIfs env es
    match o with
    | none => return (.ifThen c b.1 es none, env)
    | some o => return (.ifThen c b.1 es (some (← block env o).1), env)
  | .whileDo c b _ => do
    let c ← expression env c
    let exit ← newExit env.unit
    return (.whileDo c (← block (env.inLoop exit) b).1 exit, env)
  | .repeatUntil b c _ => do
    let exit ← newExit env.unit
    let b ← block (env.inLoop exit) b
    return (.repeatUntil b.1 (← expression b.2 c) exit, env)
  | .numericFor n initial limit step b _ => do
    let initial ← expression env initial
    let limit ← expression env limit
    let step ← match step with
      | none => pure (.integer 1)
      | some step => expression env step
    let exit ← newExit env.unit
    let counter := Local.plain (← fresh env.unit) n.text
    let b ← block ((env.inLoop exit).declares [counter]) b
    return (.numericFor counter initial limit step b.1 exit, env)
  | .genericFor ns vs b _ => do
    let vs ← expressions env vs
    let exit ← newExit env.unit
    let symbols ← declareAll env.unit (ns.map Syntax.Name.text)
    let b ← block ((env.inLoop exit).declares symbols) b
    return (.genericFor symbols vs b.1 exit, env)
  | .doBlock b _ => return (.doBlock (← block env b).1, env)
  | .breakLoop _ => return (env.exit.elim (.expression .error) .goto, env)
  | .goto n _ => return ((env.label? n.text).elim (.expression .error) .goto, env)
  | .label n _ => return (.label ⟨.declared env.unit number, n.text⟩, env)
  | .function f body _ => do
    match env.functionTarget? f with
    | none => return (.expression .error, env)
    | some target => return (.assign [target] [← functionBody env f.method.isSome body], env)
  | .localFunction n body _ => do
    let symbol := Local.plain (← fresh env.unit) n.text
    let inner := env.declares [symbol]
    return (.declare [symbol] [← functionBody inner false body], inner)

end

/-- What is visible outside of a program: the environment, and nothing to jump to. -/
def Env.ofUnit (unit : Nat) : Env where
  unit := unit
  environment := Local.plain (.declared unit 0) environmentName
  locals := [Local.plain (.declared unit 0) environmentName]
  blocks := []
  exit := none
  vararg := true

/-- The statements of a program. -/
def program (unit : Nat) (b : Syntax.Block) : Block :=
  ((block (.ofUnit unit) b).run ⟨1, 0⟩).1.1

end Lexical
end Resolved
end LuaFront
