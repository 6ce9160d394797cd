import LuaFront.Proofs.Syntax.Labels
import LuaFront.Resolved.Resolve

/-!
# LuaFront.Proofs.Resolved.Violations

The rules that a program may break beyond those of its syntax, said without scopes that are opened
and closed: what surrounds a place is passed inward and onward, as for static scoping.

* `Surroundings`: what a rule looks at. The variables visible at a place, the labels of the blocks
  around it in its function, whether it is in a loop of its function, and whether its function takes
  any number of arguments.
* `Use`: something in a program that a rule is about.
* `Use.violation?`: the rules. Each says what is wrong with a use in its surroundings.
* `Uses.program`: all uses in a program with their surroundings, and `violations` what is wrong with
  them.
* `Errors.block`: how many errors stand in a resolved program.
-/

namespace LuaFront
namespace Resolved

open Text (Span)

/-! ## Rules -/

/-- A variable as the rules see it. -/
structure Variable where
  name : String
  constant : Bool

structure Surroundings where
  /-- The latest declaration first. -/
  visible : List Variable
  /-- The labels of the blocks around the place in its function, the innermost block first. -/
  blocks : List (List Syntax.Name)
  /-- Whether there is a loop around the place in its function. -/
  looped : Bool
  /-- Whether the function around the place takes any number of arguments. -/
  vararg : Bool

inductive Use where
  | breakLoop (at_ : Span)
  | goto (n : Syntax.Name)
  | label (n : Syntax.Name)
  | vararg (at_ : Span)
  | attribute (n : Syntax.Name)
  /-- A variable of a declaration, behind others in it. -/
  | declared (earlier : List Syntax.LocalDeclaration) (d : Syntax.LocalDeclaration)
  /-- A name by itself that is assigned to. -/
  | assigned (n : Syntax.Name)

def hasAttribute (d : Syntax.LocalDeclaration) (text : String) : Bool :=
  d.attrib.map Syntax.Name.text = some text

def isClosed (d : Syntax.LocalDeclaration) : Bool := hasAttribute d "close"

def isConstant (d : Syntax.LocalDeclaration) : Bool := hasAttribute d "const" || isClosed d

namespace Surroundings

def variableAt? (s : Surroundings) (name : String) : Option Variable :=
  s.visible.find? (·.name = name)

/-- A block around the place has a label of this name. -/
def hasLabel (s : Surroundings) (name : String) : Bool :=
  s.blocks.any fun labels => labels.any (·.text == name)

/-- A block around the place has a label of this name before an offset. -/
def hasLabelBefore (s : Surroundings) (name : String) (offset : Nat) : Bool :=
  s.blocks.any fun labels => labels.any fun m => m.span.start < offset && m.text == name

end Surroundings

def Use.violation? (s : Surroundings) : Use → Option Diagnostic
  | .breakLoop at_ => if s.looped then none else some ⟨at_, .unexpectedBreak⟩
  | .goto n => if s.hasLabel n.text then none else some ⟨n.span, .undefinedLabel n.text⟩
  | .label n =>
    if s.hasLabelBefore n.text n.span.start then some ⟨n.span, .duplicateLabel n.text⟩ else none
  | .vararg at_ => if s.vararg then none else some ⟨at_, .varargOutsideVarargFunction⟩
  | .attribute n =>
    if n.text ≠ "const" ∧ n.text ≠ "close" then some ⟨n.span, .unknownAttribute n.text⟩ else none
  | .declared earlier d =>
    if isClosed d && earlier.any isClosed then some ⟨d.span, .multipleToBeClosed⟩ else none
  | .assigned n =>
    if (s.variableAt? n.text).any Variable.constant then some ⟨n.span, .assignToConstant n.text⟩
    else none

/-! ## What surrounds a place -/

namespace Surroundings

/-- Outside of a program only the environment is visible. A program takes any number of
arguments. -/
def outermost : Surroundings := ⟨[⟨environmentName, false⟩], [], false, true⟩

def declares (s : Surroundings) (later : List Variable) : Surroundings :=
  { s with visible := later.reverse ++ s.visible }

/-- Variables without attributes. -/
def declaresAll (s : Surroundings) (names : List String) : Surroundings :=
  s.declares (names.map (⟨·, false⟩))

def inBlock (s : Surroundings) (labels : List Syntax.Name) : Surroundings :=
  { s with blocks := labels :: s.blocks }

def inLoop (s : Surroundings) : Surroundings := { s with looped := true }

def inFunction (s : Surroundings) (vararg : Bool) : Surroundings :=
  { s with blocks := [], looped := false, vararg }

/-- Behind a statement. -/
def behind (s : Surroundings) : Syntax.Statement → Surroundings
  | .declare ds _ _ => s.declares (ds.map fun d => ⟨d.name.text, isConstant d⟩)
  | .localFunction n _ _ => s.declaresAll [n.text]
  | _ => s

/-- In a block, behind all its statements. -/
def atEnd (s : Surroundings) (b : Syntax.Block) : Surroundings :=
  b.statements.foldl behind (s.inBlock (Syntax.labelNames b.statements))

end Surroundings

/-! ## Uses -/

namespace Uses

/-- The variables of a declaration and their attributes. -/
def declared (s : Surroundings) (earlier : List Syntax.LocalDeclaration) :
    List Syntax.LocalDeclaration → List (Surroundings × Use)
  | [] => []
  | d :: later =>
    (s, .declared earlier d) :: (d.attrib.toList.map fun a => (s, .attribute a)) ++
      declared s (earlier ++ [d]) later

/-- A function whose name is a single word is assigned to that name. -/
def functionName (s : Surroundings) (f : Syntax.FunctionName) : List (Surroundings × Use) :=
  match f.path, f.method with
  | [n], none => [(s, .assigned n)]
  | _, _ => []

mutual

def expression (s : Surroundings) : Syntax.Expression → List (Surroundings × Use)
  | .literal .. | .name _ => []
  | .vararg at_ => [(s, .vararg at_)]
  | .function body _ => functionBody s [] body
  | .table fields _ => tableFields s fields
  | .unary _ e _ | .parenthesized e _ | .dotted e _ _ => expression s e
  | .binary left _ right _ => expression s left ++ expression s right
  | .call receiver _ arguments _ => expression s receiver ++ expressions s arguments
  | .index target index _ => expression s target ++ expression s index

def expressions (s : Surroundings) : List Syntax.Expression → List (Surroundings × Use)
  | [] => []
  | e :: later => expression s e ++ expressions s later

/-- Expressions that are assigned to. -/
def targets (s : Surroundings) : List Syntax.Expression → List (Surroundings × Use)
  | [] => []
  | .name n :: later => (s, .assigned n) :: targets s later
  | e :: later => expression s e ++ targets s later

def tableFields (s : Surroundings) : List Syntax.Field → List (Surroundings × Use)
  | [] => []
  | .positional value _ :: later | .named _ value _ :: later =>
    expression s value ++ tableFields s later
  | .keyed key value _ :: later => expression s key ++ (expression s value ++ tableFields s later)

/-- A function, in which what is given and its parameters are visible. -/
def functionBody (s : Surroundings) (given : List String) :
    Syntax.FunctionBody → List (Surroundings × Use)
  | ⟨parameters, vararg, body, _⟩ =>
    block ((s.inFunction vararg).declaresAll (given ++ parameters.map Syntax.Name.text)) body

def block (s : Surroundings) : Syntax.Block → List (Surroundings × Use)
  | ⟨body, result, span⟩ =>
    let inside := s.inBlock (Syntax.labelNames body)
    (Syntax.labelNames body).map (fun n => (inside, .label n)) ++ (statements inside body ++
      match result with
      | none => []
      | some ⟨values, _⟩ => expressions (s.atEnd ⟨body, result, span⟩) values)

def statements (s : Surroundings) : List Syntax.Statement → List (Surroundings × Use)
  | [] => []
  | statement :: later => statementUses s statement ++ statements (s.behind statement) later

def elseIfs (s : Surroundings) : List Syntax.ElseIf → List (Surroundings × Use)
  | [] => []
  | ⟨condition, body, _⟩ :: later => expression s condition ++ (block s body ++ elseIfs s later)

def statementUses (s : Surroundings) : Syntax.Statement → List (Surroundings × Use)
  | .assign ts vs _ => targets s ts ++ expressions s vs
  | .declare ds vs _ => expressions s vs ++ declared s [] ds
  | .call e _ => expression s e
  | .ifThen c b es o _ =>
    expression s c ++ (block s b ++ (elseIfs s es ++
      match o with
      | none => []
      | some o => block s o))
  | .whileDo c b _ => expression s c ++ block s.inLoop b
  | .repeatUntil b c _ => block s.inLoop b ++ expression (s.inLoop.atEnd b) c
  | .numericFor n initial limit step b _ =>
    expression s initial ++ (expression s limit ++ ((match step with
      | none => []
      | some step => expression s step) ++ block (s.inLoop.declaresAll [n.text]) b))
  | .genericFor ns vs b _ =>
    expressions s vs ++ block (s.inLoop.declaresAll (ns.map Syntax.Name.text)) b
  | .doBlock b _ => block s b
  | .breakLoop at_ => [(s, .breakLoop at_)]
  | .goto n _ => [(s, .goto n)]
  | .label .. => []
  | .function f body _ =>
    functionName s f ++ functionBody s (if f.method.isSome then ["self"] else []) body
  | .localFunction n body _ => functionBody (s.declaresAll [n.text]) [] body

end

/-- All uses in a program, in the order in which they are looked at. -/
def program (b : Syntax.Block) : List (Surroundings × Use) := block .outermost b

end Uses

/-- What is wrong with some uses. -/
def violations (uses : List (Surroundings × Use)) : List Diagnostic :=
  uses.filterMap fun u => u.2.violation? u.1

/-! ## What could not be resolved -/

/-- Whether an error stands in the place of what this is wrong with. -/
def leavesError : Cause → Bool
  | .unexpectedBreak | .undefinedLabel _ | .varargOutsideVarargFunction => true
  | _ => false

namespace Errors

mutual

/-- The number of errors in an expression. -/
def expression : Expression → Nat
  | .error => 1
  | .literal _ | .name _ | .vararg => 0
  | .function _ _ body => block body
  | .table fields => tableFields fields
  | .unary _ e | .parenthesized e => expression e
  | .binary left _ right => expression left + expression right
  | .call receiver _ arguments => expression receiver + expressions arguments
  | .index target index => expression target + expression index

def expressions : List Expression → Nat
  | [] => 0
  | e :: later => expression e + expressions later

def tableFields : List Field → Nat
  | [] => 0
  | .positional _ value :: later => expression value + tableFields later
  | .keyed key value :: later => expression key + expression value + tableFields later

def branches : List Branch → Nat
  | [] => 0
  | ⟨condition, body⟩ :: later => expression condition + block body + branches later

def statement : Statement → Nat
  | .expression e | .gotoIf _ e _ => expression e
  | .assign targets values => expressions targets + expressions values
  | .declare _ values | .result values => expressions values
  | .ifThen condition body elseIfs otherwise =>
    expression condition + block body + branches elseIfs +
      match otherwise with
      | none => 0
      | some body => block body
  | .whileDo condition body _ => expression condition + block body
  | .repeatUntil body condition _ => block body + expression condition
  | .numericFor _ initial limit step body _ =>
    expression initial + expression limit + expression step + block body
  | .genericFor _ values body _ => expressions values + block body
  | .doBlock body => block body
  | .goto _ | .label _ => 0

def block : Block → Nat
  | [] => 0
  | s :: later => statement s + block later

end

end Errors

end Resolved
end LuaFront
