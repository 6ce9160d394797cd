import LuaFront.Syntax.Basic

/-!
# LuaFront.Syntax.Equality

Equality of syntax trees, places included. Numbers are compared as numbers, so that a tree with a
NaN in it differs from itself.
-/

namespace LuaFront
namespace Syntax

mutual

def Expression.equal : Expression → Expression → Bool
  | .literal v s, .literal v' s' => v.equal v' && s == s'
  | .vararg s, .vararg s' => s == s'
  | .function b s, .function b' s' => b.equal b' && s == s'
  | .table fs s, .table fs' s' => equalFields fs fs' && s == s'
  | .unary o e s, .unary o' e' s' => o == o' && e.equal e' && s == s'
  | .binary l o r s, .binary l' o' r' s' => l.equal l' && o == o' && r.equal r' && s == s'
  | .parenthesized e s, .parenthesized e' s' => e.equal e' && s == s'
  | .call f m as s, .call f' m' as' s' =>
    f.equal f' && m == m' && equalExpressions as as' && s == s'
  | .name n, .name n' => n == n'
  | .index t i s, .index t' i' s' => t.equal t' && i.equal i' && s == s'
  | .dotted t n s, .dotted t' n' s' => t.equal t' && n == n' && s == s'
  | _, _ => false

def equalExpressions : List Expression → List Expression → Bool
  | [], [] => true
  | e :: r, e' :: r' => e.equal e' && equalExpressions r r'
  | _, _ => false

def Field.equal : Field → Field → Bool
  | .positional v s, .positional v' s' => v.equal v' && s == s'
  | .named n v s, .named n' v' s' => n == n' && v.equal v' && s == s'
  | .keyed k v s, .keyed k' v' s' => k.equal k' && v.equal v' && s == s'
  | _, _ => false

def equalFields : List Field → List Field → Bool
  | [], [] => true
  | f :: r, f' :: r' => f.equal f' && equalFields r r'
  | _, _ => false

def FunctionBody.equal : FunctionBody → FunctionBody → Bool
  | ⟨ps, v, b, s⟩, ⟨ps', v', b', s'⟩ => ps == ps' && v == v' && b.equal b' && s == s'

def Block.equal : Block → Block → Bool
  | ⟨ss, r, s⟩, ⟨ss', r', s'⟩ =>
    equalStatements ss ss' &&
      (match r, r' with
        | none, none => true
        | some r, some r' => r.equal r'
        | _, _ => false) && s == s'

def Return.equal : Return → Return → Bool
  | ⟨vs, s⟩, ⟨vs', s'⟩ => equalExpressions vs vs' && s == s'

def ElseIf.equal : ElseIf → ElseIf → Bool
  | ⟨c, b, s⟩, ⟨c', b', s'⟩ => c.equal c' && b.equal b' && s == s'

def equalElseIfs : List ElseIf → List ElseIf → Bool
  | [], [] => true
  | e :: r, e' :: r' => e.equal e' && equalElseIfs r r'
  | _, _ => false

def Statement.equal : Statement → Statement → Bool
  | .assign ts vs s, .assign ts' vs' s' =>
    equalExpressions ts ts' && equalExpressions vs vs' && s == s'
  | .declare ds vs s, .declare ds' vs' s' => ds == ds' && equalExpressions vs vs' && s == s'
  | .call e s, .call e' s' => e.equal e' && s == s'
  | .ifThen c b es o s, .ifThen c' b' es' o' s' =>
    c.equal c' && b.equal b' && equalElseIfs es es' &&
      (match o, o' with
        | none, none => true
        | some b, some b' => b.equal b'
        | _, _ => false) && s == s'
  | .whileDo c b s, .whileDo c' b' s' => c.equal c' && b.equal b' && s == s'
  | .repeatUntil b c s, .repeatUntil b' c' s' => b.equal b' && c.equal c' && s == s'
  | .numericFor n i l st b s, .numericFor n' i' l' st' b' s' =>
    n == n' && i.equal i' && l.equal l' &&
      (match st, st' with
        | none, none => true
        | some e, some e' => e.equal e'
        | _, _ => false) && b.equal b' && s == s'
  | .genericFor ns vs b s, .genericFor ns' vs' b' s' =>
    ns == ns' && equalExpressions vs vs' && b.equal b' && s == s'
  | .doBlock b s, .doBlock b' s' => b.equal b' && s == s'
  | .breakLoop s, .breakLoop s' => s == s'
  | .goto n s, .goto n' s' => n == n' && s == s'
  | .label n s, .label n' s' => n == n' && s == s'
  | .function n b s, .function n' b' s' => n == n' && b.equal b' && s == s'
  | .localFunction n b s, .localFunction n' b' s' => n == n' && b.equal b' && s == s'
  | _, _ => false

def equalStatements : List Statement → List Statement → Bool
  | [], [] => true
  | s :: r, s' :: r' => s.equal s' && equalStatements r r'
  | _, _ => false

end

def Chunk.equal (a b : Chunk) : Bool := a.block.equal b.block && a.span == b.span

end Syntax
end LuaFront
