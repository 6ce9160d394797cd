import LuaFront.Resolved.Basic

/-!
# LuaFront.Resolved.Equality

Equality of resolved programs. Symbols are compared by identity, and numbers as numbers, so that a
program with a NaN in it differs from itself.
-/

namespace LuaFront
namespace Resolved

def Local.same (a b : Local) : Bool := a.id == b.id

def Label.same (a b : Label) : Bool := a.id == b.id

def sameLocals (as bs : List Local) : Bool := as.map Local.id == bs.map Local.id

mutual

def Expression.equal : Expression → Expression → Bool
  | .literal v, .literal v' => v.equal v'
  | .name s, .name s' => s.same s'
  | .vararg, .vararg => true
  | .function ps v b, .function ps' v' b' => sameLocals ps ps' && v == v' && equalBlocks b b'
  | .table fs, .table fs' => equalFields fs fs'
  | .unary o e, .unary o' e' => o == o' && e.equal e'
  | .binary l o r, .binary l' o' r' => l.equal l' && o == o' && r.equal r'
  | .parenthesized e, .parenthesized e' => e.equal e'
  | .call f m as, .call f' m' as' => f.equal f' && m == m' && equalExpressions as as'
  | .index t i, .index t' i' => t.equal t' && i.equal i'
  | .error, .error => true
  | _, _ => false

def equalExpressions : List Expression → List Expression → Bool
  | [], [] => true
  | e :: r, e' :: r' => e.equal e' && equalExpressions r r'
  | _, _ => false

def Field.equal : Field → Field → Bool
  | .positional p v, .positional p' v' => p == p' && v.equal v'
  | .keyed k v, .keyed k' v' => k.equal k' && v.equal v'
  | _, _ => false

def equalFields : List Field → List Field → Bool
  | [], [] => true
  | f :: r, f' :: r' => f.equal f' && equalFields r r'
  | _, _ => false

def Branch.equal : Branch → Branch → Bool
  | ⟨c, b⟩, ⟨c', b'⟩ => c.equal c' && equalBlocks b b'

def equalBranches : List Branch → List Branch → Bool
  | [], [] => true
  | b :: r, b' :: r' => b.equal b' && equalBranches r r'
  | _, _ => false

def Statement.equal : Statement → Statement → Bool
  | .expression e, .expression e' => e.equal e'
  | .assign ts vs, .assign ts' vs' => equalExpressions ts ts' && equalExpressions vs vs'
  | .declare ss vs, .declare ss' vs' => sameLocals ss ss' && equalExpressions vs vs'
  | .result vs, .result vs' => equalExpressions vs vs'
  | .ifThen c b es o, .ifThen c' b' es' o' =>
    c.equal c' && equalBlocks b b' && equalBranches es es' &&
      (match o, o' with
        | none, none => true
        | some b, some b' => equalBlocks b b'
        | _, _ => false)
  | .whileDo c b x, .whileDo c' b' x' => c.equal c' && equalBlocks b b' && x.same x'
  | .repeatUntil b c x, .repeatUntil b' c' x' => equalBlocks b b' && c.equal c' && x.same x'
  | .numericFor n i l s b x, .numericFor n' i' l' s' b' x' =>
    n.same n' && i.equal i' && l.equal l' && s.equal s' && equalBlocks b b' && x.same x'
  | .genericFor ns vs b x, .genericFor ns' vs' b' x' =>
    sameLocals ns ns' && equalExpressions vs vs' && equalBlocks b b' && x.same x'
  | .doBlock b, .doBlock b' => equalBlocks b b'
  | .goto l, .goto l' => l.same l'
  | .gotoIf l c w, .gotoIf l' c' w' => l.same l' && c.equal c' && w == w'
  | .label l, .label l' => l.same l'
  | _, _ => false

def equalBlocks : List Statement → List Statement → Bool
  | [], [] => true
  | s :: r, s' :: r' => s.equal s' && equalBlocks r r'
  | _, _ => false

end

def Block.equal (a b : Block) : Bool := equalBlocks a b

end Resolved
end LuaFront
