import LuaFront.Proofs.Resolved.ScopeHistory
import Mathlib.Tactic.Linarith

/-!
# LuaFront.Proofs.Resolved.ScopeTable

Scopes in one table. A scope is a slot, known by its number, that remembers the number of the scope
around it. The slots of closed scopes are used again. A lookup follows the numbers outward, and one
of a label goes on until the slot behind a boundary.

* `ScopeTable.Agrees`: the slots are the frames, the outermost first, and the scope around each is
  the slot before it.
* `Agrees.act`: what is done to both keeps this so.
* `Agrees.lookups_eq`: then the same is found in both.
* `Scopes.after_lookups`: what is found after a history.
-/

namespace LuaFront
namespace Resolved

structure Slot where
  /-- The number of the scope around. -/
  parent : Option Nat
  symbols : Std.HashMap String Local
  /-- In the order of declaration. -/
  labels : List PlacedLabel
  /-- Whether looking up a label ends here. -/
  boundary : Bool

/-- Numbered slots. What is around a slot has a smaller number, so that a way outward ends. -/
structure ScopeTable where
  slots : Array Slot
  outward : ∀ (i : Nat) (hi : i < slots.size) (p : Nat), slots[i].parent = some p → p < i

namespace ScopeTable

def empty : ScopeTable := ⟨#[], nofun⟩

def current? (t : ScopeTable) : Option Nat :=
  if t.slots.size = 0 then none else some (t.slots.size - 1)

def push (t : ScopeTable) (boundary : Bool) : ScopeTable where
  slots := t.slots.push ⟨t.current?, ∅, [], boundary⟩
  outward := by
    intro i hi p hp
    rw [Array.getElem_push] at hp
    split at hp
    next hold => exact t.outward i hold p hp
    next hnew =>
      rw [Array.size_push] at hi
      simp only [current?] at hp
      split at hp <;> simp at hp
      omega

def pop (t : ScopeTable) : ScopeTable where
  slots := t.slots.pop
  outward := by
    intro i hi p hp
    rw [Array.getElem_pop] at hp
    exact t.outward i _ p hp

/-- Changes the slot of the innermost scope, if there is one. -/
def modifyInnermost (t : ScopeTable) (change : Slot → Slot)
    (hchange : ∀ s, (change s).parent = s.parent) : ScopeTable where
  slots := t.slots.modify (t.slots.size - 1) change
  outward := by
    intro i hi p hp
    rw [Array.size_modify] at hi
    rw [Array.getElem_modify] at hp
    split at hp
    · exact t.outward i hi p (hchange _ ▸ hp)
    · exact t.outward i hi p hp

def declareVariable (t : ScopeTable) (symbol : Local) : ScopeTable :=
  t.modifyInnermost (fun s => { s with symbols := s.symbols.insert symbol.name symbol }) fun _ => rfl

def declareLabel (t : ScopeTable) (label : Label) (start : Nat) : ScopeTable :=
  t.modifyInnermost (fun s => { s with labels := s.labels ++ [⟨label, start⟩] }) fun _ => rfl

def act (t : ScopeTable) : Scopes.Act → ScopeTable
  | .push boundary => t.push boundary
  | .pop => t.pop
  | .declare symbol => t.declareVariable symbol
  | .mark label start => t.declareLabel label start

/-- The table after a history that began with no slots. -/
def after (h : Scopes.History) : ScopeTable := h.foldl act empty

/-- The slot of a number and those around it, the innermost first. -/
def chainFrom (t : ScopeTable) (i : Nat) : List Slot :=
  if hi : i < t.slots.size then
    t.slots[i] :: match hp : t.slots[i].parent with
      | none => []
      | some p => t.chainFrom p
  else []
termination_by i
decreasing_by exact t.outward i hi p hp

def chain (t : ScopeTable) : List Slot :=
  match t.current? with
  | none => []
  | some i => t.chainFrom i

/-- The slots until one stands behind a boundary. -/
def takeOpen : Bool → List Slot → List Slot
  | _, [] => []
  | stopped, s :: outer => if stopped then [] else s :: takeOpen (stopped || s.boundary) outer

def labelChain (t : ScopeTable) : List Slot := takeOpen false t.chain

def lookups (t : ScopeTable) : Scopes.Lookups where
  symbol? name := t.chain.findSome? (·.symbols[name]?)
  label? name := t.labelChain.findSome? fun s =>
    (s.labels.find? (·.label.name = name)).map PlacedLabel.label
  clashes name start := t.labelChain.any fun s =>
    s.labels.any fun l => l.start < start && l.label.name == name
  localLabel? start := do
    let s ← t.slots.back?
    let l ← s.labels.find? (·.start = start)
    return l.label

end ScopeTable

/-! ## The table and the frames -/

/-- The slot holds what the frame holds. -/
structure Slot.Holds (s : Slot) (f : Frame) : Prop where
  symbols : ∀ name, s.symbols[name]? = f.symbol? name
  labels : s.labels = f.labels
  boundary : s.boundary = f.boundary

namespace Slot.Holds

variable {s : Slot} {f : Frame}

theorem declare (hs : s.Holds f) (x : Local) :
    Slot.Holds { s with symbols := s.symbols.insert x.name x }
      { f with symbols := x :: f.symbols } where
  symbols name := by
    rw [Std.HashMap.getElem?_insert, hs.symbols, Frame.symbol?, Frame.symbol?, List.find?_cons]
    by_cases hname : x.name = name <;> simp [hname]
  labels := hs.labels
  boundary := hs.boundary

theorem mark (hs : s.Holds f) (l : Label) (start : Nat) :
    Slot.Holds { s with labels := s.labels ++ [⟨l, start⟩] }
      { f with labels := f.labels ++ [⟨l, start⟩] } where
  symbols := hs.symbols
  labels := by rw [hs.labels]
  boundary := hs.boundary

end Slot.Holds

section Lists

variable {α β : Type} {R : α → β → Prop} {as : List α} {bs : List β}

theorem forall₂_tail (h : List.Forall₂ R as bs) : List.Forall₂ R as.tail bs.tail := by
  cases h with
  | nil => exact .nil
  | cons _ hlater => exact hlater

theorem forall₂_modifyHead (h : List.Forall₂ R as bs) {f : α → α} {g : β → β}
    (hfg : ∀ a b, R a b → R (f a) (g b)) : List.Forall₂ R (as.modifyHead f) (bs.modifyHead g) := by
  cases h with
  | nil => exact .nil
  | cons hhead hlater => exact .cons (hfg _ _ hhead) hlater

theorem reverse_modify_last (as : List α) (f : α → α) :
    (as.modify (as.length - 1) f).reverse = as.reverse.modifyHead f := by
  induction as using List.reverseRecOn with
  | nil => rfl
  | append_singleton as a =>
    rw [List.modify_eq_take_cons_drop (by simp)]
    simp

theorem reverse_take_add_one {as : Array α} {i : Nat} (hi : i < as.size) :
    (as.toList.take (i + 1)).reverse = as[i] :: (as.toList.take i).reverse := by
  rw [List.take_add_one, Array.getElem?_toList, Array.getElem?_eq_getElem hi]
  simp

theorem findSome?_eq_of_forall₂ {γ : Type} (h : List.Forall₂ R as bs) {f : α → Option γ}
    {g : β → Option γ} (hfg : ∀ a b, R a b → f a = g b) : as.findSome? f = bs.findSome? g := by
  induction h with
  | nil => rfl
  | cons hhead _ ih => rw [List.findSome?_cons, List.findSome?_cons, hfg _ _ hhead, ih]

theorem any_eq_of_forall₂ (h : List.Forall₂ R as bs) {f : α → Bool} {g : β → Bool}
    (hfg : ∀ a b, R a b → f a = g b) : as.any f = bs.any g := by
  induction h with
  | nil => rfl
  | cons hhead _ ih => rw [List.any_cons, List.any_cons, hfg _ _ hhead, ih]

end Lists

theorem Scopes.frames_modifyInnermost_eq (s : Scopes) (change : Frame → Frame) :
    (s.modifyInnermost change).frames = s.frames.modifyHead change := by
  obtain ⟨frames⟩ := s
  cases frames <;> rfl

namespace ScopeTable

/-- The slots are the frames, the outermost first. -/
structure Agrees (t : ScopeTable) (s : Scopes) : Prop where
  linked : ∀ (i : Nat) (hi : i < t.slots.size),
    t.slots[i].parent = if i = 0 then none else some (i - 1)
  holds : List.Forall₂ Slot.Holds t.slots.toList.reverse s.frames

namespace Agrees

variable {t : ScopeTable} {s : Scopes}

theorem empty : Agrees empty .empty := ⟨nofun, .nil⟩

theorem push (ht : t.Agrees s) (boundary : Bool) : (t.push boundary).Agrees (s.push boundary) where
  linked i hi := by
    simp only [ScopeTable.push, Array.getElem_push]
    split
    next hold => exact ht.linked i hold
    next hnew =>
      have heq : i = t.slots.size := by
        simp only [ScopeTable.push, Array.size_push] at hi
        omega
      rw [current?, heq]
  holds := by
    simp only [ScopeTable.push, Array.toList_push, List.reverse_append, List.reverse_singleton]
    exact .cons ⟨fun name => by simp [Frame.symbol?], rfl, rfl⟩ ht.holds

theorem pop (ht : t.Agrees s) : t.pop.Agrees s.pop where
  linked i hi := by
    simp only [ScopeTable.pop, Array.getElem_pop]
    exact ht.linked i _
  holds := by
    simp only [ScopeTable.pop, Array.toList_pop, ← List.tail_reverse]
    exact forall₂_tail ht.holds

theorem modifyInnermost (ht : t.Agrees s) {change : Slot → Slot} {change' : Frame → Frame}
    (hchange : ∀ s, (change s).parent = s.parent)
    (hholds : ∀ s f, Slot.Holds s f → (change s).Holds (change' f)) :
    (t.modifyInnermost change hchange).Agrees (s.modifyInnermost change') where
  linked i hi := by
    simp only [ScopeTable.modifyInnermost, Array.size_modify] at hi
    simp only [ScopeTable.modifyInnermost, Array.getElem_modify]
    split
    · rw [hchange, ht.linked i hi]
    · exact ht.linked i hi
  holds := by
    simp only [ScopeTable.modifyInnermost, Array.toList_modify, ← Array.length_toList,
      reverse_modify_last, Scopes.frames_modifyInnermost_eq]
    exact forall₂_modifyHead ht.holds hholds

theorem act (ht : t.Agrees s) (a : Scopes.Act) : (t.act a).Agrees (s.act a) := by
  cases a with
  | push boundary => exact ht.push boundary
  | pop => exact ht.pop
  | declare x =>
    refine ht.modifyInnermost ?_ ?_
    · exact fun _ => rfl
    · exact fun _ _ hs => hs.declare x
  | mark l start =>
    refine ht.modifyInnermost ?_ ?_
    · exact fun _ => rfl
    · exact fun _ _ hs => hs.mark l start

/-- The way outward from a slot goes through all slots before it. -/
theorem chainFrom_eq (ht : t.Agrees s) {i : Nat} (hi : i < t.slots.size) :
    t.chainFrom i = (t.slots.toList.take (i + 1)).reverse := by
  induction i with
  | zero =>
    rw [chainFrom, dif_pos hi, reverse_take_add_one hi]
    split
    next => rfl
    next p hp =>
      rw [ht.linked 0 hi] at hp
      cases hp
  | succ i ih =>
    rw [chainFrom, dif_pos hi, reverse_take_add_one hi]
    split
    next hp =>
      rw [ht.linked (i + 1) hi] at hp
      cases hp
    next p hp =>
      rw [ht.linked (i + 1) hi] at hp
      cases hp
      exact congrArg _ (ih (Nat.lt_of_succ_lt hi))

theorem chain_eq (ht : t.Agrees s) : t.chain = t.slots.toList.reverse := by
  rw [chain, current?]
  by_cases hsize : t.slots.size = 0
  · rw [if_pos hsize, List.eq_nil_of_length_eq_zero (Array.length_toList.trans hsize)]
    rfl
  · rw [if_neg hsize]
    have hlast : t.slots.size - 1 < t.slots.size := by omega
    simp only
    rw [ht.chainFrom_eq hlast, List.take_of_length_le]
    rw [Array.length_toList]
    omega

theorem takeOpen_true (slots : List Slot) : takeOpen true slots = [] := by
  cases slots <;> rfl

theorem forall₂_takeOpen {slots : List Slot} {frames : List Frame}
    (h : List.Forall₂ Slot.Holds slots frames) :
    List.Forall₂ Slot.Holds (takeOpen false slots) (Scopes.upToBoundary frames) := by
  induction h with
  | nil => exact .nil
  | @cons s f slots frames hhead hlater ih =>
    rw [takeOpen, Scopes.upToBoundary, if_neg Bool.false_ne_true, Bool.false_or, hhead.boundary]
    cases f.boundary with
    | true =>
      rw [takeOpen_true]
      exact .cons hhead .nil
    | false => exact .cons hhead ih

/-- What is asked of the table is answered as the frames answer it. -/
theorem lookups_eq (ht : t.Agrees s) : t.lookups = s.lookups := by
  have hchain : List.Forall₂ Slot.Holds t.chain s.frames := ht.chain_eq ▸ ht.holds
  have hlabels : List.Forall₂ Slot.Holds t.labelChain s.labelFrames := forall₂_takeOpen hchain
  have hlast : t.slots.back? = t.slots.toList.reverse.head? := by
    rw [List.head?_reverse, Array.getLast?_toList]
  simp only [ScopeTable.lookups, Scopes.lookups, Scopes.Lookups.mk.injEq]
  refine ⟨funext fun name => ?_, funext fun name => ?_, funext fun name => funext fun start => ?_,
    funext fun start => ?_⟩
  · exact findSome?_eq_of_forall₂ hchain fun s f hs => hs.symbols name
  · exact findSome?_eq_of_forall₂ hlabels fun s f hs => by rw [hs.labels, Frame.label?]
  · exact any_eq_of_forall₂ hlabels fun s f hs => by rw [hs.labels]
  · rw [hlast]
    have hholds := ht.holds
    generalize t.slots.toList.reverse = slots at hholds
    obtain ⟨frames⟩ := s
    cases hholds with
    | nil => rfl
    | cons hs _ =>
      simp only [Scopes.localLabel?, List.head?_cons, Option.bind_eq_bind, Option.bind_some,
        hs.labels]

end Agrees

theorem after_agrees (h : Scopes.History) : (after h).Agrees (.after h) := by
  induction h using List.reverseRecOn with
  | nil => exact .empty
  | append_singleton h a ih =>
    rw [after, List.foldl_append, Scopes.after_snoc]
    exact ih.act a

end ScopeTable

namespace Scopes

/-- After any history the lookups answer what the history says, a table with numbers answers the
same, and a scope that is closed leaves no trace. -/
theorem after_lookups (h : History) :
    (after h).lookups.Follow h ∧ (ScopeTable.after h).lookups = (after h).lookups ∧
      ∀ (w : History) (boundary : Bool), History.Level w →
        (after (h ++ .push boundary :: w ++ [.pop])).lookups = (after h).lookups := by
  refine ⟨after_follow h, (ScopeTable.after_agrees h).lookups_eq, fun w boundary hw => ?_⟩
  rw [after_closed h hw]

theorem after_lookups_hidden :
    let outer : Local := .plain (.declared 0 0) "x"
    let inner : Local := .plain (.declared 0 1) "x"
    History.Level [.declare inner, .push true, .pop] ∧
      (after ([.pop, .push false, .declare outer] ++
        .push false :: [.declare inner, .push true, .pop] ++ [.pop])).lookups.symbol? "x" =
          some outer := by
  refine ⟨by decide, ?_⟩
  rw [(after_lookups [.pop, .push false, .declare _]).2.2 _ false (by decide)]
  rfl

end Scopes
end Resolved
end LuaFront
