import LuaFront.Proofs.Syntax.Relocation
import LuaFront.Resolved.Resolve

/-!
# LuaFront.Proofs.Resolved.Relabel

Resolving a text that stands elsewhere, with other identities for its symbols.

* `Relabel.block σ`: a resolved program with other identities for its variables and its labels.
* `Change`: other places and other identities. `Changing.change` applies one to anything that names
  are resolved to, and to contexts.
* `Resolve.Follows g m m' c`: what `m` does in the context `c`, the resolver `m'` does in the changed
  context.
-/

namespace LuaFront
namespace Resolved

open Placed (relocate Settled)

/-! ## Other identities -/

def Local.relabel (σ : SymbolId → SymbolId) (l : Local) : Local := { l with id := σ l.id }

def Label.relabel (σ : SymbolId → SymbolId) (l : Label) : Label := { l with id := σ l.id }

@[simp] theorem relabel_local_id : Local.relabel id = id := rfl

@[simp] theorem relabel_label_id : Label.relabel id = id := rfl

namespace Relabel

variable (σ : SymbolId → SymbolId)

mutual

@[simp]
def expression : Expression → Expression
  | .literal value => .literal value
  | .name symbol => .name (symbol.relabel σ)
  | .vararg => .vararg
  | .function parameters vararg body =>
    .function (parameters.map (Local.relabel σ)) vararg (block body)
  | .table entries => .table (fields entries)
  | .unary op operand => .unary op (expression operand)
  | .binary left op right => .binary (expression left) op (expression right)
  | .parenthesized inner => .parenthesized (expression inner)
  | .call receiver method arguments => .call (expression receiver) method (expressions arguments)
  | .index target index => .index (expression target) (expression index)
  | .error => .error

@[simp]
def expressions : List Expression → List Expression
  | [] => []
  | e :: later => expression e :: expressions later

@[simp]
def fields : List Field → List Field
  | [] => []
  | .positional position value :: later => .positional position (expression value) :: fields later
  | .keyed key value :: later => .keyed (expression key) (expression value) :: fields later

@[simp]
def branches : List Branch → List Branch
  | [] => []
  | ⟨condition, body⟩ :: later => ⟨expression condition, block body⟩ :: branches later

@[simp]
def otherwise : Option (List Statement) → Option (List Statement)
  | none => none
  | some body => some (block body)

@[simp]
def statement : Statement → Statement
  | .expression e => .expression (expression e)
  | .assign targets values => .assign (expressions targets) (expressions values)
  | .declare symbols values => .declare (symbols.map (Local.relabel σ)) (expressions values)
  | .result values => .result (expressions values)
  | .ifThen c b es o => .ifThen (expression c) (block b) (branches es) (otherwise o)
  | .whileDo c b exit => .whileDo (expression c) (block b) (exit.relabel σ)
  | .repeatUntil b c exit => .repeatUntil (block b) (expression c) (exit.relabel σ)
  | .numericFor counter initial limit step b exit =>
    .numericFor (counter.relabel σ) (expression initial) (expression limit) (expression step)
      (block b) (exit.relabel σ)
  | .genericFor symbols values b exit =>
    .genericFor (symbols.map (Local.relabel σ)) (expressions values) (block b) (exit.relabel σ)
  | .doBlock b => .doBlock (block b)
  | .goto l => .goto (l.relabel σ)
  | .gotoIf l c wanted => .gotoIf (l.relabel σ) (expression c) wanted
  | .label l => .label (l.relabel σ)

@[simp]
def block : List Statement → List Statement
  | [] => []
  | s :: later => statement s :: block later

end

mutual

theorem expression_id (e : Expression) : expression id e = e := by
  cases e with
  | name symbol => rfl
  | function parameters vararg body => simp [block_id body]
  | table entries => simp [fields_id entries]
  | unary op operand => simp [expression_id operand]
  | binary left op right => simp [expression_id left, expression_id right]
  | parenthesized inner => simp [expression_id inner]
  | call receiver method arguments => simp [expression_id receiver, expressions_id arguments]
  | index target index => simp [expression_id target, expression_id index]
  | _ => rfl

theorem expressions_id (es : List Expression) : expressions id es = es := by
  cases es with
  | nil => rfl
  | cons e later => simp [expression_id e, expressions_id later]

theorem fields_id (fs : List Field) : fields id fs = fs := by
  cases fs with
  | nil => rfl
  | cons x later =>
    cases x with
    | positional position value => simp [expression_id value, fields_id later]
    | keyed key value => simp [expression_id key, expression_id value, fields_id later]

theorem branches_id (bs : List Branch) : branches id bs = bs := by
  cases bs with
  | nil => rfl
  | cons b later =>
    obtain ⟨condition, body⟩ := b
    simp [expression_id condition, block_id body, branches_id later]

theorem statement_id (s : Statement) : statement id s = s := by
  cases s with
  | expression e => simp [expression_id e]
  | assign targets values => simp [expressions_id targets, expressions_id values]
  | declare symbols values => simp [expressions_id values]
  | result values => simp [expressions_id values]
  | ifThen c b es o =>
    cases o with
    | none => simp [expression_id c, block_id b, branches_id es]
    | some o => simp [expression_id c, block_id b, branches_id es, block_id o]
  | whileDo c b exit => simp [expression_id c, block_id b]
  | repeatUntil b c exit => simp [expression_id c, block_id b]
  | numericFor counter initial limit step b exit =>
    simp [expression_id initial, expression_id limit,
      expression_id step, block_id b]
  | genericFor symbols values b exit =>
    simp [expressions_id values, block_id b]
  | doBlock b => simp [block_id b]
  | gotoIf l c wanted => simp [expression_id c]
  | _ => rfl

theorem block_id (b : Block) : block id b = b := by
  cases b with
  | nil => rfl
  | cons s later => simp [statement_id s, block_id later]

end

theorem block_append (a b : Block) : block σ (a ++ b) = block σ a ++ block σ b := by
  induction a with
  | nil => rfl
  | cons s later ih => simp [ih]

end Relabel

/-! ## Changes -/

/-- Another place for each place of a text, another identity for each symbol, and the unit that the
symbols are declared in then. -/
structure Change where
  place : Nat → Nat
  symbol : SymbolId → SymbolId
  unit : Nat

class Changing (α : Type) where
  change : Change → α → α

open Changing (change)

instance : Changing Unit := ⟨fun _ u => u⟩
instance : Changing SymbolId := ⟨fun g id => g.symbol id⟩
instance : Changing Local := ⟨fun g => Local.relabel g.symbol⟩
instance : Changing (List Local) := ⟨fun g => List.map (change g)⟩
instance : Changing Label := ⟨fun g => Label.relabel g.symbol⟩
instance : Changing (List Label) := ⟨fun g => List.map (change g)⟩
instance : Changing Expression := ⟨fun g => Relabel.expression g.symbol⟩
instance : Changing (List Expression) := ⟨fun g => Relabel.expressions g.symbol⟩
instance : Changing (List Field) := ⟨fun g => Relabel.fields g.symbol⟩
instance : Changing (List Branch) := ⟨fun g => Relabel.branches g.symbol⟩
instance : Changing Statement := ⟨fun g => Relabel.statement g.symbol⟩
instance : Changing (List Statement) := ⟨fun g => Relabel.block g.symbol⟩

instance {α : Type} [Changing α] : Changing (Option α) := ⟨fun g => Option.map (change g)⟩

instance : Changing PlacedLabel := ⟨fun g l => ⟨change g l.label, g.place l.start⟩⟩

instance : Changing Frame where
  change g f := ⟨f.symbols.map (change g), f.labels.map (change g), f.boundary⟩

instance : Changing Scopes := ⟨fun g s => ⟨s.frames.map (change g)⟩⟩

instance : Changing Context where
  change g c := { c with
    unit := g.unit
    scopes := change g c.scopes
    journal := relocate g.place c.journal
    exits := change g c.exits
    environment := change g c.environment }

/-- A change that takes the unit of a context to its own, where labels were declared at places
that a text can have. -/
structure Change.Fits (g : Change) (c : Context) : Prop where
  stretches : Stretches g.place
  symbol : ∀ i, g.symbol (.declared c.unit i) = .declared g.unit i
  aligned : ∀ f ∈ c.scopes.frames, ∀ l ∈ f.labels, Aligned l.start

/-! ## Looking up -/

namespace Scopes

variable (g : Change)

theorem lookupVariable?_change (s : Scopes) (name : String) :
    (change g s).lookupVariable? name = (s.lookupVariable? name).map (change g) := by
  have hframe (f : Frame) : (change g f).symbol? name = (f.symbol? name).map (change g) :=
    List.find?_map ..
  rw [lookupVariable?, lookupVariable?, List.map_findSome?]
  exact List.findSome?_map.trans (congrArg (List.findSome? · s.frames) (funext hframe))

theorem upToBoundary_change (frames : List Frame) :
    upToBoundary (frames.map (change g)) = (upToBoundary frames).map (change g) := by
  induction frames with
  | nil => rfl
  | cons f outer ih =>
    have hboundary : (change g f).boundary = f.boundary := rfl
    rw [List.map_cons, upToBoundary, upToBoundary, ih, hboundary]
    split <;> rfl

theorem labelFrames_change (s : Scopes) :
    (change g s).labelFrames = s.labelFrames.map (change g) :=
  upToBoundary_change g s.frames

theorem lookupLabel?_change (s : Scopes) (name : String) :
    (change g s).lookupLabel? name = (s.lookupLabel? name).map (change g) := by
  have hframe (f : Frame) : (change g f).label? name = (f.label? name).map (change g) := by
    have hfind : (change g f).labels.find? (·.label.name = name) =
        (f.labels.find? (·.label.name = name)).map (change g) := List.find?_map ..
    rw [Frame.label?, Frame.label?, hfind, Option.map_map, Option.map_map]
    rfl
  rw [lookupLabel?, lookupLabel?, labelFrames_change, List.map_findSome?]
  exact List.findSome?_map.trans (congrArg (List.findSome? · s.labelFrames) (funext hframe))

theorem mem_upToBoundary {frames : List Frame} {f : Frame} (h : f ∈ upToBoundary frames) :
    f ∈ frames := by
  induction frames with
  | nil => exact h
  | cons f' outer ih =>
    rw [upToBoundary] at h
    split at h
    · rw [List.mem_singleton.1 h]
      exact List.mem_cons_self
    · rcases List.mem_cons.1 h with rfl | h
      · exact List.mem_cons_self
      · exact List.mem_cons_of_mem _ (ih h)

variable {g}

/-- Whether a label was declared before is told from where labels start. -/
theorem labelClashes_change (hg : Stretches g.place) {s : Scopes}
    (haligned : ∀ f ∈ s.frames, ∀ l ∈ f.labels, Aligned l.start) (name : String) (start : Nat) :
    (change g s).labelClashes name (g.place start) = s.labelClashes name start := by
  have hlabel (f : Frame) (hf : f ∈ s.labelFrames) (l : PlacedLabel) (hl : l ∈ f.labels) :
      (decide ((change g l).start < g.place start) && (change g l).label.name == name) =
        (decide (l.start < start) && l.label.name == name) := by
    have hlt : g.place l.start < g.place start ↔ l.start < start :=
      hg.lt_iff (haligned f (mem_upToBoundary hf) l hl)
    exact congrArg (· && l.label.name == name) (decide_eq_decide.2 hlt)
  rw [labelClashes, labelClashes, labelFrames_change, List.any_map, Bool.eq_iff_iff,
    List.any_eq_true, List.any_eq_true]
  refine exists_congr fun f => and_congr_right fun hf => ?_
  have hlabels : (change g f).labels = f.labels.map (change g) := rfl
  rw [Function.comp_apply, hlabels, List.any_map, List.any_eq_true, List.any_eq_true]
  refine exists_congr fun l => and_congr_right fun hl => ?_
  exact iff_of_eq (congrArg (· = true) (hlabel f hf l hl))

theorem find?_start_change (hg : Stretches g.place) {labels : List PlacedLabel}
    (haligned : ∀ l ∈ labels, Aligned l.start) {start : Nat} (hstart : Aligned start) :
    (labels.map (change g)).find? (·.start = g.place start) =
      (labels.find? (·.start = start)).map (change g) := by
  induction labels with
  | nil => rfl
  | cons l later ih =>
    have heq : g.place l.start = g.place start ↔ l.start = start :=
      hg.eq_iff (haligned l List.mem_cons_self) hstart
    have hlater := ih fun l' hl' => haligned l' (List.mem_cons_of_mem _ hl')
    rw [List.map_cons, List.find?_cons, List.find?_cons, hlater]
    have hsame : decide ((change g l).start = g.place start) = decide (l.start = start) :=
      decide_eq_decide.2 heq
    rw [hsame]
    split <;> rfl

/-- A label is found again by where it starts. -/
theorem localLabel?_change (hg : Stretches g.place) {s : Scopes}
    (haligned : ∀ f ∈ s.frames, ∀ l ∈ f.labels, Aligned l.start) {start : Nat}
    (hstart : Aligned start) :
    (change g s).localLabel? (g.place start) = (s.localLabel? start).map (change g) := by
  obtain ⟨frames⟩ := s
  cases frames with
  | nil => rfl
  | cons f outer =>
    have hfind := find?_start_change hg (haligned f List.mem_cons_self) hstart
    have hlocal (f : Frame) (outer : List Frame) (start : Nat) :
        localLabel? ⟨f :: outer⟩ start = (f.labels.find? (·.start = start)).bind (some ·.label) := rfl
    have hchanged : change g (Scopes.mk (f :: outer)) = ⟨change g f :: outer.map (change g)⟩ := rfl
    have hlabels : (change g f).labels = f.labels.map (change g) := rfl
    rw [hchanged, hlocal, hlocal, hlabels, hfind]
    cases f.labels.find? (·.start = start) <;> rfl

end Scopes

/-! ## Following -/

namespace Resolve

variable {α β : Type} [Changing α] [Changing β] {g : Change} {c : Context}

/-- What `m` does in the context `c`, the resolver `m'` does in the changed context. -/
def Follows (g : Change) (m m' : Resolve α) (c : Context) : Prop :=
  m'.run (change g c) = (change g (m.run c).1, change g (m.run c).2) ∧ g.Fits (m.run c).2

namespace Follows

variable {m m' : Resolve α}

theorem of_run {a : α} {c' : Context} (hrun : m.run c = (a, c'))
    (hchanged : m'.run (change g c) = (change g a, change g c')) (hc' : g.Fits c') :
    Follows g m m' c := by
  unfold Follows
  rw [hrun]
  exact ⟨hchanged, hc'⟩

theorem pure {a a' : α} (h : g.Fits c) (ha : a' = change g a) :
    Follows g (Pure.pure a) (Pure.pure a') c :=
  of_run rfl (by rw [ha]; rfl) h

theorem bind {k k' : α → Resolve β} (h : Follows g m m' c)
    (hk : ∀ a c', g.Fits c' → Follows g (k a) (k' (change g a)) c') :
    Follows g (m >>= k) (m' >>= k') c := by
  obtain ⟨hchanged, hfits⟩ := h
  obtain ⟨hchanged', hfits'⟩ := hk (m.run c).1 (m.run c).2 hfits
  refine ⟨?_, hfits'⟩
  have hrun : (m' >>= k').run (change g c) =
      (k' (m'.run (change g c)).1).run (m'.run (change g c)).2 := rfl
  rw [hrun, hchanged]
  exact hchanged'

theorem get {k k' : Context → Resolve α} (h : Follows g (k c) (k' (change g c)) c) :
    Follows g (MonadState.get >>= k) (MonadState.get >>= k') c := h

theorem ite {p p' : Prop} [Decidable p] [Decidable p'] {n n' : Resolve α} (hp : p' ↔ p)
    (hm : p → Follows g m m' c) (hn : ¬ p → Follows g n n' c) :
    Follows g (if p then m else n) (if p' then m' else n') c := by
  by_cases h : p
  · rw [if_pos h, if_pos (hp.2 h)]
    exact hm h
  · rw [if_neg h, if_neg (fun h' => h (hp.1 h'))]
    exact hn h

end Follows

/-! ## Numbers, diagnostics and scopes -/

theorem fresh_follows (h : g.Fits c) : Follows g fresh fresh c := by
  refine .of_run rfl ?_ ⟨h.stretches, h.symbol, h.aligned⟩
  have hid : (fresh.run (change g c)).1 = change g (SymbolId.declared c.unit c.next) :=
    (h.symbol c.next).symm
  exact congrArg (·, _) hid

theorem report_follows (h : g.Fits c) (at_ : Text.Span) (cause : Cause) :
    Follows g (report at_ cause) (report (relocate g.place at_) cause) c :=
  .of_run rfl rfl ⟨h.stretches, h.symbol, h.aligned⟩

theorem modifyScopes_follows (h : g.Fits c) {f f' : Scopes → Scopes}
    (hchanged : f' (change g c.scopes) = change g (f c.scopes))
    (haligned : ∀ x ∈ (f c.scopes).frames, ∀ l ∈ x.labels, Aligned l.start) :
    Follows g (modifyScopes f) (modifyScopes f') c := by
  refine .of_run rfl ?_ ⟨h.stretches, h.symbol, haligned⟩
  have hrun : (modifyScopes f').run (change g c) =
      ((), { change g c with scopes := f' (change g c.scopes) }) := rfl
  rw [hrun, hchanged]
  rfl

theorem modifyInnermost_follows (h : g.Fits c) {f f' : Frame → Frame}
    (hchanged : ∀ x, f' (change g x) = change g (f x))
    (haligned : ∀ x, (∀ l ∈ x.labels, Aligned l.start) → ∀ l ∈ (f x).labels, Aligned l.start) :
    Follows g (modifyScopes (·.modifyInnermost f)) (modifyScopes (·.modifyInnermost f')) c := by
  obtain ⟨unit, next, ⟨frames⟩, journal, exits, loops, vararg, environment⟩ := c
  have h' := h.aligned
  cases frames with
  | nil => exact modifyScopes_follows h rfl h'
  | cons x outer =>
    refine modifyScopes_follows h ?_ ?_
    · exact congrArg (fun y => Scopes.mk (y :: outer.map (change g))) (hchanged x)
    · intro y hy
      rcases List.mem_cons.1 hy with rfl | hy
      · exact haligned x (h' x List.mem_cons_self)
      · exact h' y (List.mem_cons_of_mem _ hy)

theorem declareVariable_follows (h : g.Fits c) (symbol : Local) :
    Follows g (declareVariable symbol) (declareVariable (change g symbol)) c :=
  modifyInnermost_follows h (fun _ => rfl) fun _ hx => hx

theorem push_follows (h : g.Fits c) (boundary : Bool) :
    Follows g (modifyScopes (·.push boundary)) (modifyScopes (·.push boundary)) c := by
  refine modifyScopes_follows h rfl fun x hx => ?_
  rcases List.mem_cons.1 hx with rfl | hx
  · simp
  · exact h.aligned x hx

theorem pop_follows (h : g.Fits c) : Follows g (modifyScopes Scopes.pop) (modifyScopes Scopes.pop) c := by
  refine modifyScopes_follows h ?_ fun x hx => h.aligned x (List.mem_of_mem_tail hx)
  exact congrArg Scopes.mk List.map_tail.symm

theorem inScope_follows {boundary : Bool} {body body' : Resolve α} (h : g.Fits c)
    (hbody : ∀ c', g.Fits c' → Follows g body body' c') :
    Follows g (inScope boundary body) (inScope boundary body') c := by
  unfold inScope
  refine (push_follows h boundary).bind fun _ c₁ h₁ => ?_
  refine (hbody c₁ h₁).bind fun a c₂ h₂ => ?_
  exact (pop_follows h₂).bind fun _ c₃ h₃ => .pure h₃ rfl

/-- What a context knows of loops and functions may be replaced. -/
theorem Follows.modify {f f' : Context → Context} {k k' : Unit → Resolve α} (h : g.Fits c)
    (hchanged : f' (change g c) = change g (f c)) (hunit : (f c).unit = c.unit)
    (hscopes : (f c).scopes = c.scopes)
    (hk : ∀ c', g.Fits c' → Follows g (k ()) (k' ()) c') :
    Follows g (modify f >>= k) (modify f' >>= k') c := by
  have hfits : g.Fits (f c) := by
    refine ⟨h.stretches, ?_, ?_⟩
    · rw [hunit]
      exact h.symbol
    · rw [hscopes]
      exact h.aligned
  obtain ⟨hrun, hfits'⟩ := hk (f c) hfits
  rw [← hchanged] at hrun
  exact ⟨hrun, hfits'⟩

theorem Follows.set {s s' : Context} {k k' : Unit → Resolve α} (hs : s' = change g s)
    (hk : Follows g (k ()) (k' ()) s) : Follows g (set s >>= k) (set s' >>= k') c := by
  rw [hs]
  exact hk

theorem inLoop_follows {body body' : Label → Resolve α} (h : g.Fits c)
    (hbody : ∀ exit c', g.Fits c' → Follows g (body exit) (body' (change g exit)) c') :
    Follows g (inLoop body) (inLoop body') c := by
  unfold inLoop
  refine (fresh_follows h).bind fun id c₁ h₁ => ?_
  refine .modify h₁ rfl rfl rfl fun c₂ h₂ => .get ?_
  refine .modify h₂ rfl rfl rfl fun c₃ h₃ => ?_
  refine (hbody _ c₃ h₃).bind fun a c₄ h₄ => ?_
  refine .modify h₄ ?_ rfl rfl fun c₅ h₅ => .pure h₅ rfl
  exact congrArg (fun exits => { change g c₄ with exits }) List.map_tail.symm

theorem inFunction_follows {vararg : Bool} {body body' : Resolve α} (h : g.Fits c)
    (hbody : ∀ c', g.Fits c' → Follows g body body' c') :
    Follows g (inFunction vararg body) (inFunction vararg body') c := by
  unfold inFunction
  refine .get (.set rfl ?_)
  have hentered : g.Fits { c with exits := [], vararg := vararg } :=
    ⟨h.stretches, h.symbol, h.aligned⟩
  refine (inScope_follows hentered hbody).bind fun a c₁ h₁ => ?_
  exact .modify h₁ rfl rfl rfl fun c₂ h₂ => .pure h₂ rfl

/-! ## Declarations -/

theorem declare_follows (h : g.Fits c) (name : String) : Follows g (declare name) (declare name) c := by
  unfold declare
  refine (fresh_follows h).bind fun id c₁ h₁ => ?_
  exact (declareVariable_follows h₁ (Local.plain id name)).bind fun _ c₂ h₂ => .pure h₂ rfl

theorem declareAll_follows (h : g.Fits c) (ns : List Syntax.Name) :
    Follows g (declareAll ns) (declareAll (relocate g.place ns)) c := by
  induction ns generalizing c with
  | nil => exact .pure h rfl
  | cons n later ih =>
    refine (declare_follows h n.text).bind fun symbol c₁ h₁ => ?_
    exact (ih h₁).bind fun symbols c₂ h₂ => .pure h₂ rfl

theorem declareVariables_follows (h : g.Fits c) (symbols : List Local) :
    Follows g (symbols.forM declareVariable) ((change g symbols).forM declareVariable) c := by
  induction symbols generalizing c with
  | nil => exact .pure h rfl
  | cons symbol later ih =>
    exact (declareVariable_follows h symbol).bind fun _ c₁ h₁ => ih h₁

theorem declareLabel_follows (h : g.Fits c) (label : Label) {start : Nat} (hstart : Aligned start) :
    Follows g (modifyScopes (·.declareLabel label start))
      (modifyScopes (·.declareLabel (change g label) (g.place start))) c := by
  refine modifyInnermost_follows h (fun x => ?_) fun x hx => ?_
  · have hlabels : (x.labels ++ [PlacedLabel.mk label start]).map (change g) =
        x.labels.map (change g) ++ [⟨change g label, g.place start⟩] := List.map_append
    exact congrArg (Frame.mk _ · _) hlabels.symm
  · exact List.forall_mem_append.2 ⟨hx, List.forall_mem_singleton.2 hstart⟩

/-- Labels are declared at the starts of their names. -/
theorem declareLabels_follows (h : g.Fits c) (ss : List Syntax.Statement) (hss : Settled ss) :
    Follows g (declareLabels ss) (declareLabels (relocate g.place ss)) c := by
  induction ss generalizing c with
  | nil => exact .pure h rfl
  | cons s later ih =>
    have hlater : Settled later := fun s' hs' => hss s' (List.mem_cons_of_mem _ hs')
    cases s with
    | label n at_ =>
      have hparts := Syntax.Node.stands_statement.1 (hss _ List.mem_cons_self)
      have hn : Aligned n.span.start :=
        Syntax.Node.stands_name.1 (hparts (.name n) List.mem_cons_self)
      have hdeclared (c' : Context) (h' : g.Fits c') :
          Follows g
            (do
              let label : Label := ⟨← fresh, n.text⟩
              modifyScopes (·.declareLabel label n.span.start)
              declareLabels later)
            (do
              let label : Label := ⟨← fresh, n.text⟩
              modifyScopes (·.declareLabel label (g.place n.span.start))
              declareLabels (relocate g.place later)) c' := by
        refine (fresh_follows h').bind fun id c₁ h₁ => ?_
        exact (declareLabel_follows h₁ ⟨id, n.text⟩ hn).bind fun _ c₂ h₂ => ih h₂ hlater
      have hclash : (change g c.scopes).labelClashes n.text (g.place n.span.start) = true ↔
          c.scopes.labelClashes n.text n.span.start = true := by
        rw [Scopes.labelClashes_change h.stretches h.aligned]
      refine .get (.ite hclash (fun _ => ?_) fun _ => hdeclared c h)
      exact (report_follows h n.span _).bind fun _ c₁ h₁ => hdeclared c₁ h₁
    | _ => exact ih h hlater

theorem declaredSymbols_follows (h : g.Fits c) (closed : Bool) (ds : List Syntax.LocalDeclaration) :
    Follows g (declaredSymbols closed ds) (declaredSymbols closed (relocate g.place ds)) c := by
  induction ds generalizing closed c with
  | nil => exact .pure h rfl
  | cons d later ih =>
    obtain ⟨n, attrib, at_⟩ := d
    have hmoved : relocate g.place (Syntax.LocalDeclaration.mk n attrib at_ :: later) =
        ⟨relocate g.place n, relocate g.place attrib, relocate g.place at_⟩ ::
          relocate g.place later := rfl
    rw [hmoved]
    unfold declaredSymbols
    extract_lets closes rest check closes' rest' check'
    have hsame : closes' = closes := by
      cases attrib <;> rfl
    clear_value closes'
    subst hsame
    have hrest (c' : Context) (h' : g.Fits c') : Follows g (rest ()) (rest' ()) c' := by
      refine (fresh_follows h').bind fun id c₁ h₁ => ?_
      exact (ih h₁ _).bind fun symbols c₂ h₂ => .pure h₂ rfl
    have hcheck (c' : Context) (h' : g.Fits c') : Follows g (check ()) (check' ()) c' := by
      cases attrib with
      | none => exact hrest c' h'
      | some a =>
        refine .ite Iff.rfl (fun _ => ?_) fun _ => hrest c' h'
        exact (report_follows h' a.span _).bind fun _ c₁ h₁ => hrest c₁ h₁
    refine .ite Iff.rfl (fun _ => ?_) fun _ => hcheck c h
    exact (report_follows h at_ _).bind fun _ c₁ h₁ => hcheck c₁ h₁

/-! ## Names and jumps -/

theorem name_follows (h : g.Fits c) (n : Syntax.Name) :
    Follows g (name n) (name (relocate g.place n)) c := by
  unfold name
  refine .get ?_
  have hfound (text : String) : (change g c).scopes.lookupVariable? text =
      (c.scopes.lookupVariable? text).map (change g) :=
    Scopes.lookupVariable?_change g c.scopes text
  have htext : (relocate g.place n).text = n.text := rfl
  rw [htext, hfound, hfound]
  cases c.scopes.lookupVariable? n.text with
  | some symbol => exact .pure h rfl
  | none =>
    refine .pure h ?_
    have henvironment : ((c.scopes.lookupVariable? environmentName).map (change g)).getD
        (change g c).environment =
          change g ((c.scopes.lookupVariable? environmentName).getD c.environment) := by
      cases c.scopes.lookupVariable? environmentName <;> rfl
    rw [henvironment]
    rfl

theorem targetName_follows (h : g.Fits c) (n : Syntax.Name) :
    Follows g (targetName n) (targetName (relocate g.place n)) c := by
  unfold targetName
  refine (name_follows h n).bind fun e c₁ h₁ => ?_
  cases e with
  | name symbol =>
    refine .ite Iff.rfl (fun _ => ?_) fun _ => .pure h₁ rfl
    exact (report_follows h₁ n.span _).bind fun _ c₂ h₂ => .pure h₂ rfl
  | _ => exact .pure h₁ rfl

theorem breakLoop_follows (h : g.Fits c) (at_ : Text.Span) :
    Follows g (breakLoop at_) (breakLoop (relocate g.place at_)) c := by
  unfold breakLoop
  refine .get ?_
  have hexits : (change g c).exits = c.exits.map (change g) := rfl
  rw [hexits]
  cases c.exits with
  | nil => exact (report_follows h at_ _).bind fun _ c₁ h₁ => .pure h₁ rfl
  | cons exit outer => exact .pure h rfl

theorem goto_follows (h : g.Fits c) (n : Syntax.Name) :
    Follows g (goto n) (goto (relocate g.place n)) c := by
  unfold goto
  refine .get ?_
  have hfound : (change g c).scopes.lookupLabel? (relocate g.place n).text =
      (c.scopes.lookupLabel? n.text).map (change g) :=
    Scopes.lookupLabel?_change g c.scopes n.text
  rw [hfound]
  cases c.scopes.lookupLabel? n.text with
  | none => exact (report_follows h n.span _).bind fun _ c₁ h₁ => .pure h₁ rfl
  | some label => exact .pure h rfl

theorem label_follows (h : g.Fits c) (n : Syntax.Name) (hn : Aligned n.span.start) :
    Follows g (label n) (label (relocate g.place n)) c := by
  unfold label
  refine .get ?_
  have hfound : (change g c).scopes.localLabel? (relocate g.place n).span.start =
      (c.scopes.localLabel? n.span.start).map (change g) :=
    Scopes.localLabel?_change h.stretches h.aligned hn
  rw [hfound]
  cases c.scopes.localLabel? n.span.start with
  | none => exact (fresh_follows h).bind fun id c₁ h₁ => .pure h₁ rfl
  | some label => exact .pure h rfl

theorem foldl_index_change (keys : List Syntax.Name) (e : Expression) :
    (relocate g.place keys).foldl (fun e key => Expression.index e (.string key.text)) (change g e) =
      change g (keys.foldl (fun e key => Expression.index e (.string key.text)) e) := by
  induction keys generalizing e with
  | nil => rfl
  | cons key later ih => exact ih (.index e (.string key.text))

theorem functionTarget?_follows (h : g.Fits c) (f : Syntax.FunctionName) :
    Follows g (functionTarget? f) (functionTarget? (relocate g.place f)) c := by
  obtain ⟨path, method, at_⟩ := f
  have hkeys (keys : List Syntax.Name) : relocate g.place keys ++ (relocate g.place method).toList =
      relocate g.place (keys ++ method.toList) := by
    cases method <;> simp [relocate]
  have hlong (n : Syntax.Name) (keys : List Syntax.Name) : Follows g
      (do
        let first ← name n
        return some ((keys ++ method.toList).foldl
          (fun e key => Expression.index e (.string key.text)) first))
      (do
        let first ← name (relocate g.place n)
        return some ((relocate g.place keys ++ (relocate g.place method).toList).foldl
          (fun e key => Expression.index e (.string key.text)) first)) c := by
    refine (name_follows h n).bind fun first c₁ h₁ => .pure h₁ ?_
    rw [hkeys]
    exact congrArg some (foldl_index_change (keys ++ method.toList) first)
  cases path with
  | nil => exact .pure h rfl
  | cons n keys =>
    cases keys with
    | nil =>
      cases method with
      | none => exact (targetName_follows h n).bind fun e c₁ h₁ => .pure h₁ rfl
      | some m => exact hlong n []
    | cons key keys => exact hlong n (key :: keys)

end Resolve

end Resolved
end LuaFront
