import LuaFront.Proofs.Syntax.Blame
import LuaFront.Proofs.Syntax.Words
import LuaFront.Proofs.Token.Cutting

/-!
# LuaFront.Proofs.Syntax.Exactness

Stretches are exact: what is read from the text of a node alone is the node.

The text of a node that was read is cut off. Its tokens are those that were consumed for the node
(`Scanner.Lexes.severed`), with the end of file behind them. A reader that is started there is in
step with the one that read the node (`Read.InStep`), up to the last of these tokens; then both stop,
the one because the node was complete, the other because the text is.

* `Read.Fresh m`: what the reader `m` does not depend on where the token before ended.
* `Read.Turned.again`: a loop does again the turns that it did, and no more at the end of the text.
* `Expression.ReadAt.again`, `Read.statement_again`: reading the tokens of a node.
* `Tree.spans_exact`: reading the text of a node.
-/

namespace LuaFront
namespace Syntax

open Text (Span)
open Placed (relocate Settled)

namespace Read

open Reading (Abreast Outcome)

variable {α β σ : Type}

/-! ## Fresh readers -/

/-- A reader that starts by consuming a token, unless it reports something. It does not depend on
where the token before that one ended. -/
class Fresh (m : Read α) : Prop where
  fresh : ∀ {r : Reading} {a : α} {r' : Reading} {n : Nat}, r.Sound → n ≤ r.current.span.start →
    m.run r = some (a, r') → r'.Silent → m.run { r with previousEnd := n } = some (a, r')

instance : Fresh take where
  fresh {r a r' n} hr hn hrun _ := by
    have hle := hr.start_le_stop
    have hmax : max r.previousEnd r.current.span.stop = max n r.current.span.stop := by
      have := hr.start_ge
      omega
    have hahead : ({ r with previousEnd := n } : Reading).ahead = r.ahead := rfl
    rw [run_take] at hrun ⊢
    cases hrun
    unfold Reading.taken
    rw [hahead]
    cases r.ahead <;> simp [hmax, Reading.noted]

instance (priority := low) Fresh.bind (m : Read α) (k : α → Read β) [Fresh m] [∀ a, Acting (k a)] :
    Fresh (m >>= k) where
  fresh hr hn hrun hsilent := by
    obtain ⟨a, r₁, hm, hk⟩ := run_bind_eq_some.1 hrun
    have hsilent₁ := (Acting.acts hk).advances.silent hsilent
    exact run_bind_eq_some.2 ⟨a, r₁, Fresh.fresh hr hn hm hsilent₁, hk⟩

instance (f : α → β) (m : Read α) [Fresh m] : Fresh (f <$> m) := by
  rw [map_eq_pure_bind]
  infer_instance

instance (c : Prop) [Decidable c] (m m' : Read α) [Fresh m] [Fresh m'] :
    Fresh (if c then m else m') := by
  split <;> infer_instance

instance Fresh.kind (k : Kind → Read α) [∀ x, Fresh (k x)] : Fresh (kind >>= k) where
  fresh hr hn hrun hsilent := Fresh.fresh (m := k _) hr hn hrun hsilent

instance Fresh.start (k : Nat → Read α) [∀ x, Fresh (k x)] : Fresh (start >>= k) where
  fresh hr hn hrun hsilent := Fresh.fresh (m := k _) hr hn hrun hsilent

instance Fresh.span (k : Span → Read α) [∀ x, Fresh (k x)] : Fresh (span >>= k) where
  fresh hr hn hrun hsilent := Fresh.fresh (m := k _) hr hn hrun hsilent

instance (at_ : Span) (cause : Cause) (k : Unit → Read α) [∀ x, Acting (k x)] :
    Fresh (report at_ cause >>= k) where
  fresh {r a r' n} hr _ hrun hsilent := by
    have hr' := (Acting.acts hrun).advances.silent hsilent
    obtain ⟨_, r₁, hreport, hk⟩ := run_bind_eq_some.1 hrun
    rw [run_report_of_silent hr'] at hreport
    cases hreport
    exact absurd ((Acting.acts hk).advances.silent hsilent) (Reading.not_silent_reported _ _)

instance (k : Kind) : Fresh (expect k) := by unfold expect; infer_instance
instance : Fresh name := by unfold name; infer_instance
instance : Fresh literal := by unfold literal; infer_instance

section

-- A reader in sequence has one instance for each of its steps.
set_option synthInstance.maxSize 1024

variable (d : Nat)

instance : Fresh (table (.upTo d)) := by rw [table_eq]; infer_instance

instance : Fresh (prefixHead (.upTo d)) := by
  unfold prefixHead
  refine @Fresh.start _ _ fun st => @Fresh.kind _ _ fun k => ?_
  split <;> infer_instance

instance : Fresh (prefixExpression (.upTo d)) := by unfold prefixExpression; infer_instance

instance : Fresh (primary (.upTo d)) := by
  unfold primary
  refine @Fresh.start _ _ fun st => @Fresh.kind _ _ fun k => ?_
  split <;> infer_instance

instance : Fresh (unary (.upTo d)) := by
  unfold unary
  refine @Fresh.start _ _ fun st => @Fresh.kind _ _ fun k => ?_
  split <;> infer_instance

instance : Fresh (ifThen (.upTo d)) := by unfold ifThen; infer_instance
instance : Fresh (forLoop (.upTo d)) := by unfold forLoop; infer_instance
instance : Fresh (function (.upTo d)) := by unfold function; infer_instance
instance : Fresh (localStatement (.upTo d)) := by unfold localStatement; infer_instance
instance : Fresh (callOrAssign (.upTo d)) := by unfold callOrAssign; infer_instance

instance : Fresh (statement (.upTo d)) := by
  unfold statement
  refine @Fresh.start _ _ fun st => @Fresh.kind _ _ fun k => ?_
  split <;> infer_instance

end

/-! ## The same turns again -/

theorem Turned.imp {step step' : σ → Read (σ ⊕ α)} {a b : σ} {r r' : Reading}
    (h : Turned step a r b r')
    (himp : ∀ {b c r r'}, (step b).run r = some (.inl c, r') → (step' b).run r = some (.inl c, r')) :
    Turned step' a r b r' := by
  induction h with
  | refl => exact .refl
  | tail _ hstep ih => exact .tail ih (himp hstep)

theorem Turned.prompted {step : σ → Read (σ ⊕ α)} [∀ a, Acting (step a)] [∀ a, Prompt (step a)]
    {a b : σ} {r r' : Reading} (h : Turned step a r b r') (hr : r.Ready) (hs : r'.Silent) :
    r.Takes r' := by
  induction h with
  | refl => exact .refl
  | tail _ hstep ih =>
    have htakes := ih ((Acting.acts hstep).advances.silent hs)
    exact htakes.trans ((Prompt.prompted (htakes.ready hr) hstep).takes hs)

/-- A loop that is in step with one that took some turns takes them too, and then goes on. -/
theorem Turned.again {step step' : σ → Read (σ ⊕ α)} [∀ a, Acting (step a)] [∀ a, Acting (step' a)]
    [∀ a, InStep (step a) (step' a)] {o o' c : List Token} {a b : σ} {r r' s s'' : Reading}
    {turns : Nat} {x : α} (h : Turned step a r b r') (hab : Abreast o o' c r s)
    (hend : Token.AtEnd o') (hsilent : r'.Silent) (hsuffix : o <:+ r'.tokens)
    (hloop : (loopWith step' turns a).run s = some (x, s'')) :
    ∃ c' s' turns', Abreast o o' c' r' s' ∧ (loopWith step' turns' b).run s' = some (x, s'') := by
  induction h with
  | refl => exact ⟨c, s, turns, hab, hloop⟩
  | tail _ hstep ih =>
    have hacts := Acting.acts hstep
    obtain ⟨c₁, s₁, turns₁, hab₁, hloop₁⟩ :=
      ih (hacts.advances.silent hsilent) (hsuffix.trans hacts.advances.tokens)
    cases turns₁ with
    | zero => cases hloop₁
    | succ turns₁ =>
      rw [loopWith] at hloop₁
      obtain ⟨y, s₂, hstep', hrest⟩ := run_bind_eq_some.1 hloop₁
      obtain ⟨rfl, c₂, hab₂⟩ := (InStep.outcome hab₁ hstep hstep').agree hend hsilent hsuffix
      exact ⟨c₂, s₂, turns₁, hab₂, hrest⟩

/-- A loop whose next turn is the last gives what that turn gives. -/
theorem loopWith_stops {step : σ → Read (σ ⊕ α)} {a : σ} {b x : α} {r r₁ r' : Reading} {turns : Nat}
    (hstep : (step a).run r = some (.inr b, r₁))
    (hloop : (loopWith step turns a).run r = some (x, r')) : x = b ∧ r' = r₁ := by
  cases turns with
  | zero => cases hloop
  | succ turns =>
    rw [loopWith] at hloop
    obtain ⟨y, r₂, hy, hrest⟩ := run_bind_eq_some.1 hloop
    rw [hstep] at hy
    cases hy
    cases hrest
    exact ⟨rfl, rfl⟩

/-! ## Expressions -/

/-- What an operator may continue under another one it may continue on its own. -/
theorem infixed_alone {inner : Nested} {parent st : Nat} {left e : Expression} {r r' : Reading}
    (hrun : (infixed inner parent st left).run r = some (.inl e, r')) :
    (infixed inner 0 st left).run r = some (.inl e, r') := by
  rw [infixed, run_kind_bind] at hrun ⊢
  split at hrun
  next op hop =>
    have hzero : continues 0 op = true := by cases op <;> rfl
    split at hrun
    · rw [if_pos hzero]
      exact hrun
    · cases hrun
  next => cases hrun

theorem infixed_end {inner : Nested} {parent st : Nat} (left : Expression) {r : Reading}
    (hk : r.current.kind = .endOfFile) :
    (infixed inner parent st left).run r = some (.inr left, r) := by
  rw [infixed, run_kind_bind, hk]
  rfl

theorem suffix_end {inner : Nested} {st : Nat} (e : Expression × Shape) {r : Reading}
    (hk : r.current.kind = .endOfFile) : (suffix inner st e).run r = some (.inr e, r) := by
  rw [suffix, run_kind_bind, hk]
  rfl

/-- An operand that starts as a prefix expression does is one. -/
theorem unary_of_startsPrefix {inner : Nested} {r : Reading}
    (hk : Grammar.startsPrefix r.current.kind = true) :
    (unary inner).run r = (do return (← prefixExpression inner).1).run r := by
  unfold Grammar.startsPrefix at hk
  split at hk
  next hname =>
    rw [unary, run_start_bind, run_kind_bind, hname]
    change (primary inner).run r = _
    rw [primary, run_start_bind, run_kind_bind, hname]
  next hopen =>
    rw [unary, run_start_bind, run_kind_bind, hopen]
    change (primary inner).run r = _
    rw [primary, run_start_bind, run_kind_bind, hopen]
  next => cases hk

/-- A prefix expression starts with a name or a parenthesis, or something is reported. -/
theorem startsPrefix_of_run {d : Nat} {r r' : Reading} {x : Expression × Shape}
    (hrun : (prefixHead (.upTo d)).run r = some (x, r')) (hsilent : r'.Silent) :
    Grammar.startsPrefix r.current.kind = true := by
  have hr := (Acting.acts hrun).advances.silent hsilent
  rw [prefixHead, run_start_bind, run_kind_bind] at hrun
  split at hrun
  next hk => rw [hk]; rfl
  next hk => rw [hk]; rfl
  next =>
    rw [run_span_bind] at hrun
    obtain ⟨_, r₁, hreport, hk⟩ := run_bind_eq_some.1 hrun
    rw [run_report_of_silent hr] at hreport
    cases hreport
    exact absurd ((Acting.acts hk).advances.silent hsilent) (Reading.not_silent_reported _ _)

end Read

namespace Reading

/-- Readings abreast of which one has nothing left in common. -/
theorem Abreast.nil {o o' c : List Token} {r s : Reading} (h : Abreast o o' c r s)
    (ho : r.tokens = o) : Abreast o o' [] r s := by
  have hc : c ++ o = [] ++ o := by rw [← h.left.tokens, ho, List.nil_append]
  cases List.append_cancel_right hc
  exact h

/-- A reading as it would be if no token had been consumed before it. -/
def alone (r : Reading) : Reading := { r with previousEnd := r.current.span.start }

end Reading

open Reading (Abreast) in
/-- An expression is read again from its own tokens. -/
theorem Expression.ReadAt.again {e x : Expression} {d d' : Nat} {r r' s s' : Reading}
    {c : List Token} {t eof : Token} (h : e.ReadAt d r r') (hr : r.Ready) (hsilent : r'.Silent)
    (heof : eof.kind = .endOfFile) (hab : Abreast r'.tokens [eof] (t :: c) r.alone s)
    (hrun : (Read.operand (.upTo d') 0).run s = some (x, s')) :
    x = e ∧ Abreast r'.tokens [eof] [] r' s' := by
  have hend : Token.AtEnd [eof] := ⟨eof, rfl, heof⟩
  have hstart : s.current.span.start = r.current.span.start := by
    rw [hab.current.2, ← hab.current.1]
    rfl
  rw [Read.operand, Read.run_start_bind, hstart] at hrun
  obtain ⟨left', s₀, hleft', hloop⟩ := Read.run_bind_eq_some.1 hrun
  cases h with
  | @operand parent left e r₀ r' hleft hturned =>
    have hacts := hturned.acts
    have hleft := Read.Fresh.fresh (n := r.current.span.start) hr.sound (Nat.le_refl _) hleft
      (hacts.advances.silent hsilent)
    obtain ⟨rfl, c₀, hab₀⟩ := (Read.InStep.outcome hab hleft hleft').agree hend
      (hacts.advances.silent hsilent) hacts.advances.tokens
    have hturned : Read.Turned (Read.infixed (.upTo d) 0 r.current.span.start) _ r₀ e r' :=
      hturned.imp Read.infixed_alone
    obtain ⟨c', s₁, turns, hab', hrest⟩ :=
      hturned.again hab₀ hend hsilent (List.suffix_refl _) hloop
    have habend := hab'.nil rfl
    obtain ⟨rfl, rfl⟩ := Read.loopWith_stops (Read.infixed_end e (habend.kind_right hend)) hrest
    exact ⟨rfl, habend⟩
  | @prefixed head e shape r₀ r' hhead hturned =>
    have hacts := hturned.acts
    have hstarts := Read.startsPrefix_of_run hhead (hacts.advances.silent hsilent)
    have hstarts' : Grammar.startsPrefix s.current.kind = true := by
      rw [hab.current.2, ← hab.current.1]
      exact hstarts
    rw [Read.unary_of_startsPrefix hstarts'] at hleft'
    obtain ⟨p, s₁, hp, hpure⟩ := Read.run_bind_eq_some.1 hleft'
    cases hpure
    rw [Read.prefixExpression, Read.run_start_bind, hstart] at hp
    obtain ⟨head', s₂, hhead', hsuffixes⟩ := Read.run_bind_eq_some.1 hp
    have hhead := Read.Fresh.fresh (n := r.current.span.start) hr.sound (Nat.le_refl _) hhead
      (hacts.advances.silent hsilent)
    obtain ⟨rfl, c₀, hab₀⟩ := (Read.InStep.outcome hab hhead hhead').agree hend
      (hacts.advances.silent hsilent) hacts.advances.tokens
    obtain ⟨c', s₁, turns, hab', hrest⟩ :=
      hturned.again hab₀ hend hsilent (List.suffix_refl _) hsuffixes
    have habend := hab'.nil rfl
    have hk := habend.kind_right hend
    obtain ⟨rfl, rfl⟩ := Read.loopWith_stops (Read.suffix_end (e, shape) hk) hrest
    obtain ⟨rfl, rfl⟩ := Read.loopWith_stops (Read.infixed_end e hk) hloop
    exact ⟨rfl, habend⟩

open Reading (Abreast) in
/-- A statement is read again from its own tokens. -/
theorem Read.statement_again {x y : Option Statement} {d d' : Nat} {r r' s s' : Reading}
    {c : List Token} {t eof : Token} (h : (Read.statement (.upTo d)).run r = some (x, r'))
    (hr : r.Ready) (hsilent : r'.Silent) (heof : eof.kind = .endOfFile)
    (hab : Abreast r'.tokens [eof] (t :: c) r.alone s)
    (hrun : (Read.statement (.upTo d')).run s = some (y, s')) :
    y = x ∧ Abreast r'.tokens [eof] [] r' s' := by
  have h := Read.Fresh.fresh (n := r.current.span.start) hr.sound (Nat.le_refl _) h hsilent
  obtain ⟨hy, c', hab'⟩ := (Read.InStep.outcome hab h hrun).agree ⟨eof, rfl, heof⟩ hsilent
    (List.suffix_refl _)
  exact ⟨hy, hab'.nil rfl⟩

/-! ## Cutting a text -/

theorem Reading.ready_ofSource {source : Text.Source}
    (hclean : ∀ l ∈ (Scanner.ofSource source).lexemes, l.diagnostics = []) :
    (Reading.ofSource source).Ready :=
  at_ofSource hclean

/-- Tokens of a text in a row are read again from the stretch of text that they make up. -/
theorem Reading.cut_ofSource {source : Text.Source} {p c o : List Token}
    (hclean : ∀ l ∈ (Scanner.ofSource source).lexemes, l.diagnostics = [])
    (htokens : (Reading.ofSource source).tokens = p ++ (c ++ o)) (hc : c ≠ []) (ho : o ≠ []) :
    ∃ (before word after : List Char) (c₀ : List Token),
      source.chars = before ++ (word ++ after) ∧ c = c₀.map (Token.shift (Text.size before)) ∧
      c₀.head?.map (·.span.start) = some 0 ∧
      c₀.getLast?.map (·.span.stop) = some (Text.size word) ∧
      (Scanner.ofSource (.ofChars word)).lexemes = c₀.map (⟨·, []⟩) ++
        [⟨⟨.endOfFile, Span.empty (Text.size word), .none, false⟩, []⟩] := by
  have hlexemes := Reading.lexemes_ofSource hclean
  rw [htokens] at hlexemes
  obtain ⟨s₁, hbefore, hs₁⟩ := Scanner.Lexes.of_lexemes (by simp [hc]) hlexemes
  obtain ⟨s₂, hmiddle, -⟩ := Scanner.Lexes.of_lexemes ho hs₁
  obtain ⟨before, hchars, hoffset⟩ := hbefore.reaches
  obtain ⟨bs, word, c₀, hrest, -, hfirst, hlast, hshift, hread⟩ := hmiddle.severed hc
  have hsize : s₁.offset = Text.size before := by
    rw [hoffset]
    exact Nat.zero_add _
  refine ⟨before ++ Scanner.Blank.texts bs, word, s₂.rest, c₀, ?_, ?_, hfirst, hlast, ?_⟩
  · rw [List.append_assoc, ← hrest, ← hchars]
    rfl
  · rw [hshift, hsize, Text.size_append]
  · have hcut := (hread 0 [] Scanner.severs_nil).lexemes
    rw [List.append_nil, Nat.zero_add, Scanner.lexemes.eq_def ⟨Text.size word, []⟩,
      Scanner.lex_of_rest rfl] at hcut
    rw [Scanner.ofSource, Text.Source.chars_ofChars, hcut, List.map_map]
    rfl

/-! ## The same text further on -/

namespace Reading

theorem relocate_relocate (f g : Nat → Nat) (r : Reading) :
    relocate g (relocate f r) = relocate (g ∘ f) r := by
  have hdiagnostics (ds : List Diagnostic) : relocate g (relocate f ds) = relocate (g ∘ f) ds :=
    List.map_map
  have hlexeme (l : Lexeme) : relocate g (relocate f l) = relocate (g ∘ f) l :=
    congrArg (Lexeme.mk _) (hdiagnostics l.diagnostics)
  have hevent (e : Event) : relocate g (relocate f e) = relocate (g ∘ f) e := by
    cases e <;> rfl
  have hbuffer : relocate g (relocate f r.buffer) = relocate (g ∘ f) r.buffer :=
    (Option.map_map ..).trans (Option.map_congr fun l _ => hlexeme l)
  have hunread : relocate g (relocate f r.unread) = relocate (g ∘ f) r.unread :=
    List.map_map.trans (List.map_congr_left fun l _ => hlexeme l)
  have hjournal : relocate g (relocate f r.journal) = relocate (g ∘ f) r.journal :=
    congrArg Journal.mk (List.map_map.trans (List.map_congr_left fun e _ => hevent e))
  exact (Reading.mk.injEq ..).mpr ⟨rfl, hbuffer, hunread, rfl, hjournal⟩

theorem silent_relocate {f : Nat → Nat} {r : Reading} : (relocate f r).Silent ↔ r.Silent := by
  have h := Journal.diagnostics_relocate f r.journal
  unfold Silent diagnostics
  rw [show (relocate f r).journal = relocate f r.journal from rfl, h]
  exact List.map_eq_nil_iff

theorem At.shift {r : Reading} {i : List Token} (h : r.At i) (n : Nat) :
    (relocate (· + n) r).At (i.map (Token.shift n)) := by
  have hahead : (relocate (· + n) r).ahead.map Lexeme.token =
      (r.ahead.map Lexeme.token).map (Token.shift n) := by
    rw [ahead_relocate, List.map_map]
    exact List.map_map
  have htokens : (relocate (· + n) r).tokens = r.tokens.map (Token.shift n) :=
    congrArg (List.cons _) hahead
  refine ⟨⟨?_, ?_⟩, silent_relocate.2 h.silent, ?_, by rw [htokens, h.tokens]⟩
  · rw [htokens]
    exact h.sound.ordered.shift n
  · rw [htokens, List.forall_mem_map]
    exact h.sound.spelled
  · intro l hl
    rw [ahead_relocate] at hl
    obtain ⟨l', hl', rfl⟩ := List.mem_map.1 hl
    have hclean := h.clean l' hl'
    simp [relocate, hclean]

end Reading

/-- A reader that takes tokens as they come, wherever they stand, and always gives something at a
token. -/
structure Read.Portable {α : Type} [Placed α] (read : Nested → Read α) : Prop where
  comp : ∀ (f g : Nat → Nat) (a : α), relocate g (relocate f a) = relocate (g ∘ f) a
  moves : ∀ {f : Nat → Nat} {depth : Nat} {r : Reading}, Stretches f → r.Regular →
    r.current.kind ≠ .endOfFile → Read.Moves f (read (.upTo depth)) r
  yields : ∀ {r : Reading}, r.Sound → r.current.kind ≠ .endOfFile →
    Read.Yields (read r.nested) r fun _ _ => True

namespace Read

theorem portable_expression : Portable Nested.expression where
  comp := Relocate.expression_comp
  moves hf hr _ := expression_moves (Nested.moves_upTo hf _) hr
  yields {r} hr _ := by
    have hlen : r.tokens.length ≤ r.ahead.length + 1 := by simp [Reading.tokens]
    exact (operand_reads (Nested.good_upTo _) hr hlen 0).imp fun _ _ _ => trivial

theorem portable_statement : Portable statement where
  comp f g s := by
    cases s with
    | none => rfl
    | some s => exact congrArg some (Relocate.statement_comp f g s)
  moves hf hr hne := statement_moves hf (Nested.moves_upTo hf _) hr hne
  yields {r} hr hne := by
    have hlen : r.tokens.length ≤ r.ahead.length + 1 + 1 := by simp [Reading.tokens]
    exact (statement_reads (Nested.good_upTo _) hr hlen hne).imp fun _ _ _ => trivial

/-- What a reader does at the start of a text, it does where the text stands further on. -/
theorem Portable.run_shifted {α : Type} [Placed α] {read : Nested → Read α} (h : Portable read)
    {source : Text.Source} (hclean : ∀ l ∈ (Scanner.ofSource source).lexemes, l.diagnostics = [])
    (hne : (Reading.ofSource source).current.kind ≠ .endOfFile) (n : Nat) :
    ∃ a r', (read (Reading.ofSource source).nested).run (.ofSource source) = some (a, r') ∧
      (read (Reading.ofSource source).nested).run (relocate (· + n) (Reading.ofSource source)) =
        some (relocate (· + n) a, relocate (· + n) r') := by
  have hsound := Reading.sound_ofSource source
  have hplace := hsound.ordered.stretches
  have hmoved := Reading.relocate_ofWords hclean
  have hregular : (Reading.ofWords source.words).Regular := by
    rw [← Reading.words_ofSource]
    exact Reading.regular_ofWords hsound.ordered hsound.spelled
  have hnested : (Reading.ofWords source.words).nested = (Reading.ofSource source).nested := by
    rw [← hmoved, Reading.nested, Reading.nested, Reading.length_ahead_relocate]
  have hne' : (Reading.ofWords source.words).current.kind ≠ .endOfFile := by
    rw [← hmoved] at hne
    exact hne
  obtain ⟨a, r', hrun, -⟩ := h.yields hregular.sound hne'
  rw [hnested] at hrun
  have hshifted : Stretches ((· + n) ∘ Token.place (Reading.ofSource source).tokens) := by
    constructor
    · exact fun a b hab => Nat.add_le_add_right (hplace.mono a b hab) n
    · exact fun a ha => Nat.add_lt_add_right (hplace.strict a ha) n
  have hhere := (h.moves hplace hregular hne' a r' hrun).1
  have hthere := (h.moves hshifted hregular hne' a r' hrun).1
  rw [hmoved] at hhere
  rw [← Reading.relocate_relocate, ← Reading.relocate_relocate, ← h.comp, hmoved] at hthere
  exact ⟨_, _, hhere, hthere⟩

end Read

/-! ## Nodes -/

namespace Reading

/-- A text is read as `a`, all of it, and nothing is reported. -/
def Whole {α : Type} (read : Nested → Read α) (text : List Char) (a : α) : Prop :=
  ∃ r', (read (ofSource (.ofChars text)).nested).run (ofSource (.ofChars text)) = some (a, r') ∧
    r'.current.kind = .endOfFile ∧ r'.previousEnd = Text.size text ∧ r'.diagnostics = []

/-- The tokens that were consumed are a text of their own. -/
theorem Takes.cut {source : Text.Source}
    (hclean : ∀ l ∈ (Scanner.ofSource source).lexemes, l.diagnostics = []) {r r' : Reading}
    (hfirst : (ofSource source).Acts r) (hr : r.Ready) (h : r.Takes r')
    (hshorter : r'.tokens.length < r.tokens.length) :
    ∃ (text : List Char) (t eof : Token) (c : List Token), eof.kind = .endOfFile ∧
      source.slice ⟨r.current.span.start, r'.previousEnd⟩ = some text ∧
      r'.previousEnd = r.current.span.start + Text.size text ∧
      (∀ l ∈ (Scanner.ofSource (.ofChars text)).lexemes, l.diagnostics = []) ∧
      Abreast r'.tokens [eof] (t :: c) r.alone
        (relocate (· + r.current.span.start) (ofSource (.ofChars text))) := by
  obtain ⟨c, htokens, -, -, hend⟩ := h.consumed hr
  obtain ⟨p, hp⟩ := hfirst.advances.tokens
  have hc : c ≠ [] := by
    rintro rfl
    rw [htokens] at hshorter
    exact absurd hshorter (Nat.lt_irrefl _)
  obtain ⟨before, text, after, c₀, hchars, hshift, hhead, hlast, hlexemes⟩ :=
    cut_ofSource hclean (hp.symm.trans (congrArg (p ++ ·) htokens)) hc (List.cons_ne_nil _ _)
  obtain ⟨t₀, c₀, rfl⟩ : ∃ t c, c₀ = t :: c := List.exists_cons_of_ne_nil (by rintro rfl; cases hhead)
  have hstart : r.current.span.start = Text.size before := by
    have hcurrent : r.current = t₀.shift (Text.size before) := by
      rw [hshift] at htokens
      exact (List.cons.inj htokens).1
    have hzero : t₀.span.start = 0 := by simpa using hhead
    rw [hcurrent, Token.shift, hzero, Nat.zero_add]
  have hstop : r'.previousEnd = Text.size before + Text.size text := by
    obtain ⟨t, ht, hsize⟩ := Option.map_eq_some_iff.1 hlast
    rw [hend, hshift, List.getLast?_map, ht]
    simp [Token.shift, hsize, Nat.add_comm]
  have hquiet : ∀ l ∈ (Scanner.ofSource (.ofChars text)).lexemes, l.diagnostics = [] := by
    rw [hlexemes, List.forall_mem_append, List.forall_mem_map]
    simp
  have htext : (ofSource (.ofChars text)).At (t₀ :: c₀ ++
      [⟨.endOfFile, Span.empty (Text.size text), .none, false⟩]) := by
    have hready := ready_ofSource hquiet
    refine ⟨hready.sound, hready.silent, At.clean hready, ?_⟩
    rw [tokens_ofSource, hlexemes, List.map_append, List.map_map]
    exact congrArg (· ++ _) (List.map_id _)
  have halone : r.alone.At (c ++ r'.tokens) := by
    have hahead : ∀ l ∈ r.ahead, l.diagnostics = [] := At.clean hr
    exact ⟨⟨hr.sound.ordered.raise, hr.sound.spelled⟩, hr.silent, hahead, htokens⟩
  have hshifted := htext.shift (Text.size before)
  rw [List.map_append, ← hshift] at hshifted
  rw [hstart, hstop]
  rw [hshift] at halone hshifted
  refine ⟨text, _, _, _, rfl, Text.Source.slice_between hchars, rfl, hquiet, halone, hshifted, ?_, ?_⟩
  · have hzero : (ofSource (.ofChars text)).previousEnd = 0 := by
      rw [ofSource_eq]
      cases (Scanner.ofSource (.ofChars text)).lexemes <;> rfl
    change (ofSource (.ofChars text)).previousEnd + Text.size before = r.current.span.start
    rw [hzero, hstart, Nat.zero_add]
  · simp [tokens]

/-- What is read again from its own tokens is read from its own text. -/
theorem Takes.exact {α : Type} [Placed α] {read : Nested → Read α} (hread : Read.Portable read)
    {source : Text.Source} (hclean : ∀ l ∈ (Scanner.ofSource source).lexemes, l.diagnostics = [])
    {a : α} {r r' : Reading} (hfirst : (ofSource source).Acts r) (hr : r.Ready) (h : r.Takes r')
    (hshorter : r'.tokens.length < r.tokens.length)
    (hagain : ∀ {d : Nat} {s s' : Reading} {c : List Token} {t eof : Token} {x : α},
      eof.kind = .endOfFile → Abreast r'.tokens [eof] (t :: c) r.alone s →
      (read (.upTo (d + 1))).run s = some (x, s') → x = a ∧ Abreast r'.tokens [eof] [] r' s') :
    ∃ text a₀, source.slice ⟨r.current.span.start, r'.previousEnd⟩ = some text ∧
      Whole read text a₀ ∧ relocate (· + r.current.span.start) a₀ = a := by
  obtain ⟨text, t, eof, c, heof, hslice, hend, hquiet, hab⟩ := h.cut hclean hfirst hr hshorter
  have hne : (ofSource (.ofChars text)).current.kind ≠ .endOfFile := by
    have hkind := hab.kind_ne
    rw [← hab.current.2] at hkind
    exact hkind
  obtain ⟨a₀, s', hrun, hshifted⟩ := hread.run_shifted hquiet hne r.current.span.start
  obtain ⟨hsame, hlast⟩ := hagain heof hab hshifted
  refine ⟨text, a₀, hslice, ⟨s', hrun, ?_, ?_, ?_⟩, hsame⟩
  · exact hlast.kind_right ⟨eof, rfl, heof⟩
  · have hsum : s'.previousEnd + r.current.span.start = r'.previousEnd := hlast.ends
    omega
  · exact silent_relocate.1 hlast.right.silent

/-! ## Texts without reports -/

/-- What the lexemes of a text had to say was said, as far as they were looked at. -/
structure Heard (ls : List Lexeme) (r : Reading) : Prop where
  passed : ∀ l ∈ ls, l ∈ r.ahead ∨ l.diagnostics ⊆ r.diagnostics
  looked : ∀ l ∈ r.buffer, l.diagnostics ⊆ r.diagnostics

theorem heard_ofLexemes (ls : List Lexeme) : (ofLexemes ls).Heard ls := by
  cases ls with
  | nil => exact ⟨fun l hl => absurd hl (List.not_mem_nil), fun l hl => nomatch hl⟩
  | cons l ahead =>
    refine ⟨List.forall_mem_cons.2 ⟨.inr ?_, fun _ => .inl⟩, fun l hl => nomatch hl⟩
    simp [diagnostics, ofLexemes]

/-- What was said remains said. -/
theorem Heard.mono {ls : List Lexeme} {r r' : Reading} (hr : r.Heard ls) (hacts : r.Acts r')
    (hahead : r'.ahead = r.ahead) (hbuffer : r'.buffer = r.buffer) : r'.Heard ls := by
  have hsub : r.diagnostics ⊆ r'.diagnostics := hacts.advances.diagnostics.subset
  constructor
  · rw [hahead]
    exact fun l hl => (hr.passed l hl).imp id fun h => List.Subset.trans h hsub
  · rw [hbuffer]
    exact fun l hl => List.Subset.trans (hr.looked l hl) hsub

/-- What is wrong with the next lexeme is said once it was fetched, if not before. -/
theorem Heard.fetched {ls : List Lexeme} {r : Reading} (hr : r.Heard ls) {l : Lexeme}
    {ahead : List Lexeme} (hahead : r.ahead = l :: ahead) {j : Journal}
    (hj : r.diagnostics ⊆ j.diagnostics) : l.diagnostics ⊆ (r.noted l j).diagnostics := by
  unfold Reading.noted
  cases hbuffer : r.buffer with
  | none => simp
  | some l' =>
    obtain rfl : l' = l := by
      rw [Reading.ahead, hbuffer] at hahead
      exact (List.cons.inj hahead).1
    exact List.Subset.trans (hr.looked l' hbuffer) hj

theorem Act.heard {ls : List Lexeme} {r r' : Reading} (h : Act r r') (hr : r.Heard ls) :
    r'.Heard ls := by
  have hacts : r.Acts r' := .single h
  have hsub : r.diagnostics ⊆ r'.diagnostics := hacts.advances.diagnostics.subset
  cases h with
  | took =>
    cases hahead : r.ahead with
    | nil => exact hr.mono hacts (by simp [Reading.taken, hahead]) (by simp [Reading.taken, hahead])
    | cons l ahead =>
      have htaken : r.taken.ahead = ahead ∧ r.taken.buffer = none := by
        simp [Reading.taken, hahead]
      refine ⟨fun l' hl' => ?_, fun l' hl' => ?_⟩
      · have hl : l.diagnostics ⊆ r.taken.diagnostics := by
          simp only [diagnostics, Reading.taken, hahead]
          exact hr.fetched hahead (by simp [diagnostics, Event.diagnostic?])
        rw [htaken.1]
        rcases hr.passed l' hl' with hmem | hsaid
        · rw [hahead] at hmem
          rcases List.mem_cons.1 hmem with rfl | hmem
          · exact .inr hl
          · exact .inl hmem
        · exact .inr (List.Subset.trans hsaid hsub)
      · rw [htaken.2] at hl'
        cases hl'
  | looked =>
    cases hahead : r.ahead with
    | nil => exact hr.mono hacts (by simp) (by simp [Reading.looked, hahead])
    | cons l ahead =>
      have hlooked := looked_of_cons hahead
      refine ⟨fun l' hl' => ?_, fun l' hl' => ?_⟩
      · rw [ahead_looked]
        exact (hr.passed l' hl').imp id fun h => List.Subset.trans h hsub
      · obtain rfl : l = l' := by simpa [hlooked] using hl'
        rw [hlooked]
        exact hr.fetched hahead (List.Subset.refl _)
  | reported d => exact hr.mono hacts rfl rfl
  | supplied k => exact hr.mono hacts rfl rfl
  | forced k place => exact hr.mono hacts rfl rfl

theorem Acts.heard {ls : List Lexeme} {r r' : Reading} (h : r.Acts r') (hr : r.Heard ls) :
    r'.Heard ls := by
  induction h with
  | refl => exact hr
  | tail _ hact ih => exact hact.heard ih

/-- Where a text was read to its end, all was said that its lexemes had to say. -/
theorem Acts.diagnostics_subset {source : Text.Source} {r : Reading} (h : (ofSource source).Acts r)
    (hend : r.current.kind = .endOfFile) {l : Lexeme} (hl : l ∈ (Scanner.ofSource source).lexemes) :
    l.diagnostics ⊆ r.diagnostics := by
  have hnil : r.ahead = [] := by
    have hordered := (h.sound (sound_ofSource source)).ordered
    exact List.map_eq_nil_iff.1 (hordered.of_endOfFile hend).1
  have hfirst := heard_ofLexemes (Scanner.ofSource source).lexemes
  rw [← ofSource_eq] at hfirst
  rcases (h.heard hfirst).passed l hl with hmem | hsaid
  · rw [hnil] at hmem
    cases hmem
  · exact hsaid

/-- A text that was read to its end without a report has tokens without reports. -/
theorem Acts.clean {source : Text.Source} {r : Reading} (h : (ofSource source).Acts r)
    (hsilent : r.Silent) (hend : r.current.kind = .endOfFile) :
    ∀ l ∈ (Scanner.ofSource source).lexemes, l.diagnostics = [] := by
  intro l hl
  have hsaid := h.diagnostics_subset hend hl
  rw [show r.diagnostics = [] from hsilent] at hsaid
  exact List.subset_nil.1 hsaid

theorem Acts.ready {r r' : Reading} (h : r.Acts r') (hr : r.Ready) (hsilent : r'.Silent) :
    r'.Ready :=
  ⟨h.sound hr.sound, hsilent, fun l hl => At.clean hr l (h.advances.ahead.subset hl), rfl⟩

end Reading

/-! ## Nodes -/

namespace Expression.ReadAt

variable {e : Expression} {d : Nat} {r r' : Reading}

theorem takes (h : e.ReadAt d r r') (hr : r.Ready) (hs : r'.Silent) : r.Takes r' := by
  cases h with
  | operand hleft hturned =>
    have htakes := (Read.Prompt.prompted hr hleft).takes (hturned.acts.advances.silent hs)
    exact htakes.trans (hturned.prompted (htakes.ready hr) hs)
  | prefixed hhead hturned =>
    have htakes := (Read.Prompt.prompted hr hhead).takes (hturned.acts.advances.silent hs)
    exact htakes.trans (hturned.prompted (htakes.ready hr) hs)

theorem shorter (h : e.ReadAt d r r') (hr : r.Sound) (hs : r'.Silent) :
    r'.tokens.length < r.tokens.length := by
  cases h with
  | operand hleft hturned =>
    have hadvances := hturned.acts.advances
    have hlt := Read.Eager.shorter hr hleft (hadvances.silent hs)
    exact Nat.lt_of_le_of_lt hadvances.tokens.length_le hlt
  | prefixed hhead hturned =>
    have hadvances := hturned.acts.advances
    have hlt := Read.Eager.shorter hr hhead (hadvances.silent hs)
    exact Nat.lt_of_le_of_lt hadvances.tokens.length_le hlt

end Expression.ReadAt

/-- The text of a node, read on its own, gives the node. -/
def Node.Exact (source : Text.Source) : Node → Prop
  | .expression e => ∃ text e₀, source.slice e.span = some text ∧
      Reading.Whole Nested.expression text e₀ ∧ relocate (· + e.span.start) e₀ = e
  | .statement s => ∃ text s₀, source.slice s.span = some text ∧
      Reading.Whole Read.statement text (some s₀) ∧ relocate (· + s.span.start) s₀ = s
  | _ => True

theorem Node.Origin.exact {source : Text.Source} {last : Reading} {n : Node}
    (h : n.Origin (.ofSource source) last) (hsilent : last.Silent)
    (hclean : ∀ l ∈ (Scanner.ofSource source).lexemes, l.diagnostics = []) : n.Exact source := by
  have hfirst := Reading.ready_ofSource hclean
  cases n with
  | expression e =>
    obtain ⟨d, r, r', hr, hr', hspan, hread⟩ := h
    have hs := hr'.advances.silent hsilent
    have hready := hr.ready hfirst (hread.acts.advances.silent hs)
    rw [Node.Exact, hspan]
    exact (hread.takes hready hs).exact Read.portable_expression hclean hr hready
      (hread.shorter hready.sound hs) fun heof hab hrun => hread.again hready hs heof hab hrun
  | statement s =>
    obtain ⟨d, r, r', hr, hr', hspan, hread⟩ := h
    have hs := hr'.advances.silent hsilent
    have hready := hr.ready hfirst ((Read.Acting.acts hread).advances.silent hs)
    have htakes := (Read.Prompt.prompted hready hread).takes hs
    obtain ⟨text, x, hslice, hwhole, hx⟩ := htakes.exact Read.portable_statement hclean hr hready
      (Read.Eager.shorter hready.sound hread hs) fun heof hab hrun =>
        Read.statement_again hread hready hs heof hab hrun
    cases x with
    | none => cases hx
    | some s₀ =>
      rw [Node.Exact, hspan]
      exact ⟨text, s₀, hslice, hwhole, Option.some.inj hx⟩
  | _ => trivial

/-- Stretches are exact. If nothing is reported about a text, then the stretch of each expression
and of each statement in it, read as a text of its own, is read to its end without a report, as the
same node with all offsets less by its start. The children of each node stand one behind the
other. -/
theorem Tree.spans_exact (source : Text.Source) (h : (parse source).diagnostics = []) :
    (∀ e, Node.Within (.expression e) (.chunk (parse source).root) →
      ∃ text e₀, source.slice e.span = some text ∧ Reading.Whole Nested.expression text e₀ ∧
        relocate (· + e.span.start) e₀ = e) ∧
    (∀ s, Node.Within (.statement s) (.chunk (parse source).root) →
      ∃ text s₀, source.slice s.span = some text ∧ Reading.Whole Read.statement text (some s₀) ∧
        relocate (· + s.span.start) s₀ = s) ∧
    ∀ n, Node.Within n (.chunk (parse source).root) →
      n.children.Pairwise fun a b => a.span.stop ≤ b.span.start := by
  obtain ⟨last, hspreads, -, -, hdiagnostics, hend⟩ := parse_lays source
  have hsilent : last.Silent := hdiagnostics.symm.trans h
  have hclean := hspreads.acts.clean hsilent hend
  have hall : (Node.chunk (parse source).root).Everywhere fun n => n.Exact source ∧
      n.children.Pairwise fun a b => a.span.stop ≤ b.span.start := by
    refine Node.everywhere_iff.2 ⟨⟨trivial, List.pairwise_singleton _ _⟩,
      List.forall_mem_singleton.2 (Node.everywhere_iff.2 ⟨⟨trivial, ?_⟩, fun n hn => ?_⟩)⟩
    · exact (hspreads.framed hsilent).pairwise
    · exact (hspreads.nodes n hn).imp fun m hm =>
        ⟨hm.origin.exact hsilent hclean, hm.framed.pairwise⟩
  exact ⟨fun e he => (hall _ he).1, fun s hs => (hall _ hs).1, fun n hn => (hall n hn).2⟩

/-- In a difference whose operands are in parentheses, under a sign and in a call. -/
theorem Tree.spans_exact_difference :
    let source := Text.Source.ofString "x = (a - b) - -f{c, ...} ^ 2"
    (parse source).diagnostics = [] ∧
      (∀ e, Node.Within (.expression e) (.chunk (parse source).root) →
        ∃ text e₀, source.slice e.span = some text ∧ Reading.Whole Nested.expression text e₀ ∧
          relocate (· + e.span.start) e₀ = e) ∧
      (∀ s, Node.Within (.statement s) (.chunk (parse source).root) →
        ∃ text s₀, source.slice s.span = some text ∧ Reading.Whole Read.statement text (some s₀) ∧
          relocate (· + s.span.start) s₀ = s) ∧
      ∀ n, Node.Within n (.chunk (parse source).root) →
        n.children.Pairwise fun a b => a.span.stop ≤ b.span.start := by
  intro source
  have hsilent : (parse source).diagnostics = [] := by decide +kernel
  exact ⟨hsilent, spans_exact source hsilent⟩

end Syntax
end LuaFront
