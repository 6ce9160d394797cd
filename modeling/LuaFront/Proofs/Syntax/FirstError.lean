import LuaFront.Proofs.Syntax.Exactness
import LuaFront.Proofs.Syntax.Viability

/-!
# LuaFront.Proofs.Syntax.FirstError

The first diagnostic blames the right token.

* `Viable ws`: there is a program whose words start with `ws`.
* `Journal.FirstReport j c d`: the first diagnostic of a run is `d`, and before it the tokens `c`
  were consumed and nothing else was done.
* `Located consumed current rest d`: where `d` may stand then.
* `Tree.firstReport_parse`: in a text without lexical diagnostics, what is consumed before the first
  diagnostic is viable, with the current token it is not, and the diagnostic stands where that token
  stands, or where the target stands that was consumed last.

What was consumed begins a block (`Read.chunk_tracks`), and the items that are missing can be
written behind it. That no program goes on with the current token is seen by reading such a program
beside the text. Both are spread out as words (`Reading.ofWords`), so that their common words are
common tokens.
-/

namespace LuaFront

open Placed (relocate)

namespace Journal

/-- The first diagnostic is `d`. Before it the tokens `c` were consumed, and nothing else was
done. -/
def FirstReport (j : Journal) (c : List Token) (d : Diagnostic) : Prop :=
  ∃ later, j.events = c.map .took ++ .reported d :: later

theorem append_unique {c c' : List Token} {d d' : Diagnostic} {later later' : List Event}
    (h : c.map Event.took ++ .reported d :: later = c'.map Event.took ++ .reported d' :: later') :
    c = c' ∧ d = d' := by
  induction c generalizing c' with
  | nil =>
    cases c' with
    | nil => exact ⟨rfl, by simpa using (List.cons.inj h).1⟩
    | cons t c' => cases (List.cons.inj h).1
  | cons t c ih =>
    cases c' with
    | nil => cases (List.cons.inj h).1
    | cons t' c' =>
      obtain ⟨hhead, htail⟩ := List.cons.inj h
      cases hhead
      obtain ⟨rfl, hd⟩ := ih htail
      exact ⟨rfl, hd⟩

theorem FirstReport.unique {j : Journal} {c c' : List Token} {d d' : Diagnostic}
    (h : j.FirstReport c d) (h' : j.FirstReport c' d') : c = c' ∧ d = d' := by
  obtain ⟨later, hevents⟩ := h
  obtain ⟨later', hevents'⟩ := h'
  exact append_unique (hevents.symm.trans hevents')

theorem FirstReport.head? {j : Journal} {c : List Token} {d : Diagnostic}
    (h : j.FirstReport c d) : j.diagnostics.head? = some d := by
  obtain ⟨later, hevents⟩ := h
  have htook : (c.map Event.took).filterMap Event.diagnostic? = [] := by
    simp [List.filterMap_map, Function.comp_def, Event.diagnostic?]
  rw [diagnostics, hevents, List.filterMap_append, htook]
  rfl

theorem FirstReport.mem {j : Journal} {c : List Token} {d : Diagnostic} (h : j.FirstReport c d) :
    d ∈ j.diagnostics :=
  List.mem_of_mem_head? h.head?

theorem FirstReport.record {j : Journal} {c : List Token} {d : Diagnostic} (h : j.FirstReport c d)
    (e : Event) : (j.record e).FirstReport c d := by
  obtain ⟨later, hevents⟩ := h
  exact ⟨later ++ [e], by rw [events_record, hevents, List.append_assoc, List.cons_append]⟩

theorem FirstReport.relocate {j : Journal} {c : List Token} {d : Diagnostic}
    (h : j.FirstReport c d) (f : Nat → Nat) :
    (relocate f j).FirstReport (c.map (relocate f)) (relocate f d) := by
  obtain ⟨later, hevents⟩ := h
  refine ⟨later.map (Placed.relocate f), ?_⟩
  have : (Placed.relocate f j).events = j.events.map (Placed.relocate f) := List.map_reverse.symm
  rw [this, hevents, List.map_append, List.map_map, List.map_map]
  rfl

end Journal

/-- The end of file stands at the end, and only there. -/
theorem Token.Ordered.endOfFile_iff {n : Nat} {a b : List Token} {t : Token}
    (h : Token.Ordered n (a ++ t :: b)) : t.kind = .endOfFile ↔ b = [] := by
  induction a generalizing n with
  | nil =>
    constructor
    · exact fun hk => (h.of_endOfFile hk).1
    · rintro rfl
      by_cases hk : t.kind = .endOfFile
      · exact hk
      · cases (h.tail hk).2
  | cons u a ih =>
    have hk : u.kind ≠ .endOfFile := by
      intro hk
      have := (h.of_endOfFile hk).1
      simp at this
    exact ih (h.tail hk).2

namespace Item.Spaced

/-- An item with a single blank behind it. -/
def of (x : Item) : Spaced := ⟨x, ' ', by decide, []⟩

theorem tokens_of (xs : List Item) (offset : Nat) :
    ∃ w eof, tokens offset (xs.map of) = w ++ [eof] ∧ w.map Token.kind = xs.map Item.kind ∧
      eof.kind = .endOfFile := by
  induction xs generalizing offset with
  | nil => exact ⟨[], _, rfl, rfl, rfl⟩
  | cons x xs ih =>
    obtain ⟨w, eof, htokens, hkinds, hk⟩ := ih (offset + Text.size (of x).text)
    refine ⟨x.token offset :: w, eof, congrArg _ htokens, ?_, hk⟩
    rw [List.map_cons, hkinds]
    rfl

end Item.Spaced

namespace Scanner

/-- What was read up to some place is read where something else follows, behind a blank. -/
theorem Lexes.followed {s s' : Scanner} {ts : List Token} (h : Lexes s ts s') (rest : List Char) :
    ∃ cs n, Lexes ⟨s.offset, cs⟩ ts ⟨n, ' ' :: rest⟩ := by
  cases ts with
  | nil => exact ⟨_, _, .nil _⟩
  | cons t ts =>
    obtain ⟨bs, word, ts₀, -, -, -, -, hts, hread⟩ := h.severed (by simp)
    have hagain := hread (s.offset + Text.size (Blank.texts bs)) (' ' :: rest)
      (severs_blank (by decide) rest)
    rw [← hts] at hagain
    exact ⟨_, _, hagain.blanks⟩

end Scanner

namespace Syntax

open Text (Span)
open Grammar

/-! ## Where the first diagnostic is met -/

namespace Reading

variable {r r₁ r' s : Reading} {c : List Token} {d : Diagnostic}

theorem Takes.firstReport (h : r.Takes s) (hr : r.Ready) (hfirst : r.journal.events = [])
    (hc : r.tokens = c ++ s.tokens) (hacts : (s.reported d).Acts r') :
    r'.journal.FirstReport c d := by
  obtain ⟨c', hc', -, hevents, -⟩ := h.consumed hr
  obtain rfl : c = c' := List.append_cancel_right (hc.symm.trans hc')
  obtain ⟨later, hlater⟩ := hacts.events
  refine ⟨later, ?_⟩
  have hreported : (s.reported d).journal.events = s.journal.events ++ [.reported d] :=
    Journal.events_record ..
  rw [← hlater, hreported, hevents, hfirst, List.nil_append, List.append_assoc]
  rfl

/-- Each token that is consumed is noted. -/
theorem Act.noted (h : Act r r') :
    r.tokens.length + r.journal.events.length ≤ r'.tokens.length + r'.journal.events.length := by
  have hevents := h.events.length_le
  cases h with
  | took =>
    have htook : r.journal.events.length + 1 ≤ r.taken.journal.events.length := by
      unfold taken
      cases r.ahead with
      | nil => simp [Journal.events_record]
      | cons l ahead =>
        refine Nat.le_trans ?_ (events_noted r l _).length_le
        simp [Journal.events_record]
    have htokens : r.tokens.length ≤ r.taken.tokens.length + 1 := by
      unfold taken tokens
      cases r.ahead <;> simp
    omega
  | looked =>
    rw [tokens_looked]
    exact Nat.add_le_add_left hevents _
  | _ => exact Nat.add_le_add_left hevents _

theorem Acts.noted (h : r.Acts r') :
    r.tokens.length + r.journal.events.length ≤ r'.tokens.length + r'.journal.events.length := by
  induction h with
  | refl => exact Nat.le_refl _
  | tail _ hact ih => exact Nat.le_trans ih hact.noted

/-- What is consumed without a diagnostic on the way is consumed before the first one. -/
theorem Acts.length_le_of_firstReport (hacts : r.Acts r₁) (hrest : r₁.Acts r')
    (hsilent : r₁.Silent) (hfirst : r.journal.events = []) (hreport : r'.journal.FirstReport c d) :
    r.tokens.length ≤ r₁.tokens.length + c.length := by
  have hnoted := hacts.noted
  obtain ⟨later, hevents⟩ := hreport
  obtain ⟨more, hmore⟩ := hrest.events
  by_cases hlt : c.length < r₁.journal.events.length
  · -- Then the diagnostic is among what was done.
    have hget : r₁.journal.events[c.length]? = some (.reported d) := by
      have hsame : (r₁.journal.events ++ more)[c.length]? = r₁.journal.events[c.length]? :=
        List.getElem?_append_left hlt
      rw [← hsame, hmore, hevents]
      simp
    have hmem : d ∈ r₁.diagnostics :=
      List.mem_filterMap.2 ⟨_, List.mem_of_getElem? hget, rfl⟩
    rw [show r₁.diagnostics = [] from hsilent] at hmem
    cases hmem
  · rw [hfirst] at hnoted
    simp only [List.length_nil] at hnoted
    omega

end Reading

/-! ## A program beside a text -/

namespace Reading

variable {r r' s s' : Reading} {o o' c : List Token}

theorem Ready.ends (h : r.Ready) : ∃ c eof, r.tokens = c ++ [eof] ∧ eof.kind = .endOfFile := by
  have hordered := h.sound.ordered
  generalize r.tokens = i, r.previousEnd = n at hordered
  induction hordered with
  | last hk _ _ => exact ⟨[], _, rfl, hk⟩
  | cons _ _ _ _ ih =>
    obtain ⟨c, eof, heq, hk⟩ := ih
    exact ⟨_ :: c, eof, by rw [heq, List.cons_append], hk⟩

/-- Where a block is read to the end of a text, the tokens that another text has in common with it
are consumed there without a diagnostic. -/
theorem Abreast.passes (h : Abreast o o' c r s) {d d' : Nat} {a b : Block}
    (hrun : (Nested.upTo d).block.run r = some (a, r')) (hsilent : r'.Silent)
    (hend : r'.tokens.length = 1) (hrun' : (Nested.upTo d').block.run s = some (b, s')) :
    ∃ s₁, s.Acts s₁ ∧ s₁.Acts s' ∧ s₁.Silent ∧ s₁.tokens = o' := by
  have : Read.InStep (Nested.upTo d).block (Nested.upTo d').block := Nested.InStep.block
  cases Read.InStep.outcome h hrun hrun' with
  | @same c' _ hab =>
    have htokens := hab.left.tokens
    have hmore := List.length_pos_iff.2 hab.more.1
    have hc' : c' = [] := by
      rw [htokens, List.length_append] at hend
      exact List.eq_nil_of_length_eq_zero (by omega)
    subst hc'
    exact ⟨s', Read.Acting.acts hrun', .refl s', hab.right.silent, hab.right.tokens⟩
  | reported _ _ _ _ hr' _ =>
    exact absurd (hr'.advances.silent hsilent) (not_silent_reported _ _)
  | passed hab _ hs hr' hs' _ => exact ⟨_, hs, hs', hab.right.silent, hab.right.tokens⟩

/-- A program is read by one block, up to the end of file. -/
theorem At.block_of_program {i : List Token} (h : r.At i) {c : Chunk} (hc : Program c i) {n : Nat}
    (hlen : i.length ≤ n) :
    ∃ b r', (Nested.upTo n).block.run r = some (b, r') ∧ r'.Silent ∧ r'.tokens.length = 1 := by
  obtain ⟨eof, hk, hd⟩ := hc
  have hends : Next Read.endsBlock [eof] := by
    rw [next_cons, hk]
    rfl
  obtain ⟨b, r', hrun, hat, -⟩ := (Nested.accepts_upTo n).block h hlen hd hends
  exact ⟨b, r', hrun, hat.silent, by rw [hat.tokens]; rfl⟩

theorem Ready.silent_of_program (h : r.Ready) {c a : Chunk} (hc : Program c r.tokens)
    (hrun : (Read.chunk r.nested).run r = some (a, r')) : r'.Silent :=
  (Read.chunk_accepts h (by simp [tokens]) hc).ensures a r' hrun

/-- A program starts with a block. -/
theorem block_of_chunk {d : Nat} {c : Chunk}
    (hrun : (Read.chunk (.upTo d)).run r = some (c, r')) :
    ∃ b r₁, (Nested.upTo d).block.run r = some (b, r₁) ∧ r₁.Acts r' := by
  rw [Read.chunk] at hrun
  obtain ⟨b, r₁, hblock, hrest⟩ := Read.run_bind_eq_some.1 hrun
  exact ⟨b, r₁, hblock, Read.Acting.acts hrest⟩

end Reading

namespace Tree

variable {source : Text.Source}

/-- The journal of a text is that of a run. -/
theorem run_parse (source : Text.Source) :
    ∃ c r', (Read.chunk (Reading.ofSource source).nested).run (Reading.ofSource source) =
      some (c, r') ∧ (parse source).journal =
        r'.journal.record (.parsed source.length r'.diagnostics.length) := by
  have hlen : (Reading.ofSource source).tokens.length ≤
      (Reading.ofSource source).ahead.length + 1 := by
    simp [Reading.tokens]
  obtain ⟨c, r', hrun, -⟩ := Read.chunk_reads (Reading.sound_ofSource source) hlen
  refine ⟨c, r', hrun, ?_⟩
  have hr : (Reading.ofSource source).run Read.chunk = (c, r') := by
    rw [Reading.run, Reading.nested, hrun]
    rfl
  rw [parse, hr]
  rfl

end Tree

/-! ## Words -/

theorem spread_append (place : Nat) (ws vs : List (Kind × Value)) :
    spread place (ws ++ vs) = spread place ws ++ spread (place + 2 * ws.length) vs := by
  induction ws generalizing place with
  | nil => rfl
  | cons w ws ih =>
    rw [List.cons_append, spread, spread, ih, List.cons_append, List.length_cons]
    congr 3
    omega

theorem length_spread (place : Nat) (ws : List (Kind × Value)) :
    (spread place ws).length = ws.length := by
  induction ws generalizing place with
  | nil => rfl
  | cons w ws ih => rw [spread, List.length_cons, ih, List.length_cons]

namespace Reading

variable {source : Text.Source}

theorem tokens_ofWords {ws : List (Kind × Value)} (hws : ws ≠ []) :
    (ofWords ws).tokens = (spread 2 ws).map Lexeme.token := by
  obtain ⟨w, ws, rfl⟩ := List.exists_cons_of_ne_nil hws
  rfl

theorem words_ne_nil (source : Text.Source) : source.words ≠ [] := by
  rw [← words_ofSource]
  simp [tokens]

theorem ready_ofWords (source : Text.Source) : (ofWords source.words).Ready := by
  have hsound := sound_ofSource source
  have hregular : (ofWords source.words).Regular := by
    rw [← words_ofSource]
    exact regular_ofWords hsound.ordered hsound.spelled
  obtain ⟨w, ws, hw⟩ := List.exists_cons_of_ne_nil (words_ne_nil source)
  refine ⟨hregular.sound, ?_, hregular.quiet, rfl⟩
  rw [hw]
  rfl

/-- A text and its words are read alike. -/
theorem run_ofWords (hclean : ∀ l ∈ (Scanner.ofSource source).lexemes, l.diagnostics = []) :
    ∃ f c r', (Read.chunk (ofWords source.words).nested).run (ofWords source.words) =
        some (c, r') ∧
      (Read.chunk (ofSource source).nested).run (ofSource source) =
        some (relocate f c, relocate f r') := by
  have hsound := sound_ofSource source
  have hregular : (ofWords source.words).Regular := by
    rw [← words_ofSource]
    exact regular_ofWords hsound.ordered hsound.spelled
  have hmoved := relocate_ofWords hclean
  have hlength : (ofSource source).ahead.length = (ofWords source.words).ahead.length := by
    rw [← hmoved, length_ahead_relocate]
  have hlen : (ofWords source.words).tokens.length ≤ (ofWords source.words).ahead.length + 1 := by
    simp [tokens]
  obtain ⟨c, r', hrun, -⟩ := Read.chunk_reads hregular.sound hlen
  have hf := hsound.ordered.stretches
  obtain ⟨hrun', -, -⟩ := Read.chunk_moves hf rfl (Nested.moves_upTo hf _) hregular c r' hrun
  rw [hmoved] at hrun'
  exact ⟨_, c, r', hrun, by rw [nested, hlength]; exact hrun'⟩

theorem events_ofLexemes {ls : List Lexeme} (hclean : ∀ l ∈ ls, l.diagnostics = []) :
    (ofLexemes ls).journal.events = [] := by
  cases ls with
  | nil => rfl
  | cons l ahead =>
    rw [ofLexemes, hclean l List.mem_cons_self]
    rfl

theorem events_ofSource (hclean : ∀ l ∈ (Scanner.ofSource source).lexemes, l.diagnostics = []) :
    (ofSource source).journal.events = [] := by
  rw [ofSource_eq]
  exact events_ofLexemes hclean

theorem events_ofWords (ws : List (Kind × Value)) : (ofWords ws).journal.events = [] :=
  events_ofLexemes fun _ hl => (word_of_mem_spread hl).2

/-- Common words are common tokens. -/
theorem abreast_ofWords {source' : Text.Source} {ws us vs : List (Kind × Value)}
    (h : ws ++ us = source.words) (h' : ws ++ vs = source'.words) (hus : us ≠ []) (hvs : vs ≠ []) :
    Abreast ((spread (2 + 2 * ws.length) vs).map Lexeme.token)
      ((spread (2 + 2 * ws.length) us).map Lexeme.token) ((spread 2 ws).map Lexeme.token)
      (ofWords source'.words) (ofWords source.words) := by
  have htokens (source : Text.Source) {us : List (Kind × Value)} (h : ws ++ us = source.words) :
      (ofWords source.words).At ((spread 2 ws).map Lexeme.token ++
        (spread (2 + 2 * ws.length) us).map Lexeme.token) := by
    rw [← List.map_append, ← spread_append, h, ← tokens_ofWords (words_ne_nil source)]
    exact ready_ofWords source
  refine ⟨htokens source' h', htokens source h, ?_, ?_, ?_⟩
  · obtain ⟨w, ws, hw⟩ := List.exists_cons_of_ne_nil (words_ne_nil source)
    obtain ⟨w', ws', hw'⟩ := List.exists_cons_of_ne_nil (words_ne_nil source')
    rw [hw, hw']
    rfl
  · simpa [← List.length_eq_zero_iff, length_spread] using hvs
  · simpa [← List.length_eq_zero_iff, length_spread] using hus

/-- The words of a program, spread out, are a program. -/
theorem program_ofWords (hclean : ∀ l ∈ (Scanner.ofSource source).lexemes, l.diagnostics = [])
    {c : Chunk} (hc : Program c (ofSource source).tokens) :
    ∃ c, Program c (ofWords source.words).tokens := by
  obtain ⟨f, c, r', hrun, hrun'⟩ := run_ofWords hclean
  have hready := ready_ofWords source
  have hlen : (ofWords source.words).tokens.length ≤ (ofWords source.words).ahead.length + 1 := by
    simp [tokens]
  have hsilent := (ready_ofSource hclean).silent_of_program hc hrun'
  exact ⟨c, ((Read.chunk_reads hready.sound hlen).ensures c r' hrun).1 (silent_relocate.1 hsilent)⟩

end Reading

/-! ## Viable words -/

/-- Words that the words of some program start with. The end of file is the last word of each. -/
def Viable (ws : List (Kind × Value)) : Prop :=
  ∃ (source : Text.Source) (c : Chunk),
    (∀ l ∈ (Scanner.ofSource source).lexemes, l.diagnostics = []) ∧
    Program c ((Scanner.ofSource source).lexemes.map Lexeme.token) ∧ ws <+: source.words

namespace Tree

open Reading (Abreast)

variable {source : Text.Source} {consumed rest : List Token} {current : Token} {d : Diagnostic}

/-- Of the words of a text too. -/
theorem endOfFile_iff_of_words {vs : List (Kind × Value)}
    (h : (consumed ++ [current]).map Token.word ++ vs = source.words) :
    current.kind = .endOfFile ↔ vs = [] := by
  rw [← Reading.words_ofSource, eq_comm] at h
  obtain ⟨a, b, htokens, ha, rfl⟩ := List.map_eq_append_iff.1 h
  rw [List.map_append, List.map_singleton] at ha
  obtain ⟨a', last, rfl, -, hlast⟩ := List.map_eq_append_iff.1 ha
  obtain ⟨t, rfl, ht⟩ := List.map_eq_singleton_iff.1 hlast
  have hordered := (Reading.sound_ofSource source).ordered
  rw [htokens, List.append_assoc, List.singleton_append] at hordered
  have hkind : t.kind = current.kind := congrArg Prod.fst ht
  rw [← hkind, hordered.endOfFile_iff, List.map_eq_nil_iff]

/-- The words of a text are read as far as the text before the first diagnostic. -/
theorem firstReport_ofWords (hclean : ∀ l ∈ (Scanner.ofSource source).lexemes, l.diagnostics = [])
    (hreport : (parse source).journal.FirstReport consumed d) :
    ∃ c s' consumed' d', (Read.chunk (Reading.ofWords source.words).nested).run
        (Reading.ofWords source.words) = some (c, s') ∧
      s'.journal.FirstReport consumed' d' ∧ consumed'.length = consumed.length := by
  obtain ⟨f, c, s', hrun, hrun'⟩ := Reading.run_ofWords hclean
  obtain ⟨_, r', hparse, hjournal⟩ := run_parse source
  rw [hrun'] at hparse
  cases hparse
  rw [hjournal] at hreport
  have hready := Reading.ready_ofWords source
  have hevents := Reading.events_ofWords source.words
  have hprompt : Read.Prompt (Read.chunk (Reading.ofWords source.words).nested) :=
    inferInstanceAs (Read.Prompt (Read.chunk (.upTo _)))
  cases hprompt.prompted hready hrun with
  | took htakes =>
    have hsilent : (relocate f s').Silent := Reading.silent_relocate.2 (htakes.ready hready).silent
    have hmem : d ∈ (relocate f s').journal.diagnostics := by
      simpa [Event.diagnostic?] using hreport.mem
    rw [show (relocate f s').journal.diagnostics = [] from hsilent] at hmem
    cases hmem
  | blamed htakes hblames hacts _ =>
    obtain ⟨c', hc', -⟩ := htakes.consumed hready
    have hfirst := htakes.firstReport hready hevents hc' hacts
    refine ⟨c, s', c', _, hrun, hfirst, ?_⟩
    have hsame := (hfirst.relocate f).record
      (.parsed source.length (relocate f s').diagnostics.length)
    rw [(hreport.unique hsame).1, List.length_map]

/-- No program goes on with the current token. -/
theorem not_viable (hclean : ∀ l ∈ (Scanner.ofSource source).lexemes, l.diagnostics = [])
    (htokens : (Reading.ofSource source).tokens = consumed ++ current :: rest)
    (hreport : (parse source).journal.FirstReport consumed d) :
    ¬ Viable ((consumed ++ [current]).map Token.word) := by
  rintro ⟨source', c, hclean', hprogram, vs, hvs⟩
  rw [← Reading.tokens_ofSource] at hprogram
  -- Both texts are read as their words are.
  obtain ⟨_, s', consumed', _, hrun, hfirst, hlength⟩ := firstReport_ofWords hclean hreport
  obtain ⟨c', hprogram'⟩ := Reading.program_ofWords hclean' hprogram
  have hready := Reading.ready_ofWords source
  have hready' := Reading.ready_ofWords source'
  have hevents := Reading.events_ofWords source.words
  have hwords : (consumed ++ [current]).map Token.word ++ rest.map Token.word = source.words := by
    rw [← Reading.words_ofSource, htokens]
    simp
  have hordered := (Reading.sound_ofSource source).ordered
  rw [htokens] at hordered
  have hrest : rest = [] ↔ vs = [] := by
    rw [← hordered.endOfFile_iff, ← endOfFile_iff_of_words hvs]
  by_cases hnil : rest = []
  · -- The two texts have the same words.
    have hsame : source'.words = source.words := by
      rw [← hvs, ← hwords, hnil, hrest.1 hnil, List.map_nil]
    rw [hsame] at hprogram'
    have hsilent := hready.silent_of_program hprogram' hrun
    have hmem := hfirst.mem
    rw [show s'.journal.diagnostics = [] from hsilent] at hmem
    cases hmem
  · have habreast := Reading.abreast_ofWords hwords hvs (by simpa using hnil) (mt hrest.2 hnil)
    obtain ⟨b, r', hblock, hsilent, hend⟩ :=
      Reading.At.block_of_program hready' hprogram' (Nat.le_refl _)
    obtain ⟨b', s₁, hblock', hacts⟩ := Reading.block_of_chunk hrun
    obtain ⟨s₂, hs, hs', hsilent', hs₂⟩ := habreast.passes hblock hsilent hend hblock'
    have hle := hs.length_le_of_firstReport (hs'.trans hacts) hsilent' hevents hfirst
    rw [hs₂, habreast.right.tokens, List.length_append, List.length_map, length_spread,
      List.length_map, List.length_append, List.length_singleton] at hle
    omega

end Tree

/-! ## What was consumed can be completed -/

/-- Items can be written behind what was consumed of a text. -/
theorem exists_followed {source : Text.Source} {c o : List Token}
    (hclean : ∀ l ∈ (Scanner.ofSource source).lexemes, l.diagnostics = [])
    (htokens : (Reading.ofSource source).tokens = c ++ o) (ho : o ≠ []) (xs : List Item) :
    ∃ (source' : Text.Source) (w : List Token) (eof : Token),
      (Scanner.ofSource source').lexemes = (c ++ (w ++ [eof])).map (⟨·, []⟩) ∧
      w.map Token.kind = xs.map Item.kind ∧ eof.kind = .endOfFile := by
  have hlexemes := Reading.lexemes_ofSource hclean
  rw [htokens] at hlexemes
  obtain ⟨s, hbefore, -⟩ := Scanner.Lexes.of_lexemes ho hlexemes
  obtain ⟨cs, n, hread⟩ := hbefore.followed ((xs.map Item.Spaced.of).flatMap Item.Spaced.text)
  obtain ⟨w, eof, hw, hkinds, hk⟩ := Item.Spaced.tokens_of xs (n + 1)
  have hrest := Scanner.lexemes_texts [.space ' ' (by decide)] n
    ((xs.map Item.Spaced.of).flatMap Item.Spaced.text)
  refine ⟨.ofChars cs, w, eof, ?_, hkinds, hk⟩
  rw [Scanner.ofSource, Text.Source.chars_ofChars, List.map_append, ← hw, ← Scanner.lexemes_spaced]
  exact hread.lexemes.trans (congrArg _ hrest)

/-- What begins a block is viable. -/
theorem viable_of_begins {source : Text.Source} {c o : List Token}
    (hclean : ∀ l ∈ (Scanner.ofSource source).lexemes, l.diagnostics = [])
    (htokens : (Reading.ofSource source).tokens = c ++ o) (ho : o ≠ [])
    (hbegins : Begins false true (Any .block) c) : Viable (c.map Token.word) := by
  obtain ⟨xs, hxs⟩ := hbegins
  obtain ⟨source', w, eof, hlexemes, hkinds, hk⟩ := exists_followed hclean htokens ho xs
  have hclosed : Closed [eof] := closed_cons.2 (by rw [hk]; rfl)
  obtain ⟨⟨b, hblock⟩, -⟩ := hxs w [eof] hkinds fun _ => hclosed
  refine ⟨source', ⟨b, default⟩, ?_, ⟨eof, hk, ?_⟩, ?_⟩
  · intro l hl
    rw [hlexemes] at hl
    obtain ⟨t, -, rfl⟩ := List.mem_map.1 hl
    rfl
  · rw [hlexemes, List.map_map]
    exact (List.map_id _).symm ▸ hblock
  · rw [Text.Source.words, hlexemes, List.map_map, List.map_append]
    exact List.prefix_append ..

/-! ## Where the first diagnostic stands -/

/-- Where a diagnostic stands that comes when `consumed` was consumed and `current` is met: at
`current`, or at the target that was consumed last, if that is none. -/
inductive Located (consumed : List Token) (current : Token) (rest : List Token) :
    Diagnostic → Prop where
  | current {cause : Cause} : cause ≠ .invalidAssignmentTarget →
      Located consumed current rest ⟨current.span, cause⟩
  | target {before target : List Token} {first last : Token} {e : Expression} :
      consumed = before ++ target → target.head? = some first → target.getLast? = some last →
      Derives (.prefixed e) (target ++ current :: rest) (current :: rest) → e.isVariable = false →
      Located consumed current rest ⟨⟨first.span.start, last.span.stop⟩, .invalidAssignmentTarget⟩

namespace Reading

variable {r₀ r : Reading} {x : Expression × Read.Shape} {depth : Nat}

/-- What was read as a prefix expression is one, whatever the depth. -/
theorem Ready.derives_prefixed (h : r₀.Ready) (htakes : r₀.Takes r)
    (hrun : (Read.prefixExpression (.upTo depth)).run r₀ = some (x, r)) :
    Derives (.prefixed x.1) r₀.tokens r.tokens := by
  obtain ⟨c, hc, -⟩ := htakes.consumed h
  obtain ⟨c', eof, hc', hk⟩ := (htakes.ready h).ends
  have hlen : r₀.tokens.length ≤ r₀.ahead.length + 1 := by simp [tokens]
  obtain ⟨y, s, hrun', hreads, -⟩ :=
    Read.prefixExpression_reads (Nested.good_upTo r₀.ahead.length) h.sound hlen
  have hat : r₀.At (c ++ c' ++ [eof]) := by
    rw [List.append_assoc, ← hc', ← hc]
    exact h
  have habreast : Abreast [eof] [eof] (c ++ c') r₀ r₀ := ⟨hat, hat, rfl, by simp, by simp⟩
  -- With more depth the same is read.
  obtain ⟨rfl, c'', hsame⟩ := (Read.InStep.outcome habreast hrun hrun').agree ⟨eof, rfl, hk⟩
    (htakes.ready h).silent (hc' ▸ List.suffix_append ..)
  rw [hsame.left.tokens, ← hsame.right.tokens]
  exact hreads.derives hsame.right.silent

theorem Blames.located {consumed : List Token} {d : Diagnostic} (h : r.Blames d)
    (hevents : r.journal.events = consumed.map .took) :
    Located consumed r.current (r.ahead.map Lexeme.token) d := by
  cases h with
  | current hnames =>
    refine .current ?_
    rintro rfl
    cases hnames
  | @target r₀ depth e shape hr₀ htakes hrun hvariable =>
    obtain ⟨target, htokens, -, htook, hend⟩ := htakes.consumed hr₀
    have hbuilds := Read.prefixExpression_builds (Nested.lays_upTo depth)
      ⟨hr₀.sound, .refl r₀⟩ _ _ hrun
    -- Whatever was consumed since is the end of what was consumed.
    obtain ⟨before, target', rfl, -, htarget⟩ :=
      List.map_eq_append_iff.1 (hevents.symm.trans htook)
    obtain rfl : target' = target :=
      List.map_inj_right (fun _ _ h => Event.took.inj h) |>.1 htarget
    have hne : target' ≠ [] := by
      rintro rfl
      have := hbuilds.passes.shorter (htakes.ready hr₀).silent
      rw [htokens] at this
      exact Nat.lt_irrefl _ this
    have hfirst : target'.head? = some r₀.current := by
      obtain ⟨first, more, rfl⟩ := List.exists_cons_of_ne_nil hne
      rw [(List.cons.inj htokens).1, List.head?_cons]
    have hlast := List.getLast?_eq_some_getLast hne
    have hspan : e.span = ⟨r₀.current.span.start, (target'.getLast hne).span.stop⟩ := by
      rw [hlast] at hend
      exact hbuilds.span.trans (by rw [hend]; rfl)
    rw [hspan]
    exact .target rfl hfirst hlast (htokens ▸ hr₀.derives_prefixed htakes hrun) hvariable

end Reading

namespace Tree

variable {source : Text.Source} {consumed : List Token} {d : Diagnostic}

/-- How the first diagnostic of a text without lexical diagnostics comes about. If it was the end of
file that was met, then some diagnostic says so. -/
theorem blames_of_diagnostics (hlexed : ∀ l ∈ (Scanner.ofSource source).lexemes, l.diagnostics = [])
    (hparsed : (parse source).diagnostics ≠ []) :
    ∃ (consumed : List Token) (s : Reading) (d : Diagnostic),
      (Reading.ofSource source).tokens = consumed ++ s.tokens ∧ s.Blames d ∧
      s.journal.events = consumed.map .took ∧ (parse source).journal.FirstReport consumed d ∧
      (s.current.kind = .endOfFile →
        ∃ d ∈ (parse source).diagnostics, d.cause.Names .endOfFile) := by
  have hready := Reading.ready_ofSource hlexed
  have hevents := Reading.events_ofSource hlexed
  obtain ⟨c, r', hrun, hjournal⟩ := run_parse source
  have hdiagnostics : (parse source).diagnostics = r'.diagnostics := by
    rw [diagnostics, hjournal, Journal.diagnostics_record]
    exact List.append_nil _
  have hprompt : Read.Prompt (Read.chunk (Reading.ofSource source).nested) :=
    inferInstanceAs (Read.Prompt (Read.chunk (.upTo _)))
  cases hprompt.prompted hready hrun with
  | took htakes =>
    exact absurd (hdiagnostics.trans (htakes.ready hready).silent) hparsed
  | @blamed s d htakes hblames hacts htold =>
    obtain ⟨consumed, htokens, -, htook, -⟩ := htakes.consumed hready
    have hfirst := htakes.firstReport hready hevents htokens hacts
    rw [hevents, List.nil_append] at htook
    refine ⟨consumed, s, d, htokens, hblames, htook, hjournal ▸ hfirst.record _, fun hk => ?_⟩
    rw [hdiagnostics]
    exact htold hk

/-- What was consumed before the first diagnostic is viable. -/
theorem viable_consumed (hlexed : ∀ l ∈ (Scanner.ofSource source).lexemes, l.diagnostics = [])
    (hreport : (parse source).journal.FirstReport consumed d) : Viable (consumed.map Token.word) := by
  have hready := Reading.ready_ofSource hlexed
  have hevents := Reading.events_ofSource hlexed
  obtain ⟨c, r', hrun, hjournal⟩ := run_parse source
  rw [hjournal] at hreport
  cases (Read.chunk_tracks _ _ c r' hrun).tracked hready with
  | took htakes =>
    have hmem : d ∈ r'.journal.diagnostics := by simpa [Event.diagnostic?] using hreport.mem
    rw [show r'.journal.diagnostics = [] from (htakes.ready hready).silent] at hmem
    cases hmem
  | blamed htakes hacts htokens hbegins =>
    have hfirst := (htakes.firstReport hready hevents htokens hacts).record
      (.parsed source.length r'.diagnostics.length)
    rw [(hreport.unique hfirst).1]
    exact viable_of_begins hlexed htokens (by simp [Reading.tokens]) hbegins

/-- The first diagnostic of a text without lexical diagnostics blames the right token. What was
consumed before it can be completed to a program, and with the current token it cannot. -/
theorem firstReport_parse (source : Text.Source)
    (hlexed : ∀ l ∈ (Scanner.ofSource source).lexemes, l.diagnostics = [])
    (hparsed : (parse source).diagnostics ≠ []) :
    ∃ consumed current rest d,
      (Scanner.ofSource source).lexemes.map Lexeme.token = consumed ++ current :: rest ∧
      (parse source).diagnostics.head? = some d ∧ (parse source).journal.FirstReport consumed d ∧
      Viable (consumed.map Token.word) ∧ ¬ Viable ((consumed ++ [current]).map Token.word) ∧
      Located consumed current rest d := by
  obtain ⟨consumed, s, d, htokens, hblames, htook, hreport, -⟩ :=
    blames_of_diagnostics hlexed hparsed
  exact ⟨consumed, s.current, s.ahead.map Lexeme.token, d,
    (Reading.tokens_ofSource source).symm.trans htokens, hreport.head?, hreport,
    viable_consumed hlexed hreport, not_viable hlexed htokens hreport, hblames.located htook⟩

/-- In a list of targets with a call in it, which is blamed when the equals sign is met. -/
theorem firstReport_parse_call :
    let source := Text.Source.ofString "t.x, f(1) = 2 end"
    (∀ l ∈ (Scanner.ofSource source).lexemes, l.diagnostics = []) ∧
      (parse source).diagnostics ≠ [] ∧
      ∃ consumed current rest d,
        (Scanner.ofSource source).lexemes.map Lexeme.token = consumed ++ current :: rest ∧
        (parse source).diagnostics.head? = some d ∧
        (parse source).journal.FirstReport consumed d ∧
        Viable (consumed.map Token.word) ∧ ¬ Viable ((consumed ++ [current]).map Token.word) ∧
        Located consumed current rest d := by
  intro source
  have hlexed : ∀ l ∈ (Scanner.ofSource source).lexemes, l.diagnostics = [] := by decide +kernel
  have hparsed : (parse source).diagnostics ≠ [] := by decide +kernel
  exact ⟨hlexed, hparsed, firstReport_parse source hlexed hparsed⟩

end Tree
end Syntax
end LuaFront
