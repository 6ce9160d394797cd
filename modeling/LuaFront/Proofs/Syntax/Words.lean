import LuaFront.Proofs.Syntax.Layout
import LuaFront.Proofs.Syntax.Statement

/-!
# LuaFront.Proofs.Syntax.Words

Texts with the same words. The words of a text are the kinds and values of its tokens, without the
places where they stand.

* `Reading.ofWords`: words spread out, each token at an even place, of width one and with a gap
  behind it.
* `Token.offsets`: the move that takes the tokens so spread to where they stand in a text.
* `Tree.parse_ofWords`: a text without lexical diagnostics is read as its words are, and what was
  read is then moved to where it stands in the text.
-/

namespace LuaFront

open Placed (relocate Settled)

/-- What a token is, apart from where it stands. -/
def Token.word (t : Token) : Kind × Value := (t.kind, t.value)

/-- The words of a text. -/
def Text.Source.words (s : Source) : List (Kind × Value) :=
  (Scanner.ofSource s).lexemes.map fun l => l.token.word

/-! ## Where tokens stand -/

namespace Token

/-- Where the token with the number `n / 2` starts, for even `n`, and where it ends, for odd `n`.
Behind the end of file places are counted on. -/
def offsets : List Token → Nat → Nat
  | [], n => n
  | t :: r, n =>
    if t.kind = .endOfFile then t.span.start + n
    else
      match n with
      | 0 => t.span.start
      | 1 => t.span.stop
      | n + 2 => offsets r n

theorem offsets_of_endOfFile {t : Token} {r : List Token} (h : t.kind = .endOfFile) (n : Nat) :
    offsets (t :: r) n = t.span.start + n := by
  unfold offsets
  rw [if_pos h]

theorem offsets_start {t : Token} {r : List Token} : offsets (t :: r) 0 = t.span.start := by
  rw [offsets]
  split <;> rfl

theorem offsets_stop {t : Token} {r : List Token} (h : t.kind ≠ .endOfFile) :
    offsets (t :: r) 1 = t.span.stop := by
  rw [offsets, if_neg h]

theorem offsets_tail {t : Token} {r : List Token} (h : t.kind ≠ .endOfFile) (n : Nat) :
    offsets (t :: r) (n + 2) = offsets r n := by
  rw [offsets, if_neg h]

namespace Ordered

variable {m : Nat} {ts : List Token}

theorem offsets_zero_ge (h : Ordered m ts) : m ≤ offsets ts 0 := by
  cases h with
  | last _ hle _ =>
    rw [offsets_start]
    exact hle
  | cons _ hle _ _ =>
    rw [offsets_start]
    exact hle

theorem offsets_le_succ (h : Ordered m ts) : ∀ n, offsets ts n ≤ offsets ts (n + 1) := by
  induction h with
  | last hk hle hempty =>
    intro n
    rw [offsets_of_endOfFile hk, offsets_of_endOfFile hk]
    omega
  | cons hk hle hlt hrest ih =>
    rintro (_ | _ | n)
    · rw [offsets_start, offsets_stop hk]
      omega
    · rw [offsets_stop hk, offsets_tail hk]
      exact hrest.offsets_zero_ge
    · rw [offsets_tail hk, offsets_tail hk (n + 1)]
      exact ih n

theorem offsets_mono (h : Ordered m ts) {a b : Nat} (hab : a ≤ b) :
    offsets ts a ≤ offsets ts b := by
  induction hab with
  | refl => exact Nat.le_refl _
  | step _ ih => exact Nat.le_trans ih (h.offsets_le_succ _)

/-- A token does not end where it starts. The end of file does, but there the count goes on. -/
theorem offsets_strict (h : Ordered m ts) :
    ∀ n, n % 2 = 0 → offsets ts n < offsets ts (n + 1) := by
  induction h with
  | last hk hle hempty =>
    intro n _
    rw [offsets_of_endOfFile hk, offsets_of_endOfFile hk]
    omega
  | cons hk hle hlt hrest ih =>
    rintro (_ | _ | n) heven
    · rw [offsets_start, offsets_stop hk]
      exact hlt
    · omega
    · rw [offsets_tail hk, offsets_tail hk (n + 1)]
      exact ih n (by omega)

end Ordered

/-- Takes tokens that stand at even places, from two on, to where they stand in a text. -/
def place (ts : List Token) : Nat → Nat
  | 0 => 0
  | 1 => 0
  | n + 2 => offsets ts n

theorem Ordered.stretches {m : Nat} {ts : List Token} (h : Ordered m ts) : Stretches (place ts) where
  mono := by
    rintro (_ | _ | a) b hab
    · exact Nat.zero_le _
    · exact Nat.zero_le _
    · obtain ⟨b, rfl⟩ : ∃ c, b = c + 2 := ⟨b - 2, by omega⟩
      exact h.offsets_mono (by omega)
  strict := by
    rintro (_ | _ | a) ⟨hpos, heven⟩
    · omega
    · omega
    · exact h.offsets_strict a (by omega)

end Token

namespace Syntax

/-! ## Words spread out -/

/-- Tokens for words, the first at the given place, each with a gap behind it. -/
def spread : Nat → List (Kind × Value) → List Lexeme
  | _, [] => []
  | place, w :: ws =>
    ⟨⟨w.1, ⟨place, if w.1 = .endOfFile then place else place + 1⟩, w.2, false⟩, []⟩ ::
      spread (place + 2) ws

theorem spread_cons {w : Kind × Value} (hk : w.1 ≠ .endOfFile) (place : Nat)
    (ws : List (Kind × Value)) :
    spread place (w :: ws) = ⟨⟨w.1, ⟨place, place + 1⟩, w.2, false⟩, []⟩ :: spread (place + 2) ws := by
  rw [spread, if_neg hk]

theorem word_of_mem_spread {place : Nat} {ws : List (Kind × Value)} {l : Lexeme}
    (h : l ∈ spread place ws) : l.token.word ∈ ws ∧ l.diagnostics = [] := by
  induction ws generalizing place with
  | nil => cases h
  | cons w ws ih =>
    rcases List.mem_cons.1 h with rfl | h
    · exact ⟨List.mem_cons_self, rfl⟩
    · exact ⟨List.mem_cons_of_mem _ (ih h).1, (ih h).2⟩

theorem aligned_of_mem_spread {place : Nat} {ws : List (Kind × Value)} {l : Lexeme}
    (hplace : Aligned place) (h : l ∈ spread place ws) :
    Aligned l.token.span.start ∧
      (l.token.kind ≠ .endOfFile → l.token.span.stop = l.token.span.start + 1) := by
  induction ws generalizing place with
  | nil => cases h
  | cons w ws ih =>
    rcases List.mem_cons.1 h with rfl | h
    · exact ⟨hplace, fun hk => if_neg hk⟩
    · have hnext : Aligned (place + 2) := ⟨by omega, by have := hplace.2; omega⟩
      exact ih hnext h

/-- Words are in order, wherever their tokens stand. -/
theorem ordered_spread {m : Nat} {ts : List Token} (h : Token.Ordered m ts) (place n : Nat)
    (hn : n ≤ place) :
    Token.Ordered n ((spread place (ts.map Token.word)).map Lexeme.token) := by
  induction h generalizing place n with
  | last hk hle hempty => exact .last hk hn (if_pos hk).symm
  | @cons m t r hk hle hlt hrest ih =>
    have hword : t.word.1 ≠ .endOfFile := hk
    rw [List.map_cons, spread_cons hword]
    exact .cons hk hn (Nat.lt_succ_self place) (ih (place + 2) (place + 1) (by omega))

/-- The tokens of a text are its words, taken to where they stand. -/
theorem relocate_spread {m : Nat} {ts : List Token} (h : Token.Ordered m ts)
    (hpresent : ∀ t ∈ ts, t.missing = false) {f : Nat → Nat} {place : Nat}
    (hf : ∀ n, f (place + n) = Token.offsets ts n) :
    relocate f (spread place (ts.map Token.word)) = ts.map (Lexeme.mk · []) := by
  induction h generalizing place with
  | @last m t hk hle hempty =>
    have hstart : f place = t.span.start := by
      rw [← Nat.add_zero place, hf 0, Token.offsets_start]
    have hmissing := hpresent t List.mem_cons_self
    obtain ⟨kind, ⟨start, stop⟩, value, missing⟩ := t
    simp only at hk hempty hstart hmissing
    simp only [List.map_cons, List.map_nil, spread, Token.word, relocate, hk, if_true, hstart,
      hmissing, ← hempty]
  | @cons m t r hk hle hlt hrest ih =>
    have hstart : f place = t.span.start := by
      rw [← Nat.add_zero place, hf 0, Token.offsets_start]
    have hstop : f (place + 1) = t.span.stop := by
      rw [hf 1, Token.offsets_stop hk]
    have htail : relocate f (spread (place + 2) (r.map Token.word)) = r.map (Lexeme.mk · []) := by
      refine ih (fun t ht => hpresent t (List.mem_cons_of_mem _ ht)) fun n => ?_
      rw [Nat.add_assoc, Nat.add_comm 2 n, hf (n + 2), Token.offsets_tail hk]
    have hmissing := hpresent t List.mem_cons_self
    obtain ⟨kind, ⟨start, stop⟩, value, missing⟩ := t
    simp only at hk hstart hstop hmissing
    simp only [relocate] at htail
    simp only [List.map_cons, spread, Token.word, relocate, hk, if_false, hstart, hstop, hmissing,
      List.map_nil, htail]

/-! ## Reading words -/

/-- The start of a text of which only the words are known. -/
def Reading.ofWords (ws : List (Kind × Value)) : Reading := ofLexemes (spread 2 ws)

/-- Words spread out are read as regularly as can be. -/
theorem Reading.regular_ofWords {m : Nat} {ts : List Token} (h : Token.Ordered m ts)
    (hspelled : ∀ t ∈ ts, Scanner.Spelled t) : (Reading.ofWords (ts.map Token.word)).Regular := by
  have hordered := ordered_spread h 2 0 (by omega)
  have htwo : Aligned 2 := ⟨by omega, rfl⟩
  have haligned (l : Lexeme) (hl : l ∈ spread 2 (ts.map Token.word)) :=
    aligned_of_mem_spread htwo hl
  have hword (l : Lexeme) (hl : l ∈ spread 2 (ts.map Token.word)) :=
    word_of_mem_spread hl
  unfold ofWords
  generalize spread 2 (ts.map Token.word) = ls at hordered haligned hword
  cases ls with
  | nil => cases hordered
  | cons l ahead =>
    have hquiet : l.diagnostics = [] := (hword l List.mem_cons_self).2
    have hnothing : (Journal.empty.reportAll l.diagnostics).lastDiagnostic? = none := by
      rw [hquiet]
      rfl
    have htokens {P : Token → Prop} (hp : ∀ l' ∈ l :: ahead, P l'.token) :
        ∀ t ∈ (ofLexemes (l :: ahead)).tokens, P t := by
      intro t ht
      have ht : t ∈ (l :: ahead).map Lexeme.token := ht
      obtain ⟨l', hl', rfl⟩ := List.mem_map.1 ht
      exact hp l' hl'
    refine ⟨⟨hordered, htokens fun l' hl' => ?_⟩, htokens haligned, ?_, .inl rfl, ?_, ?_⟩
    · obtain ⟨t, ht, hword⟩ := List.mem_map.1 (hword l' hl').1
      intro hname
      have hkind : t.kind = l'.token.kind := congrArg Prod.fst hword
      have hvalue : t.value = l'.token.value := congrArg Prod.snd hword
      rw [← hvalue]
      exact hspelled t ht (hkind.trans hname)
    · exact fun l' hl' => (hword l' (List.mem_cons_of_mem _ hl')).2
    · intro d hd
      cases hnothing.symm.trans hd
    · intro d hd
      cases hnothing.symm.trans hd

/-- A text that starts elsewhere starts with the same tokens elsewhere. -/
theorem Reading.relocate_ofLexemes {f : Nat → Nat} (hzero : f 0 = 0) {ls : List Lexeme}
    (hquiet : ∀ l ∈ ls, l.diagnostics = []) :
    relocate f (Reading.ofLexemes ls) = Reading.ofLexemes (relocate f ls) := by
  cases ls with
  | nil => simp [ofLexemes, relocate, Text.Span.empty, hzero, Journal.empty]
  | cons l ahead =>
    have hl : l.diagnostics = [] := hquiet l List.mem_cons_self
    simp [ofLexemes, relocate, hl, hzero, Journal.reportAll, Journal.empty]

theorem Reading.words_ofSource (source : Text.Source) :
    (Reading.ofSource source).tokens.map Token.word = source.words := by
  rw [Reading.tokens_ofSource, List.map_map]
  rfl

/-- The lexemes of a text that is quiet are its tokens. -/
theorem Reading.lexemes_ofSource {source : Text.Source}
    (hquiet : ∀ l ∈ (Scanner.ofSource source).lexemes, l.diagnostics = []) :
    (Scanner.ofSource source).lexemes = (Reading.ofSource source).tokens.map (Lexeme.mk · []) := by
  rw [Reading.tokens_ofSource, List.map_map]
  refine ((List.map_congr_left fun l hl => ?_).trans (List.map_id _)).symm
  exact congrArg (Lexeme.mk l.token) (hquiet l hl).symm

/-- The tokens of a text stand where its words are taken. -/
theorem Reading.relocate_ofWords {source : Text.Source}
    (hquiet : ∀ l ∈ (Scanner.ofSource source).lexemes, l.diagnostics = []) :
    relocate (Token.place (Reading.ofSource source).tokens) (Reading.ofWords source.words) =
      Reading.ofSource source := by
  have htokens := Reading.tokens_ofSource source
  have hlexemes := Reading.lexemes_ofSource hquiet
  have hpresent : ∀ t ∈ (Reading.ofSource source).tokens, t.missing = false := by
    intro t ht
    rw [htokens] at ht
    obtain ⟨l, hl, rfl⟩ := List.mem_map.1 ht
    exact Scanner.present_of_mem_lexemes hl
  have hspread : relocate (Token.place (Reading.ofSource source).tokens) (spread 2 source.words) =
      (Scanner.ofSource source).lexemes := by
    rw [hlexemes, ← words_ofSource source]
    refine relocate_spread (Reading.sound_ofSource source).ordered hpresent fun n => ?_
    rw [Nat.add_comm]
    rfl
  unfold ofWords
  rw [Reading.relocate_ofLexemes rfl fun l hl => (word_of_mem_spread hl).2, hspread,
    ofSource_eq]

namespace Tree

/-- A text whose tokens were moved is read as before, and what was read is moved. -/
theorem parse_of_relocate {source : Text.Source} {f : Nat → Nat} (hf : Stretches f)
    (hzero : f 0 = 0) {r : Reading} (h : r.Regular) (hmoved : relocate f r = Reading.ofSource source) :
    (parse source).root = relocate f (r.run Read.chunk).1 ∧
      (parse source).diagnostics = relocate f (r.run Read.chunk).2.diagnostics ∧
      Settled (r.run Read.chunk).1 := by
  have hlength : (Reading.ofSource source).ahead.length = r.ahead.length := by
    rw [← hmoved, Reading.length_ahead_relocate]
  have htokens : r.tokens.length ≤ r.ahead.length + 1 := by
    simp [Reading.tokens]
  obtain ⟨c, r', hrun, _⟩ := Read.chunk_reads h.sound htokens
  obtain ⟨hrun', hsettled, _⟩ := Read.chunk_moves hf hzero (Nested.moves_upTo hf _) h c r' hrun
  have hr : r.run Read.chunk = (c, r') := by
    rw [Reading.run, Reading.nested, hrun]
    rfl
  have hyields : Read.Yields (Read.chunk (Reading.ofSource source).nested)
      (Reading.ofSource source) fun a ra => a = relocate f c ∧ ra = relocate f r' := by
    refine ⟨relocate f c, relocate f r', ?_, rfl, rfl⟩
    rw [Reading.nested, hlength, ← hmoved]
    exact hrun'
  obtain ⟨_, ⟨hroot, rfl⟩, hdiagnostics⟩ := parse_of_yields hyields
  rw [hr, hdiagnostics]
  exact ⟨hroot, Journal.diagnostics_relocate f r'.journal, hsettled⟩

/-- A text is read as its words are, and what was read is taken to where it stands in the text. -/
theorem parse_ofWords {source : Text.Source}
    (hquiet : ∀ l ∈ (Scanner.ofSource source).lexemes, l.diagnostics = []) :
    ∃ f, Stretches f ∧
      (parse source).root = relocate f ((Reading.ofWords source.words).run Read.chunk).1 ∧
      (parse source).diagnostics =
        relocate f ((Reading.ofWords source.words).run Read.chunk).2.diagnostics ∧
      Settled ((Reading.ofWords source.words).run Read.chunk).1 := by
  have hsound := Reading.sound_ofSource source
  have hregular : (Reading.ofWords source.words).Regular := by
    rw [← Reading.words_ofSource]
    exact Reading.regular_ofWords hsound.ordered hsound.spelled
  have hf := hsound.ordered.stretches
  exact ⟨_, hf, parse_of_relocate hf rfl hregular (Reading.relocate_ofWords hquiet)⟩

end Tree
end Syntax
end LuaFront
