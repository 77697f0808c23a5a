/-
OperatorGrammar/Proofs/Commented.lean

Comments are exactly white space.

The dialect without callbacks reads the blanked text, and the dialect with the
comment plugin the text itself.  Between tokens both cursors are at the same
offset, in front of code, and what is left of the one text is what is left of the
other, blanked (`Commented`).  White space and comments are skipped together,
behind which no comment starts (`AtToken`).  A number, a name or an operator ends
before the next comment, because no token goes on with a slash or with a space,
and a string is the same in both texts.

Main result: `Dialect.parse_commented`.
-/
import OperatorGrammar.Proofs.Blanking
import OperatorGrammar.Proofs.Lockstep
import OperatorGrammar.Proofs.ReadsComplete
import OperatorGrammar.Proofs.Sameness
import OperatorGrammar.Proofs.Shifted
import OperatorGrammar.Proofs.Stretch

namespace OperatorGrammar

open Reading

/-- Both runs succeed, or both fail, at the same offset. -/
def Accord.sameIndex : Accord where
  shares e e' := e'.index = e.index
  stops _ := False

theorem Reply.Follows.outcomes_of_sameIndex {α : Type} {r r' : Reply α}
    {after : α → Nat → Nat → Prop} {o : Except Failure α}
    (h : r.Follows .sameIndex (fun _ => False) after r') (ho : r.outcome? = some o) :
    (∃ a, o = .ok a ∧ r'.outcome? = some (.ok a)) ∨
      ∃ e e', o = .error e ∧ r'.outcome? = some (.error e') ∧ e'.index = e.index :=
  h.outcomes (fun _ => id) ho

/-- The same offset in a blanked text and in the text itself, in front of code. -/
structure Commented (text text' : Array Char) (i i' : Nat) : Prop where
  index : i' = i
  within : i ≤ text'.size
  rest : restAt text i = blanked .code (restAt text' i)
  closed : BlocksClosed .code (restAt text' i)

/-- The same, where no comment starts. -/
structure AtToken (text text' : Array Char) (i i' : Nat) : Prop
    extends Commented text text' i i' where
  noComment : ¬ StartsComment (restAt text' i)

/-- No token but a string goes on with a space, a slash or a quote. -/
structure Grammar.Uncommented (g : Grammar) : Prop where
  space : g.Breaks ' '
  slash : g.Breaks '/'
  quote : ∀ q, IsQuote q → g.Spares q

namespace Grammar.Uncommented

variable {g : Grammar} {text : Array Char} {i : Nat} (h : g.Uncommented)
include h

theorem breaks_quote {q : Char} (hq : IsQuote q) : g.Breaks q :=
  (h.quote q hq).breaks (by rcases hq with rfl | rfl <;> decide)
    (by rcases hq with rfl | rfl <;> decide)

end Grammar.Uncommented

section Texts

variable {g : Grammar} {text text' : Array Char} {i i' : Nat}
  (htext : text.toList = blanked .code text'.toList)
include htext

theorem size_blanked : text.size = text'.size := by
  rw [← Array.length_toList, htext, length_blanked, Array.length_toList]

/-- From code on, the texts are the same up to the next comment or string, and any offset up to
there is in front of code. -/
theorem Commented.exists_stretch (hg : g.Uncommented) (h : Commented text text' i i') :
    ∃ n, SameStretch g text text' i i' n ∧ (∀ k, k ≤ n → Commented text text' (i + k) (i' + k)) ∧
      (n = 0 → StartsComment (restAt text' i) ∨ ∀ ch ∈ text'[i']?, IsQuote ch) := by
  obtain ⟨rfl, hwithin, hrest, hclosed⟩ := h
  obtain ⟨n, hrun, hends, hends', hzero⟩ := exists_codeRun (restAt text' i')
  have hle : i' + n ≤ text'.size := by
    have hlength := hrun.le
    rw [length_restAt] at hlength
    omega
  refine ⟨n, ⟨fun k hk => ?_, ?_, hle, ?_, ?_⟩, fun k hk => ⟨rfl, by omega, ?_, ?_⟩, ?_⟩
  · rw [getElem?_add, getElem?_add, hrest, hrun.same k hk]
  · rw [size_blanked htext]
    exact hle
  · rw [getElem?_add, hrest]
    intro ch hch
    rcases hends' ch hch with rfl | hquote
    · exact hg.space
    · exact hg.breaks_quote hquote
  · rw [getElem?_add]
    intro ch hch
    rcases hends ch hch with rfl | hquote
    · exact hg.slash
    · exact hg.breaks_quote hquote
  · rw [restAt_add, restAt_add, hrest, hrun.drop k hk]
  · rw [restAt_add]
    exact hrun.closed k hk hclosed
  · rw [getElem?_eq_head?]
    exact hzero

omit htext in
theorem AtToken.current (h : AtToken text text' i i') : text'[i']? = text[i]? := by
  rw [h.index, getElem?_eq_head?, getElem?_eq_head?, h.rest, head?_blanked h.noComment]

/-- Where no comment starts, the stretch is empty only in front of a string or at the end. -/
theorem AtToken.exists_stretched (hg : g.Uncommented) (h : AtToken text text' i i') :
    ∃ n, Stretched g text text' .sameIndex (Commented text text') i i' n := by
  obtain ⟨n, hstretch, hmore, hzero⟩ := h.toCommented.exists_stretch htext hg
  refine ⟨n, hstretch, hmore, fun k _ _ hk _ => (hmore k hk).index, fun hn ch hch => hg.quote ch ?_⟩
  have hquote := (hzero hn).resolve_left h.noComment
  rw [← h.current, or_self] at hch
  exact hquote ch hch

omit htext in
/-- Behind a character of code. -/
theorem AtToken.past (h : AtToken text text' i i') {ch : Char} (hch : text[i]? = some ch)
    (hquote : ¬ IsQuote ch) : Commented text text' (i + 1) (i' + 1) := by
  have hch' := h.current.trans hch
  have hnoComment := h.noComment
  obtain ⟨⟨rfl, -, hrest, hclosed⟩, -⟩ := h
  rw [restAt_eq_cons hch'] at hrest hclosed hnoComment
  obtain ⟨hshown, hzone⟩ := blanked_code hnoComment hquote
  rw [restAt_eq_cons hch, hshown] at hrest
  rw [BlocksClosed, hzone] at hclosed
  exact ⟨rfl, lt_size_of_getElem? hch', (List.cons.inj hrest).2, hclosed⟩

omit htext in
/-- A string is the same in both texts. -/
theorem AtToken.string (h : AtToken text text' i i') {q : Char} (hq : text[i]? = some q)
    (hquote : IsQuote q) :
    (Lexeme.string ⟨text, i⟩).Follows .sameIndex (Commented text text')
      (Lexeme.string ⟨text', i'⟩) := by
  have hq' := h.current.trans hq
  obtain ⟨⟨rfl, hwithin, hrest, hclosed⟩, -⟩ := h
  -- a string that is closed in the one text is the same string in the other
  have hok {raw value : String} {rest : List Char}
      (htoken' : StringToken (restAt text' i') raw value rest) :
      (Lexeme.string ⟨text, i'⟩).Follows .sameIndex (Commented text text')
        (Lexeme.string ⟨text', i'⟩) := by
    obtain ⟨htoken, hmore⟩ := htoken'.blanked
    rw [← hrest] at htoken
    rw [Lexeme.string_of_token htoken, Lexeme.string_of_token htoken']
    refine .ok ⟨rfl, htoken'.within hwithin, ?_, ?_⟩
    · rw [htoken.restAt, htoken'.restAt]
    · rw [htoken'.restAt]
      exact hmore hclosed
  have hcons := restAt_eq_cons hq'
  rcases blanked_string hquote (restAt text' (i' + 1)) with ⟨_, _, _, htoken⟩ | hopen
  · rw [← hcons] at htoken
    exact hok htoken
  rw [← hcons, ← hrest] at hopen
  have halike := Lexeme.string_alike hopen.symm
  rcases hscan : Lexeme.string ⟨text', i'⟩ with ⟨j, cause | e⟩
  · rw [hscan] at halike
    generalize Lexeme.string ⟨text, i'⟩ = found at halike ⊢
    cases halike with
    | error _ _ => exact .fail rfl
  · have hquote' : ∀ q ∈ text'[i']?, IsQuote q := by
      rw [hq']
      rintro _ ⟨⟩
      exact hquote
    obtain ⟨raw, value, -, htoken⟩ := Lexeme.token_of_string hquote' hscan
    rw [← hscan]
    exact hok htoken

omit htext in
/-- No comment starts with a point, nor is one shown for it. -/
theorem Commented.point (h : Commented text text' i i') :
    (text'[i']? = some '.' ↔ text[i]? = some '.') ∧
      (text[i]? = some '.' → AtToken text text' i i') := by
  by_cases hcomment : StartsComment (restAt text' i)
  · obtain ⟨hslash, hspace⟩ := head?_startsComment hcomment
    rw [h.index, getElem?_eq_head?, getElem?_eq_head?, h.rest, hslash, hspace]
    simp
  · have htoken : AtToken text text' i i' := ⟨h, hcomment⟩
    rw [htoken.current]
    exact ⟨Iff.rfl, fun _ => htoken⟩

theorem alignment_commented (hg : g.Uncommented) : Alignment g text text' .sameIndex
    (fun _ => False) (Commented text text') (AtToken text text') := by
  exact {
    weaken := fun _ _ hi => hi.toCommented
    fails := fun _ _ _ hi => hi.index
    current := fun _ _ hi => hi.current
    past := by
      intro i i' ch hi hch hmem
      refine hi.past hch ?_
      rintro (rfl | rfl) <;> simp at hmem
    separator := by
      intro i i' ch hi hch hsep
      refine .inl (hi.past hch ?_)
      rcases hsep with rfl | rfl <;> simp [IsQuote]
    mark := by
      intro i i' hi hmark
      obtain ⟨hpoint, htoken⟩ := (hi.past hmark (by simp [IsQuote])).point
      exact ⟨hpoint, fun hdot => (htoken hdot).past hdot (by simp [IsQuote])⟩
    name := by
      intro i i' hi
      obtain ⟨n, hn⟩ := hi.exists_stretched htext hg
      exact hn.name
    number := by
      intro i i' hi
      obtain ⟨n, hn⟩ := hi.exists_stretched htext hg
      exact hn.number
    string := fun _ _ _ hi hq hquote => hi.string hq hquote
    unary := by
      intro i i' hi
      obtain ⟨n, hn⟩ := hi.exists_stretched htext hg
      exact hn.unary
    binary := by
      intro i i' hi
      obtain ⟨n, hn⟩ := hi.exists_stretched htext hg
      exact hn.binary }

/-! ### The two runs -/

variable {d d' : Dialect} (hd : d.HookFree) (hd' : d'.Plain) (hcomments : d'.HasComments)
include hd hd' hcomments

/-- The spaces of the blanked text and the comments of the text are skipped together. -/
theorem skipBlanks_commented {n m : Nat} (hm : text'.size + 1 ≤ m) :
    Follows (d.context text n) (d'.context text' m) .sameIndex (Commented text text')
      (fun _ => AtToken text text') skipBlanks skipBlanks := by
  intro s s' hs hdepth
  rw [skipBlanks_of_nil (hd _)]
  by_cases hn : (d.context text n).budget = 0
  · rw [if_pos hn]
    exact .exhausted
  rw [if_neg hn]
  obtain ⟨hindex, hwithin, hrest, hclosed⟩ := hs
  rw [← hindex] at hwithin hrest hclosed ⊢
  obtain ⟨rest, hskips, hdrop, hmore, hstop⟩ := skips_blanked hclosed
  rw [← eq_true hcomments] at hskips
  have hroom : (restAt text' s'.index).length + 1 ≤ m := by
    rw [length_restAt]
    omega
  obtain ⟨hrun, hplaced⟩ :=
    (Takes.skipBlanks (c := d'.context text' m) hd' hskips hroom).run_eq hwithin
  rw [hrun]
  -- both cursors are as far from the end as what is left
  have hbehind : restAt text (Cursor.skipWhile ⟨text, s'.index⟩ Grammar.isBlank s'.index)
      = blanked .code rest := by
    rw [restAt_skipWhile, hrest, hdrop]
  have hsize := size_blanked htext
  have hplace := index_of_restAt hbehind (skipWhile_le Grammar.isBlank (hsize.symm ▸ hwithin))
  rw [length_blanked, hsize] at hplace
  have hrest' : restAt text' (text'.size - rest.length) = rest := hplaced
  have hat : AtToken text text' (Cursor.skipWhile ⟨text, s'.index⟩ Grammar.isBlank s'.index)
      (text'.size - rest.length) := by
    rw [hplace] at hbehind ⊢
    exact ⟨⟨rfl, Nat.sub_le _ _, by rw [hbehind, hrest'], by rwa [hrest']⟩, by rwa [hrest']⟩
  exact .ok hat hdepth

/-- Both runs agree, when the second budget is larger by the rounds that comments may take. -/
theorem lockstep_commented (hg : d.grammar.Uncommented) (hgrammar : d'.grammar = d.grammar)
    (hdone : d'.hooks.get .expressionDone = []) {n m : Nat} (hnm : n + (text'.size + 1) ≤ m) :
    Lockstep (d.context text n) (d'.context text' m) .sameIndex (fun _ => False)
      (fun _ => False) (Commented text text') (AtToken text text') := by
  refine lockstep_of_entries (fun n m hnm hentries => ?_) hnm
  refine .of_plain hd.plain hd' hgrammar (Nat.le_of_add_right_le hnm)
    (alignment_commented htext hg) hentries (.never (by simp))
    (skipBlanks_commented htext hd hd' hcomments (Nat.le_of_add_left_le hnm)) fun node => ?_
  exact .notify_of_nil (hd _) hdone fun _ _ hi => hi

end Texts

/-! ### The standard tables -/

namespace Grammar

/-- The same operators and identifier characters as in a new grammar. -/
structure StandardTables (g : Grammar) : Prop where
  unaryOps : g.unaryOps = standard.unaryOps
  binaryOps : g.binaryOps = standard.binaryOps
  identifierChars : g.identifierChars = standard.identifierChars

namespace StandardTables

variable {g : Grammar} (h : g.StandardTables) {ch : Char}
include h

theorem isIdentifierPart : g.isIdentifierPart ch = standard.isIdentifierPart ch := by
  simp only [Grammar.isIdentifierPart, isIdentifierStart, isBinaryOp, h.binaryOps,
    h.identifierChars]

theorem breaks (hch : standard.Breaks ch) : g.Breaks ch := by
  rw [breaks_iff, h.isIdentifierPart, h.unaryOps, h.binaryOps]
  exact breaks_iff.mp hch

theorem spares (hch : standard.Spares ch) : g.Spares ch := by
  rw [spares_iff, h.isIdentifierPart, h.unaryOps, h.binaryOps]
  exact spares_iff.mp hch

theorem uncommented : g.Uncommented where
  space := h.breaks (by decide)
  slash := h.breaks (by decide)
  quote := by
    rintro q (rfl | rfl)
    · exact h.spares (by decide)
    · exact h.spares (by decide)

end StandardTables

end Grammar

namespace Dialect

/-! ### Registering the comment plugin -/

theorem registering_comments_grammar (d : Dialect) :
    (d.registering [.comments]).grammar = d.grammar :=
  registering_addHook_grammar d (by decide) _ _

theorem registering_comments_hasComments {d : Dialect}
    (hnew : Comments.name ∉ d.plugins.members) : (d.registering [.comments]).HasComments := by
  rw [Plugin.comments, registering_addHook d (by decide), if_neg hnew]
  simp [HasComments, Hooks.get_add]

theorem HookFree.registering_comments_plain {d : Dialect} (hd : d.HookFree) :
    (d.registering [.comments]).Plain := by
  rw [Plugin.comments, registering_addHook d (by decide)]
  split
  · exact hd.plain
  · refine ⟨?_, ?_, ?_, ?_, ?_, .inr ⟨⟨0, Comments.script⟩, ?_, rfl⟩, .inl ?_⟩ <;>
      simp [Hooks.get_add, hd _]

theorem HookFree.registering_comments_expressionDone {d : Dialect} (hd : d.HookFree) :
    (d.registering [.comments]).hooks.get .expressionDone = [] :=
  (registering_addHook_get_of_ne d (by decide) _ (by decide)).trans (hd _)

/-- **Comments are exactly white space.**  With the standard operators and identifier characters,
whatever the literals and the nesting limit, and where every block comment is closed: the text
is parsed with the comment plugin as the text with spaces in place of its comments is parsed
without it, to the same result, or both fail at the same offset.  The name of the plugin must
not be taken yet, or registering it would do nothing. -/
theorem parse_commented {d : Dialect} (hd : d.HookFree) (htables : d.grammar.StandardTables)
    (hnew : Comments.name ∉ d.plugins.members) {text : String}
    (hclosed : BlocksClosed .code text.toList) :
    (∃ r, (d.registering [.comments]).parse text = some (.ok r) ∧
        d.parse (blankedText text) = some (.ok r)) ∨
      ∃ e e', (d.registering [.comments]).parse text = some (.error e') ∧
        d.parse (blankedText text) = some (.error e) ∧ e'.index = e.index := by
  have htext : (blankedText text).toList.toArray.toList
      = blanked .code text.toList.toArray.toList :=
    String.toList_ofList
  have hplain := hd.registering_comments_plain
  -- a small budget is enough for the blanked text, and leaves room for the comments
  obtain ⟨o, ho⟩ := hd.parse_answers (blankedText text)
  have hrun := (hd.parse_eq_some_iff (Nat.le_refl _)).mp ho
  have hlength : (blankedText text).length = text.length := by
    rw [← String.length_toList, blankedText, String.toList_ofList, length_blanked,
      String.length_toList]
  have hsize : text.toList.toArray.size = text.length := String.length_toList
  have hbudget : 2 * (blankedText text).length + 4 + (text.toList.toArray.size + 1)
      ≤ budgetFor text.length := by
    rw [hlength, hsize, budgetFor]
    omega
  have hlock := lockstep_commented htext hd hplain (registering_comments_hasComments hnew)
    htables.uncommented (registering_comments_grammar d) hd.registering_comments_expressionDone
    hbudget
  have hprogram := hlock.program (by simp) (.notify_of_nil (hd _) hplain.start fun _ _ hi => hi)
    fun _ => .notify_of_nil (hd _) hplain.finish fun _ _ _ => trivial
  have hstart : Commented (blankedText text).toList.toArray text.toList.toArray
      State.initial.index State.initial.index :=
    ⟨rfl, Nat.zero_le _, htext, hclosed⟩
  rcases (hprogram .initial .initial hstart rfl).outcomes_of_sameIndex hrun with
    ⟨r, rfl, hparse⟩ | ⟨e, e', rfl, hparse, hindex⟩
  · exact .inl ⟨r, hparse, ho⟩
  · exact .inr ⟨e, e', hparse, ho, hindex⟩

/-- Comments between an operator and its operands, and after the end; a comment mark in a
string is none. -/
theorem parse_commented_division :
    let d := standard.mapGrammar fun g => (g.addLiteral "nil" .null).setNestingLimit (some 9)
    let text := "a/*b*// '//' // nil"
    let e : Expr := .binary "/" (.identifier "a") (.quoted "//")
    d.HookFree ∧ d.grammar.StandardTables ∧ Comments.name ∉ d.plugins.members ∧
      BlocksClosed .code text.toList ∧ blankedText text = "a     / '//'       " ∧
      d.parse (blankedText text) = some (.ok (some e)) ∧
      (d.registering [.comments]).parse text = some (.ok (some e)) := by
  intro d text e
  have hd : d.HookFree := fun p => by cases p <;> rfl
  have htables : d.grammar.StandardTables := ⟨rfl, rfl, rfl⟩
  have hnew : Comments.name ∉ d.plugins.members := nofun
  have hclosed : BlocksClosed .code text.toList := by decide +kernel
  have hblanked : blankedText text = "a     / '//'       " := by decide +kernel
  have hparse : d.parse (blankedText text) = some (.ok (some e)) :=
    parse_of_parsesAs (by decide +kernel) rfl
  refine ⟨hd, htables, hnew, hclosed, hblanked, hparse, ?_⟩
  rcases parse_commented hd htables hnew hclosed with ⟨r, hboth, hr⟩ | ⟨_, _, _, hfails, _⟩
  · rw [hboth, ← hr, hparse]
  · rw [hparse] at hfails
    cases hfails

end Dialect

end OperatorGrammar
