/-
OperatorGrammar/Proofs/Spacing.lean

How much white space there is, and of which kind, makes no difference.

Two texts that differ in their runs of white space only are read side by side.
Whenever a production has skipped white space, the two cursors are in front of the
same character, and up to the next white space or quote the texts go on alike
(`SpacedAlike.exists_run`), so every scanner finds the same there and stops at the
same distance.  Behind the token the texts may differ again, but only in the run
that is skipped next.  A string is not looked into: it is the same in both texts
when it is closed, and when it is not, both parses fail.

The relation is symmetric, so it is enough to follow a successful parse from one
text to the other.

Main result: `Dialect.HookFree.parse_respaced`.
-/
import OperatorGrammar.Proofs.Lockstep
import OperatorGrammar.Proofs.Sameness
import OperatorGrammar.Proofs.Shifted
import OperatorGrammar.Proofs.Stretch

namespace OperatorGrammar

open Reading

/-! ### Texts that differ in white space -/

/-- White space, or one of the two quotes. -/
def Separates (ch : Char) : Prop := Grammar.isBlank ch ∨ IsQuote ch

instance (ch : Char) : Decidable (Separates ch) :=
  inferInstanceAs (Decidable (Grammar.isBlank ch ∨ ch = '\'' ∨ ch = '"'))

/-- A string that was opened with the quote is not closed. -/
def Unclosed (q : Char) (input : List Char) : Prop :=
  ∀ body value rest, Escaped q body value → input ≠ body ++ q :: rest

/-- The same text but for the lengths and the characters of the runs of white space outside
strings, and for white space at the end.  Behind a quote whose string is closed in neither text
nothing is compared: no such text is parsed. -/
inductive SpacedAlike : List Char → List Char → Prop
  | ends {run run'} : BlankRun run → BlankRun run' → SpacedAlike run run'
  | blanks {run run' input input'} : BlankRun run → BlankRun run' → run ≠ [] → run' ≠ [] →
      SpacedAlike input input' → SpacedAlike (run ++ input) (run' ++ input')
  | char {ch input input'} : ¬ Separates ch → SpacedAlike input input' →
      SpacedAlike (ch :: input) (ch :: input')
  | string {q body value input input'} : IsQuote q → Escaped q body value →
      SpacedAlike input input' →
      SpacedAlike (q :: (body ++ q :: input)) (q :: (body ++ q :: input'))
  | unclosed {q input input'} : IsQuote q → Unclosed q input → Unclosed q input' →
      SpacedAlike (q :: input) (q :: input')

/-- The same text but for white space outside strings: maximal runs of it are other runs in the
other text, and at the start and at the end one text may have white space and the other none. -/
def Respaced (input input' : List Char) : Prop :=
  ∃ lead lead' body body', BlankRun lead ∧ BlankRun lead' ∧
    input = lead ++ body ∧ input' = lead' ++ body' ∧ SpacedAlike body body'

variable {ch q : Char} {run run' input input' : List Char}

namespace SpacedAlike

theorem symm (h : SpacedAlike input input') : SpacedAlike input' input := by
  induction h with
  | ends hrun hrun' => exact .ends hrun' hrun
  | blanks hrun hrun' hne hne' _ ih => exact .blanks hrun' hrun hne' hne ih
  | char hch _ ih => exact .char hch ih
  | string hq hbody _ ih => exact .string hq hbody ih
  | unclosed hq hopen hopen' => exact .unclosed hq hopen' hopen

/-- Skipping white space on both sides. -/
theorem dropWhile (h : SpacedAlike input input') :
    SpacedAlike (input.dropWhile Grammar.isBlank) (input'.dropWhile Grammar.isBlank) := by
  induction h with
  | ends hrun hrun' =>
    rw [hrun.dropWhile_eq_nil, hrun'.dropWhile_eq_nil]
    exact .ends .nil .nil
  | blanks hrun hrun' _ _ _ ih =>
    rw [hrun.dropWhile, hrun'.dropWhile]
    exact ih
  | char hch h _ =>
    have hblank := fun hblank => hch (.inl hblank)
    rw [List.dropWhile_cons_of_neg hblank, List.dropWhile_cons_of_neg hblank]
    exact .char hch h
  | string hq hbody h _ =>
    rw [List.dropWhile_cons_of_neg hq.not_isBlank, List.dropWhile_cons_of_neg hq.not_isBlank]
    exact .string hq hbody h
  | unclosed hq hopen hopen' =>
    rw [List.dropWhile_cons_of_neg hq.not_isBlank, List.dropWhile_cons_of_neg hq.not_isBlank]
    exact .unclosed hq hopen hopen'

/-- In front of a character that is not white space, both texts go on with it.  If it is a quote,
it opens the same string in both, or one that is not closed. -/
theorem exists_cons (h : SpacedAlike (ch :: input) input') (hch : ¬ Grammar.isBlank ch) :
    ∃ input₁', input' = ch :: input₁' ∧
      (¬ IsQuote ch ∧ SpacedAlike input input₁' ∨ IsQuote ch ∧ (Unclosed ch input ∨
        ∃ body value rest rest', Escaped ch body value ∧ input = body ++ ch :: rest ∧
          input₁' = body ++ ch :: rest' ∧ SpacedAlike rest rest')) := by
  generalize hinput : ch :: input = whole at h
  cases h with
  | ends hrun _ =>
    subst hinput
    exact absurd hrun.head hch
  -- a run in between is not empty, so white space would come next
  | @blanks run _ _ _ hrun _ hne _ _ =>
    obtain ⟨first, run, rfl⟩ := List.exists_cons_of_ne_nil hne
    obtain rfl := (List.cons.inj hinput).1
    exact absurd hrun.head hch
  | char hseparates h =>
    obtain ⟨rfl, rfl⟩ := List.cons.inj hinput
    exact ⟨_, rfl, .inl ⟨fun hq => hseparates (.inr hq), h⟩⟩
  | string hq hbody h =>
    obtain ⟨rfl, rfl⟩ := List.cons.inj hinput
    exact ⟨_, rfl, .inr ⟨hq, .inr ⟨_, _, _, _, hbody, rfl, rfl, h⟩⟩⟩
  | unclosed hq hopen _ =>
    obtain ⟨rfl, rfl⟩ := List.cons.inj hinput
    exact ⟨_, rfl, .inr ⟨hq, .inl hopen⟩⟩

/-- Behind a character of the code, the texts go on alike. -/
theorem tail (h : SpacedAlike (ch :: input) (ch :: input')) (hch : ¬ Separates ch) :
    SpacedAlike input input' := by
  obtain ⟨more, hmore, ⟨-, h⟩ | ⟨hq, -⟩⟩ := h.exists_cons fun hblank => hch (.inl hblank)
  · obtain rfl := (List.cons.inj hmore).2
    exact h
  · exact absurd (.inr hq) hch

theorem head?_iff (h : SpacedAlike input input') (hch : ¬ Grammar.isBlank ch) :
    input'.head? = some ch ↔ input.head? = some ch := by
  have hone {input input' : List Char} (h : SpacedAlike input input')
      (hhead : input.head? = some ch) : input'.head? = some ch := by
    obtain ⟨more, rfl⟩ := List.head?_eq_some_iff.mp hhead
    obtain ⟨more', rfl, -⟩ := h.exists_cons hch
    rfl
  exact ⟨hone h.symm, hone h⟩

/-- Where neither text starts with white space, both start alike. -/
theorem head?_eq (h : SpacedAlike input input')
    (hhead : ∀ ch ∈ input.head?, ¬ Grammar.isBlank ch)
    (hhead' : ∀ ch ∈ input'.head?, ¬ Grammar.isBlank ch) : input'.head? = input.head? := by
  cases hinput : input.head? with
  | some ch => exact (h.head?_iff (hhead ch hinput)).mpr hinput
  | none =>
    cases hinput' : input'.head? with
    | none => rfl
    | some ch =>
      rw [(h.head?_iff (hhead' ch hinput')).mp hinput'] at hinput
      cases hinput

/-- The texts are the same up to the next white space or quote, and go on alike from anywhere
in between. -/
theorem exists_run (h : SpacedAlike input input') : ∃ n, n ≤ input.length ∧ n ≤ input'.length ∧
    (∀ k, k < n → input'[k]? = input[k]?) ∧
    (∀ k, k ≤ n → SpacedAlike (input.drop k) (input'.drop k)) ∧
    (∀ ch ∈ input[n]?, Separates ch) ∧ ∀ ch ∈ input'[n]?, Separates ch := by
  -- in front of white space and quotes the run is empty
  have hzero {input input' : List Char} (h : SpacedAlike input input') :
      ∀ k, k ≤ 0 → SpacedAlike (input.drop k) (input'.drop k) := by
    intro k hk
    obtain rfl := Nat.le_zero.mp hk
    exact h
  have hblank {run rest : List Char} (hrun : BlankRun run) (hne : run ≠ []) :
      ∀ ch ∈ (run ++ rest)[0]?, Separates ch := by
    obtain ⟨first, run, rfl⟩ := List.exists_cons_of_ne_nil hne
    rintro ch ⟨⟩
    exact .inl hrun.head
  have hquote {q : Char} {rest : List Char} (hq : IsQuote q) :
      ∀ ch ∈ (q :: rest)[0]?, Separates ch := by
    rintro ch ⟨⟩
    exact .inr hq
  have hleft := h
  induction h with
  | ends hrun hrun' =>
    exact ⟨0, Nat.zero_le _, Nat.zero_le _, nofun, hzero hleft,
      fun ch hch => .inl (hrun ch (List.mem_of_getElem? hch)),
      fun ch hch => .inl (hrun' ch (List.mem_of_getElem? hch))⟩
  | blanks hrun hrun' hne hne' _ _ =>
    exact ⟨0, Nat.zero_le _, Nat.zero_le _, nofun, hzero hleft, hblank hrun hne, hblank hrun' hne'⟩
  | char hch h ih =>
    obtain ⟨n, hn, hn', hsame, hmore, hends, hends'⟩ := ih h
    refine ⟨n + 1, Nat.succ_le_succ hn, Nat.succ_le_succ hn', ?_, ?_, hends, hends'⟩
    · rintro (- | k) hk
      · rfl
      · exact hsame k (Nat.lt_of_succ_lt_succ hk)
    · rintro (- | k) hk
      · exact hleft
      · exact hmore k (Nat.le_of_succ_le_succ hk)
  | string hq _ _ _ =>
    exact ⟨0, Nat.zero_le _, Nat.zero_le _, nofun, hzero hleft, hquote hq, hquote hq⟩
  | unclosed hq _ _ =>
    exact ⟨0, Nat.zero_le _, Nat.zero_le _, nofun, hzero hleft, hquote hq, hquote hq⟩

theorem respaced (h : SpacedAlike input input') : Respaced input input' :=
  ⟨[], [], input, input', .nil, .nil, rfl, rfl, h⟩

end SpacedAlike

namespace Respaced

theorem symm (h : Respaced input input') : Respaced input' input := by
  obtain ⟨lead, lead', body, body', hlead, hlead', rfl, rfl, h⟩ := h
  exact ⟨lead', lead, body', body, hlead', hlead, rfl, rfl, h.symm⟩

theorem spacedAlike (h : Respaced input input') :
    SpacedAlike (input.dropWhile Grammar.isBlank) (input'.dropWhile Grammar.isBlank) := by
  obtain ⟨lead, lead', body, body', hlead, hlead', rfl, rfl, h⟩ := h
  rw [hlead.dropWhile, hlead'.dropWhile]
  exact h.dropWhile

end Respaced

/-! ### Side by side -/

/-- The texts differ in white space only from the two offsets on. -/
structure RespacedAt (text text' : Array Char) (i i' : Nat) : Prop where
  within : i ≤ text.size
  within' : i' ≤ text'.size
  rest : Respaced (restAt text i) (restAt text' i')

/-- The same, where white space has just been skipped. -/
structure PastBlanks (text text' : Array Char) (i i' : Nat) : Prop where
  within : i ≤ text.size
  within' : i' ≤ text'.size
  rest : SpacedAlike (restAt text i) (restAt text' i')
  head : ∀ ch ∈ (restAt text i).head?, ¬ Grammar.isBlank ch
  head' : ∀ ch ∈ (restAt text' i').head?, ¬ Grammar.isBlank ch

/-- White space and quotes are in no operator and in no name. -/
def Grammar.SparesSeparators (g : Grammar) : Prop := ∀ ch, Separates ch → g.Spares ch

theorem Grammar.SparesSeparators.breaks {g : Grammar} (hg : g.SparesSeparators)
    (h : Separates ch) : g.Breaks ch := by
  refine (hg ch h).breaks ?_ ?_
  · rintro rfl
    exact absurd h (by decide)
  · rintro (rfl | rfl)
    · exact absurd h (by decide)
    · exact absurd h (by decide)

variable {g : Grammar} {text text' : Array Char} {i i' : Nat}

namespace PastBlanks

variable (h : PastBlanks text text' i i')
include h

theorem respacedAt : RespacedAt text text' i i' := ⟨h.within, h.within', h.rest.respaced⟩

theorem current : text'[i']? = text[i]? := by
  rw [getElem?_eq_head?, getElem?_eq_head?]
  exact h.rest.head?_eq h.head h.head'

theorem exists_stretched (hg : g.SparesSeparators) :
    ∃ n, Stretched g text text' .lenient (RespacedAt text text') i i' n := by
  obtain ⟨n, hn, hn', hsame, hmore, hends, hends'⟩ := h.rest.exists_run
  have hle := h.within
  have hle' := h.within'
  rw [length_restAt] at hn hn'
  -- the stretch goes up to white space, a quote or the end, on which no token goes on
  refine ⟨n, ⟨fun k hk => ?_, by omega, by omega, ?_, ?_⟩, fun k hk => ⟨by omega, by omega, ?_⟩,
    fun _ _ _ _ _ => trivial, ?_⟩
  · rw [getElem?_add, getElem?_add, hsame k hk]
  · rw [getElem?_add]
    exact fun ch hch => hg.breaks (hends ch hch)
  · rw [getElem?_add]
    exact fun ch hch => hg.breaks (hends' ch hch)
  · rw [restAt_add, restAt_add]
    exact (hmore k hk).respaced
  · rintro rfl ch (hch | hch)
    · rw [← Nat.add_zero i, getElem?_add] at hch
      exact hg ch (hends ch hch)
    · rw [← Nat.add_zero i', getElem?_add] at hch
      exact hg ch (hends' ch hch)

/-- Behind a character that is neither white space nor a quote. -/
theorem rest_past (hch : text[i]? = some ch) (hseparates : ¬ Separates ch) :
    SpacedAlike (restAt text (i + 1)) (restAt text' (i' + 1)) := by
  have hrest := h.rest
  rw [restAt_eq_cons hch, restAt_eq_cons (h.current.trans hch)] at hrest
  exact hrest.tail hseparates

theorem past (hch : text[i]? = some ch) (hseparates : ¬ Separates ch) :
    RespacedAt text text' (i + 1) (i' + 1) where
  within := lt_size_of_getElem? hch
  within' := lt_size_of_getElem? (h.current.trans hch)
  rest := (h.rest_past hch hseparates).respaced

/-- Behind a question mark both texts go on with a point, or none does. -/
theorem mark (hmark : text[i]? = some '?') :
    (text'[i' + 1]? = some '.' ↔ text[i + 1]? = some '.') ∧
      (text[i + 1]? = some '.' → RespacedAt text text' (i + 2) (i' + 2)) := by
  have hrest := h.rest_past hmark (by decide)
  have hiff : text'[i' + 1]? = some '.' ↔ text[i + 1]? = some '.' := by
    rw [getElem?_eq_head?, getElem?_eq_head?]
    exact hrest.head?_iff (by decide)
  refine ⟨hiff, fun hdot => ?_⟩
  have hdot' := hiff.mpr hdot
  rw [restAt_eq_cons hdot, restAt_eq_cons hdot'] at hrest
  exact ⟨lt_size_of_getElem? hdot, lt_size_of_getElem? hdot', (hrest.tail (by decide)).respaced⟩

/-- A string that is closed is the same in both texts. -/
theorem string (hch : text[i]? = some q) (hq : IsQuote q) :
    (Lexeme.string ⟨text, i⟩).Follows .lenient (RespacedAt text text')
      (Lexeme.string ⟨text', i'⟩) := by
  have hcons := restAt_eq_cons hch
  have hrest := h.rest
  rw [hcons] at hrest
  obtain ⟨more', hcons', ⟨hnot, -⟩ | ⟨-, hopen | hclosed⟩⟩ := hrest.exists_cons hq.not_isBlank
  · exact absurd hq hnot
  -- a string that is not closed stops the parse of the first text
  · rcases hscan : Lexeme.string ⟨text, i⟩ with ⟨j, cause | e⟩
    · exact .stop trivial
    obtain ⟨raw, value, -, ⟨q', body, hq', hraw, hbody⟩, hsplit⟩ :=
      Lexeme.token_of_string (by rw [hch]; rintro _ ⟨⟩; exact hq) hscan
    rw [hcons, hraw, List.cons_append, List.append_assoc] at hsplit
    obtain ⟨rfl, hinput⟩ := List.cons.inj hsplit
    exact absurd hinput (hopen body _ _ hbody)
  · obtain ⟨body, value, rest, rest', hbody, hinput, rfl, hmore⟩ := hclosed
    have htoken := hbody.stringToken hq rest
    have htoken' := hbody.stringToken hq rest'
    rw [← hinput, ← hcons] at htoken
    rw [← hcons'] at htoken'
    rw [Lexeme.string_of_token htoken, Lexeme.string_of_token htoken']
    refine .ok ⟨htoken.within h.within, htoken'.within h.within', ?_⟩
    rw [htoken.restAt, htoken'.restAt]
    exact hmore.respaced

end PastBlanks

theorem alignment_respaced (hg : g.SparesSeparators) : Alignment g text text' .lenient
    (fun _ => False) (RespacedAt text text') (PastBlanks text text') where
  weaken _ _ hi := hi.respacedAt
  fails _ _ _ _ := trivial
  current _ _ hi := hi.current
  past i i' ch hi hch hmem := by
    have hall : ∀ ch ∈ ['(', ')', '[', ']', '.'], ¬ Separates ch := forall_mem_of_all (by decide)
    exact hi.past hch (hall ch hmem)
  separator i i' ch hi hch hsep := by
    refine .inl (hi.past hch ?_)
    rcases hsep with rfl | rfl <;> decide
  mark _ _ hi hmark := hi.mark hmark
  name i i' hi := by
    obtain ⟨n, hn⟩ := hi.exists_stretched hg
    exact hn.name
  number i i' hi := by
    obtain ⟨n, hn⟩ := hi.exists_stretched hg
    exact hn.number
  string _ _ _ hi hq hquote := hi.string hq hquote
  unary i i' hi := by
    obtain ⟨n, hn⟩ := hi.exists_stretched hg
    exact hn.unary
  binary i i' hi := by
    obtain ⟨n, hn⟩ := hi.exists_stretched hg
    exact hn.binary

/-- Skipping white space goes over the two runs in one step each. -/
theorem RespacedAt.pastBlanks (h : RespacedAt text text' i i') :
    PastBlanks text text' (Cursor.skipWhile ⟨text, i⟩ Grammar.isBlank i)
      (Cursor.skipWhile ⟨text', i'⟩ Grammar.isBlank i') := by
  refine ⟨skipWhile_le _ h.within, skipWhile_le _ h.within', ?_, ?_, ?_⟩
  · rw [restAt_skipWhile, restAt_skipWhile]
    exact h.rest.spacedAlike
  · rw [restAt_skipWhile]
    exact head?_dropWhile_run _
  · rw [restAt_skipWhile]
    exact head?_dropWhile_run _

namespace Dialect

variable {d : Dialect} (hd : d.HookFree)
include hd

theorem HookFree.lockstep_respaced (hg : d.grammar.SparesSeparators) (text text' : Array Char)
    {n m : Nat} (hnm : n ≤ m) :
    Lockstep (d.context text n) (d.context text' m) .lenient (fun _ => False) (fun _ => False)
      (RespacedAt text text') (PastBlanks text text') :=
  hd.lockstep (alignment_respaced hg) (fun _ => .never (by simp)) (fun _ _ hi => hi.pastBlanks) hnm

/-- A successful parse is one of every text that differs in white space only. -/
theorem HookFree.parse_of_respaced (hg : d.grammar.SparesSeparators) {text text' : String}
    (h : Respaced text.toList text'.toList) {r : Option Expr}
    (hparse : d.parse text = some (.ok r)) : d.parse text' = some (.ok r) := by
  -- the texts differ in length, so the second run gets a budget that is enough for both
  rw [hd.parse_eq_some_iff (Nat.le_refl _)] at hparse
  rw [hd.parse_eq_some_iff (n := max (2 * text.length + 4) (2 * text'.length + 4)) (by omega)]
  have hlock := hd.lockstep_respaced hg text.toList.toArray text'.toList.toArray
    (Nat.le_max_left (2 * text.length + 4) (2 * text'.length + 4))
  have hprogram := hlock.program_of_plain hd.plain hd.plain (by simp)
  have hstart : RespacedAt text.toList.toArray text'.toList.toArray State.initial.index
      State.initial.index :=
    ⟨Nat.zero_le _, Nat.zero_le _, h⟩
  obtain ⟨s₁, hrun⟩ := Reply.eq_ok_of_outcome hparse
  obtain ⟨s₁', hrun', -⟩ := hprogram.ok (s := .initial) hstart rfl hrun id
  exact congrArg Reply.outcome? hrun'

/-- **White space separates, and nothing else matters about it.**  Without callbacks, and when
white space and quotes are in no operator and in no name: of two texts that differ in white space
only, one is parsed exactly when the other is, and to the same result. -/
theorem HookFree.parse_respaced (hg : d.grammar.SparesSeparators) {text text' : String}
    (h : Respaced text.toList text'.toList) (r : Option Expr) :
    d.parse text = some (.ok r) ↔ d.parse text' = some (.ok r) :=
  ⟨hd.parse_of_respaced hg h, hd.parse_of_respaced hg h.symm⟩

omit hd in
/-- White space of every kind, at both ends too; the two spaces in the string stay. -/
theorem parse_respaced_addition :
    let text := "a\t+ 'x  y'"
    let text' := "\ra  +\n'x  y'\n"
    let r : Option Expr :=
      some (.binary "+" (.identifier "a") (.literal (.string "x  y") "'x  y'"))
    standard.HookFree ∧ standard.grammar.SparesSeparators ∧
      Respaced text.toList text'.toList ∧ standard.parse text = some (.ok r) ∧
      standard.parse text' = some (.ok r) := by
  intro text text' r
  have hd : standard.HookFree := fun p => by cases p <;> rfl
  have hg : standard.grammar.SparesSeparators := by
    rintro ch (hblank | hquote)
    · simp only [Grammar.isBlank, Bool.or_eq_true, decide_eq_true_eq] at hblank
      rcases hblank with ((rfl | rfl) | rfl) | rfl <;> decide
    · rcases hquote with rfl | rfl <;> decide
  have hparse : standard.parse text = some (.ok r) := parse_of_parsesAs (by decide +kernel) rfl
  have hsplit : text.toList = [] ++ 'a' :: (['\t'] ++ '+' :: ([' '] ++ '\'' ::
      (['x', ' ', ' ', 'y'] ++ '\'' :: []))) := by decide
  have hsplit' : text'.toList = ['\r'] ++ 'a' :: ([' ', ' '] ++ '+' :: (['\n'] ++ '\'' ::
      (['x', ' ', ' ', 'y'] ++ '\'' :: ['\n']))) := by decide
  have hbody : Escaped '\'' ['x', ' ', ' ', 'y'] ['x', ' ', ' ', 'y'] :=
    .plain (by decide) (by decide) (.plain (by decide) (by decide)
      (.plain (by decide) (by decide) (.plain (by decide) (by decide) .nil)))
  have htext : Respaced text.toList text'.toList :=
    ⟨_, _, _, _, .nil, by decide, hsplit, hsplit', .char (by decide)
      (.blanks (by decide) (by decide) (List.cons_ne_nil _ _) (List.cons_ne_nil _ _)
        (.char (by decide)
          (.blanks (by decide) (by decide) (List.cons_ne_nil _ _) (List.cons_ne_nil _ _)
            (.string (.inl rfl) hbody (.ends .nil (by decide))))))⟩
  exact ⟨hd, hg, htext, hparse, (hd.parse_respaced hg htext r).mp hparse⟩

end Dialect

end OperatorGrammar
