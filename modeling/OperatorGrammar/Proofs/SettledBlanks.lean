/-
OperatorGrammar/Proofs/SettledBlanks.lean

Where skipping white space comes to an end.

The last round of the loop skips a run of white space and then calls the
callbacks, which leave the cursor in its place.  What the callbacks do depends on
the place, the depth and the text, but not on the notes that they leave, and they
leave the depth as it is; so called once more from there they again stay in
place, and so does the whole loop.

With the comment callback alone, the rounds pass white space and complete
comments (`Passes`).  No step of this leaves a choice, so from any place that
can be passed to, the last one can be reached (`Passes.onward`), and the prefix
that the loop passes is the longest one.  It ends in front of something else, or
in front of a block that is never closed.

Main result: `Dialect.skipBlanks_settles`.
-/
import OperatorGrammar.Proofs.Blind
import OperatorGrammar.Proofs.OpenLevels
import OperatorGrammar.Proofs.Takes

namespace OperatorGrammar

/-! ### Passing white space and comments -/

/-- In front of the rest, there are only white space and complete comments. -/
inductive Passes : List Char → List Char → Prop
  | refl {input} : Passes input input
  | blank {ch input rest} : Grammar.isBlank ch → Passes input rest → Passes (ch :: input) rest
  | comment {input mid rest} : Comment input mid → Passes mid rest → Passes input rest

/-- Nothing more can be passed. -/
structure Stuck (input : List Char) : Prop where
  head : ∀ ch ∈ input.head?, ¬ Grammar.isBlank ch
  comment : ∀ mid, ¬ Comment input mid

theorem BlockBody.unique {input rest rest' : List Char} (h : BlockBody input rest)
    (h' : BlockBody input rest') : rest = rest' := by
  induction h with
  | @close rest =>
    cases h' with
    | close => rfl
    | next hopen _ => exact absurd ⟨rest, rfl⟩ hopen
  | next hopen _ ih =>
    cases h' with
    | close => exact absurd ⟨rest', rfl⟩ hopen
    | next _ h' => exact ih h'

theorem Comment.unique {input rest rest' : List Char} (h : Comment input rest)
    (h' : Comment input rest') : rest = rest' := by
  cases h with
  | line =>
    cases h' with
    | line => rfl
  | block h =>
    cases h' with
    | block h' => exact h.unique h'

namespace Passes

variable {input mid rest : List Char}

theorem suffix (h : Passes input rest) : rest <:+ input := by
  induction h with
  | refl => exact List.suffix_rfl
  | blank _ _ ih => exact ih.trans (List.suffix_cons _ _)
  | comment hc _ ih => exact ih.trans hc.suffix

/-- Passing can start with the white space in front. -/
theorem of_dropWhile (h : Passes (input.dropWhile Grammar.isBlank) rest) :
    Passes input rest := by
  induction input with
  | nil => exact h
  | cons ch input ih =>
    by_cases hch : Grammar.isBlank ch
    · rw [List.dropWhile_cons_of_pos hch] at h
      exact .blank hch (ih h)
    · rwa [List.dropWhile_cons_of_neg hch] at h

/-- What can be passed to lies on the way to the last place. -/
theorem onward (h : Passes input mid) (hrest : Passes input rest) (hstuck : Stuck rest) :
    Passes mid rest := by
  induction h with
  | refl => exact hrest
  | blank hch _ ih =>
    cases hrest with
    | refl => exact absurd hch (hstuck.head _ rfl)
    | blank _ hrest => exact ih hrest
    | comment hc _ => exact absurd hch (hc.head_not_blank _ rfl)
  | comment hc _ ih =>
    cases hrest with
    | refl => exact absurd hc (hstuck.comment _)
    | blank hch _ => exact absurd hch (hc.head_not_blank _ rfl)
    | comment hc' hrest => exact ih (hc.unique hc' ▸ hrest)

end Passes

/-! ### A block that is never closed -/

theorem exists_blockBody {body : List Char} (h : ['*', '/'] <:+: body) :
    ∃ rest, BlockBody body rest := by
  induction body with
  | nil => simp at h
  | cons ch body ih =>
    by_cases hclose : ['*', '/'] <+: ch :: body
    · obtain ⟨rest, hrest⟩ := hclose
      exact ⟨rest, hrest ▸ .close⟩
    · obtain ⟨rest, hrest⟩ := ih ((List.infix_cons_iff.mp h).resolve_left hclose)
      exact ⟨rest, .next hclose hrest⟩

/-- What starts a comment and is none is a block without its closing mark. -/
theorem StartsComment.unclosed {input : List Char} (h : StartsComment input)
    (hnone : ∀ mid, ¬ Comment input mid) :
    ∃ body, input = '/' :: '*' :: body ∧ ∀ rest, ¬ BlockBody body rest := by
  rcases h with ⟨body, rfl⟩ | ⟨body, rfl⟩
  · exact absurd .line (hnone _)
  · exact ⟨body, rfl, fun rest hbody => hnone rest (.block hbody)⟩

namespace Reading

variable {c : Context} {s s' : State} {input rest : List Char}

/-! ### The comment callback -/

/-- A script that steps over what is in front goes on behind it. -/
theorem run_advance_placed (front : List Char) {n : UInt64} {next : Script} {node : Option Expr}
    (hn : n.toNat = front.length) (hsmall : front.length < UInt64.size / 2)
    (hin : front ++ input <:+ c.text.toList) :
    (Script.advance n next).run node c (s.placed c.text (front ++ input))
      = next.run node c (s.placed c.text input) := by
  have hstep : Takes c (Reading.forward front.length) (front ++ input) () input :=
    Takes.forward front
  have hforward := (hstep hin).2 s
  rw [forward_apply, ← hn] at hforward
  rw [Script.run_advance (by omega), (Reply.ok.inj hforward).2]

/-- Without a closing mark, the block is skipped to the end of the text, and fails there. -/
theorem run_skipBlock_unclosed {start n : Nat} (hin : input <:+ c.text.toList)
    (hopen : ∀ rest, ¬ BlockBody input rest) (hn : input.length < n) :
    (Comments.skipBlock start n).run none c (s.placed c.text input)
      = .ok ⟨none, some ⟨.comment, start⟩⟩ (s.placed c.text []) := by
  induction input generalizing n with
  | nil =>
    obtain ⟨n, rfl⟩ : ∃ m, n = m + 1 := ⟨n - 1, by omega⟩
    rw [Comments.skipBlock, Script.run_look, State.placed_index]
    have hclose : ¬ (⟨c.text, c.text.size - ([] : List Char).length⟩ : Cursor).startsWith "*/" := by
      rw [startsWith_iff, restAt_of_suffix hin]
      simp
    have hend : (⟨c.text, c.text.size - ([] : List Char).length⟩ : Cursor).atEnd := by
      simp [Cursor.atEnd]
    rw [if_neg hclose, if_pos hend]
    rfl
  | cons ch input ih =>
    obtain ⟨n, rfl⟩ : ∃ m, n = m + 1 := ⟨n - 1, by omega⟩
    have hmark : ¬ ['*', '/'] <+: ch :: input := by
      rintro ⟨rest, hrest⟩
      exact hopen rest (hrest ▸ .close)
    have hclose : ¬ (⟨c.text, c.text.size - (ch :: input).length⟩ : Cursor).startsWith "*/" := by
      rw [startsWith_iff, restAt_of_suffix hin]
      exact hmark
    have hend : ¬ (⟨c.text, c.text.size - (ch :: input).length⟩ : Cursor).atEnd := by
      have hlen := hin.length_le
      have htotal : c.text.toList.length = c.text.size := Array.length_toList
      simp only [Cursor.atEnd, List.length_cons, decide_eq_true_eq] at hlen ⊢
      omega
    have hone : 1 < UInt64.size / 2 := by decide
    rw [Comments.skipBlock, Script.run_look, State.placed_index, if_neg hclose, if_neg hend,
      show ch :: input = [ch] ++ input from rfl, run_advance_placed [ch] rfl hone hin]
    exact ih ((List.suffix_cons ch input).trans hin)
      (fun rest hbody => hopen rest (.next hmark hbody)) (by simpa using hn)

/-- The callback fails at the start of the block. -/
theorem run_comments_unclosed {body : List Char} (hin : '/' :: '*' :: body <:+ c.text.toList)
    (hopen : ∀ rest, ¬ BlockBody body rest) :
    Comments.script.run none c (s.placed c.text ('/' :: '*' :: body))
      = .ok ⟨none, some ⟨.comment, c.text.size - ('/' :: '*' :: body).length⟩⟩
          (s.placed c.text []) := by
  have hrest := restAt_of_suffix hin
  have hline :
      ¬ (⟨c.text, c.text.size - ('/' :: '*' :: body).length⟩ : Cursor).startsWith "//" := by
    rw [startsWith_iff, hrest]
    simp
  have hblock : (⟨c.text, c.text.size - ('/' :: '*' :: body).length⟩ : Cursor).startsWith "/*" :=
    startsWith_iff.mpr ⟨body, hrest.symm⟩
  rw [Comments.script, Script.run_look, State.placed_index, if_neg hline, if_pos hblock,
    show '/' :: '*' :: body = ['/', '*'] ++ body from rfl,
    run_advance_placed ['/', '*'] rfl (by decide) hin]
  refine run_skipBlock_unclosed ((List.suffix_append ['/', '*'] body).trans hin) hopen ?_
  have hlen := hin.length_le
  have htotal : c.text.toList.length = c.text.size := Array.length_toList
  simp only [List.length_cons] at hlen
  simp only [Cursor.remaining, List.length_append, List.length_cons, List.length_nil]
  omega

/-- A round starts with the white space in front. -/
theorem skipBlanksWithin_placed {n : Nat} (hin : input <:+ c.text.toList) :
    Reading.skipBlanksWithin (n + 1) c (s.placed c.text input)
      = (do
          let _ ← notify .blanks none
          let after := (← cursor).index
          if after = c.text.size - (input.dropWhile Grammar.isBlank).length then pure ()
          else Reading.skipBlanksWithin n)
        c (s.placed c.text (input.dropWhile Grammar.isBlank)) := by
  rw [Reading.skipBlanksWithin, bind_of_ok cursor_apply, bind_of_ok (moveTo_apply _),
    State.placed_index]
  dsimp only
  rw [Takes.skipWhile_isBlank hin]
  rfl

section OnlyComments

variable {h : Hook} (hp : c.dialect.hooks.get .blanks = [h]) (hscript : h.script = Comments.script)
include hp hscript

theorem notify_comments {ending : Ending}
    (hrun : Comments.script.run none c s = .ok ending s') :
    notify .blanks none c s = settle ending c s' := by
  rw [notify_of_singleton hp, hscript, bind_of_ok hrun]

/-- The rounds pass what can be passed, and stop there, or fail at a block without its
closing mark. -/
theorem skipBlanksWithin_comments {n : Nat} (hin : input <:+ c.text.toList)
    (hn : input.length < n) :
    ∃ rest, Passes input rest ∧ Stuck rest ∧
      (¬ StartsComment rest ∧
          Reading.skipBlanksWithin n c (s.placed c.text input) = .ok () (s.placed c.text rest) ∨
        ∃ body, rest = '/' :: '*' :: body ∧ (∀ mid, ¬ BlockBody body mid) ∧
          Reading.skipBlanksWithin n c (s.placed c.text input)
            = .fail ⟨.comment, c.text.size - rest.length⟩ (s.placed c.text [])) := by
  induction n generalizing input with
  | zero => omega
  | succ n ih =>
    have hdrop := List.dropWhile_suffix (l := input) Grammar.isBlank
    have hle := hdrop.length_le
    have hround := skipBlanksWithin_placed (s := s) (n := n) hin
    have hhead := head?_dropWhile_run (p := Grammar.isBlank) input
    have hskip : ∀ rest, Passes (input.dropWhile Grammar.isBlank) rest → Passes input rest :=
      fun _ => .of_dropWhile
    generalize input.dropWhile Grammar.isBlank = front at hdrop hle hround hhead hskip
    have hin := hdrop.trans hin
    have hlen := hin.length_le
    have htotal : c.text.toList.length = c.text.size := Array.length_toList
    by_cases hcomment : ∃ mid, Comment front mid
    · -- a comment moves the cursor, so another round follows
      obtain ⟨mid, hcomment⟩ := hcomment
      obtain ⟨hmid, hrun⟩ := Takes.comment (c := c) hcomment hin
      have hlt := hcomment.length_lt
      obtain ⟨rest, hpasses, hstuck, hends⟩ := ih hmid (by omega)
      rw [bind_of_ok ((notify_comments hp hscript (hrun s)).trans rfl), bind_of_ok cursor_apply,
        if_neg (by simp only [State.placed_index]; omega)] at hround
      exact ⟨rest, hskip _ (.comment hcomment hpasses), hstuck, hround ▸ hends⟩
    · have hnone := fun mid hmid => hcomment ⟨mid, hmid⟩
      refine ⟨front, hskip _ .refl, ⟨hhead, hnone⟩, ?_⟩
      by_cases hstart : StartsComment front
      · obtain ⟨body, rfl, hopen⟩ := hstart.unclosed hnone
        refine .inr ⟨body, rfl, hopen, ?_⟩
        rw [hround, bind_apply, notify_comments hp hscript (run_comments_unclosed hin hopen)]
        rfl
      · obtain ⟨-, hrun⟩ := Takes.noComment (c := c) hstart hin
        refine .inl ⟨hstart, ?_⟩
        rw [hround, bind_of_ok ((notify_comments hp hscript (hrun s)).trans rfl),
          bind_of_ok cursor_apply, State.placed_index, if_pos rfl]
        rfl

end OnlyComments

/-! ### Any callbacks -/

/-- The last round calls the callbacks where no white space comes next, and they stay
there. -/
theorem exists_lastRound {n : Nat} (h : Reading.skipBlanksWithin n c s = .ok () s') :
    ∃ r s₀, (∀ ch ∈ c.text[s₀.index]?, ¬ Grammar.isBlank ch) ∧
      notify .blanks none c s₀ = .ok r s' ∧ s'.index = s₀.index := by
  induction n generalizing s with
  | zero => cases h
  | succ n ih =>
    rw [Reading.skipBlanksWithin, bind_of_ok cursor_apply, bind_of_ok (moveTo_apply _),
      bind_eq_ok] at h
    obtain ⟨r, s₁, hnotify, h⟩ := h
    rw [bind_of_ok cursor_apply] at h
    dsimp only at h
    split at h
    · rename_i hstay
      cases h
      refine ⟨r, _, ?_, hnotify, hstay⟩
      show ∀ ch ∈ c.text[Cursor.skipWhile _ _ _]?, _
      rw [getElem?_eq_head?, restAt_skipWhile]
      exact head?_dropWhile_run _
    · exact ih h

/-- In front of something else, one round is enough when the callbacks stay there. -/
theorem skipBlanks_of_stays {r : Option Expr} (hbudget : c.budget ≠ 0)
    (hhead : ∀ ch ∈ c.text[s.index]?, ¬ Grammar.isBlank ch)
    (hnotify : notify .blanks none c s = .ok r s') (hstay : s'.index = s.index) :
    Reading.skipBlanks c s = .ok () s' := by
  have hnone : Cursor.skipWhile ⟨c.text, s.index⟩ Grammar.isBlank s.index = s.index := by
    have hcurrent : c.text[s.index]? = (restAt c.text s.index).head? := getElem?_eq_head?
    have hrest := dropWhile_isBlank_of_head (hcurrent ▸ hhead)
    have hparts := congrArg List.length (List.takeWhile_append_dropWhile
      (p := Grammar.isBlank) (l := restAt c.text s.index))
    rw [List.length_append, hrest] at hparts
    rw [skipWhile_eq]
    omega
  obtain ⟨n, hn⟩ := Nat.exists_eq_succ_of_ne_zero hbudget
  rw [Reading.skipBlanks, bind_of_ok budget_apply, hn, Reading.skipBlanksWithin,
    bind_of_ok cursor_apply, bind_of_ok (moveTo_apply _), hnone, bind_of_ok hnotify,
    bind_of_ok cursor_apply, if_pos hstay]
  rfl

end Reading

namespace Dialect

open Reading

variable {d : Dialect} {text : Array Char} {n : Nat} {s s' : State}

/-- The callbacks of a point leave the depth as it is. -/
theorem notify_keepsDepth {p : HookPoint} {node r : Option Expr}
    (h : notify p node (d.context text n) s = .ok r s') : s'.depth = s.depth := by
  have hsteady := steady_atDepth (e := fun _ => d.run text n) (f := fun _ => d.run text n)
    (run_keepsDepth n) s.depth
  have hkeeps := InStep.notify (hsteady.scripts p) node s ⟨rfl, trivial⟩
  have hstate : (notify p node (d.context text n) s).state? = some s' := by
    rw [h]
    rfl
  exact (hkeeps.returns (fun _ he => he) (fun _ _ hs => hs) hstate).2.1

/-- Called once more where they stayed, the callbacks stay again. -/
theorem notify_stays_again {r : Option Expr}
    (h : notify .blanks none (d.context text n) s = .ok r s') (hstay : s'.index = s.index) :
    ∃ s₁, notify .blanks none (d.context text n) s' = .ok r s₁ ∧ s₁.index = s'.index := by
  have halike := Blind.notify (d.reenter_blind text n) .blanks none s s'
    ⟨hstay, notify_keepsDepth h⟩
  rw [h] at halike
  obtain ⟨s₁, hagain, halike⟩ := halike.of_ok
  exact ⟨s₁, hagain, halike.index⟩

/-- **Skipping white space comes to rest.**  Whatever the callbacks do: where skipping ends,
no white space comes next, the callbacks called once more leave the cursor in its place, and
so does skipping once more.  With the comment callback alone it always ends: behind the
longest prefix of white space and complete comments, or with a failure at the block behind
this prefix, when that is never closed. -/
theorem skipBlanks_settles (d : Dialect) (text : Array Char) (n : Nat) (s : State) :
    (∀ s', skipBlanks (d.context text n) s = .ok () s' →
      (∀ ch ∈ text[s'.index]?, ch ∉ [' ', '\t', '\n', '\r']) ∧
      (∃ r s₁, notify .blanks none (d.context text n) s' = .ok r s₁ ∧ s₁.index = s'.index) ∧
      ∃ s₁, skipBlanks (d.context text n) s' = .ok () s₁ ∧ s₁.index = s'.index) ∧
    ∀ h, d.hooks.get .blanks = [h] → h.script = Comments.script → text.size < n →
      s.index ≤ text.size → ∃ rest, Passes (restAt text s.index) rest ∧
        (∀ other, Passes (restAt text s.index) other → rest.length ≤ other.length) ∧
        ((¬ ['/', '*'] <+: rest ∧ ∃ s', skipBlanks (d.context text n) s = .ok () s' ∧
            s'.index = text.size - rest.length) ∨
          ∃ body failure s', rest = '/' :: '*' :: body ∧ ¬ ['*', '/'] <:+: body ∧
            skipBlanks (d.context text n) s = .fail failure s' ∧
            failure.description = "Unclosed comment" ∧
            failure.index = text.size - rest.length) := by
  constructor
  · intro s' h
    have hbudget : n ≠ 0 := by
      rintro rfl
      cases h
    obtain ⟨r, s₀, hhead, hnotify, hstay⟩ := exists_lastRound h
    rw [← hstay] at hhead
    obtain ⟨s₁, hagain, hagain_stay⟩ := notify_stays_again hnotify hstay
    refine ⟨?_, ⟨r, s₁, hagain, hagain_stay⟩, s₁,
      skipBlanks_of_stays hbudget hhead hagain hagain_stay, hagain_stay⟩
    intro ch hch
    simpa [Grammar.isBlank, and_assoc] using hhead ch hch
  · intro h hp hscript hn hs
    have hin : restAt text s.index <:+ text.toList := List.drop_suffix _ _
    have hplaced : s.placed text (restAt text s.index) = s := by
      rw [State.placed, ← index_of_restAt rfl hs]
    obtain ⟨rest, hpasses, hstuck, hends⟩ := skipBlanksWithin_comments (c := d.context text n)
      (s := s) (n := n) hp hscript hin (by rw [length_restAt]; omega)
    refine ⟨rest, hpasses, fun other hother => (hother.onward hpasses hstuck).suffix.length_le, ?_⟩
    rw [show (d.context text n).text = text from rfl, hplaced] at hends
    rcases hends with ⟨hstart, hrun⟩ | ⟨body, hrest, hopen, hrun⟩
    · exact .inl ⟨fun hblock => hstart (.inr hblock), _, hrun, rfl⟩
    · refine .inr ⟨body, _, _, hrest, fun hclose => ?_, hrun, rfl, rfl⟩
      obtain ⟨mid, hbody⟩ := exists_blockBody hclose
      exact hopen mid hbody

/-- A block that is not closed by the mark that opens it, and a line, in front of a name; and
a closed block in front of one that is never closed. -/
theorem skipBlanks_settles_blocks :
    let d := standard.mapHooks (·.add .blanks ⟨0, Comments.script⟩)
    let text := "/*/*/ //x\ny".toList.toArray
    let unclosed := " /**//*/".toList.toArray
    (∃ s', skipBlanks (d.context text 12) .initial = .ok () s' ∧ s'.index = 10 ∧
      (∀ ch ∈ text[s'.index]?, ch ∉ [' ', '\t', '\n', '\r']) ∧
      (∃ r s₁, notify .blanks none (d.context text 12) s' = .ok r s₁ ∧ s₁.index = s'.index) ∧
      ∃ s₁, skipBlanks (d.context text 12) s' = .ok () s₁ ∧ s₁.index = s'.index) ∧
    ∃ rest, Passes unclosed.toList rest ∧
      (∀ other, Passes unclosed.toList other → rest.length ≤ other.length) ∧
      ∃ failure s', skipBlanks (d.context unclosed 12) .initial = .fail failure s' ∧
        failure.description = "Unclosed comment" ∧ failure.index = 5 ∧
        failure.index = unclosed.size - rest.length := by
  intro d text unclosed
  constructor
  · have hrun : skipBlanks (d.context text 12) .initial = .ok () ⟨10, 0, #[]⟩ := by
      subst d text
      rfl
    exact ⟨_, hrun, rfl, (skipBlanks_settles d text 12 .initial).1 _ hrun⟩
  · have hrun : skipBlanks (d.context unclosed 12) .initial = .fail ⟨.comment, 5⟩ ⟨8, 0, #[]⟩ := by
      subst d unclosed
      rfl
    obtain ⟨rest, hpasses, hlongest, ⟨-, s', hok, -⟩ | ⟨_, failure, s', -, -, hfail, hwhy, hat⟩⟩ :=
      (skipBlanks_settles d unclosed 12 .initial).2 ⟨0, Comments.script⟩ rfl rfl (by decide)
        (by decide)
    · rw [hrun] at hok
      cases hok
    · rw [hrun] at hfail
      cases hfail
      exact ⟨rest, hpasses, hlongest, _, _, hrun, hwhy, rfl, hat⟩

end Dialect

end OperatorGrammar
