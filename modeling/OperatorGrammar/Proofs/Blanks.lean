/-
OperatorGrammar/Proofs/Blanks.lean

What is skipped between tokens: white space and, with the comment callback,
comments.

`Skips comments input rest` says that `rest` is what is left of `input` once
nothing more can be skipped.  A round of the program skips a run of white space
and then at most one comment, and the rounds end when one does not move; the
relation has one constructor for each character or comment that is passed and
one for the place where it stops.
-/
import OperatorGrammar.Proofs.Plain
import OperatorGrammar.Parser.Production

namespace OperatorGrammar

/-! ### Comments -/

/-- The inside of a block comment up to the first closing mark, and what follows it. -/
inductive BlockBody : List Char → List Char → Prop
  | close {rest} : BlockBody ('*' :: '/' :: rest) rest
  | next {ch input rest} : ¬ ['*', '/'] <+: ch :: input → BlockBody input rest →
      BlockBody (ch :: input) rest

/-- A comment that the input starts with: to the end of the line, or a closed block. -/
inductive Comment : List Char → List Char → Prop
  | line {input} : Comment ('/' :: '/' :: input) (input.dropWhile (· ≠ '\n'))
  | block {input rest} : BlockBody input rest → Comment ('/' :: '*' :: input) rest

/-- The input starts with the mark of a comment. -/
def StartsComment (input : List Char) : Prop :=
  ['/', '/'] <+: input ∨ ['/', '*'] <+: input

/-- White space, and comments where they are read, up to something else. -/
inductive Skips (comments : Prop) : List Char → List Char → Prop
  | stop {input} : (∀ ch ∈ input.head?, ¬ Grammar.isBlank ch) →
      (comments → ¬ StartsComment input) → Skips comments input input
  | blank {ch input rest} : Grammar.isBlank ch → Skips comments input rest →
      Skips comments (ch :: input) rest
  | comment {input mid rest} : comments → Comment input mid → Skips comments mid rest →
      Skips comments input rest

theorem BlockBody.suffix {input rest : List Char} (h : BlockBody input rest) :
    rest <:+ input := by
  induction h with
  | close => exact ⟨['*', '/'], rfl⟩
  | next _ _ ih => exact ih.trans (List.suffix_cons _ _)

theorem Comment.suffix {input rest : List Char} (h : Comment input rest) : rest <:+ input := by
  cases h with
  | line => exact (List.dropWhile_suffix _).trans ⟨['/', '/'], rfl⟩
  | block h => exact h.suffix.trans ⟨['/', '*'], rfl⟩

theorem Comment.length_lt {input rest : List Char} (h : Comment input rest) :
    rest.length < input.length := by
  cases h with
  | @line input =>
    have hle := (List.dropWhile_suffix (l := input) (· ≠ '\n')).length_le
    simp only [List.length_cons]
    omega
  | block h =>
    have hle := h.suffix.length_le
    simp only [List.length_cons]
    omega

theorem Skips.suffix {comments : Prop} {input rest : List Char} (h : Skips comments input rest) :
    rest <:+ input := by
  induction h with
  | stop _ _ => exact List.suffix_rfl
  | blank _ _ ih => exact ih.trans (List.suffix_cons _ _)
  | comment _ hc _ ih => exact ih.trans hc.suffix

theorem Skips.length_le {comments : Prop} {input rest : List Char}
    (h : Skips comments input rest) : rest.length ≤ input.length :=
  h.suffix.length_le

/-- Without comments, the white space in front is skipped. -/
theorem skips_dropWhile {comments : Prop} (hc : ¬ comments) (input : List Char) :
    Skips comments input (input.dropWhile Grammar.isBlank) := by
  induction input with
  | nil => exact .stop (by simp) (fun h => absurd h hc)
  | cons ch input ih =>
    by_cases hch : Grammar.isBlank ch
    · rw [List.dropWhile_cons_of_pos hch]
      exact .blank hch ih
    · rw [List.dropWhile_cons_of_neg hch]
      exact .stop (by simpa using hch) (fun h => absurd h hc)

/-- Without comments, nothing is skipped in front of something that is no white space. -/
theorem skips_nothing {comments : Prop} (hc : ¬ comments) {input : List Char}
    (h : ∀ ch ∈ input.head?, ¬ Grammar.isBlank ch) : Skips comments input input :=
  .stop h fun h => absurd h hc

theorem dropWhile_isBlank_of_head {input : List Char}
    (h : ∀ ch ∈ input.head?, ¬ Grammar.isBlank ch) :
    input.dropWhile Grammar.isBlank = input := by
  cases input with
  | nil => rfl
  | cons ch input =>
    have hch : ¬ Grammar.isBlank ch := h ch rfl
    rw [List.dropWhile_cons_of_neg hch]

theorem Skips.eq_dropWhile {comments : Prop} (hc : ¬ comments) {input rest : List Char}
    (h : Skips comments input rest) : rest = input.dropWhile Grammar.isBlank := by
  induction h with
  | stop hhead _ => exact (dropWhile_isBlank_of_head hhead).symm
  | blank hch _ ih => rw [List.dropWhile_cons_of_pos hch, ih]
  | comment h _ _ _ => exact absurd h hc

/-- Skipping can start with the white space in front. -/
theorem Skips.of_dropWhile {comments : Prop} {input rest : List Char}
    (h : Skips comments (input.dropWhile Grammar.isBlank) rest) : Skips comments input rest := by
  induction input with
  | nil => exact h
  | cons ch input ih =>
    by_cases hch : Grammar.isBlank ch
    · rw [List.dropWhile_cons_of_pos hch] at h
      exact .blank hch (ih h)
    · rwa [List.dropWhile_cons_of_neg hch] at h

/-! ### Runs of white space -/

/-- A possibly empty run of white space. -/
def BlankRun (run : List Char) : Prop := ∀ ch ∈ run, Grammar.isBlank ch

instance (run : List Char) : Decidable (BlankRun run) :=
  decidable_of_iff (run.all Grammar.isBlank) List.all_eq_true

namespace BlankRun

variable {ch : Char} {run : List Char}

theorem nil : BlankRun [] := nofun

theorem head (h : BlankRun (ch :: run)) : Grammar.isBlank ch := h ch (.head _)

theorem tail (h : BlankRun (ch :: run)) : BlankRun run := fun ch' hch' => h ch' (.tail _ hch')

theorem dropWhile (h : BlankRun run) (rest : List Char) :
    (run ++ rest).dropWhile Grammar.isBlank = rest.dropWhile Grammar.isBlank :=
  List.dropWhile_append_of_pos h

theorem dropWhile_eq_nil (h : BlankRun run) : run.dropWhile Grammar.isBlank = [] := by
  have hall := h.dropWhile []
  rwa [List.append_nil] at hall

/-- White space in front is skipped. -/
theorem skips {comments : Prop} {input rest : List Char} (h : BlankRun run)
    (hskips : Skips comments input rest) : Skips comments (run ++ input) rest := by
  induction run with
  | nil => exact hskips
  | cons ch run ih => exact .blank h.head (ih h.tail)

end BlankRun

/-! ### Rounds -/

theorem Comment.head_not_blank {input rest : List Char} (h : Comment input rest) :
    ∀ ch ∈ input.head?, ¬ Grammar.isBlank ch := by
  have hslash : ¬ Grammar.isBlank '/' := by decide
  cases h with
  | line => simpa using hslash
  | block => simpa using hslash

/-- Skipping goes in rounds: the white space in front, then the end, or one comment
and more rounds. -/
theorem Skips.round {comments : Prop} {input rest : List Char} (h : Skips comments input rest) :
    (rest = input.dropWhile Grammar.isBlank ∧ (comments → ¬ StartsComment rest)) ∨
      (comments ∧ ∃ mid, Comment (input.dropWhile Grammar.isBlank) mid ∧
        Skips comments mid rest) := by
  induction h with
  | stop hhead hno => exact .inl ⟨(dropWhile_isBlank_of_head hhead).symm, hno⟩
  | blank hch _ ih =>
    rw [List.dropWhile_cons_of_pos hch]
    exact ih
  | @comment input mid rest hc hcomment hmore _ =>
    refine .inr ⟨hc, mid, ?_, hmore⟩
    rwa [dropWhile_isBlank_of_head hcomment.head_not_blank]

/-! ### The comment callback -/

section Callback

variable {c : Context} {s s' : State}

theorem startsWithChars_iff {text : Array Char} {x i : Nat} {chs : List Char} :
    (⟨text, x⟩ : Cursor).startsWithChars chs i ↔ chs <+: restAt text i := by
  induction chs generalizing i with
  | nil => simp [Cursor.startsWithChars]
  | cons ch chs ih =>
    rw [Cursor.startsWithChars, Bool.and_eq_true, decide_eq_true_eq, ih]
    rcases h : text[i]? with - | ch'
    · have hchar : (⟨text, x⟩ : Cursor).charAt i = none := h
      simp [hchar, restAt_eq_nil_of_none h]
    · have hchar : (⟨text, x⟩ : Cursor).charAt i = some ch' := h
      rw [hchar, restAt_eq_cons h, List.cons_prefix_cons, Option.some.injEq, eq_comm]

theorem startsWith_iff {text : Array Char} {i : Nat} {other : String} :
    (⟨text, i⟩ : Cursor).startsWith other ↔ other.toList <+: restAt text i :=
  startsWithChars_iff

/-- A line is skipped up to its end, or to the end of the text. -/
theorem run_skipLine {n : Nat} (hn : (restAt c.text s.index).length ≤ n) :
    ∃ i, (Comments.skipLine n).run none c s = .ok ⟨none, none⟩ { s with index := i } ∧
      restAt c.text i = (restAt c.text s.index).dropWhile (· ≠ '\n') ∧
      (s.index ≤ c.text.size → i ≤ c.text.size) := by
  induction n generalizing s with
  | zero =>
    have hnil : restAt c.text s.index = [] := List.length_eq_zero_iff.mp (Nat.le_zero.mp hn)
    exact ⟨s.index, rfl, by rw [hnil]; rfl, id⟩
  | succ n ih =>
    rw [Comments.skipLine, Script.run_look]
    rcases h : c.text[s.index]? with - | ch
    · have hcur : (⟨c.text, s.index⟩ : Cursor).current = none := h
      refine ⟨s.index, by simp [hcur], ?_, id⟩
      rw [restAt_eq_nil_of_none h]
      rfl
    have hcur : (⟨c.text, s.index⟩ : Cursor).current = some ch := h
    have hcons := restAt_eq_cons h
    -- the line feed itself is left to the next round of white space
    by_cases hch : ch = '\n'
    · refine ⟨s.index, by simp [hcur, hch], ?_, id⟩
      rw [hcons, List.dropWhile_cons_of_neg (by simpa using hch)]
    · have hforward : restAt c.text (min (s.index + 1) c.text.size)
          = restAt c.text (s.index + 1) := restAt_min
      rw [hcons, List.length_cons] at hn
      obtain ⟨i, hrun, hrest, hend⟩ := ih (s := { s with index := min (s.index + 1) c.text.size })
        (by rw [hforward]; omega)
      refine ⟨i, ?_, ?_, fun _ => hend (Nat.min_le_right _ _)⟩
      · simp only [hcur, Option.any_some, ne_eq, hch, not_false_eq_true, decide_true, if_true]
        rw [Script.run_advance (by decide)]
        exact hrun
      · rw [hrest, hcons, List.dropWhile_cons_of_pos (by simpa using hch)]
        exact congrArg _ hforward

/-- A block that is skipped ends right behind its first closing mark. -/
theorem blockBody_of_run {start n : Nat} {r : Option Expr}
    (h : (Comments.skipBlock start n).run none c s = .ok ⟨r, none⟩ s') :
    BlockBody (restAt c.text s.index) (restAt c.text s'.index) ∧ r = none := by
  induction n generalizing s with
  | zero => cases h
  | succ n ih =>
    rw [Comments.skipBlock, Script.run_look] at h
    -- the closing mark is looked for before the end of the text
    by_cases hclose : (⟨c.text, s.index⟩ : Cursor).startsWith "*/"
    · simp only [hclose, if_true] at h
      rw [Script.run_advance (by decide), Script.run_done] at h
      cases h
      obtain ⟨more, hmore⟩ := startsWith_iff.mp hclose
      refine ⟨?_, rfl⟩
      show BlockBody (restAt c.text s.index) (restAt c.text (min (s.index + 2) c.text.size))
      rw [restAt_forward, ← hmore]
      exact .close
    · simp only [hclose, Bool.false_eq_true, if_false] at h
      by_cases hend : (⟨c.text, s.index⟩ : Cursor).atEnd
      · simp [hend] at h
      · simp only [hend, Bool.false_eq_true, if_false] at h
        rw [Script.run_advance (by decide)] at h
        obtain ⟨hbody, hr⟩ := ih h
        refine ⟨?_, hr⟩
        have hlt : s.index < c.text.size := by simpa [Cursor.atEnd] using hend
        have hcons := restAt_eq_cons (Array.getElem?_eq_getElem hlt)
        have hforward : restAt c.text (min (s.index + 1) c.text.size)
            = restAt c.text (s.index + 1) := restAt_min
        have hbody' : BlockBody (restAt c.text (s.index + 1)) (restAt c.text s'.index) :=
          hforward ▸ hbody
        rw [hcons]
        refine .next ?_ hbody'
        rw [← hcons]
        exact fun hp => hclose (startsWith_iff.mpr hp)

/-- The comment callback skips one comment, or does nothing where none starts. -/
theorem comment_of_run {r : Option Expr}
    (h : Comments.script.run none c s = .ok ⟨r, none⟩ s') :
    Comment (restAt c.text s.index) (restAt c.text s'.index) ∨
      (¬ StartsComment (restAt c.text s.index) ∧ s' = s) := by
  rw [Comments.script, Script.run_look] at h
  -- a line comment cannot fail, so its run is known; a block may stay open
  by_cases hline : (⟨c.text, s.index⟩ : Cursor).startsWith "//"
  · obtain ⟨more, hmore⟩ := startsWith_iff.mp hline
    obtain ⟨i, hrun, hrest, -⟩ := run_skipLine (c := c) (s := s)
      (n := (⟨c.text, s.index⟩ : Cursor).remaining) (Nat.le_of_eq length_restAt)
    simp only [hline, if_true, hrun, Reply.ok.injEq] at h
    obtain ⟨-, rfl⟩ := h
    refine .inl ?_
    show Comment (restAt c.text s.index) (restAt c.text i)
    rw [hrest, ← hmore]
    exact .line
  simp only [hline, Bool.false_eq_true, if_false] at h
  by_cases hblock : (⟨c.text, s.index⟩ : Cursor).startsWith "/*"
  · obtain ⟨more, hmore⟩ := startsWith_iff.mp hblock
    simp only [hblock, if_true] at h
    rw [Script.run_advance (by decide)] at h
    obtain ⟨hbody, -⟩ := blockBody_of_run h
    refine .inl ?_
    have hforward : restAt c.text (min (s.index + 2) c.text.size) = more := by
      rw [restAt_forward, ← hmore]
      rfl
    rw [← hmore]
    exact .block (hforward ▸ hbody)
  · simp only [hblock, Bool.false_eq_true, if_false, Script.run_done, Reply.ok.injEq] at h
    refine .inr ⟨?_, h.2.symm⟩
    rintro (hp | hp)
    · exact hline (startsWith_iff.mpr hp)
    · exact hblock (startsWith_iff.mpr hp)

end Callback

/-! ### Skipping -/

namespace Reading

variable {c : Context} {s s' : State}

/-- One call of the callbacks after white space. -/
theorem notify_blanks (hd : c.dialect.Plain) {r : Option Expr}
    (h : notify .blanks none c s = .ok r s') :
    (c.dialect.HasComments ∧ Comment (restAt c.text s.index) (restAt c.text s'.index)) ∨
      ((c.dialect.HasComments → ¬ StartsComment (restAt c.text s.index)) ∧ s' = s) := by
  rcases hd.blanks with hp | ⟨h', hp, hscript⟩
  · rw [notify_of_nil hp] at h
    cases h
    exact .inr ⟨fun hc => absurd hp hc, rfl⟩
  · have hc : c.dialect.HasComments := by simp [Dialect.HasComments, hp]
    rw [notify_of_singleton hp, hscript, bind_eq_ok] at h
    obtain ⟨⟨left, failure⟩, s₁, hrun, hsettle⟩ := h
    obtain ⟨rfl, -, rfl⟩ := settle_eq_ok.mp hsettle
    rcases comment_of_run hrun with hcomment | ⟨hno, rfl⟩
    · exact .inl ⟨hc, hcomment⟩
    · exact .inr ⟨fun _ => hno, rfl⟩

theorem skips_of_skipBlanksWithin (hd : c.dialect.Plain) {n : Nat}
    (h : skipBlanksWithin n c s = .ok () s') :
    Skips c.dialect.HasComments (restAt c.text s.index) (restAt c.text s'.index) := by
  induction n generalizing s with
  | zero => cases h
  | succ n ih =>
    rw [skipBlanksWithin, bind_of_ok cursor_apply, bind_of_ok (moveTo_apply _), bind_eq_ok] at h
    obtain ⟨r, s₁, hnotify, h⟩ := h
    rw [bind_of_ok cursor_apply] at h
    have hrest : restAt c.text (Cursor.skipWhile ⟨c.text, s.index⟩ Grammar.isBlank s.index)
        = (restAt c.text s.index).dropWhile Grammar.isBlank := restAt_skipWhile _ _
    refine .of_dropWhile ?_
    rw [← hrest]
    rcases notify_blanks hd hnotify with ⟨hc, hcomment⟩ | ⟨hno, rfl⟩
    · -- a comment moved the cursor, so there is another round
      have hmoved : s₁.index ≠ Cursor.skipWhile ⟨c.text, s.index⟩ Grammar.isBlank s.index := by
        intro heq
        have hlt := hcomment.length_lt
        rw [heq] at hlt
        exact Nat.lt_irrefl _ hlt
      simp only [hmoved, if_false] at h
      exact .comment hc hcomment (ih h)
    · simp only [if_true] at h
      cases h
      refine .stop ?_ hno
      show ∀ ch ∈ (restAt c.text (Cursor.skipWhile _ _ _)).head?, _
      rw [hrest]
      exact head?_dropWhile_run _

theorem skips_of_skipBlanks (hd : c.dialect.Plain) (h : skipBlanks c s = .ok () s') :
    Skips c.dialect.HasComments (restAt c.text s.index) (restAt c.text s'.index) := by
  rw [skipBlanks, bind_of_ok budget_apply] at h
  exact skips_of_skipBlanksWithin hd h

end Reading

end OperatorGrammar
