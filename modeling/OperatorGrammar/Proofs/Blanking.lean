/-
OperatorGrammar/Proofs/Blanking.lean

A text with spaces in place of its comments.

A scan from left to right tells code, strings and comments apart (`Zone`), with a
look at the next character where a mark is two characters long.  Inside a comment
each character is shown as a space (`blanked`), so both texts have the same
length; a line comment ends in front of the line feed, a block behind the first
closing mark after its opening one.

What a reader does with the text that is left is found in three lemmas: skipping
comments and white space leaves what skipping white space leaves of the blanked
text (`skips_blanked`), nothing changes up to the next comment or string
(`exists_codeRun`), and a string is copied (`blanked_string`).
-/
import OperatorGrammar.Proofs.Blanks
import OperatorGrammar.Proofs.Lexeme

namespace OperatorGrammar

/-! ### The scan -/

/-- Where a scan from left to right is. -/
inductive Zone where
  | code
  | string (quote : Char)
  /-- Behind a backslash in a string. -/
  | escaped (quote : Char)
  | line
  | block
  /-- In front of the last character of a mark, which leads to another zone. -/
  | mark (next : Zone)
  deriving DecidableEq

/-- What is shown of a character, and the zone behind it. -/
def Zone.step (zone : Zone) (ch : Char) (next : Option Char) : Char × Zone :=
  match zone with
  | code =>
    if ch = '/' ∧ next = some '/' then (' ', mark line)
    else if ch = '/' ∧ next = some '*' then (' ', mark block)
    else if ch = '\'' ∨ ch = '"' then (ch, string ch)
    else (ch, code)
  | string quote =>
    if ch = '\\' then (ch, escaped quote)
    else if ch = quote then (ch, code)
    else (ch, string quote)
  | escaped quote => (ch, string quote)
  | line => if ch = '\n' then (ch, code) else (' ', line)
  | block => if ch = '*' ∧ next = some '/' then (' ', mark code) else (' ', block)
  | mark next => (' ', next)

/-- The characters with spaces in place of comments. -/
def blanked : Zone → List Char → List Char
  | _, [] => []
  | zone, ch :: rest =>
    (zone.step ch rest.head?).1 :: blanked (zone.step ch rest.head?).2 rest

/-- The zone at the end. -/
def endZone : Zone → List Char → Zone
  | zone, [] => zone
  | zone, ch :: rest => endZone (zone.step ch rest.head?).2 rest

/-- Every block comment is closed. -/
def BlocksClosed (zone : Zone) (input : List Char) : Prop :=
  endZone zone input ≠ .block

instance (zone : Zone) (input : List Char) : Decidable (BlocksClosed zone input) :=
  inferInstanceAs (Decidable (endZone zone input ≠ .block))

/-- The text with spaces in place of comments. -/
def blankedText (text : String) : String :=
  String.ofList (blanked .code text.toList)

/-- Comments at both ends of an operator, and none in a string. -/
example : blankedText "a/**/ / b // '" = "a     / b     " := by decide +kernel

example : blankedText "'\\'/*' /* // */" = "'\\'/*'         " := by decide +kernel

variable {input rest : List Char} {ch quote : Char} {zone : Zone}

@[simp] theorem length_blanked : (blanked zone input).length = input.length := by
  induction input generalizing zone with
  | nil => rfl
  | cons ch input ih => rw [blanked, List.length_cons, List.length_cons, ih]

/-! ### Code -/

theorem startsComment_iff : StartsComment (ch :: rest) ↔
    (ch = '/' ∧ rest.head? = some '/') ∨ (ch = '/' ∧ rest.head? = some '*') := by
  cases rest with
  | nil => simp [StartsComment, List.cons_prefix_cons]
  | cons next rest => simp [StartsComment, List.cons_prefix_cons, eq_comm]

/-- Outside of strings, a character that starts no comment is shown. -/
theorem step_code (h : ¬ StartsComment (ch :: rest)) : Zone.code.step ch rest.head? =
    (ch, if ch = '\'' ∨ ch = '"' then .string ch else .code) := by
  rw [startsComment_iff, not_or] at h
  rw [Zone.step, if_neg h.1, if_neg h.2]
  split <;> rfl

theorem blanked_code (h : ¬ StartsComment (ch :: rest)) (hquote : ¬ IsQuote ch) :
    blanked .code (ch :: rest) = ch :: blanked .code rest ∧
      endZone .code (ch :: rest) = endZone .code rest := by
  have hquote : ¬ (ch = '\'' ∨ ch = '"') := hquote
  have hstep := step_code h
  rw [if_neg hquote] at hstep
  exact ⟨by rw [blanked, hstep], by rw [endZone, hstep]⟩

theorem blanked_quote (hquote : IsQuote quote) :
    blanked .code (quote :: rest) = quote :: blanked (.string quote) rest ∧
      endZone .code (quote :: rest) = endZone (.string quote) rest := by
  have hslash : quote ≠ '/' := by rcases hquote with rfl | rfl <;> decide
  have hstart : ¬ StartsComment (quote :: rest) := by
    rw [startsComment_iff]
    rintro (h | h) <;> exact hslash h.1
  have hquote : quote = '\'' ∨ quote = '"' := hquote
  have hstep := step_code hstart
  rw [if_pos hquote] at hstep
  exact ⟨by rw [blanked, hstep], by rw [endZone, hstep]⟩

theorem head?_blanked (h : ¬ StartsComment input) : (blanked .code input).head? = input.head? := by
  cases input with
  | nil => rfl
  | cons ch rest => rw [blanked, step_code h, List.head?_cons, List.head?_cons]

theorem head?_startsComment (h : StartsComment input) :
    input.head? = some '/' ∧ (blanked .code input).head? = some ' ' := by
  cases input with
  | nil => simp [StartsComment] at h
  | cons ch rest =>
    rcases startsComment_iff.mp h with ⟨rfl, hhead⟩ | ⟨rfl, hhead⟩ <;>
      simp [blanked, Zone.step, hhead]

theorem blanked_lineMark :
    blanked .code ('/' :: '/' :: rest) = ' ' :: ' ' :: blanked .line rest ∧
      endZone .code ('/' :: '/' :: rest) = endZone .line rest := by
  simp [blanked, endZone, Zone.step]

theorem blanked_blockMark :
    blanked .code ('/' :: '*' :: rest) = ' ' :: ' ' :: blanked .block rest ∧
      endZone .code ('/' :: '*' :: rest) = endZone .block rest := by
  simp [blanked, endZone, Zone.step]

/-! ### Skipping -/

/-- Behind a line comment, the rest is skipped as behind its spaces. -/
theorem blanked_line : (blanked .line input).dropWhile Grammar.isBlank =
      (blanked .code (input.dropWhile (· ≠ '\n'))).dropWhile Grammar.isBlank ∧
    (BlocksClosed .line input → BlocksClosed .code (input.dropWhile (· ≠ '\n'))) := by
  induction input with
  | nil => exact ⟨rfl, fun _ => by decide⟩
  | cons ch input ih =>
    by_cases hch : ch = '\n'
    · subst hch
      have hstart : ¬ StartsComment ('\n' :: input) := by simp [startsComment_iff]
      have hcode := blanked_code hstart (by simp [IsQuote])
      rw [List.dropWhile_cons_of_neg (by simp), BlocksClosed, BlocksClosed, hcode.1, hcode.2]
      exact ⟨rfl, id⟩
    · have hblank : Grammar.isBlank ' ' := by decide
      have hstep (next : Option Char) : Zone.line.step ch next = (' ', .line) := if_neg hch
      rw [List.dropWhile_cons_of_pos (by simpa using hch), blanked, hstep, BlocksClosed, endZone,
        hstep, List.dropWhile_cons_of_pos hblank]
      exact ih

/-- A closed block comment ends, and the rest is skipped as behind its spaces. -/
theorem blanked_block (h : BlocksClosed .block input) : ∃ rest, BlockBody input rest ∧
    (blanked .block input).dropWhile Grammar.isBlank =
      (blanked .code rest).dropWhile Grammar.isBlank ∧ BlocksClosed .code rest := by
  have hblank : Grammar.isBlank ' ' := by decide
  induction input with
  | nil => exact absurd rfl h
  | cons ch input ih =>
    rw [BlocksClosed, endZone] at h
    rw [blanked]
    by_cases hclose : ch = '*' ∧ input.head? = some '/'
    · obtain ⟨rfl, hhead⟩ := hclose
      obtain ⟨rest, rfl⟩ := List.head?_eq_some_iff.mp hhead
      refine ⟨rest, .close, ?_, h⟩
      rw [Zone.step, if_pos ⟨rfl, rfl⟩, blanked, Zone.step, List.dropWhile_cons_of_pos hblank,
        List.dropWhile_cons_of_pos hblank]
    · rw [Zone.step, if_neg hclose] at h ⊢
      obtain ⟨rest, hbody, hskip, hclosed⟩ := ih h
      refine ⟨rest, .next ?_ hbody, ?_, hclosed⟩
      · intro hprefix
        obtain ⟨hstar, more, hmore⟩ := List.cons_prefix_cons.mp hprefix
        exact hclose ⟨hstar.symm, by rw [← hmore]; rfl⟩
      · rw [List.dropWhile_cons_of_pos hblank, hskip]

/-- Skipping white space and comments leaves what skipping white space leaves of the blanked
text. -/
theorem skips_blanked (h : BlocksClosed .code input) : ∃ rest, Skips True input rest ∧
    (blanked .code input).dropWhile Grammar.isBlank = blanked .code rest ∧
      BlocksClosed .code rest ∧ ¬ StartsComment rest := by
  have hblank : Grammar.isBlank ' ' := by decide
  -- a comment may be skipped at once, so the induction is on the length
  induction hn : input.length using Nat.strongRecOn generalizing input with
  | ind n ih =>
  cases input with
  | nil =>
    have hno : ¬ StartsComment [] := by simp [StartsComment]
    exact ⟨[], .stop nofun (fun _ => hno), rfl, h, hno⟩
  | cons ch input =>
    rw [List.length_cons] at hn
    by_cases hcomment : StartsComment (ch :: input)
    · rcases startsComment_iff.mp hcomment with ⟨rfl, hhead⟩ | ⟨rfl, hhead⟩
      · obtain ⟨body, rfl⟩ := List.head?_eq_some_iff.mp hhead
        obtain ⟨hline, hmore⟩ := @blanked_line body
        have hle := (List.dropWhile_suffix (l := body) (· ≠ '\n')).length_le
        rw [BlocksClosed, blanked_lineMark.2] at h
        rw [List.length_cons] at hn
        obtain ⟨rest, hskips, hdrop, hclosed⟩ := ih _ (by omega) (hmore h) rfl
        refine ⟨rest, .comment trivial .line hskips, ?_, hclosed⟩
        rw [blanked_lineMark.1, List.dropWhile_cons_of_pos hblank,
          List.dropWhile_cons_of_pos hblank, hline, hdrop]
      · obtain ⟨body, rfl⟩ := List.head?_eq_some_iff.mp hhead
        rw [BlocksClosed, blanked_blockMark.2] at h
        obtain ⟨mid, hbody, hblock, hmore⟩ := blanked_block h
        have hle := hbody.suffix.length_le
        rw [List.length_cons] at hn
        obtain ⟨rest, hskips, hdrop, hclosed⟩ := ih _ (by omega) hmore rfl
        refine ⟨rest, .comment trivial (.block hbody) hskips, ?_, hclosed⟩
        rw [blanked_blockMark.1, List.dropWhile_cons_of_pos hblank,
          List.dropWhile_cons_of_pos hblank, hblock, hdrop]
    by_cases hch : Grammar.isBlank ch
    · have hquote : ¬ IsQuote ch := by
        rintro (rfl | rfl) <;> simp [Grammar.isBlank] at hch
      obtain ⟨hshown, hzone⟩ := blanked_code hcomment hquote
      rw [BlocksClosed, hzone] at h
      obtain ⟨rest, hskips, hdrop, hmore⟩ := ih input.length (by omega) h rfl
      exact ⟨rest, .blank hch hskips, by rw [hshown, List.dropWhile_cons_of_pos hch, hdrop], hmore⟩
    · refine ⟨ch :: input, .stop (by simpa using hch) fun _ => hcomment, ?_, h, hcomment⟩
      refine dropWhile_isBlank_of_head ?_
      rw [head?_blanked hcomment]
      simpa using hch

/-! ### Runs of code -/

/-- In the first `n` characters no comment and no string starts. -/
structure CodeRun (input : List Char) (n : Nat) : Prop where
  le : n ≤ input.length
  same : ∀ k, k < n → (blanked .code input)[k]? = input[k]?
  drop : ∀ k, k ≤ n → (blanked .code input).drop k = blanked .code (input.drop k)
  closed : ∀ k, k ≤ n → BlocksClosed .code input → BlocksClosed .code (input.drop k)

theorem CodeRun.zero : CodeRun input 0 := by
  refine ⟨Nat.zero_le _, nofun, ?_, ?_⟩
  · intro k hk
    obtain rfl := Nat.le_zero.mp hk
    rfl
  · intro k hk
    obtain rfl := Nat.le_zero.mp hk
    exact id

/-- A character of code goes in front of a run. -/
theorem CodeRun.cons {n : Nat} (h : CodeRun input n) (hcomment : ¬ StartsComment (ch :: input))
    (hquote : ¬ IsQuote ch) : CodeRun (ch :: input) (n + 1) := by
  obtain ⟨hshown, hzone⟩ := blanked_code hcomment hquote
  refine ⟨Nat.succ_le_succ h.le, ?_, ?_, ?_⟩
  · rintro (- | k) hk <;> rw [hshown]
    · rfl
    · exact h.same k (Nat.lt_of_succ_lt_succ hk)
  · rintro (- | k) hk
    · rfl
    · rw [hshown]
      exact h.drop k (Nat.le_of_succ_le_succ hk)
  · rintro (- | k) hk hclosed
    · exact hclosed
    · rw [BlocksClosed, hzone] at hclosed
      exact h.closed k (Nat.le_of_succ_le_succ hk) hclosed

/-- A text is code up to its first comment or string. -/
theorem exists_codeRun (input : List Char) : ∃ n, CodeRun input n ∧
    (∀ ch ∈ input[n]?, ch = '/' ∨ IsQuote ch) ∧
    (∀ ch ∈ (blanked .code input)[n]?, ch = ' ' ∨ IsQuote ch) ∧
    (n = 0 → StartsComment input ∨ ∀ ch ∈ input.head?, IsQuote ch) := by
  induction input with
  | nil => exact ⟨0, .zero, nofun, nofun, fun _ => .inr nofun⟩
  | cons ch input ih =>
    by_cases hcomment : StartsComment (ch :: input)
    · obtain ⟨hslash, hspace⟩ := head?_startsComment hcomment
      rw [List.head?_eq_getElem?] at hslash hspace
      refine ⟨0, .zero, ?_, ?_, fun _ => .inl hcomment⟩
      · rw [hslash]
        rintro _ ⟨⟩
        exact .inl rfl
      · rw [hspace]
        rintro _ ⟨⟩
        exact .inl rfl
    by_cases hquote : IsQuote ch
    · have hhead : ∀ next ∈ (ch :: input).head?, IsQuote next := by
        rintro _ ⟨⟩
        exact hquote
      refine ⟨0, .zero, ?_, ?_, fun _ => .inr hhead⟩
      · rintro _ ⟨⟩
        exact .inr hquote
      · rw [(blanked_quote hquote).1]
        rintro _ ⟨⟩
        exact .inr hquote
    obtain ⟨n, hrun, hends, hends', -⟩ := ih
    refine ⟨n + 1, hrun.cons hcomment hquote, hends, ?_, nofun⟩
    rw [(blanked_code hcomment hquote).1]
    exact hends'

/-! ### Strings -/

/-- The body of a string and its closing quote are copied. -/
theorem blanked_escaped (hquote : IsQuote quote) {body value : List Char}
    (h : Escaped quote body value) :
    blanked (.string quote) (body ++ quote :: rest) = body ++ quote :: blanked .code rest ∧
      endZone (.string quote) (body ++ quote :: rest) = endZone .code rest := by
  induction h with
  | nil =>
    have hstep (next : Option Char) : (Zone.string quote).step quote next = (quote, .code) := by
      rw [Zone.step, if_neg hquote.ne_backslash, if_pos rfl]
    rw [List.nil_append, blanked, endZone, hstep]
    exact ⟨rfl, rfl⟩
  | @plain ch body value hne hback _ ih =>
    have hstep (next : Option Char) : (Zone.string quote).step ch next = (ch, .string quote) := by
      rw [Zone.step, if_neg hback, if_neg hne]
    rw [List.cons_append, blanked, endZone, hstep]
    exact ⟨congrArg _ ih.1, ih.2⟩
  | @pair ch body value _ ih => exact ⟨congrArg (fun more => '\\' :: ch :: more) ih.1, ih.2⟩

/-- A string is closed, or the rest is copied to the end. -/
theorem blanked_stringZone (quote : Char) (input : List Char) :
    (∃ body value rest, input = body ++ quote :: rest ∧ Escaped quote body value) ∨
      blanked (.string quote) input = input := by
  induction hn : input.length using Nat.strongRecOn generalizing input with
  | ind n ih =>
  rcases input with - | ⟨ch, input⟩
  · exact .inr rfl
  rw [List.length_cons] at hn
  by_cases hback : ch = '\\'
  · subst hback
    -- a backslash takes the next character with it
    rcases input with - | ⟨next, input⟩
    · exact .inr rfl
    rw [List.length_cons] at hn
    rcases ih input.length (by omega) input rfl with ⟨body, value, rest, rfl, hbody⟩ | hopen
    · exact .inl ⟨'\\' :: next :: body, _, rest, rfl, .pair hbody⟩
    · exact .inr (congrArg (fun more => '\\' :: next :: more) hopen)
  by_cases hquote : ch = quote
  · exact .inl ⟨[], [], input, by rw [hquote]; rfl, .nil⟩
  rcases ih input.length (by omega) input rfl with ⟨body, value, rest, rfl, hbody⟩ | hopen
  · exact .inl ⟨ch :: body, _, rest, rfl, .plain hquote hback hbody⟩
  · have hstep (next : Option Char) : (Zone.string quote).step ch next = (ch, .string quote) := by
      rw [Zone.step, if_neg hback, if_neg hquote]
    rw [blanked, hstep]
    exact .inr (congrArg _ hopen)

/-- A string is copied. -/
theorem StringToken.blanked {raw value : String} (h : StringToken input raw value rest) :
    StringToken (blanked .code input) raw value (blanked .code rest) ∧
      (BlocksClosed .code input → BlocksClosed .code rest) := by
  obtain ⟨⟨q, body, hquote, hraw, hbody⟩, hsplit⟩ := h
  have hinput : input = q :: (body ++ q :: rest) := by
    rw [hsplit, hraw, List.cons_append, List.append_assoc]
    rfl
  obtain ⟨hshown, hzone⟩ := @blanked_quote (body ++ q :: rest) q hquote
  obtain ⟨hcopied, hzone'⟩ := @blanked_escaped rest q hquote body _ hbody
  rw [hinput, hshown, hcopied, BlocksClosed, hzone, hzone']
  refine ⟨⟨⟨q, body, hquote, hraw, hbody⟩, ?_⟩, id⟩
  rw [hraw, List.cons_append, List.append_assoc]
  rfl

/-- A quote opens a string, or the rest is copied to the end. -/
theorem blanked_string (hquote : IsQuote quote) (input : List Char) :
    (∃ raw value rest, StringToken (quote :: input) raw value rest) ∨
      blanked .code (quote :: input) = quote :: input := by
  rcases blanked_stringZone quote input with ⟨body, value, rest, rfl, hbody⟩ | hopen
  · exact .inl ⟨_, _, _, hbody.stringToken hquote rest⟩
  · exact .inr (by rw [(blanked_quote hquote).1, hopen])

end OperatorGrammar
