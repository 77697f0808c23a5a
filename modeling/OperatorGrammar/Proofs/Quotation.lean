/-
OperatorGrammar/Proofs/Quotation.lean

Where a string ends, and what it stands for.

The scanner walks through the body of a string once, takes a backslash together
with the character behind it, and collects the value on its way.  Here both
questions are answered on the text alone.  A character is escaped when right in
front of it stands a backslash that is not escaped itself (`escapedAt`), so that
pairs are formed from the left; the string ends at the first quote of its kind
that is not escaped (`IsFirstUnescaped`).  Its value is the body with each pair
replaced by the character that it stands for (`decoded`).

The two descriptions are joined in the relation `Escaped`: a body in front of the
first unescaped quote is escaped, and stands for its decoding.  Where every quote
is escaped (`AllEscaped`), the scanner runs to the end of the text and fails there.

Main result: `Reading.string_decided`.
-/
import OperatorGrammar.Proofs.Lexeme
import OperatorGrammar.Proofs.Reading
import Mathlib.Data.Nat.Find

namespace OperatorGrammar

/-! ### Escaped characters -/

/-- Whether the character at an offset is escaped: right in front of it stands a backslash
that is not escaped itself. -/
def escapedAt (l : List Char) : Nat → Bool
  | 0 => false
  | n + 1 => l[n]? = some '\\' && !escapedAt l n

/-- The first place at which a quote stands and is not escaped. -/
structure IsFirstUnescaped (q : Char) (l : List Char) (n : Nat) : Prop where
  quote : l[n]? = some q
  unescaped : ¬ escapedAt l n
  first : ∀ m < n, l[m]? = some q → escapedAt l m

/-- Every quote is escaped, so that none ends a string. -/
def AllEscaped (q : Char) (l : List Char) : Prop :=
  ∀ n, l[n]? = some q → escapedAt l n

/-- The characters that a backslash turns into another one. -/
def escapes : List (Char × Char) :=
  [('n', '\n'), ('r', '\r'), ('t', '\t'), ('b', '\x08'), ('f', '\x0c'), ('v', '\x0b')]

/-- The value of a body: each pair of a backslash and a character stands for one character,
and a backslash at the end for none. -/
def decoded : List Char → List Char
  | [] => []
  | [ch] => if ch = '\\' then [] else [ch]
  | ch :: next :: rest =>
    if ch = '\\' then (escapes.lookup next).getD next :: decoded rest
    else ch :: decoded (next :: rest)

theorem unescape_eq (ch : Char) : Lexeme.unescape ch = (escapes.lookup ch).getD ch := by
  unfold Lexeme.unescape
  split
  case h_7 hn hr ht hb hf hv =>
    simp [escapes, List.lookup_cons, beq_false_of_ne hn, beq_false_of_ne hr, beq_false_of_ne ht,
      beq_false_of_ne hb, beq_false_of_ne hf, beq_false_of_ne hv]
  all_goals rfl

variable {ch q : Char} {l : List Char} {n : Nat}

/-! ### One character, one pair -/

theorem escapedAt_plain (hch : ch ≠ '\\') : escapedAt (ch :: l) (n + 1) = escapedAt l n := by
  induction n with
  | zero => simp [escapedAt, hch]
  | succ n ih => rw [escapedAt, ih, List.getElem?_cons_succ, escapedAt]

theorem escapedAt_pair : escapedAt ('\\' :: ch :: l) (n + 2) = escapedAt l n := by
  induction n with
  | zero => simp [escapedAt]
  | succ n ih => rw [escapedAt, ih, List.getElem?_cons_succ, List.getElem?_cons_succ, escapedAt]

theorem decoded_plain (hch : ch ≠ '\\') : decoded (ch :: l) = ch :: decoded l := by
  cases l with
  | nil => simp [decoded, hch]
  | cons next rest => simp [decoded, hch]

theorem decoded_pair : decoded ('\\' :: ch :: l) = Lexeme.unescape ch :: decoded l := by
  simp [decoded, unescape_eq]

namespace IsFirstUnescaped

theorem tail (hch : ch ≠ '\\') (h : IsFirstUnescaped q (ch :: l) (n + 1)) :
    IsFirstUnescaped q l n where
  quote := by simpa using h.quote
  unescaped := by simpa [escapedAt_plain hch] using h.unescaped
  first m hm hquote := by
    have hfirst := h.first (m + 1) (by omega) (by simpa using hquote)
    rwa [escapedAt_plain hch] at hfirst

theorem pair (h : IsFirstUnescaped q ('\\' :: ch :: l) (n + 2)) : IsFirstUnescaped q l n where
  quote := by simpa using h.quote
  unescaped := by simpa [escapedAt_pair] using h.unescaped
  first m hm hquote := by
    have hfirst := h.first (m + 2) (by omega) (by simpa using hquote)
    rwa [escapedAt_pair] at hfirst

/-- A body in front of the first unescaped quote is escaped, and stands for its decoding. -/
theorem escaped (hq : q ≠ '\\') : ∀ {l : List Char} {n : Nat}, IsFirstUnescaped q l n →
    Escaped q (l.take n) (decoded (l.take n))
  | [], n, h => by simpa using h.quote
  | _ :: _, 0, _ => .nil
  | ch :: l, n + 1, h => by
    have hne : ch ≠ q := by
      rintro rfl
      exact absurd (h.first 0 (Nat.succ_pos n) rfl) (by simp [escapedAt])
    by_cases hback : ch = '\\'
    · subst hback
      cases l with
      | nil => simpa using h.quote
      | cons next rest =>
        -- the character behind a backslash is no unescaped quote
        cases n with
        | zero => exact absurd h.unescaped (by simp [escapedAt])
        | succ n =>
          rw [List.take_succ_cons, List.take_succ_cons, decoded_pair]
          exact .pair (escaped hq h.pair)
    · rw [List.take_succ_cons, decoded_plain hback]
      exact .plain hne hback (escaped hq (h.tail hback))

theorem split (h : IsFirstUnescaped q l n) : l = l.take n ++ q :: l.drop (n + 1) := by
  obtain ⟨hn, hquote⟩ := List.getElem?_eq_some_iff.mp h.quote
  rw [← hquote, List.getElem_cons_drop, List.take_append_drop]

end IsFirstUnescaped

namespace AllEscaped

theorem head_ne (h : AllEscaped q (ch :: l)) : ch ≠ q := by
  rintro rfl
  exact absurd (h 0 rfl) (by simp [escapedAt])

theorem tail (hch : ch ≠ '\\') (h : AllEscaped q (ch :: l)) : AllEscaped q l := by
  intro n hquote
  have hescaped := h (n + 1) (by simpa using hquote)
  rwa [escapedAt_plain hch] at hescaped

theorem pair (h : AllEscaped q ('\\' :: ch :: l)) : AllEscaped q l := by
  intro n hquote
  have hescaped := h (n + 2) (by simpa using hquote)
  rwa [escapedAt_pair] at hescaped

end AllEscaped

theorem exists_isFirstUnescaped (h : ∃ n, l[n]? = some q ∧ ¬ escapedAt l n) :
    ∃ n, IsFirstUnescaped q l n := by
  classical
  obtain ⟨hquote, hunescaped⟩ := Nat.find_spec h
  refine ⟨Nat.find h, hquote, hunescaped, fun m hm hm' => ?_⟩
  by_contra hescaped
  exact Nat.find_min h hm ⟨hm', hescaped⟩

/-! ### The scanner -/

namespace Lexeme

variable {text : Array Char} {i : Nat}

/-- Where every quote is escaped, the scanner fails at the end of the text. -/
theorem stringBody_of_allEscaped (hi : i ≤ text.size) (hn : (restAt text i).length ≤ n)
    (hall : AllEscaped q (restAt text i)) (acc : List Char) :
    stringBody text q n i acc
      = ⟨text.size, .error (.quote (String.ofList (acc.reverse ++ decoded (restAt text i))))⟩ := by
  induction n generalizing i acc with
  | zero =>
    have hnil : restAt text i = [] := List.length_eq_zero_iff.mp (Nat.le_zero.mp hn)
    rw [stringBody, hnil, eq_size_of_restAt_eq_nil hi hnil]
    simp [decoded]
  | succ n ih =>
    rw [stringBody]
    rcases hch : text[i]? with - | ch
    · have hnil := restAt_eq_nil_of_none hch
      rw [hnil, eq_size_of_restAt_eq_nil hi hnil]
      simp [decoded]
    have hlt := (Array.getElem?_eq_some_iff.mp hch).1
    have hrest := restAt_eq_cons hch
    rw [hrest] at hn hall ⊢
    have hne := hall.head_ne
    by_cases hback : ch = '\\'
    · subst hback
      rcases hnext : text[i + 1]? with - | next
      · -- a backslash at the end stands for nothing
        have hnil := restAt_eq_nil_of_none hnext
        have hend : i + 1 = text.size := eq_size_of_restAt_eq_nil hlt hnil
        rw [hnil]
        simp [hne, decoded, hend]
      · have hlt' := (Array.getElem?_eq_some_iff.mp hnext).1
        have hrest' : restAt text (i + 1) = next :: restAt text (i + 2) := restAt_eq_cons hnext
        rw [hrest'] at hn hall ⊢
        have hn' : (restAt text (i + 2)).length ≤ n := by
          simp only [List.length_cons] at hn
          omega
        simp only [hne, if_false, if_true]
        rw [ih hlt' hn' hall.pair, decoded_pair]
        simp
    · simp only [hne, hback, if_false]
      rw [ih hlt (by simpa using hn) (hall.tail hback), decoded_plain hback]
      simp

theorem string_of_isFirstUnescaped (hq : IsQuote q) (hcur : text[i]? = some q)
    (h : IsFirstUnescaped q (restAt text (i + 1)) n) :
    string ⟨text, i⟩ = ⟨i + n + 2, .ok (.literal
      (.string (String.ofList (decoded ((restAt text (i + 1)).take n))))
      (String.ofList ((restAt text i).take (n + 2))))⟩ := by
  have hlength : ((restAt text (i + 1)).take n).length = n := by
    have hlt := (List.getElem?_eq_some_iff.mp h.quote).1
    rw [List.length_take]
    omega
  have hinput : restAt text i = q :: ((restAt text (i + 1)).take n ++ q ::
      (restAt text (i + 1)).drop (n + 1)) := by
    rw [← h.split]
    exact restAt_eq_cons hcur
  have hraw : (restAt text i).take (n + 2) = q :: ((restAt text (i + 1)).take n ++ [q]) := by
    have hclosed : restAt text i = q :: ((restAt text (i + 1)).take n ++ [q]) ++
        (restAt text (i + 1)).drop (n + 1) := by
      rw [hinput]
      simp
    rw [hclosed]
    exact List.take_left' (by rw [List.length_cons, List.length_append, hlength]; rfl)
  have htoken := (h.escaped hq.ne_backslash).stringToken hq ((restAt text (i + 1)).drop (n + 1))
  rw [← hinput, ← hraw] at htoken
  have hstop : (String.ofList ((restAt text i).take (n + 2))).length = n + 2 := by
    rw [hraw, ← String.length_toList, String.toList_ofList, List.length_cons, List.length_append,
      hlength]
    rfl
  rw [string_of_token htoken, hstop]
  rfl

theorem string_of_allEscaped (hcur : text[i]? = some q)
    (hall : AllEscaped q (restAt text (i + 1))) :
    string ⟨text, i⟩
      = ⟨text.size, .error (.quote (String.ofList (decoded (restAt text (i + 1)))))⟩ := by
  have hlt := (Array.getElem?_eq_some_iff.mp hcur).1
  have hcurrent : (⟨text, i⟩ : Cursor).current = some q := hcur
  have hbody := stringBody_of_allEscaped (n := text.size - i) hlt (by simp; omega) hall []
  rw [string]
  simp only [hcurrent, hbody]
  rfl

end Lexeme

/-! ### Readings -/

/-- **Strings end at the first unescaped quote and decode exactly.**  From a quote, a string is
read iff a quote of its kind that is not escaped follows.  The cursor then stands right behind
the first one, the raw text is the input up to there, and the value is the decoded body; with
no such quote the reading fails at the end of the text.  So every text whose quotes and
backslashes are escaped is read back, whatever comes behind it. -/
theorem Reading.string_decided {c : Context} {s : State} {q : Char} (hq : IsQuote q)
    (hcur : c.text[s.index]? = some q) :
    let rest := restAt c.text (s.index + 1)
    let reply := Reading.scan (fun _ => Lexeme.string) c s
    ((∃ e t, reply = .ok e t) ↔ ∃ n, rest[n]? = some q ∧ ¬ escapedAt rest n) ∧
    (∀ n, IsFirstUnescaped q rest n →
      reply = .ok (.literal (.string (String.ofList (decoded (rest.take n))))
        (String.ofList ((restAt c.text s.index).take (n + 2))))
        { s with index := s.index + n + 2 }) ∧
    (AllEscaped q rest →
      ∃ e, reply = .fail e { s with index := c.text.size } ∧ e.index = c.text.size ∧
        e.description = "Unclosed quote after \"" ++ String.ofList (decoded rest) ++ "\"") ∧
    ∀ (value : String) (tail : List Char), rest = escape q value.toList ++ q :: tail →
      reply = .ok (.literal (.string value)
        (String.ofList (q :: (escape q value.toList ++ [q]))))
        { s with index := s.index + (escape q value.toList).length + 2 } := by
  intro rest reply
  have hread : ∀ n, IsFirstUnescaped q rest n → reply = _ :=
    fun n h => scan_of_ok (Lexeme.string_of_isFirstUnescaped hq hcur h)
  have hfail (h : AllEscaped q rest) : reply = _ :=
    scan_of_error (Lexeme.string_of_allEscaped hcur h)
  refine ⟨⟨?_, ?_⟩, hread, fun h => ⟨_, hfail h, rfl, rfl⟩, ?_⟩
  · rintro ⟨e, t, h⟩
    by_contra hnone
    rw [hfail (by simpa [AllEscaped] using hnone)] at h
    cases h
  · intro h
    obtain ⟨n, hn⟩ := exists_isFirstUnescaped h
    exact ⟨_, _, hread n hn⟩
  · intro value tail hrest
    have htoken := (Escaped.escape hq value.toList).stringToken hq tail
    rw [← hrest, ← restAt_eq_cons hcur, String.ofList_toList] at htoken
    have hlength : (String.ofList (q :: (escape q value.toList ++ [q]))).length
        = (escape q value.toList).length + 2 := by
      rw [← String.length_toList, String.toList_ofList]
      simp
    have hstring := Lexeme.string_of_token htoken
    rw [hlength] at hstring
    exact scan_of_ok hstring

/-- An escaped quote does not end a string. -/
theorem Reading.string_decided_apostrophe :
    let c := Dialect.standard.context "'it\\'s' + x".toList.toArray 1
    IsQuote '\'' ∧ c.text[State.initial.index]? = some '\'' ∧
      Reading.scan (fun _ => Lexeme.string) c .initial
        = .ok (.literal (.string "it's") "'it\\'s'") { State.initial with index := 7 } := by
  intro c
  have hq : IsQuote '\'' := .inl rfl
  have hcur : c.text[State.initial.index]? = some '\'' := by decide +kernel
  have hfirst : IsFirstUnescaped '\'' (restAt c.text (State.initial.index + 1)) 5 :=
    ⟨by decide +kernel, by decide +kernel, by decide +kernel⟩
  have hvalue : String.ofList (decoded ((restAt c.text (State.initial.index + 1)).take 5))
      = "it's" := by decide +kernel
  have hraw : String.ofList ((restAt c.text State.initial.index).take (5 + 2)) = "'it\\'s'" := by
    decide +kernel
  have hread := (Reading.string_decided hq hcur).2.1 5 hfirst
  rw [hvalue, hraw] at hread
  exact ⟨hq, hcur, hread⟩

end OperatorGrammar
