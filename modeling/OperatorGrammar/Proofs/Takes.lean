/-
OperatorGrammar/Proofs/Takes.lean

What a reading does in front of a given rest of the text.

`Takes c x input a rest` says that the reading `x`, started anywhere in front of
`input`, answers `a` and stops in front of `rest`, with nothing else changed.  It
composes along `do` (`Takes.bind`), so that a run of a production is put together
from the runs of its parts without a word about offsets.  This file has the parts:
primitive steps, scanners, white space and comments, and the conditional
callback.
-/
import OperatorGrammar.Proofs.Blanks
import OperatorGrammar.Proofs.Number

namespace OperatorGrammar

/-- The state with the cursor in front of what is left of a text. -/
def State.placed (s : State) (text : Array Char) (input : List Char) : State :=
  { s with index := text.size - input.length }

@[simp] theorem State.placed_index {s : State} {text : Array Char} {input : List Char} :
    (s.placed text input).index = text.size - input.length := rfl

/-- In front of the whole text. -/
theorem State.placed_initial (input : List Char) :
    State.initial.placed input.toArray input = State.initial := by
  rw [State.placed, List.size_toArray, Nat.sub_self]
  rfl

theorem restAt_of_suffix {text : Array Char} {input : List Char} (h : input <:+ text.toList) :
    restAt text (text.size - input.length) = input := by
  obtain ⟨front, h⟩ := h
  have hsize : text.size - input.length = front.length := by
    have hlen := congrArg List.length h
    have htotal : text.toList.length = text.size := Array.length_toList
    rw [List.length_append] at hlen
    omega
  rw [hsize, restAt, ← h, List.drop_left]

/-- An offset in front of a given rest, when it lies within the text. -/
theorem index_of_restAt {text : Array Char} {i : Nat} {input : List Char}
    (h : restAt text i = input) (hi : i ≤ text.size) : i = text.size - input.length := by
  have hlen := congrArg List.length h
  rw [length_restAt] at hlen
  omega

namespace Reading

variable {α β : Type} {c : Context} {input mid rest : List Char}

/-- From in front of `input` the reading answers `a` and stops in front of `rest`. -/
def Takes (c : Context) (x : Reading α) (input : List Char) (a : α) (rest : List Char) : Prop :=
  input <:+ c.text.toList → rest <:+ c.text.toList ∧
    ∀ s : State, x c (s.placed c.text input) = .ok a (s.placed c.text rest)

namespace Takes

/-- Where what is left is taken, the run ends in front of the rest. -/
theorem run_eq {x : Reading α} {s : State} {a : α}
    (h : Takes c x (restAt c.text s.index) a rest) (hi : s.index ≤ c.text.size) :
    x c s = .ok a (s.placed c.text rest) ∧ restAt c.text (s.placed c.text rest).index = rest := by
  obtain ⟨hsuffix, hrun⟩ := h (List.drop_suffix _ _)
  have hplaced : s.placed c.text (restAt c.text s.index) = s := by
    rw [State.placed, ← index_of_restAt rfl hi]
  have hrun := hrun s
  rw [hplaced] at hrun
  exact ⟨hrun, restAt_of_suffix hsuffix⟩

/-! ### Sequences and primitive steps -/

theorem pure (a : α) : Takes c (Pure.pure a) input a input :=
  fun h => ⟨h, fun _ => rfl⟩

theorem bind {x : Reading α} {f : α → Reading β} {a : α} {b : β}
    (hx : Takes c x input a mid) (hf : Takes c (f a) mid b rest) :
    Takes c (x >>= f) input b rest := by
  intro h
  obtain ⟨hmid, hx⟩ := hx h
  obtain ⟨hrest, hf⟩ := hf hmid
  refine ⟨hrest, ?_⟩
  intro s
  rw [bind_of_ok (hx s), hf s]

theorem grammar : Takes c Reading.grammar input c.dialect.grammar input :=
  fun h => ⟨h, fun _ => rfl⟩

theorem budget : Takes c Reading.budget input c.budget input :=
  fun h => ⟨h, fun _ => rfl⟩

theorem cursor : Takes c Reading.cursor input ⟨c.text, c.text.size - input.length⟩ input :=
  fun h => ⟨h, fun _ => rfl⟩

theorem current : Takes c Reading.current input input.head? input := by
  intro h
  refine ⟨h, ?_⟩
  intro s
  rw [current_apply, State.placed_index, getElem?_eq_head?, restAt_of_suffix h]

theorem forward (front : List Char) :
    Takes c (Reading.forward front.length) (front ++ rest) () rest := by
  intro h
  have hrest : rest <:+ c.text.toList := (List.suffix_append _ _).trans h
  refine ⟨hrest, ?_⟩
  intro s
  have hlen := h.length_le
  have htotal : c.text.toList.length = c.text.size := Array.length_toList
  rw [List.length_append] at hlen
  have hindex : min (c.text.size - (front ++ rest).length + front.length) c.text.size
      = c.text.size - rest.length := by
    rw [List.length_append]
    omega
  rw [forward_apply, State.placed_index, hindex]
  rfl

theorem forward_one {ch : Char} : Takes c (Reading.forward 1) (ch :: rest) () rest :=
  forward [ch]

theorem forward_string {w : String} :
    Takes c (Reading.forward w.length) (w.toList ++ rest) () rest := by
  rw [← String.length_toList]
  exact forward w.toList

/-- Reading one level deeper ends on the level where it started. -/
theorem nested {x : Reading α} {a : α} (hlimit : c.dialect.grammar.nestingLimit = none)
    (hx : Takes c x input a rest) : Takes c (Reading.nested x) input a rest := by
  intro h
  obtain ⟨hrest, hx⟩ := hx h
  refine ⟨hrest, ?_⟩
  intro s
  have hbody : x c { s.placed c.text input with depth := (s.placed c.text input).depth + 1 }
      = .ok a (State.placed { s with depth := s.depth + 1 } c.text rest) :=
    hx { s with depth := s.depth + 1 }
  rw [Reading.nested]
  rw [hlimit]
  simp only [Option.any_none, Bool.false_eq_true, if_false, hbody]
  rfl

/-- A scanner that finds a piece in front of the rest. -/
theorem scan {scanner : Grammar → Cursor → Scan α} {a : α} {w : List Char}
    (hsplit : input = w ++ rest)
    (h : ∀ i, restAt c.text i = input →
      scanner c.dialect.grammar ⟨c.text, i⟩ = ⟨i + w.length, .ok a⟩) :
    Takes c (Reading.scan scanner) input a rest := by
  intro hin
  have hscan := h _ (restAt_of_suffix hin)
  have hrest : rest <:+ c.text.toList := ((List.suffix_append w rest).trans (hsplit ▸ hin))
  refine ⟨hrest, ?_⟩
  intro s
  have hlen := hin.length_le
  have htotal : c.text.toList.length = c.text.size := Array.length_toList
  rw [hsplit, List.length_append] at hlen
  have hindex : c.text.size - input.length + w.length = c.text.size - rest.length := by
    rw [hsplit, List.length_append]
    omega
  rw [hindex] at hscan
  exact scan_of_ok hscan

/-! ### Tokens -/

theorem name {w : String} (h : NameToken c.dialect.grammar input w rest) :
    Takes c (Reading.scan Lexeme.name) input w rest := by
  refine scan h.split ?_
  intro i hi
  rw [String.length_toList]
  exact Lexeme.name_of_token (hi ▸ h)

theorem number {raw : String} {value : Float}
    (h : NumberToken c.dialect.grammar input raw value rest) :
    Takes c (Reading.scan Lexeme.number) input (.literal (.number value) raw) rest := by
  refine scan h.split ?_
  intro i hi
  rw [String.length_toList]
  exact Lexeme.number_of_token (hi ▸ h)

theorem string {raw value : String} (h : StringToken input raw value rest) :
    Takes c (Reading.scan fun _ => Lexeme.string) input (.literal (.string value) raw) rest := by
  refine scan h.split ?_
  intro i hi
  rw [String.length_toList]
  exact Lexeme.string_of_token (hi ▸ h)

/-! ### The comment callback -/

/-- A script that looks around sees the place in front of the input. -/
theorem look {next : View → Script} {node : Option Expr} {ending : Ending}
    (h : input <:+ c.text.toList → Takes c
      ((next ⟨c.dialect.grammar, ⟨c.text, c.text.size - input.length⟩, node⟩).run node)
      input ending rest) :
    Takes c ((Script.look next).run node) input ending rest :=
  fun hin => h hin hin

theorem advance (front : List Char) {n : UInt64} {next : Script} {node : Option Expr}
    {ending : Ending} (hn : n.toNat = front.length) (hsmall : front.length < UInt64.size / 2)
    (h : Takes c (next.run node) mid ending rest) :
    Takes c ((Script.advance n next).run node) (front ++ mid) ending rest := by
  intro hin
  have hstep : Takes c (Reading.forward front.length) (front ++ mid) () mid := forward front
  obtain ⟨hmid, hforward⟩ := hstep hin
  obtain ⟨hrest, hnext⟩ := h hmid
  refine ⟨hrest, ?_⟩
  intro s
  have hstep := hforward s
  rw [forward_apply, ← hn] at hstep
  rw [Script.run_advance (by omega), (Reply.ok.inj hstep).2]
  exact hnext s

theorem skipBlock {start n : Nat} (h : BlockBody input rest) (hn : input.length ≤ n) :
    Takes c ((Comments.skipBlock start n).run none) input ⟨none, none⟩ rest := by
  induction h generalizing n with
  | @close rest =>
    obtain ⟨n, rfl⟩ : ∃ m, n = m + 1 := ⟨n - 1, by simp only [List.length_cons] at hn; omega⟩
    refine look ?_
    intro hin
    have hclose : (⟨c.text, c.text.size - ('*' :: '/' :: rest).length⟩ : Cursor).startsWith "*/" :=
      startsWith_iff.mpr ⟨rest, (restAt_of_suffix hin).symm⟩
    rw [if_pos hclose]
    exact advance ['*', '/'] rfl (by decide) (pure _)
  | @next ch input rest hopen _ ih =>
    obtain ⟨n, rfl⟩ : ∃ m, n = m + 1 := ⟨n - 1, by simp only [List.length_cons] at hn; omega⟩
    refine look ?_
    intro hin
    have hclose : ¬ (⟨c.text, c.text.size - (ch :: input).length⟩ : Cursor).startsWith "*/" := by
      rw [startsWith_iff, restAt_of_suffix hin]
      exact hopen
    have hend : ¬ (⟨c.text, c.text.size - (ch :: input).length⟩ : Cursor).atEnd := by
      have hlen := hin.length_le
      have htotal : c.text.toList.length = c.text.size := Array.length_toList
      simp only [Cursor.atEnd, List.length_cons, decide_eq_true_eq] at hlen ⊢
      omega
    have hone : 1 < UInt64.size / 2 := by decide
    rw [if_neg hclose, if_neg hend]
    exact advance [ch] rfl hone (ih (by simpa using hn))

theorem comment (h : Comment input rest) :
    Takes c (Comments.script.run none) input ⟨none, none⟩ rest := by
  refine look ?_
  intro hin
  have hrest := restAt_of_suffix hin
  cases h with
  | @line input =>
    have hline : (⟨c.text, c.text.size - ('/' :: '/' :: input).length⟩ : Cursor).startsWith "//" :=
      startsWith_iff.mpr ⟨input, hrest.symm⟩
    rw [if_pos hline]
    intro _
    -- the rest of the line is skipped character by character
    have hskip : input.dropWhile (· ≠ '\n') = ('/' :: '/' :: input).dropWhile (· ≠ '\n') := by
      rw [List.dropWhile_cons_of_pos (by decide), List.dropWhile_cons_of_pos (by decide)]
    have hlen : (restAt c.text (c.text.size - ('/' :: '/' :: input).length)).length
        ≤ (⟨c.text, c.text.size - ('/' :: '/' :: input).length⟩ : Cursor).remaining :=
      Nat.le_of_eq length_restAt
    refine ⟨((List.dropWhile_suffix _).trans ⟨['/', '/'], rfl⟩).trans hin, ?_⟩
    intro s
    obtain ⟨i, hrun, hi, hend⟩ := run_skipLine (s := s.placed c.text ('/' :: '/' :: input)) hlen
    rw [State.placed_index, hrest, ← hskip] at hi
    rw [hrun, index_of_restAt hi (hend (Nat.sub_le _ _))]
    rfl
  | @block input rest hbody =>
    have hline :
        ¬ (⟨c.text, c.text.size - ('/' :: '*' :: input).length⟩ : Cursor).startsWith "//" := by
      rw [startsWith_iff, hrest]
      simp
    have hblock : (⟨c.text, c.text.size - ('/' :: '*' :: input).length⟩ : Cursor).startsWith "/*" :=
      startsWith_iff.mpr ⟨input, hrest.symm⟩
    rw [if_neg hline, if_pos hblock]
    refine advance ['/', '*'] rfl (by decide) (skipBlock hbody ?_)
    have hlen := congrArg List.length hrest
    rw [length_restAt] at hlen
    simp only [List.length_cons] at hlen
    simp only [Cursor.remaining, List.length_cons]
    omega

theorem noComment (h : ¬ StartsComment input) :
    Takes c (Comments.script.run none) input ⟨none, none⟩ input := by
  refine look ?_
  intro hin
  have hrest := restAt_of_suffix hin
  have hline : ¬ (⟨c.text, c.text.size - input.length⟩ : Cursor).startsWith "//" := by
    rw [startsWith_iff, hrest]
    exact fun hp => h (.inl hp)
  have hblock : ¬ (⟨c.text, c.text.size - input.length⟩ : Cursor).startsWith "/*" := by
    rw [startsWith_iff, hrest]
    exact fun hp => h (.inr hp)
  rw [if_neg hline, if_neg hblock]
  exact pure _

/-! ### White space -/

theorem settle {node : Option Expr} : Takes c (Reading.settle ⟨node, none⟩) input node input :=
  fun h => ⟨h, fun _ => rfl⟩

theorem blanksCallback (hd : c.dialect.Plain) (hc : c.dialect.HasComments)
    (h : Comment input rest) : Takes c (notify .blanks none) input none rest := by
  intro hin
  obtain ⟨h', hp, hscript⟩ := hd.blanks.resolve_left hc
  obtain ⟨hrest, hrun⟩ := (comment h).bind settle hin
  refine ⟨hrest, ?_⟩
  intro s
  rw [notify_of_singleton hp, hscript]
  exact hrun s

theorem noBlanksCallback (hd : c.dialect.Plain)
    (h : c.dialect.HasComments → ¬ StartsComment input) :
    Takes c (notify .blanks none) input none input := by
  intro hin
  refine ⟨hin, ?_⟩
  intro s
  rcases hd.blanks with hp | ⟨h', hp, hscript⟩
  · exact notify_of_nil hp
  · have hc : c.dialect.HasComments := by simp [Dialect.HasComments, hp]
    obtain ⟨-, hrun⟩ := (noComment (h hc)).bind settle hin
    rw [notify_of_singleton hp, hscript]
    exact hrun s

theorem skipWhile_isBlank (hin : input <:+ c.text.toList) :
    Cursor.skipWhile ⟨c.text, c.text.size - input.length⟩ Grammar.isBlank
      (c.text.size - input.length)
        = c.text.size - (input.dropWhile Grammar.isBlank).length := by
  have hlen := hin.length_le
  have htotal : c.text.toList.length = c.text.size := Array.length_toList
  have hparts := congrArg List.length
    (List.takeWhile_append_dropWhile (p := Grammar.isBlank) (l := input))
  rw [List.length_append] at hparts
  rw [skipWhile_eq, restAt_of_suffix hin]
  omega

theorem skipBlanksWithin (hd : c.dialect.Plain) {n : Nat}
    (h : Skips c.dialect.HasComments input rest) (hn : input.length + 1 ≤ n) :
    Takes c (Reading.skipBlanksWithin n) input () rest := by
  induction n generalizing input with
  | zero => omega
  | succ n ih =>
    intro hin
    have hdrop := List.dropWhile_suffix (l := input) Grammar.isBlank
    have hbefore := skipWhile_isBlank hin
    have hmove : Takes c (moveTo (c.text.size - (input.dropWhile Grammar.isBlank).length)) input ()
        (input.dropWhile Grammar.isBlank) :=
      fun _ => ⟨hdrop.trans hin, fun _ => rfl⟩
    rw [Reading.skipBlanksWithin]
    refine cursor.bind ?_ hin
    rw [hbefore]
    rcases h.round with ⟨rfl, hno⟩ | ⟨hc, mid, hcomment, hmore⟩
    · refine hmove.bind ((noBlanksCallback hd hno).bind (cursor.bind ?_))
      rw [if_pos rfl]
      exact pure ()
    · -- a comment moves the cursor, so another round follows
      have hlt := hcomment.length_lt
      have hle := hin.length_le
      have htotal : c.text.toList.length = c.text.size := Array.length_toList
      have hdrop' := hdrop.length_le
      refine hmove.bind ((blanksCallback hd hc hcomment).bind (cursor.bind ?_))
      rw [if_neg (by simp only []; omega)]
      exact ih hmore (by omega)

theorem skipBlanks (hd : c.dialect.Plain) (h : Skips c.dialect.HasComments input rest)
    (hn : input.length + 1 ≤ c.budget) : Takes c Reading.skipBlanks input () rest :=
  budget.bind (skipBlanksWithin hd h hn)

/-! ### The conditional callback -/

theorem notify_nil {p : HookPoint} {node : Option Expr} (hp : c.dialect.hooks.get p = []) :
    Takes c (notify p node) input node input :=
  fun h => ⟨h, fun _ => notify_of_nil hp⟩

theorem search_nil {p : HookPoint} (hp : c.dialect.hooks.get p = []) :
    Takes c (search p) input none input :=
  fun h => ⟨h, fun _ => search_of_nil hp⟩

/-- The end of an expression that no conditional goes on from. -/
theorem noConditional (hd : c.dialect.Plain) {node : Option Expr}
    (h : node.isSome → c.dialect.HasConditionals → input.head? ≠ some '?') :
    Takes c (notify .expressionDone node) input node input := by
  intro hin
  refine ⟨hin, ?_⟩
  intro s
  cases node with
  | none => exact notify_conditional_none hd
  | some test =>
    by_cases hc : c.dialect.HasConditionals
    · refine (notify_conditional_eq_ok hd hc).mpr (.inl ⟨?_, rfl, rfl⟩)
      rw [getElem?_eq_head?, State.placed_index, restAt_of_suffix hin]
      exact h rfl hc
    · exact notify_of_nil (Classical.not_not.mp hc)

theorem conditional (hd : c.dialect.Plain) (hc : c.dialect.HasConditionals)
    {test consequent alternate : Expr} {afterMark afterColon : List Char}
    (hcons : Takes c (reenter .expression) afterMark (some consequent) (':' :: afterColon))
    (halt : Takes c (reenter .expression) afterColon (some alternate) rest) :
    Takes c (notify .expressionDone (some test)) ('?' :: afterMark)
      (some (.conditional test consequent alternate)) rest := by
  intro hin
  have hpassMark : Takes c (Reading.forward 1) ('?' :: afterMark) () afterMark := forward_one
  have hpassColon : Takes c (Reading.forward 1) (':' :: afterColon) () afterColon := forward_one
  obtain ⟨hmark, hforward⟩ := hpassMark hin
  obtain ⟨hcolon, hcons⟩ := hcons hmark
  obtain ⟨hafter, hforward'⟩ := hpassColon hcolon
  obtain ⟨hrest, halt⟩ := halt hafter
  refine ⟨hrest, ?_⟩
  intro s
  have hstep := (Reply.ok.inj (hforward s)).2
  have hstep' := (Reply.ok.inj (hforward' s)).2
  refine (notify_conditional_eq_ok hd hc).mpr (.inr ⟨?_, consequent,
    s.placed c.text (':' :: afterColon), alternate, ?_, ?_, ?_, rfl⟩)
  · rw [getElem?_eq_head?, State.placed_index, restAt_of_suffix hin]
    rfl
  · rw [hstep]
    exact hcons s
  · rw [getElem?_eq_head?, State.placed_index, restAt_of_suffix hcolon]
    rfl
  · rw [hstep']
    exact halt s

end Takes

end Reading

end OperatorGrammar
