/-
OperatorGrammar/Proofs/Separators.lean

Programs with a separator between them.

A text that ends in a separator and is parsed on its own is parsed to the same
expressions when more text follows: no production looks past the separator, when
no operator and no name goes on with it (`expressionsWithin_cut`).  Behind the
separator the loop of the program goes on as at the start of a text, with the
expressions so far in front of the further ones (`expressionsWithin_append`), so
that the rest is read as if it were alone (`expressionsWithin_shifted`).

The first of the two runs that are compared ends at the separator.  Inside a
group or a list it is lost there, because it comes to the end of the text without
a closing character, while the second run may go on.

Main result: `Dialect.parse_separated`.
-/
import OperatorGrammar.Proofs.OpenLevels
import OperatorGrammar.Proofs.Sameness
import OperatorGrammar.Proofs.Shifted
import OperatorGrammar.Proofs.TopLevel

namespace OperatorGrammar

open Reading

/-- A string in front of a last character that is no quote ends in front of it. -/
theorem StringToken.split_last {input rest : List Char} {last : Char} {raw value : String}
    (h : StringToken (input ++ [last]) raw value rest) (hlast : ¬ IsQuote last) :
    ∃ left, input = raw.toList ++ left ∧ rest = left ++ [last] := by
  obtain ⟨⟨q, body, hq, hraw, -⟩, hsplit⟩ := h
  rcases List.append_eq_append_iff.mp hsplit with ⟨left, hleft, hrest⟩ | ⟨left, hinput, hrest⟩
  · rcases left with - | ⟨ch, left⟩
    · exact ⟨[], by simpa using hleft.symm, by simpa using hrest.symm⟩
    · obtain ⟨rfl, hnil⟩ := List.cons.inj hrest
      obtain rfl := (List.append_eq_nil_iff.mp hnil.symm).1
      have hend := congrArg List.getLast? (hraw.symm.trans hleft)
      rw [List.getLast?_concat, ← List.cons_append, List.getLast?_concat] at hend
      exact absurd (Option.some.inj hend ▸ hq) hlast
  · exact ⟨left, hinput, hrest⟩

/-- At the end of the text, the loop of a program or group ends, too. -/
theorem ItemsRun.of_atEnd {c : Context} (hblanks : c.dialect.hooks.get .blanks = [])
    {closer : Option Char} {n : Nat} {nodes : List Expr} {s s₁ : State}
    (h : ItemsRun c closer n s nodes s₁) (hend : c.text[s.index]? = none) :
    nodes = [] ∧ s₁ = s := by
  have hstay {s₂ : State} (hskip : skipBlanks c s = .ok () s₂) : s₂ = s := by
    apply skipBlanks_stays hblanks ?_ hskip
    rw [hend]
    rintro _ ⟨⟩
  have hnone {s₂ : State} {ch : Char} (hskip : skipBlanks c s = .ok () s₂) :
      c.text[s₂.index]? ≠ some ch := by
    rw [hstay hskip, hend]
    rintro ⟨⟩
  cases h with
  | atEnd hskip _ => exact ⟨rfl, hstay hskip⟩
  | separator hskip hch _ _ => exact absurd hch (hnone hskip)
  | item hskip hch _ _ _ => exact absurd hch (hnone hskip)
  | stop hskip hch _ _ _ => exact absurd hch (hnone hskip)

/-! ### Separators -/

section Separator

variable {g : Grammar} {sep : Char} (hsep : sep = ';' ∨ sep = ',')
include hsep

/-- A separator is none of the characters that a production goes on with. -/
theorem ne_separator :
    ∀ ch ∈ ['(', ')', '[', ']', '.', '?', '+', '-', '\'', '"'], ch ≠ sep := by
  rcases hsep with rfl | rfl <;> simp

theorem not_isQuote_separator : ¬ IsQuote sep := by
  rcases hsep with rfl | rfl <;> simp [IsQuote]

theorem Grammar.Spares.breaks_separator (h : g.Spares sep) : g.Breaks sep := by
  apply h.breaks
  · exact (ne_separator hsep '.' (by decide)).symm
  · rcases hsep with rfl | rfl <;> decide

end Separator

/-! ### A text that ends in a separator, and one that goes on -/

/-- The same place in both texts, not behind the separator. -/
def UpTo (size i i' : Nat) : Prop := i' = i ∧ i ≤ size

theorem UpTo.add {size i k : Nat} (hi : i ≤ size) (hk : k ≤ size - i) :
    UpTo size (i + k) (i + k) :=
  ⟨rfl, by omega⟩

/-- Inside the front of a text, the rest of the front is left, and what is behind it. -/
theorem restAt_front {text : Array Char} {front rest : List Char} {i : Nat}
    (htext : text.toList = front ++ rest) (hi : i ≤ front.length) :
    restAt text i = front.drop i ++ rest := by
  rw [restAt, htext, List.drop_append_of_le_length hi]

section Cut

variable {g : Grammar} {text text' : Array Char} {front more : List Char} {sep : Char} {i i' : Nat}
  (htext : text.toList = front ++ [sep])
include htext

theorem size_cut : text.size = front.length + 1 := by
  rw [← Array.length_toList, htext, List.length_append]
  rfl

/-- Up to the separator there is a next character. -/
theorem exists_next_cut (hi : i ≤ front.length) : ∃ ch, text[i]? = some ch :=
  ⟨_, Array.getElem?_eq_getElem (by rw [size_cut htext]; omega)⟩

theorem getElem?_separator : text[front.length]? = some sep := by
  rw [← Array.getElem?_toList, htext]
  simp

theorem lt_of_ne_separator {ch : Char} (hi : i ≤ front.length) (hch : text[i]? = some ch)
    (hne : ch ≠ sep) : i < front.length := by
  refine Nat.lt_of_le_of_ne hi ?_
  rintro rfl
  rw [getElem?_separator htext] at hch
  exact hne (Option.some.inj hch).symm

variable (htext' : text'.toList = front ++ sep :: more)
include htext'

theorem getElem?_cut (hi : i ≤ front.length) : text'[i]? = text[i]? := by
  rw [← Array.getElem?_toList, ← Array.getElem?_toList, htext, htext']
  rcases Nat.lt_or_eq_of_le hi with hlt | rfl
  · rw [List.getElem?_append_left hlt, List.getElem?_append_left hlt]
  · simp

omit htext in
theorem lt_size_cut : front.length < text'.size := by
  rw [← Array.length_toList, htext', List.length_append]
  simp

theorem sameStretch_cut (hbreaks : g.Breaks sep) (hi : i ≤ front.length) :
    SameStretch g text text' i i (front.length - i) := by
  have hsize := size_cut htext
  have hsize' := lt_size_cut htext'
  have hends : ∀ ch ∈ text[i + (front.length - i)]?, g.Breaks ch := by
    rw [Nat.add_sub_of_le hi, getElem?_separator htext]
    rintro ch ⟨⟩
    exact hbreaks
  refine ⟨fun k hk => getElem?_cut htext htext' (by omega), by omega, by omega, hends, ?_⟩
  rw [getElem?_cut htext htext' (by omega)]
  exact hends

/-- The stretch is empty in front of the separator only. -/
theorem spares_cut (hspares : g.Spares sep) (hi : i ≤ front.length) (hn : front.length - i = 0)
    (ch : Char) (hch : text[i]? = some ch ∨ text'[i]? = some ch) : g.Spares ch := by
  rw [getElem?_cut htext htext' hi, or_self] at hch
  by_cases hne : ch = sep
  · exact hne ▸ hspares
  · exact absurd (lt_of_ne_separator htext hi hch hne) (by omega)

/-- A string that is closed in the first text is closed in front of the separator. -/
theorem string_cut (hsep : ¬ IsQuote sep) (hi : i ≤ front.length) {q : Char}
    (hq : text[i]? = some q) (hquote : IsQuote q) :
    (Lexeme.string ⟨text, i⟩).Follows .lenient (UpTo front.length) (Lexeme.string ⟨text', i⟩) := by
  rcases hscan : Lexeme.string ⟨text, i⟩ with ⟨j, cause | e⟩
  · exact .stop trivial
  obtain ⟨raw, value, rfl, htoken⟩ :=
    Lexeme.token_of_string (by rw [hq]; rintro _ ⟨⟩; exact hquote) hscan
  have hj := Lexeme.string_of_token htoken
  rw [restAt_front htext hi] at htoken
  obtain ⟨left, hfront, hleft⟩ := htoken.split_last hsep
  have htoken' : StringToken (restAt text' i) raw value (left ++ sep :: more) :=
    ⟨htoken.shape, by rw [restAt_front htext' hi, hfront, List.append_assoc]⟩
  rw [hscan] at hj
  rw [Lexeme.string_of_token htoken']
  obtain rfl : j = i + raw.length := congrArg Scan.index hj
  refine .ok ⟨rfl, ?_⟩
  have hlength := congrArg List.length hfront
  rw [List.length_drop, List.length_append, String.length_toList] at hlength
  omega

theorem alignment_cut (hsep : sep = ';' ∨ sep = ',') (hspares : g.Spares sep) :
    Alignment g text text' .lenient (fun i => i = front.length + 1) (UpTo front.length)
      (UpTo front.length) := by
  have hother := ne_separator hsep
  have hstretched {i : Nat} (hi : i ≤ front.length) :
      Stretched g text text' .lenient (UpTo front.length) i i (front.length - i) :=
    ⟨sameStretch_cut htext htext' (hspares.breaks_separator hsep) hi, fun _ hk => .add hi hk,
      fun _ _ _ _ _ => trivial, spares_cut htext htext' hspares hi⟩
  exact {
    weaken := fun _ _ hi => hi
    fails := fun _ _ _ _ => trivial
    current := by
      rintro _ i ⟨rfl, hi⟩
      exact getElem?_cut htext htext' hi
    past := by
      rintro _ i ch ⟨rfl, hi⟩ hch hmem
      have hne : ch ≠ sep := hother ch (List.mem_append_left _ hmem)
      exact ⟨rfl, lt_of_ne_separator htext hi hch hne⟩
    separator := by
      rintro _ i ch ⟨rfl, hi⟩ hch -
      rcases Nat.lt_or_eq_of_le hi with hlt | rfl
      · exact .inl ⟨rfl, hlt⟩
      · exact .inr rfl
    mark := by
      rintro _ i ⟨rfl, hi⟩ hch
      have hlt : i < front.length := lt_of_ne_separator htext hi hch (hother '?' (by decide))
      refine ⟨by rw [getElem?_cut htext htext' hlt], fun hdot => ⟨rfl, ?_⟩⟩
      exact lt_of_ne_separator htext hlt hdot (hother '.' (by decide))
    name := by
      rintro _ i ⟨rfl, hi⟩
      exact (hstretched hi).name
    number := by
      rintro _ i ⟨rfl, hi⟩
      exact (hstretched hi).number
    string := by
      rintro _ i q ⟨rfl, hi⟩ hq
      exact string_cut htext htext' (not_isQuote_separator hsep) hi hq
    unary := by
      rintro _ i ⟨rfl, hi⟩
      exact (hstretched hi).unary
    binary := by
      rintro _ i ⟨rfl, hi⟩
      exact (hstretched hi).binary }

/-! ### The two runs -/

variable {d : Dialect} (hd : d.HookFree)
include hd

omit htext' in
/-- Behind the separator the first text is at its end, where nothing is read. -/
theorem strays_cut (n : Nat) :
    Strays (d.context text n) .lenient fun i => False ∨ i = front.length + 1 := by
  have hend : text[front.length + 1]? = none := by
    rw [Array.getElem?_eq_none_iff, size_cut htext]
  refine ⟨fun _ _ _ => trivial, ?_, ?_, ?_⟩
  · rintro i (⟨⟨⟩⟩ | rfl)
    show ∀ ch ∈ text[front.length + 1]?, ch = '?'
    rw [hend]
    exact nofun
  · rintro s s₁ (⟨⟨⟩⟩ | hi) hok
    apply congrArg State.index
    apply skipBlanks_stays (hd _) ?_ hok
    show ∀ ch ∈ text[s.index]?, ¬ Grammar.isBlank ch
    rw [hi, hend]
    exact nofun
  · rintro s e s₁ (⟨⟨⟩⟩ | hi) hmark
    have hmark : text[s.index]? = some '?' := hmark
    rw [hi, hend] at hmark
    cases hmark

variable (hsep : sep = ';' ∨ sep = ',') (hspares : d.grammar.Spares sep)
include hsep hspares

theorem lockstep_cut {n m : Nat} (hnm : n ≤ m) :
    Lockstep (d.context text n) (d.context text' m) .lenient (fun _ => False)
      (fun i => i = front.length + 1) (UpTo front.length) (UpTo front.length) := by
  refine hd.lockstep (alignment_cut htext htext' hsep hspares) (strays_cut htext hd) ?_ hnm
  rintro _ i ⟨rfl, hi⟩
  have hblank : ∀ {rest : List Char}, ∀ ch ∈ (sep :: rest).head?, ¬ Grammar.isBlank ch := by
    rintro _ ch ⟨⟩
    rcases hsep with rfl | rfl <;> decide
  have hlength := ( List.takeWhile_prefix (l := front.drop i) Grammar.isBlank).length_le
  rw [List.length_drop] at hlength
  rw [skipWhile_eq, skipWhile_eq, restAt_front htext hi, restAt_front htext' hi,
    takeWhile_append_of_head hblank, takeWhile_append_of_head hblank]
  exact .add hi hlength

/-- The loop of a program that reads the first text to its end reads the same expressions of
the second text up to the separator, and goes on behind it. -/
theorem expressionsWithin_cut {n m k k' : Nat} (hnm : n ≤ m) (hk : k ≤ k') (found : Array Expr)
    {nodes : List Expr} {s s' s₁ : State} (hs : UpTo front.length s.index s'.index)
    (hdepth : s'.depth = s.depth) (hrun : ItemsRun (d.context text n) none k s nodes s₁) :
    ∃ j s₂, k' ≤ j + k ∧ s₂.index = front.length + 1 ∧ s₂.depth = s₁.depth ∧
      expressionsWithin none k' found (d.context text' m) s' =
        expressionsWithin none j (found ++ nodes.toArray) (d.context text' m) s₂ := by
  have hlock := lockstep_cut htext htext' hd hsep hspares hnm
  have hsize := size_cut htext
  have hsize' := lt_size_cut htext'
  induction hrun generalizing k' found s' with
  -- the first text does not end up to the separator
  | atEnd hskip hend =>
    obtain ⟨_, -, ⟨-, hbound⟩, -⟩ := hlock.skip.ok hs hdepth hskip id
    obtain ⟨ch, hch⟩ := exists_next_cut htext hbound
    exact absurd (hch.symm.trans hend) (Option.some_ne_none ch)
  | @separator k ch nodes s s₃ s₁ hskip hch hsep hrun ih =>
    obtain ⟨k', rfl, hle⟩ := exists_eq_succ hk
    obtain ⟨s₃', hskip', ⟨hindex, hbound⟩, hdepth₃⟩ := hlock.skip.ok hs hdepth hskip id
    have hch' : (d.context text' m).text[s₃'.index]? = some ch := by
      rw [hindex]
      exact (getElem?_cut htext htext' hbound).trans hch
    rw [expressionsWithin_separator hskip' hch' hsep]
    rcases Nat.lt_or_eq_of_le hbound with hlt | heq
    · have hs₄ : UpTo front.length (min (s₃.index + 1) text.size)
          ({ s₃' with index := min (s₃'.index + 1) text'.size } : State).index :=
        ⟨by show min _ _ = _; omega, by omega⟩
      obtain ⟨j, s₂, hj, hrest⟩ := ih hle found hs₄ hdepth₃
      exact ⟨j, s₂, by omega, hrest⟩
    · -- behind the separator the first text is at its end
      have hend : text[min (s₃.index + 1) text.size]? = none := by
        rw [Array.getElem?_eq_none_iff]
        omega
      obtain ⟨rfl, rfl⟩ := hrun.of_atEnd (hd _) hend
      refine ⟨k', { s₃' with index := min (s₃'.index + 1) text'.size }, by omega, ?_, hdepth₃, ?_⟩
      · show min (s₃'.index + 1) text'.size = front.length + 1
        omega
      · rw [Array.append_empty]
        rfl
  | @item k ch e nodes s s₃ s₄ s₁ hskip hch hsep henter _ ih =>
    obtain ⟨k', rfl, hle⟩ := exists_eq_succ hk
    obtain ⟨s₃', hskip', hs₃, hdepth₃⟩ := hlock.skip.ok hs hdepth hskip id
    have hch' : (d.context text' m).text[s₃'.index]? = some ch := by
      rw [hs₃.1]
      exact (getElem?_cut htext htext' hs₃.2).trans hch
    obtain ⟨s₄', henter', hs₄, hdepth₄⟩ := hlock.expression.ok hs₃ hdepth₃ henter id
    rw [expressionsWithin_item hskip' hch' hsep henter']
    obtain ⟨j, s₂, hj, hindex, hdepth₂, hrest⟩ := ih hle (found.push e) hs₄ hdepth₄
    exact ⟨j, s₂, by omega, hindex, hdepth₂, by simpa using hrest⟩
  | stop hskip _ _ henter hlast =>
    obtain ⟨_, -, hs₃, hdepth₃⟩ := hlock.skip.ok hs hdepth hskip id
    obtain ⟨_, -, hs₄, -⟩ := hlock.expression.ok hs₃ hdepth₃ henter id
    obtain ⟨last, hnext⟩ := exists_next_cut htext hs₄.2
    cases hlast last hnext

end Cut

/-! ### Behind the separator -/

namespace Reading

theorem bind_bind {α β γ : Type} (x : Reading α) (f : α → Reading β) (g : β → Reading γ) :
    x >>= f >>= g = x >>= fun a => f a >>= g := by
  funext c s
  rw [bind_apply, bind_apply, bind_apply]
  cases x c s <;> rfl

theorem outcome_bind_pure {α β : Type} {c : Context} {s : State} (x : Reading α) (f : α → β) :
    ((x >>= fun a => pure (f a)) c s).outcome? = (x c s).outcome?.map (Except.map f) := by
  rw [bind_apply]
  cases x c s <;> rfl

/-- What the loop of a program or group has found so far stands in front of the rest. -/
theorem expressionsWithin_append (closer : Option Char) (n : Nat) (front found : Array Expr) :
    expressionsWithin closer n (front ++ found) =
      expressionsWithin closer n found >>= fun nodes => pure (front.toList ++ nodes) := by
  induction n generalizing found with
  | zero => rfl
  | succ n ih =>
    have hlast : (pure (front ++ found).toList : Reading (List Expr))
        = pure found.toList >>= fun nodes => pure (front.toList ++ nodes) := by
      rw [Array.toList_append]
      rfl
    rw [expressionsWithin, expressionsWithin, bind_bind]
    congr 1
    funext _
    rw [bind_bind]
    congr 1
    funext next
    cases next with
    | none => exact hlast
    | some ch =>
      dsimp only
      split
      · rw [bind_bind]
        congr 1
        funext _
        exact ih found
      · rw [bind_bind]
        congr 1
        funext e
        cases e with
        | some e =>
          dsimp only
          rw [Array.push_append]
          exact ih _
        | none =>
          dsimp only
          rw [bind_bind]
          congr 1
          funext last
          cases last with
          | none => exact hlast
          | some last =>
            dsimp only
            split
            · exact hlast
            · rfl

end Reading

namespace Dialect

variable {d : Dialect} {text : Array Char} {n : Nat}

theorem expressionsWithin_depth {closer : Option Char} {k : Nat} {found : Array Expr}
    {nodes : List Expr} {s s' : State}
    (h : expressionsWithin closer k found (d.context text n) s = .ok nodes s') :
    s'.depth = s.depth := by
  have hkeeps := (steady_atDepth (e := fun _ => d.run text n) (f := fun _ => d.run text n)
    (run_keepsDepth n) s.depth).kept.expressionsWithin
      (run_keepsDepth n s.depth .expression) closer k found s ⟨rfl, trivial⟩
  have hstate : Reply.state? (expressionsWithin closer k found (d.context text n) s) = some s' := by
    rw [h]
    rfl
  exact (hkeeps.returns (fun _ he => he) (fun _ _ hs => hs) hstate).2.1

/-- Without callbacks, a program is its loop, and the list of expressions is bundled. -/
theorem HookFree.outcome_parseWithin (hd : d.HookFree) :
    (d.parseWithin n text).outcome? =
      (expressionsWithin none n #[] (d.context text n) .initial).outcome?.map
        (Except.map (Expr.bundle .compound)) := by
  have hloop : expressions none (d.context text n) .initial
      = expressionsWithin none n #[] (d.context text n) .initial := rfl
  rw [parseWithin, program, bind_of_ok (notify_of_nil (hd _)), bind_apply, hloop]
  cases expressionsWithin none n #[] (d.context text n) .initial with
  | ok nodes s => exact congrArg Reply.outcome? (notify_of_nil (c := d.context text n) (hd _))
  | fail e s => rfl
  | exhausted => rfl

/-- The list of expressions that the loop of a text finds, before it is bundled, on a budget
that is enough. -/
def expressionsOf (d : Dialect) (text : String) : Option (Except Failure (List Expr)) :=
  (expressionsWithin none (2 * text.length + 4) #[]
    (d.context text.toList.toArray (2 * text.length + 4)) .initial).outcome?

namespace HookFree

variable (hd : d.HookFree)
include hd

theorem parse_eq_some_iff_expressionsOf {text : String} {o : Except Failure (Option Expr)} :
    d.parse text = some o ↔
      ∃ found, d.expressionsOf text = some found ∧ found.map (Expr.bundle .compound) = o := by
  rw [hd.parse_eq_some_iff (Nat.le_refl _), hd.outcome_parseWithin, Option.map_eq_some_iff]
  exact Iff.rfl

/-- The list is found again in the answer. -/
theorem topLevel_expressionsOf {text : String} {nodes : List Expr}
    (h : d.expressionsOf text = some (.ok nodes)) :
    Expr.topLevel (Expr.bundle .compound nodes) = nodes := by
  obtain ⟨s, hnodes⟩ := Reply.eq_ok_of_outcome h
  obtain ⟨more, rfl, hrun⟩ := itemsRun_of_expressionsWithin hnodes
  have hsound := context_sound hd.plain text.toList.toArray (2 * text.length + 4)
  exact Expr.topLevel_bundle (reads_of_itemsRun hd.plain hsound hrun).notCompound

/-- Behind a text that ends in a separator and is parsed, the loop goes on as if it started
there, with the expressions of the first text in front. -/
theorem parse_joined {sep : Char} (hsep : sep = ';' ∨ sep = ',') (hspares : d.grammar.Spares sep)
    {a b : String} {nodes : List Expr} {found : Except Failure (List Expr)}
    (ha : d.expressionsOf (a ++ String.singleton sep) = some (.ok nodes))
    (hb : d.expressionsOf b = some found) :
    d.parse (a ++ String.singleton sep ++ b) =
      some (((found.mapError (·.moved (a.length + 1))).map (nodes ++ ·)).map
        (Expr.bundle .compound)) := by
  obtain ⟨s₁, hnodes⟩ := Reply.eq_ok_of_outcome ha
  obtain ⟨more, rfl, hrun⟩ := itemsRun_of_expressionsWithin hnodes
  -- the joined text is read on a budget for both
  have hbudget : 2 * (a ++ String.singleton sep).length + 4 + (2 * b.length + 4)
      ≤ budgetFor (a ++ String.singleton sep ++ b).length := by
    simp only [String.length_append, budgetFor]
    omega
  have hle := Nat.le_of_add_right_le hbudget
  -- the loop comes to the separator, and goes on behind it
  have htext : (a ++ String.singleton sep).toList.toArray.toList = a.toList ++ [sep] := by simp
  have htext' : (a ++ String.singleton sep ++ b).toList.toArray.toList
      = a.toList ++ sep :: b.toList := by simp
  have hstart : UpTo a.toList.length State.initial.index State.initial.index :=
    ⟨rfl, Nat.zero_le _⟩
  obtain ⟨rounds, s₂, hrounds, hindex, hdepth, hjoined⟩ :=
    expressionsWithin_cut htext htext' hd hsep hspares hle hle #[] hstart rfl hrun
  -- the rest is read as if it were alone
  have hfront : (a ++ String.singleton sep ++ b).toList.toArray.toList
      = (a.toList ++ [sep]) ++ b.toList.toArray.toList := by simp
  have hlength : (a.toList ++ [sep]).length = a.length + 1 := by
    rw [List.length_append, String.length_toList]
    rfl
  have hrounds' : 2 * b.length + 4 ≤ rounds := by omega
  have hbehind : Shifted b.toList.toArray (a.toList ++ [sep]).length State.initial.index s₂.index :=
    ⟨by simp [hindex, State.initial], Nat.zero_le _⟩
  have hrest := (expressionsWithin_shifted hfront hd (Nat.le_of_add_left_le hbudget) hrounds'
    .initial s₂ hbehind (hdepth.trans (expressionsWithin_depth hnodes))).outcome_of_shifted hb
  rw [parse, parseReply, hd.outcome_parseWithin, hjoined, Array.empty_append,
    ← @Array.append_empty _ nodes.toArray, expressionsWithin_append, outcome_bind_pure, hrest,
    hlength]
  rfl

end HookFree

/-- **A separator joins two programs.**  Where a text that ends in a separator is parsed, any
text may follow: if that one is parsed on its own, both results are joined, and if it fails,
the same failure comes at the same place of it.  Nothing of the first text matters for the
second one, and the first is not read on past the separator. -/
theorem parse_separated (hd : d.HookFree) {sep : Char} (hsep : sep = ';' ∨ sep = ',')
    (hspares : d.grammar.Spares sep) {a b : String} {r : Option Expr}
    (ha : d.parse (a ++ String.singleton sep) = some (.ok r)) :
    (∃ o, d.parse b = some o) ∧
      (∀ r', d.parse b = some (.ok r') →
        d.parse (a ++ String.singleton sep ++ b) = some (.ok (Expr.join r r'))) ∧
      ∀ e, d.parse b = some (.error e) →
        d.parse (a ++ String.singleton sep ++ b) = some (.error (e.moved (a.length + 1))) := by
  obtain ⟨first, hfirst, hr⟩ := hd.parse_eq_some_iff_expressionsOf.mp ha
  obtain ⟨o, ho⟩ := hd.parse_answers b
  obtain ⟨second, hsecond, rfl⟩ := hd.parse_eq_some_iff_expressionsOf.mp ho
  cases first with
  | error e => cases hr
  | ok nodes =>
    cases hr
    rw [hd.parse_joined hsep hspares hfirst hsecond, ho]
    refine ⟨⟨_, rfl⟩, fun r' hr' => ?_, fun e he => ?_⟩
    · cases second with
      | error e => cases hr'
      | ok nodes' =>
        cases hr'
        rw [Expr.join, hd.topLevel_expressionsOf hfirst, hd.topLevel_expressionsOf hsecond]
        rfl
    · cases second with
      | ok nodes' => cases he
      | error e' =>
        cases he
        rfl

/-- Under a low limit: the levels that the first text opened are closed behind the semicolon,
the semicolon in its string is none, and the offset of a failure is counted from its start. -/
theorem parse_separated_semicolon :
    let d := standard.mapGrammar (·.setNestingLimit (some 4))
    let r : Option Expr := some (.array [some (.quoted ";")])
    let r' : Option Expr := some (.compound [.signed "-" (.identifier "x"), .identifier "y"])
    let joined : Expr :=
      .compound [.array [some (.quoted ";")], .signed "-" (.identifier "x"), .identifier "y"]
    d.HookFree ∧ d.grammar.Spares ';' ∧ d.parse ("[';'] " ++ String.singleton ';') = some (.ok r) ∧
      d.parse " -x, y" = some (.ok r') ∧
      d.parse ("[';'] " ++ String.singleton ';' ++ " -x, y") = some (.ok (some joined)) ∧
      d.parse "((y))" = some (.error ⟨.nestingLimit, 2⟩) ∧
      d.parse ("[';'] " ++ String.singleton ';' ++ "((y))") =
        some (.error ⟨.nestingLimit, 9⟩) := by
  intro d r r' joined
  have hd : d.HookFree := fun p => by cases p <;> rfl
  have hspares : d.grammar.Spares ';' := by decide
  have hfirst : d.parse ("[';'] " ++ String.singleton ';') = some (.ok r) :=
    parse_of_parsesAs (by decide +kernel) rfl
  have hsecond : d.parse " -x, y" = some (.ok r') := parse_of_parsesAs (by decide +kernel) rfl
  have hfails : d.parse "((y))" = some (.error ⟨.nestingLimit, 2⟩) :=
    parse_of_failsAs (by decide +kernel)
  have hjoined := (parse_separated hd (.inl rfl) hspares hfirst).2.1 r' hsecond
  have hmoved := (parse_separated hd (.inl rfl) hspares hfirst).2.2 _ hfails
  have hlength : "[';'] ".length = 6 := by decide +kernel
  rw [hlength] at hmoved
  exact ⟨hd, hspares, hfirst, hsecond, hjoined, hfails, hmoved⟩

end Dialect

end OperatorGrammar
