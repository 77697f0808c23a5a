/-
OperatorGrammar/Proofs/InFront.lean

A text that is read to its end, in front of more text.

Reading looks ahead, so a text need not be read as before when more text follows
it: a name or an operator may go on, links may follow, an operator may.  The text
behind `Halts` what is read when nothing of that can happen.  A reading that may
end with the text may then as well end in front of it (`Reads.inFront`).

White space at the beginning of the text behind belongs to the tokens in front of
it or to those that follow.  So a place at the end of the shorter text is one of
two places in the longer one (`Extends`): in front of that white space, or behind
it.
-/
import OperatorGrammar.Proofs.Reads
import OperatorGrammar.Proofs.Stretch

namespace OperatorGrammar

variable {g : Grammar} {comments : Prop} {input input' rest k : List Char}

/-- Nothing that is read goes on with the text: no name, number or operator runs into it, and
behind its white space no operand, operator or link starts. -/
structure Grammar.Halts (g : Grammar) (k : List Char) : Prop where
  breaks : ∀ ch ∈ k.head?, g.Breaks ch
  lead : g.lead (k.dropWhile Grammar.isBlank) = .nothing
  operator : g.binaryOpIn (k.dropWhile Grammar.isBlank) = none
  links : EndsLinks (k.dropWhile Grammar.isBlank)

/-! ### Places in the longer text -/

/-- The same place, when the text `k` stands behind. -/
inductive Extends (k : List Char) : List Char → List Char → Prop
  | behind (input : List Char) : Extends k input (input ++ k)
  /-- At the end of the shorter text, white space may have been skipped already. -/
  | skipped : Extends k [] (k.dropWhile Grammar.isBlank)

/-- The place behind white space, when the text `k` stands behind. -/
def ahead (k : List Char) : List Char → List Char
  | [] => k.dropWhile Grammar.isBlank
  | ch :: rest => ch :: (rest ++ k)

theorem extends_ahead (k rest : List Char) : Extends k rest (ahead k rest) := by
  cases rest with
  | nil => exact .skipped
  | cons ch rest => exact .behind (ch :: rest)

theorem ahead_append {front : List Char} (h : front ≠ []) :
    ahead k (front ++ rest) = front ++ (rest ++ k) := by
  cases front with
  | nil => exact absurd rfl h
  | cons ch front => exact congrArg (ch :: ·) (List.append_assoc ..)

theorem Extends.eq_append (h : Extends k input input') (hne : input ≠ []) :
    input' = input ++ k := by
  cases h with
  | behind => rfl
  | skipped => exact absurd rfl hne

theorem Extends.dropWhile (h : Extends k input input') :
    input'.dropWhile Grammar.isBlank = ahead k (input.dropWhile Grammar.isBlank) := by
  cases h with
  | behind =>
    induction input with
    | nil => rfl
    | cons ch input ih =>
      by_cases hch : Grammar.isBlank ch
      · rw [List.cons_append, List.dropWhile_cons_of_pos hch, List.dropWhile_cons_of_pos hch, ih]
      · rw [List.cons_append, List.dropWhile_cons_of_neg hch, List.dropWhile_cons_of_neg hch]
        rfl
  | skipped => exact dropWhile_isBlank_of_head (head?_dropWhile_run k)

/-- White space is skipped to the same place. -/
theorem Skips.inFront (h : Skips comments input rest) (hc : ¬ comments)
    (hinput : Extends k input input') : Skips comments input' (ahead k rest) := by
  have hskips := skips_dropWhile hc input'
  rwa [hinput.dropWhile, ← h.eq_dropWhile hc] at hskips

/-- What holds of the next character, and of the first one of the text behind. -/
theorem head?_append_of {p : Char → Prop} (h : ∀ ch ∈ rest.head?, p ch)
    (hk : ∀ ch ∈ k.head?, p ch) : ∀ ch ∈ (rest ++ k).head?, p ch := by
  cases rest with
  | nil => exact hk
  | cons ch rest => exact h

/-! ### Tokens -/

section Tokens

variable (hk : g.Halts k)
include hk

theorem Grammar.Halts.sameStretch (input : List Char) :
    SameStretch g input.toArray (input ++ k).toArray 0 0 input.length := by
  refine ⟨fun j hj => ?_, by simp, by simp, by simp, ?_⟩
  · simp [List.getElem?_append_left hj]
  · have hbreaks := hk.breaks
    rw [List.head?_eq_getElem?] at hbreaks
    simpa [List.getElem?_append_right] using hbreaks

theorem unaryOpIn_inFront (hne : input ≠ []) : g.unaryOpIn (input ++ k) = g.unaryOpIn input := by
  exact (Lexeme.unaryOperator_alike (hk.sameStretch input) fun h =>
    absurd (List.eq_nil_of_length_eq_zero h) hne).1

theorem binaryOpIn_inFront (hne : input ≠ []) :
    g.binaryOpIn (input ++ k) = g.binaryOpIn input := by
  exact (Lexeme.binaryOperator_alike (hk.sameStretch input) fun h =>
    absurd (List.eq_nil_of_length_eq_zero h) hne).1

theorem lead_ahead (input : List Char) : g.lead (ahead k input) = g.lead input := by
  cases input with
  | nil => exact hk.lead
  | cons ch input =>
    have hop : g.unaryOpIn (ch :: (input ++ k)) = g.unaryOpIn (ch :: input) :=
      unaryOpIn_inFront hk (List.cons_ne_nil ch input)
    rw [ahead, Grammar.lead, Grammar.lead, hop]

theorem binaryOpIn_ahead (input : List Char) :
    g.binaryOpIn (ahead k input) = g.binaryOpIn input := by
  cases input with
  | nil => exact hk.operator.trans Grammar.binaryOpIn_nil.symm
  | cons ch input => exact binaryOpIn_inFront hk (List.cons_ne_nil ch input)

theorem NameToken.inFront {w : String} (h : NameToken g input w rest) :
    NameToken g (ahead k input) w (rest ++ k) where
  isName := h.isName
  split := by
    obtain ⟨first, more, hw, -⟩ := h.isName
    have hne : w.toList ≠ [] := by simp [hw]
    rw [h.split, ahead_append hne]
  maximal := head?_append_of h.maximal fun ch hch => (hk.breaks ch hch).part

theorem NumberToken.inFront {raw : String} {value : Float}
    (h : NumberToken g input raw value rest) :
    NumberToken g (ahead k input) raw value (rest ++ k) where
  isNumeral := h.isNumeral
  value := h.value
  split := by
    obtain ⟨first, more, hraw, -⟩ := h.isNumeral.exists_cons
    have hne : raw.toList ≠ [] := by simp [hraw]
    rw [h.split, ahead_append hne]
  stops := head?_append_of h.stops fun ch hch =>
    ⟨(hk.breaks ch hch).start, (hk.breaks ch hch).digit, (hk.breaks ch hch).point⟩

theorem EndsLinks.inFront (h : EndsLinks input) : EndsLinks (ahead k input) := by
  rcases input with - | ⟨first, - | ⟨second, input⟩⟩
  · exact hk.links
  · refine ⟨h.1, fun hprefix => ?_⟩
    obtain ⟨-, hprefix⟩ := List.cons_prefix_cons.mp hprefix
    obtain ⟨more, rfl⟩ := hprefix
    exact (hk.breaks '.' rfl).point rfl
  · refine ⟨h.1, fun hprefix => h.2 ?_⟩
    obtain ⟨hfirst, hprefix⟩ := List.cons_prefix_cons.mp hprefix
    obtain ⟨hsecond, -⟩ := List.cons_prefix_cons.mp hprefix
    exact ⟨input, by rw [hfirst, hsecond]; rfl⟩

theorem OpensLink.inFront {form : LinkForm} {optional : Bool}
    (h : OpensLink comments input form optional rest) (hc : ¬ comments) :
    ∃ rest', Extends k rest rest' ∧ OpensLink comments (ahead k input) form optional rest' := by
  cases h with
  | plain hform => exact ⟨_, .behind rest, .plain hform⟩
  | optionalIndex hskips => exact ⟨_, .behind rest, .optionalIndex (hskips.inFront hc (.behind _))⟩
  | optionalCall hskips => exact ⟨_, .behind rest, .optionalCall (hskips.inFront hc (.behind _))⟩
  | optionalProperty hskips hbracket hparen =>
    -- no link starts behind, so neither bracket does
    have hne {ch : Char} {form : LinkForm} (hch : LinkForm.ofChar? ch = some form)
        (h : rest.head? ≠ some ch) : (ahead k rest).head? ≠ some ch := by
      cases rest with
      | nil =>
        intro hhead
        have hnone := hk.links.1 ch hhead
        rw [hch] at hnone
        cases hnone
      | cons first rest => exact h
    exact ⟨_, extends_ahead k rest, .optionalProperty (hskips.inFront hc (.behind _)) (hne rfl hbracket)
      (hne rfl hparen)⟩

end Tokens

theorem StringToken.inFront {raw value : String} (h : StringToken input raw value rest) :
    StringToken (ahead k input) raw value (rest ++ k) where
  shape := h.shape
  split := by
    obtain ⟨q, body, -, hraw, -⟩ := h.shape
    have hne : raw.toList ≠ [] := by simp [hraw]
    rw [h.split, ahead_append hne]

/-! ### Readings -/

/-- The phrase, where a program or group is closed by what comes next. -/
def Phrase.closedBy (next : List Char) : Phrase → Phrase
  | .items _ nodes => .items next.head? nodes
  | p => p

/-- The phrase does not go on at a text that halts: an expression has no conditional there, and
a program no separator. -/
def Phrase.EndsAt (conditionals : Prop) (next : List Char) : Phrase → Prop
  | .expression _ => conditionals → next.head? ≠ some '?'
  | .items _ _ => (conditionals → next.head? ≠ some '?') ∧
      ∀ ch ∈ next.head?, ¬ (ch = ';' ∨ ch = ',')
  | _ => True

/-- No list ends with the text. -/
theorem Reads.list_ne_nil {d : Dialect} {A : List SlotEvent → Prop} {kind : ListKind}
    {before after : Slots} {events : List SlotEvent}
    (h : Reads d A (.list kind before events after) input rest) : input ≠ [] := by
  have hskips {ch : Char} {more : List Char} (h : Skips d.HasComments [] (ch :: more)) : False := by
    simpa using h.length_le
  rintro rfl
  cases h with
  | listEnd h _ => exact hskips h
  | listComma h _ _ => exact hskips h
  | listFill h _ _ _ _ _ _ => exact hskips h

section Readings

variable {d : Dialect} {A : List SlotEvent → Prop} (hc : ¬ d.HasComments)
  (hk : d.grammar.Halts k)
include hc hk

/-- No expression starts there. -/
theorem reads_ahead : Reads d A (.expression none) (k.dropWhile Grammar.isBlank)
    (k.dropWhile Grammar.isBlank) := by
  have hstop : Skips d.HasComments (k.dropWhile Grammar.isBlank) (k.dropWhile Grammar.isBlank) :=
    skips_nothing hc (head?_dropWhile_run k)
  exact .expression (.noChain (.noOperand hstop hk.lead)) hstop nofun

/-- A phrase that may end with the text may as well end in front of a text that halts. -/
theorem Reads.inFront {p : Phrase} (h : Reads d A p input rest)
    (hends : rest = [] → p.EndsAt d.HasConditionals (k.dropWhile Grammar.isBlank))
    (hinput : Extends k input input') :
    ∃ rest', Extends k rest rest' ∧ Reads d A (p.closedBy rest') input' rest' := by
  induction h generalizing input' with
  | @expression _ _ _ rest _ hskips hno ih =>
    obtain ⟨mid', hmid, hread⟩ := ih (fun _ => trivial) hinput
    refine ⟨_, extends_ahead k rest, .expression hread (hskips.inFront hc hmid) fun he hcond => ?_⟩
    cases rest with
    | nil => exact hends rfl hcond
    | cons ch rest => exact hno he hcond
  | conditional _ hcond hskips _ _ ih ih' ih'' =>
    obtain ⟨mid', hmid, htest⟩ := ih (fun _ => trivial) hinput
    obtain ⟨_, hcolon, hconsequent⟩ := ih' nofun (.behind _)
    rw [hcolon.eq_append (List.cons_ne_nil _ _)] at hconsequent
    obtain ⟨rest', hrest, halternate⟩ := ih'' hends (.behind _)
    exact ⟨rest', hrest, .conditional htest hcond (hskips.inFront hc hmid) hconsequent halternate⟩
  | noChain _ ih =>
    obtain ⟨rest', hrest, hread⟩ := ih (fun _ => trivial) hinput
    exact ⟨rest', hrest, .noChain hread⟩
  | chain _ _ ih ih' =>
    obtain ⟨mid', hmid, hfirst⟩ := ih (fun _ => trivial) hinput
    obtain ⟨rest', hrest, htail⟩ := ih' (fun _ => trivial) hmid
    exact ⟨rest', hrest, .chain hfirst htail⟩
  | @tailEnd _ _ rest hskips hop =>
    exact ⟨_, extends_ahead k rest, .tailEnd (hskips.inFront hc hinput)
      ((binaryOpIn_ahead hk rest).trans hop)⟩
  | @tailPutBack _ _ rest hskips hop hzero =>
    exact ⟨_, extends_ahead k rest, .tailPutBack (hskips.inFront hc hinput)
      ((binaryOpIn_ahead hk rest).trans hop) hzero⟩
  | @tailOperator _ op _ _ _ afterOp _ _ hskips hop hprec _ _ ih ih' =>
    obtain ⟨mid', hmid, hread⟩ := ih (fun _ => trivial) (.behind _)
    obtain ⟨rest', hrest, htail⟩ := ih' (fun _ => trivial) hmid
    have hsplit : ahead k (op.toList ++ afterOp) = op.toList ++ (afterOp ++ k) :=
      ahead_append (Grammar.binaryOpIn_sound hop).2.1
    refine ⟨rest', hrest, .tailOperator ?_ ?_ hprec hread htail⟩
    · exact hsplit ▸ hskips.inFront hc hinput
    · rw [← hsplit, binaryOpIn_ahead hk, hop]
  | @noOperand _ rest hskips hlead =>
    exact ⟨_, extends_ahead k rest, .noOperand (hskips.inFront hc hinput)
      ((lead_ahead hk rest).trans hlead)⟩
  | @number _ _ _ start rest hskips hlead htoken =>
    exact ⟨_, .behind rest, .number (hskips.inFront hc hinput) ((lead_ahead hk start).trans hlead)
      (htoken.inFront hk)⟩
  | @string _ _ _ _ start mid _ hskips hlead htoken _ ih =>
    obtain ⟨rest', hrest, hlinks⟩ := ih (fun _ => trivial) (.behind mid)
    exact ⟨rest', hrest, .string (hskips.inFront hc hinput) ((lead_ahead hk start).trans hlead)
      htoken.inFront hlinks⟩
  | array hskips _ hA _ ih ih' =>
    obtain ⟨mid', hmid, hlist⟩ := ih (fun _ => trivial) (.behind _)
    obtain ⟨rest', hrest, hlinks⟩ := ih' (fun _ => trivial) hmid
    exact ⟨rest', hrest, .array (hskips.inFront hc hinput) hlist hA hlinks⟩
  | @unary op _ _ afterOp _ hskips hlead _ ih =>
    obtain ⟨rest', hrest, hread⟩ := ih (fun _ => trivial) (.behind _)
    have hsplit : ahead k (op.toList ++ afterOp) = op.toList ++ (afterOp ++ k) :=
      ahead_append (Grammar.unaryOpIn_sound (Grammar.unaryOpIn_of_lead hlead)).2.1
    refine ⟨rest', hrest, .unary ?_ ?_ hread⟩
    · exact hsplit ▸ hskips.inFront hc hinput
    · rw [← hsplit, lead_ahead hk, hlead]
  | @name _ _ _ start mid _ hskips hlead htoken _ ih =>
    obtain ⟨rest', hrest, hlinks⟩ := ih (fun _ => trivial) (.behind mid)
    exact ⟨rest', hrest, .name (hskips.inFront hc hinput) ((lead_ahead hk start).trans hlead)
      (htoken.inFront hk) hlinks⟩
  | @group _ _ _ _ inside mid _ hskips hlead _ hnode _ ih ih' =>
    obtain ⟨_, hclose, hitems⟩ := ih nofun (.behind inside)
    rw [hclose.eq_append (List.cons_ne_nil _ _)] at hitems
    obtain ⟨rest', hrest, hlinks⟩ := ih' (fun _ => trivial) (.behind mid)
    exact ⟨rest', hrest, .group (hskips.inFront hc hinput)
      ((lead_ahead hk ('(' :: inside)).trans hlead) hitems hnode hlinks⟩
  | @emptyGroup _ inside rest hskips hlead _ ih =>
    obtain ⟨_, hclose, hitems⟩ := ih nofun (.behind inside)
    rw [hclose.eq_append (List.cons_ne_nil _ _)] at hitems
    exact ⟨_, .behind rest, .emptyGroup (hskips.inFront hc hinput)
      ((lead_ahead hk ('(' :: inside)).trans hlead) hitems⟩
  | @linksEnd _ _ rest hskips hlinks =>
    exact ⟨_, extends_ahead k rest, .linksEnd (hskips.inFront hc hinput) (hlinks.inFront hk)⟩
  | @property _ _ _ _ _ _ _ _ mid _ hskips hopens hskips' htoken _ ih =>
    obtain ⟨opened', hopened, hopens'⟩ := hopens.inFront hk hc
    obtain ⟨rest', hrest, hlinks⟩ := ih (fun _ => trivial) (.behind mid)
    exact ⟨rest', hrest, .property (hskips.inFront hc hinput) hopens' (hskips'.inFront hc hopened)
      (htoken.inFront hk) hlinks⟩
  | @index _ _ _ _ _ _ _ mid after _ hskips hopens _ hskips' _ ih ih' =>
    have hne : mid = [] → False := by
      rintro rfl
      simpa using hskips'.length_le
    obtain ⟨opened', hopened, hopens'⟩ := hopens.inFront hk hc
    obtain ⟨mid', hmid, hkey⟩ := ih (fun hnil => (hne hnil).elim) hopened
    obtain ⟨rest', hrest, hlinks⟩ := ih' (fun _ => trivial) (.behind after)
    exact ⟨rest', hrest, .index (hskips.inFront hc hinput) hopens' hkey (hskips'.inFront hc hmid)
      hlinks⟩
  | call hskips hopens _ _ ih ih' =>
    obtain ⟨opened', hopened, hopens'⟩ := hopens.inFront hk hc
    obtain ⟨mid', hmid, hlist⟩ := ih (fun _ => trivial) hopened
    obtain ⟨rest', hrest, hlinks⟩ := ih' (fun _ => trivial) hmid
    exact ⟨rest', hrest, .call (hskips.inFront hc hinput) hopens' hlist hlinks⟩
  | @listEnd _ _ _ rest hskips hclosable =>
    exact ⟨_, .behind rest, .listEnd (hskips.inFront hc hinput) hclosable⟩
  | listComma hskips hcomma _ ih =>
    obtain ⟨rest', hrest, hlist⟩ := ih (fun _ => trivial) (.behind _)
    exact ⟨rest', hrest, .listComma (hskips.inFront hc hinput) hcomma hlist⟩
  | listFill hskips hcloser hcomma haccepts _ hcompound hmore ih ih' =>
    obtain ⟨mid', hmid, hread⟩ := ih (fun hnil => absurd hnil hmore.list_ne_nil) (.behind _)
    obtain ⟨rest', hrest, hlist⟩ := ih' (fun _ => trivial) hmid
    exact ⟨rest', hrest, .listFill (hskips.inFront hc hinput) hcloser hcomma haccepts hread
      hcompound hlist⟩
  -- the end of the text is now a place where no expression starts
  | @itemsEnd _ _ hskips =>
    refine ⟨_, extends_ahead k [], ?_⟩
    have hskips' := hskips.inFront hc hinput
    obtain ⟨-, hseparator⟩ := hends rfl
    have hnone := reads_ahead (A := A) hc hk
    change Skips _ input' (k.dropWhile Grammar.isBlank) at hskips'
    show Reads d A (.items (k.dropWhile Grammar.isBlank).head? []) input'
      (k.dropWhile Grammar.isBlank)
    rcases hahead : k.dropWhile Grammar.isBlank with - | ⟨ch, more⟩
    · rw [hahead] at hskips'
      exact .itemsEnd hskips'
    · rw [hahead] at hskips' hseparator hnone
      exact .itemsStop hskips' (hseparator ch rfl) hnone (.inr ⟨ch, rfl, rfl⟩)
  | itemsSeparator hskips hsep _ ih =>
    obtain ⟨rest', hrest, hitems⟩ := ih hends (.behind _)
    exact ⟨rest', hrest, .itemsSeparator (hskips.inFront hc hinput) hsep hitems⟩
  | @item _ _ _ _ _ _ mid rest hskips hsep _ hmore ih ih' =>
    have hlast : mid = [] → rest = [] := by
      rintro rfl
      exact List.suffix_nil.mp hmore.suffix
    obtain ⟨mid', hmid, hread⟩ := ih (fun hnil => (hends (hlast hnil)).1) (.behind _)
    obtain ⟨rest', hrest, hitems⟩ := ih' hends hmid
    exact ⟨rest', hrest, .item (hskips.inFront hc hinput) hsep hread hitems⟩
  | itemsStop hskips hsep _ hstop ih =>
    obtain ⟨rest', hrest, hread⟩ := ih (fun hnil => (hends hnil).1) (.behind _)
    refine ⟨rest', hrest, .itemsStop (hskips.inFront hc hinput) hsep hread ?_⟩
    cases rest' with
    | nil => exact .inl rfl
    | cons ch more => exact .inr ⟨ch, rfl, rfl⟩

end Readings

end OperatorGrammar
