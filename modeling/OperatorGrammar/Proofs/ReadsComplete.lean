/-
OperatorGrammar/Proofs/ReadsComplete.lean

Without a nesting limit, a plain dialect reads every reading.

Each rule of `Reads` is matched by one path through a production, and its run is
put together from the runs of the smaller readings (`Takes`).  What remains to
be watched is the budget.  A production re-enters the grammar either in front of
fewer characters, or an expression enters an operand in front of the same ones;
so twice the number of characters, and a little more, is enough depth, and one
more than their number is enough rounds of a loop (`Phrase.Taken`).  The last
bound holds because whatever answers a node takes at least one character
(`Reads.width`).

Main results: `Dialect.parse_of_reads` and, since a run has one answer,
`Reads.program_unique`.
-/
import OperatorGrammar.Proofs.Takes
import OperatorGrammar.Proofs.ReadsSound

namespace OperatorGrammar

/-! ### How much a phrase takes -/

theorem NumberToken.length_lt {g : Grammar} {input rest : List Char} {raw : String} {value : Float}
    (h : NumberToken g input raw value rest) : rest.length < input.length := by
  obtain ⟨whole, fraction, exponent, hraw, -, -, -, hdigit⟩ := h.isNumeral
  have hlen := congrArg List.length h.split
  rw [hraw] at hlen
  simp only [List.length_append] at hlen
  by_cases hw : whole = []
  · have hfraction := hdigit hw
    omega
  · have hpos := List.length_pos_iff.mpr hw
    omega

theorem StringToken.length_lt {input rest : List Char} {raw value : String}
    (h : StringToken input raw value rest) : rest.length < input.length := by
  obtain ⟨q, body, -, hraw, -⟩ := h.shape
  have hlen := congrArg List.length h.split
  rw [hraw] at hlen
  simp only [List.length_append, List.length_cons] at hlen
  omega

theorem NameToken.length_lt {g : Grammar} {input rest : List Char} {w : String}
    (h : NameToken g input w rest) : rest.length < input.length := by
  obtain ⟨first, more, hw, -, -⟩ := h.isName
  have hlen := congrArg List.length h.split
  rw [hw] at hlen
  simp only [List.length_append, List.length_cons] at hlen
  omega

theorem OpensLink.length_lt {comments : Prop} {input rest : List Char} {form : LinkForm}
    {optional : Bool} (h : OpensLink comments input form optional rest) :
    rest.length < input.length := by
  cases h with
  | plain _ => simp
  | optionalIndex h =>
    have hle := h.suffix.length_le
    simp only [List.length_cons] at hle ⊢
    omega
  | optionalCall h =>
    have hle := h.suffix.length_le
    simp only [List.length_cons] at hle ⊢
    omega
  | optionalProperty h _ _ =>
    have hle := h.suffix.length_le
    simp only [List.length_cons] at hle ⊢
    omega

/-- The least number of characters that a phrase takes. -/
def Phrase.width : Phrase → Nat
  | .expression e => if e.isSome then 1 else 0
  | .chain e => if e.isSome then 1 else 0
  | .operand e => if e.isSome then 1 else 0
  | _ => 0

theorem Reads.width {d : Dialect} {A : List SlotEvent → Prop} {p : Phrase} {input rest : List Char}
    (h : Reads d A p input rest) : rest.length + p.width ≤ input.length := by
  -- every rule either passes on what its parts take or takes a character of its own
  induction h with
  | expression _ hskips _ ih =>
    have hle := hskips.length_le
    simp only [Phrase.width] at ih ⊢
    omega
  | conditional _ _ hskips _ _ ih ih' ih'' =>
    have hle := hskips.length_le
    simp only [Phrase.width, Option.isSome_some, if_true, List.length_cons] at ih ih' ih'' hle ⊢
    omega
  | noChain _ ih => exact ih
  | chain _ _ ih ih' =>
    simp only [Phrase.width, Option.isSome_some, if_true] at ih ih' ⊢
    omega
  | tailEnd hskips _ => exact hskips.length_le
  | tailPutBack hskips _ _ => exact hskips.length_le
  | tailOperator hskips _ _ _ _ ih ih' =>
    have hle := hskips.length_le
    rw [List.length_append] at hle
    simp only [Phrase.width, Option.isSome_some, if_true] at ih ih' ⊢
    omega
  | noOperand hskips _ => exact hskips.length_le
  | number hskips _ htoken =>
    have hle := hskips.length_le
    have hlt := htoken.length_lt
    simp only [Phrase.width, Option.isSome_some, if_true]
    omega
  | string hskips _ htoken _ ih =>
    have hle := hskips.length_le
    have hlt := htoken.length_lt
    simp only [Phrase.width, Option.isSome_some, if_true] at ih ⊢
    omega
  | array hskips _ _ _ ih ih' =>
    have hle := hskips.length_le
    simp only [Phrase.width, Option.isSome_some, if_true, List.length_cons] at ih ih' hle ⊢
    omega
  | unary hskips _ _ ih =>
    have hle := hskips.length_le
    rw [List.length_append] at hle
    simp only [Phrase.width, Option.isSome_some, if_true] at ih ⊢
    omega
  | name hskips _ htoken _ ih =>
    have hle := hskips.length_le
    have hlt := htoken.length_lt
    simp only [Phrase.width, Option.isSome_some, if_true] at ih ⊢
    omega
  | group hskips _ _ _ _ ih ih' =>
    have hle := hskips.length_le
    simp only [Phrase.width, Option.isSome_some, if_true, List.length_cons] at ih ih' hle ⊢
    omega
  | emptyGroup hskips _ _ ih =>
    have hle := hskips.length_le
    simp only [Phrase.width, List.length_cons] at ih hle ⊢
    simp only [Option.isSome_none, Bool.false_eq_true, if_false]
    omega
  | linksEnd hskips _ => exact hskips.length_le
  | property hskips hopens hskips' htoken _ ih =>
    have hle := hskips.length_le
    have hle' := hskips'.length_le
    have hlt := hopens.length_lt
    have hlt' := htoken.length_lt
    simp only [Phrase.width] at ih ⊢
    omega
  | index hskips hopens _ hskips' _ ih ih' =>
    have hle := hskips.length_le
    have hle' := hskips'.length_le
    have hlt := hopens.length_lt
    simp only [Phrase.width, List.length_cons] at ih ih' hle' ⊢
    omega
  | call hskips hopens _ _ ih ih' =>
    have hle := hskips.length_le
    have hlt := hopens.length_lt
    simp only [Phrase.width] at ih ih' ⊢
    omega
  | listEnd hskips _ =>
    have hle := hskips.length_le
    simp only [Phrase.width, List.length_cons] at hle ⊢
    omega
  | listComma hskips _ _ ih =>
    have hle := hskips.length_le
    simp only [Phrase.width, List.length_cons] at ih hle ⊢
    omega
  | listFill hskips _ _ _ _ _ _ ih ih' =>
    have hle := hskips.length_le
    simp only [Phrase.width] at ih ih' ⊢
    omega
  | itemsEnd _ => simp [Phrase.width]
  | itemsSeparator hskips _ _ ih =>
    have hle := hskips.length_le
    simp only [Phrase.width, List.length_cons] at ih hle ⊢
    omega
  | item hskips _ _ _ ih ih' =>
    have hle := hskips.length_le
    simp only [Phrase.width] at ih ih' ⊢
    omega
  | itemsStop hskips _ _ _ ih =>
    have hle := hskips.length_le
    simp only [Phrase.width] at ih ⊢
    omega

/-! ### One path through a production -/

namespace Reading

namespace Takes

variable {c : Context} {input start mid rest : List Char}

theorem binaryOp_none (hd : c.dialect.Plain) (hn : input.length + 1 ≤ c.budget)
    (hskips : Skips c.dialect.HasComments input rest)
    (hop : c.dialect.grammar.binaryOpIn rest = none) : Takes c binaryOp input none rest := by
  intro hin
  have hrest := hskips.suffix.trans hin
  refine (skipBlanks hd hskips hn).bind (grammar.bind (cursor.bind ?_)) hin
  rw [Lexeme.binaryOperator_eq, restAt_of_suffix hrest, hop]
  exact pure none

theorem binaryOp_some (hd : c.dialect.Plain) (hn : input.length + 1 ≤ c.budget) {op : String}
    (hskips : Skips c.dialect.HasComments input (op.toList ++ rest))
    (hop : c.dialect.grammar.binaryOpIn (op.toList ++ rest) = some op) :
    Takes c binaryOp input (some (c.dialect.grammar.binaryOp op)) rest := by
  intro hin
  have hrest := hskips.suffix.trans hin
  refine (skipBlanks hd hskips hn).bind (grammar.bind (cursor.bind ?_)) hin
  rw [Lexeme.binaryOperator_eq, restAt_of_suffix hrest, hop]
  exact forward_string.bind (pure _)

/-- Moving back over an operator puts it back. -/
theorem rewind {op : String} (h : op.toList ++ rest <:+ c.text.toList) :
    Takes c (Reading.rewind op.length) rest () (op.toList ++ rest) := by
  intro _
  refine ⟨h, ?_⟩
  intro s
  have hindex : c.text.size - rest.length - op.length
      = c.text.size - (op.toList ++ rest).length := by
    rw [List.length_append, String.length_toList]
    omega
  rw [rewind_apply, State.placed_index, hindex]
  rfl

theorem rightOperand {op : BinaryOp} {e : Expr}
    (h : Takes c (reenter .operand) input (some e) rest) :
    Takes c (Reading.rightOperand op) input e rest :=
  h.bind (pure e)

theorem chainEnd {n : Nat} {found : Array (BinaryOp × Expr)}
    (h : Takes c binaryOp input none rest) :
    Takes c (chainWithin (n + 1) found) input found.toList rest :=
  h.bind (pure _)

theorem chainPutBack (hd : c.dialect.Plain) (hn : input.length + 1 ≤ c.budget) {n : Nat}
    {found : Array (BinaryOp × Expr)} {op : String}
    (hskips : Skips c.dialect.HasComments input (op.toList ++ rest))
    (hop : c.dialect.grammar.binaryOpIn (op.toList ++ rest) = some op)
    (hzero : c.dialect.grammar.precedence op = 0) :
    Takes c (chainWithin (n + 1) found) input found.toList (op.toList ++ rest) := by
  intro hin
  refine (binaryOp_some hd hn hskips hop).bind ?_ hin
  have hzero' : (c.dialect.grammar.binaryOp op).precedence = 0 := hzero
  simp only [hzero', if_true]
  exact (rewind (hskips.suffix.trans hin)).bind (pure _)

theorem chainStep {n : Nat} {found : Array (BinaryOp × Expr)} {op : BinaryOp} {e : Expr}
    {pairs : List (BinaryOp × Expr)} (hprec : op.precedence ≠ 0)
    (hop : Takes c binaryOp input (some op) start)
    (he : Takes c (reenter .operand) start (some e) mid)
    (hmore : Takes c (chainWithin n (found.push (op, e))) mid
      ((found.push (op, e)).toList ++ pairs) rest) :
    Takes c (chainWithin (n + 1) found) input (found.toList ++ (op, e) :: pairs) rest := by
  refine hop.bind ?_
  simp only [hprec, if_false]
  refine (rightOperand he).bind ?_
  simpa using hmore

theorem chainStart {op : BinaryOp} {e : Expr} {pairs : List (BinaryOp × Expr)}
    (hop : Takes c binaryOp input (some op) start)
    (he : Takes c (reenter .operand) start (some e) mid)
    (hmore : Takes c (chainWithin c.budget #[(op, e)]) mid ([(op, e)] ++ pairs) rest) :
    Takes c chainRest input ((op, e) :: pairs) rest :=
  hop.bind ((rightOperand he).bind (budget.bind hmore))

theorem binaryExpression {first : Expr} {pairs : List (BinaryOp × Expr)}
    (hfirst : Takes c (reenter .operand) input (some first) mid)
    (hrest : Takes c chainRest mid pairs rest) :
    Takes c Reading.binaryExpression input (some (Chain.tree first pairs)) rest :=
  hfirst.bind (hrest.bind (pure _))

/-- An expression, given its chain and what the callbacks make of it. -/
theorem expression (hd : c.dialect.Plain) (hlimit : c.dialect.grammar.nestingLimit = none)
    (hn : mid.length + 1 ≤ c.budget) {node e : Option Expr}
    (hchain : Takes c Reading.binaryExpression input node mid)
    (hskips : Skips c.dialect.HasComments mid start)
    (hdone : Takes c (notify .expressionDone node) start e rest) :
    Takes c Reading.expression input e rest :=
  nested hlimit ((search_nil hd.expression).bind
    (hchain.bind ((skipBlanks hd hskips hn).bind hdone)))

/-! ### Lists and programs -/

theorem listEnd (hd : c.dialect.Plain) (hn : input.length + 1 ≤ c.budget) {kind : ListKind}
    {n : Nat} {slots : Slots} (hskips : Skips c.dialect.HasComments input (kind.closer :: rest))
    (hclosable : slots.closable kind) :
    Takes c (slotsWithin kind (n + 1) slots) input slots.items.toList rest := by
  refine (skipBlanks hd hskips hn).bind (current.bind ?_)
  simp only [List.head?_cons, if_true]
  refine forward_one.bind ?_
  rw [if_pos hclosable]
  exact pure _

theorem listComma (hd : c.dialect.Plain) (hn : input.length + 1 ≤ c.budget) {kind : ListKind}
    {n : Nat} {before next : Slots} {items : List (Option Expr)}
    (hskips : Skips c.dialect.HasComments input (',' :: mid))
    (hnext : before.comma kind = some next)
    (hmore : Takes c (slotsWithin kind n next) mid items rest) :
    Takes c (slotsWithin kind (n + 1) before) input items rest := by
  refine (skipBlanks hd hskips hn).bind (current.bind ?_)
  simp only [List.head?_cons, kind.comma_ne_closer, if_false, if_true]
  refine forward_one.bind ?_
  rw [hnext]
  exact hmore

theorem listFill (hd : c.dialect.Plain) (hn : input.length + 1 ≤ c.budget) {kind : ListKind}
    {n : Nat} {before : Slots} {e : Expr} {ch : Char} {more : List Char}
    {items : List (Option Expr)} (hskips : Skips c.dialect.HasComments input (ch :: more))
    (hcloser : ch ≠ kind.closer) (hcomma : ch ≠ ',') (haccepts : before.accepts)
    (he : Takes c (reenter .expression) (ch :: more) (some e) mid) (hcompound : ¬ e.isCompound)
    (hmore : Takes c (slotsWithin kind n (before.fill e)) mid items rest) :
    Takes c (slotsWithin kind (n + 1) before) input items rest := by
  refine (skipBlanks hd hskips hn).bind (current.bind ?_)
  simp only [List.head?_cons, hcloser, hcomma, haccepts, if_false, if_true]
  refine he.bind ?_
  simp only [hcompound]
  exact hmore

theorem itemsEnd (hd : c.dialect.Plain) (hn : input.length + 1 ≤ c.budget) {closer : Option Char}
    {n : Nat} {found : Array Expr} (hskips : Skips c.dialect.HasComments input []) :
    Takes c (expressionsWithin closer (n + 1) found) input found.toList [] :=
  (skipBlanks hd hskips hn).bind (current.bind (pure _))

theorem itemsSeparator (hd : c.dialect.Plain) (hn : input.length + 1 ≤ c.budget)
    {closer : Option Char} {n : Nat} {found : Array Expr} {nodes : List Expr} {ch : Char}
    (hskips : Skips c.dialect.HasComments input (ch :: mid)) (hsep : ch = ';' ∨ ch = ',')
    (hmore : Takes c (expressionsWithin closer n found) mid nodes rest) :
    Takes c (expressionsWithin closer (n + 1) found) input nodes rest := by
  refine (skipBlanks hd hskips hn).bind (current.bind ?_)
  simp only [List.head?_cons, hsep, if_true]
  exact forward_one.bind hmore

theorem item (hd : c.dialect.Plain) (hn : input.length + 1 ≤ c.budget) {closer : Option Char}
    {n : Nat} {found : Array Expr} {e : Expr} {nodes : List Expr} {ch : Char} {more : List Char}
    (hskips : Skips c.dialect.HasComments input (ch :: more)) (hsep : ¬ (ch = ';' ∨ ch = ','))
    (he : Takes c (reenter .expression) (ch :: more) (some e) mid)
    (hmore : Takes c (expressionsWithin closer n (found.push e)) mid nodes rest) :
    Takes c (expressionsWithin closer (n + 1) found) input nodes rest := by
  refine (skipBlanks hd hskips hn).bind (current.bind ?_)
  simp only [List.head?_cons, hsep, if_false]
  exact he.bind hmore

theorem itemsStop (hd : c.dialect.Plain) (hn : input.length + 1 ≤ c.budget) {closer : Option Char}
    {n : Nat} {found : Array Expr} {ch : Char} {more : List Char}
    (hskips : Skips c.dialect.HasComments input (ch :: more)) (hsep : ¬ (ch = ';' ∨ ch = ','))
    (he : Takes c (reenter .expression) (ch :: more) none rest)
    (hstop : rest = [] ∨ ∃ last, closer = some last ∧ rest.head? = some last) :
    Takes c (expressionsWithin closer (n + 1) found) input found.toList rest := by
  refine (skipBlanks hd hskips hn).bind (current.bind ?_)
  simp only [List.head?_cons, hsep, if_false]
  refine he.bind (current.bind ?_)
  rcases hstop with rfl | ⟨last, rfl, hlast⟩
  · exact pure _
  · rw [hlast]
    simp only [if_true]
    exact pure _

/-! ### Links -/

theorem linkStart_none (h : EndsLinks input) : Takes c linkStart input none input := by
  intro hin
  refine cursor.bind ?_ hin
  have hcur : (⟨c.text, c.text.size - input.length⟩ : Cursor).current = input.head? := by
    show c.text[c.text.size - input.length]? = _
    rw [getElem?_eq_head?, restAt_of_suffix hin]
  rw [hcur]
  cases input with
  | nil => exact pure none
  | cons ch more =>
    have hform : LinkForm.ofChar? ch = none := h.1 ch rfl
    have hmark : ¬ (ch = '?' ∧ (⟨c.text, c.text.size - (ch :: more).length⟩ : Cursor).charAt
        (c.text.size - (ch :: more).length + 1) = some '.') := by
      rintro ⟨rfl, hpoint⟩
      have hnext : (restAt c.text (c.text.size - ('?' :: more).length))[1]? = some '.' := by
        rw [← getElem?_add]
        exact hpoint
      rw [restAt_of_suffix hin, List.getElem?_cons_succ, ← List.head?_eq_getElem?,
        List.head?_eq_some_iff] at hnext
      obtain ⟨more', rfl⟩ := hnext
      exact h.2 ⟨more', rfl⟩
    simp only [List.head?_cons, hform, hmark, if_false]
    exact pure none

theorem linkStart_some (hd : c.dialect.Plain) (hn : input.length ≤ c.budget) {form : LinkForm}
    {optional : Bool} (h : OpensLink c.dialect.HasComments input form optional rest) :
    Takes c linkStart input (some (form, optional)) rest := by
  intro hin
  refine cursor.bind ?_ hin
  have hcur : (⟨c.text, c.text.size - input.length⟩ : Cursor).current = input.head? := by
    show c.text[c.text.size - input.length]? = _
    rw [getElem?_eq_head?, restAt_of_suffix hin]
  have hpoint : (⟨c.text, c.text.size - input.length⟩ : Cursor).charAt
      (c.text.size - input.length + 1) = input[1]? := by
    show c.text[c.text.size - input.length + 1]? = _
    rw [getElem?_add, restAt_of_suffix hin]
  rw [hcur, hpoint]
  have hquestion : LinkForm.ofChar? '?' = none := rfl
  cases h with
  | plain hform =>
    simp only [List.head?_cons, hform]
    exact forward_one.bind (pure _)
  -- after the mark, white space may stand in front of the bracket or parenthesis
  | @optionalIndex input rest hskips =>
    simp only [List.head?_cons, hquestion, List.getElem?_cons_succ, List.getElem?_cons_zero,
      and_self, if_true]
    simp only [List.length_cons] at hn
    refine (forward ['?', '.']).bind ((skipBlanks hd hskips (by omega)).bind (current.bind ?_))
    exact forward_one.bind (pure _)
  | @optionalCall input rest hskips =>
    simp only [List.head?_cons, hquestion, List.getElem?_cons_succ, List.getElem?_cons_zero,
      and_self, if_true]
    simp only [List.length_cons] at hn
    refine (forward ['?', '.']).bind ((skipBlanks hd hskips (by omega)).bind (current.bind ?_))
    exact forward_one.bind (pure _)
  | @optionalProperty input _ hskips hbracket hparen =>
    simp only [List.head?_cons, hquestion, List.getElem?_cons_succ, List.getElem?_cons_zero,
      and_self, if_true]
    simp only [List.length_cons] at hn
    refine (forward ['?', '.']).bind ((skipBlanks hd hskips (by omega)).bind (current.bind ?_))
    generalize rest.head? = next at hbracket hparen
    split
    · exact absurd rfl hbracket
    · exact absurd rfl hparen
    · exact pure _

theorem linksEnd (hd : c.dialect.Plain) (hn : input.length + 1 ≤ c.budget) {n : Nat} {node : Expr}
    (hskips : Skips c.dialect.HasComments input rest) (h : EndsLinks rest) :
    Takes c (Reading.skipBlanks >>= fun _ => linksWithin (n + 1) node) input node rest :=
  (skipBlanks hd hskips hn).bind ((linkStart_none h).bind (pure node))

/-- One round of the loop over links. -/
theorem link (hd : c.dialect.Plain) (hn : input.length + 1 ≤ c.budget) {n : Nat}
    {node linked e : Expr} {form : LinkForm} {optional : Bool} {opened : List Char}
    (hskips : Skips c.dialect.HasComments input start)
    (hopens : OpensLink c.dialect.HasComments start form optional opened)
    (hbody : Takes c (linkBody node form) opened linked mid)
    (hmore : Takes c (Reading.skipBlanks >>= fun _ => linksWithin n (.marked optional linked))
      mid e rest) :
    Takes c (Reading.skipBlanks >>= fun _ => linksWithin (n + 1) node) input e rest := by
  have hstart := hskips.length_le
  exact (skipBlanks hd hskips hn).bind
    ((linkStart_some hd (by omega) hopens).bind (hbody.bind hmore))

theorem property (hd : c.dialect.Plain) (hn : input.length + 1 ≤ c.budget) {node : Expr}
    {w : String} (hskips : Skips c.dialect.HasComments input start)
    (htoken : NameToken c.dialect.grammar start w rest) :
    Takes c (linkBody node .property) input (.link node (.identifier w) false) rest :=
  (skipBlanks hd hskips hn).bind ((name htoken).bind (pure _))

theorem index (hd : c.dialect.Plain) (hn : mid.length + 1 ≤ c.budget) {node key : Expr}
    (hkey : Takes c (reenter .expression) input (some key) mid)
    (hskips : Skips c.dialect.HasComments mid (']' :: rest)) :
    Takes c (linkBody node .index) input (.link node key true) rest := by
  refine hkey.bind ((skipBlanks hd hskips hn).bind (current.bind ?_))
  simp only [List.head?_cons, if_true]
  exact forward_one.bind (pure _)

theorem call {node : Expr} {items : List (Option Expr)}
    (hslots : Takes c (slotsWithin .arguments c.budget .empty) input items rest) :
    Takes c (linkBody node .call) input (.apply node (items.filterMap id)) rest :=
  (budget.bind hslots).bind (pure _)

/-! ### Operands -/

theorem linkedOperand (hd : c.dialect.Plain) {node e : Expr}
    (h : Takes c (Reading.skipBlanks >>= fun _ => linksWithin c.budget node) input e rest) :
    Takes c (Reading.linkedOperand (some node)) input (some e) rest := by
  have hlinks : Takes c (links node) input e rest := by
    intro hin
    obtain ⟨hrest, hrun⟩ := h hin
    exact ⟨hrest, hrun⟩
  exact hlinks.bind (notify_nil hd.operandDone)

/-- An operand, given the run of the branch that its lead chooses. -/
theorem operand (hd : c.dialect.Plain) (hlimit : c.dialect.grammar.nestingLimit = none)
    (hn : input.length + 1 ≤ c.budget) {lead : Lead} {e : Option Expr}
    (hskips : Skips c.dialect.HasComments input start)
    (hlead : c.dialect.grammar.lead start = lead)
    (h : Takes c (operandBy c.dialect.grammar lead) start e rest) :
    Takes c Reading.operand input e rest := by
  subst hlead
  refine nested hlimit ((skipBlanks hd hskips hn).bind ((search_nil hd.operand).bind
    (current.bind ?_)))
  cases start with
  | nil => exact h
  | cons ch more =>
    intro hin
    obtain ⟨hrest, hrun⟩ := h hin
    refine ⟨hrest, ?_⟩
    intro s
    have hfrom := operandFrom_apply (s := s.placed c.text (ch :: more)) (restAt_of_suffix hin)
    exact hfrom.trans (hrun s)

theorem operandNone (hd : c.dialect.Plain) :
    Takes c (operandBy c.dialect.grammar .nothing) input none input :=
  notify_nil hd.operandDone

theorem operandNumber {raw : String} {value : Float}
    (h : NumberToken c.dialect.grammar input raw value rest) :
    Takes c (operandBy c.dialect.grammar .number) input (some (.literal (.number value) raw))
      rest :=
  (number h).bind (pure _)

theorem operandString (hd : c.dialect.Plain) {raw value : String} {e : Expr}
    (h : StringToken input raw value mid)
    (hlinks : Takes c (Reading.skipBlanks >>= fun _ =>
      linksWithin c.budget (.literal (.string value) raw)) mid e rest) :
    Takes c (operandBy c.dialect.grammar .string) input (some e) rest :=
  (string h).bind (linkedOperand hd hlinks)

theorem operandArray (hd : c.dialect.Plain) {items : List (Option Expr)} {e : Expr}
    (hslots : Takes c (slotsWithin .elements c.budget .empty) input items mid)
    (hlinks : Takes c (Reading.skipBlanks >>= fun _ => linksWithin c.budget (.array items))
      mid e rest) :
    Takes c (operandBy c.dialect.grammar .array) ('[' :: input) (some e) rest :=
  forward_one.bind ((budget.bind hslots).bind (linkedOperand hd hlinks))

theorem operandUnary (hd : c.dialect.Plain) {op : String} {argument : Expr}
    (h : Takes c (reenter .operand) input (some argument) rest) :
    Takes c (operandBy c.dialect.grammar (.unary op)) (op.toList ++ input)
      (some (.signed op argument)) rest :=
  forward_string.bind (h.bind (notify_nil hd.operandDone))

theorem operandName (hd : c.dialect.Plain) {w : String} {e : Expr}
    (h : NameToken c.dialect.grammar input w mid)
    (hlinks : Takes c (Reading.skipBlanks >>= fun _ =>
      linksWithin c.budget (Lexeme.meaning c.dialect.grammar w)) mid e rest) :
    Takes c (operandBy c.dialect.grammar .name) input (some e) rest :=
  (name h).bind (linkedOperand hd hlinks)

theorem group {nodes : List Expr}
    (h : Takes c (expressionsWithin (some ')') c.budget #[]) input nodes (')' :: rest)) :
    Takes c Reading.group ('(' :: input) (Expr.bundle .sequence nodes) rest := by
  refine forward_one.bind ((budget.bind h).bind (current.bind ?_))
  simp only [List.head?_cons, if_true]
  exact forward_one.bind (pure _)

theorem operandGroup (hd : c.dialect.Plain) {nodes : List Expr} {node e : Expr}
    (h : Takes c (expressionsWithin (some ')') c.budget #[]) input nodes (')' :: mid))
    (hnode : Expr.bundle .sequence nodes = some node)
    (hlinks : Takes c (Reading.skipBlanks >>= fun _ => linksWithin c.budget node) mid e rest) :
    Takes c (operandBy c.dialect.grammar .group) ('(' :: input) (some e) rest := by
  refine (group h).bind ?_
  rw [hnode]
  exact linkedOperand hd hlinks

theorem operandEmptyGroup (hd : c.dialect.Plain)
    (h : Takes c (expressionsWithin (some ')') c.budget #[]) input [] (')' :: rest)) :
    Takes c (operandBy c.dialect.grammar .group) ('(' :: input) none rest :=
  (group h).bind (notify_nil hd.operandDone)

end Takes

end Reading

/-! ### Every reading is read -/

open Reading

/-- The run that belongs to a phrase, on a budget that is large enough. -/
def Phrase.Taken (d : Dialect) (text : Array Char) (n : Nat) (input rest : List Char) :
    Phrase → Prop
  | .expression e => 2 * input.length + 3 ≤ n →
      Takes (d.context text n) Reading.expression input e rest
  | .chain e => 2 * input.length + 3 ≤ n →
      Takes (d.context text n) binaryExpression input e rest
  | .tail true pairs => 2 * input.length + 3 ≤ n →
      Takes (d.context text n) chainRest input pairs rest
  | .tail false pairs => 2 * input.length + 3 ≤ n → ∀ k found, input.length + 1 ≤ k →
      Takes (d.context text n) (chainWithin k found) input (found.toList ++ pairs) rest
  | .operand e => 2 * input.length + 2 ≤ n →
      Takes (d.context text n) Reading.operand input e rest
  | .links node e => 2 * input.length + 2 ≤ n → ∀ k, input.length + 1 ≤ k →
      Takes (d.context text n) (skipBlanks >>= fun _ => linksWithin k node) input e rest
  | .list kind before _ after => 2 * input.length + 4 ≤ n → ∀ k, input.length + 1 ≤ k →
      Takes (d.context text n) (slotsWithin kind k before) input after.items.toList rest
  | .items closer nodes => 2 * input.length + 4 ≤ n → ∀ k found, input.length + 1 ≤ k →
      Takes (d.context text n) (expressionsWithin closer k found) input (found.toList ++ nodes)
        rest

section Knot

variable {d : Dialect} {A : List SlotEvent → Prop} {text : Array Char} {input rest : List Char}

/-- Entering an operand is reading one on a budget one smaller. -/
theorem takes_enter_operand {n : Nat} {e : Option Expr}
    (h : ∀ m, (Phrase.operand e).Taken d text m input rest) (hn : 2 * input.length + 3 ≤ n) :
    Takes (d.context text n) (reenter .operand) input e rest := by
  obtain ⟨m, rfl⟩ : ∃ m, n = m + 1 := ⟨n - 1, by omega⟩
  exact h m (by omega)

theorem takes_enter_expression {n : Nat} {e : Option Expr}
    (h : ∀ m, (Phrase.expression e).Taken d text m input rest) (hn : 2 * input.length + 4 ≤ n) :
    Takes (d.context text n) (reenter .expression) input e rest := by
  obtain ⟨m, rfl⟩ : ∃ m, n = m + 1 := ⟨n - 1, by omega⟩
  exact h m (by omega)

/-- Every reading is read, on every budget that is large enough. -/
theorem Reads.taken (hd : d.Plain) (hlimit : d.grammar.nestingLimit = none) {p : Phrase}
    (h : Reads d A p input rest) : ∀ n, p.Taken d text n input rest := by
  -- a loop gives up one round to each turn, and an entry one level of budget; in return every
  -- turn and every entry leaves fewer characters, which is what `width` and `length_le` say
  induction h with
  | @expression e input mid rest hchain hskips hno ih =>
    intro n hn
    have hlen := hchain.width
    exact .expression hd hlimit (by show _ ≤ n; omega) (ih n hn) hskips (.noConditional hd hno)
  | @conditional _ _ _ input mid afterMark afterColon _ hchain hcond hskips hcons _ ih ihcons
      ihalt =>
    intro n hn
    have hlen := hchain.width
    have hlen' := hskips.length_le
    have hlen'' := hcons.width
    simp only [Phrase.width, List.length_cons] at hlen hlen' hlen''
    exact .expression hd hlimit (by show _ ≤ n; omega) (ih n hn) hskips
      (.conditional hd hcond (takes_enter_expression ihcons (by omega))
        (takes_enter_expression ihalt (by omega)))
  | noChain _ ih =>
    intro n hn
    exact (takes_enter_operand ih hn).bind (.pure none)
  | chain hfirst _ ih ih' =>
    intro n hn
    have hlen := hfirst.width
    exact .binaryExpression (takes_enter_operand ih hn) (ih' n (by omega))
  | @tailEnd opening input _ hskips hop =>
    intro n
    have hnone (hn : 2 * input.length + 3 ≤ n) : Takes (d.context text n) binaryOp input none _ :=
      .binaryOp_none hd (by show _ ≤ n; omega) hskips hop
    -- the first operator is read outside the loop, a later one inside
    cases opening with
    | true =>
      intro hn
      exact (hnone hn).bind (.pure [])
    | false =>
      intro hn k found hk
      obtain ⟨k, rfl⟩ : ∃ m, k = m + 1 := ⟨k - 1, by omega⟩
      rw [List.append_nil]
      exact .chainEnd (hnone hn)
  | @tailPutBack _ input _ hskips hop hzero =>
    intro n hn k found hk
    obtain ⟨k, rfl⟩ : ∃ m, k = m + 1 := ⟨k - 1, by omega⟩
    obtain ⟨-, -, rest', rfl⟩ := Grammar.binaryOpIn_sound hop
    rw [List.append_nil]
    exact .chainPutBack hd (by show _ ≤ n; omega) hskips hop hzero
  | @tailOperator opening op e _ input afterOp mid _ hskips hop hprec he _ ih ih' =>
    intro n
    obtain ⟨-, hne, -⟩ := Grammar.binaryOpIn_sound hop
    have hpos := List.length_pos_iff.mpr hne
    have hlen := hskips.length_le
    have hlen' := he.width
    rw [List.length_append] at hlen
    have hsome (hn : 2 * input.length + 3 ≤ n) :
        Takes (d.context text n) binaryOp input (some (d.grammar.binaryOp op)) afterOp :=
      .binaryOp_some hd (by show _ ≤ n; omega) hskips hop
    cases opening with
    | true =>
      intro hn
      exact .chainStart (hsome hn) (takes_enter_operand ih (by omega))
        (ih' n (by omega) n _ (by omega))
    | false =>
      intro hn k found hk
      obtain ⟨k, rfl⟩ : ∃ m, k = m + 1 := ⟨k - 1, by omega⟩
      exact .chainStep (hprec rfl) (hsome hn) (takes_enter_operand ih (by omega))
        (ih' n (by omega) k _ (by omega))
  | noOperand hskips hlead =>
    intro n hn
    exact .operand hd hlimit (by show _ ≤ n; omega) hskips hlead (.operandNone hd)
  | number hskips hlead htoken =>
    intro n hn
    exact .operand hd hlimit (by show _ ≤ n; omega) hskips hlead (.operandNumber htoken)
  | string hskips hlead htoken _ ih =>
    intro n hn
    have hlen := hskips.length_le
    have hlt := htoken.length_lt
    exact .operand hd hlimit (by show _ ≤ n; omega) hskips hlead
      (.operandString hd htoken (ih n (by omega) n (by omega)))
  | array hskips hlist _ _ ih ih' =>
    intro n hn
    have hlen := hskips.length_le
    have hlen' := hlist.width
    simp only [Phrase.width, List.length_cons] at hlen hlen'
    exact .operand hd hlimit (by show _ ≤ n; omega) hskips rfl
      (.operandArray hd (ih n (by omega) n (by omega)) (ih' n (by omega) n (by omega)))
  | unary hskips hlead _ ih =>
    intro n hn
    obtain ⟨-, hne, -⟩ := Grammar.unaryOpIn_sound (Grammar.unaryOpIn_of_lead hlead)
    have hpos := List.length_pos_iff.mpr hne
    have hlen := hskips.length_le
    rw [List.length_append] at hlen
    exact .operand hd hlimit (by show _ ≤ n; omega) hskips hlead
      (.operandUnary hd (takes_enter_operand ih (by omega)))
  | name hskips hlead htoken _ ih =>
    intro n hn
    have hlen := hskips.length_le
    have hlt := htoken.length_lt
    exact .operand hd hlimit (by show _ ≤ n; omega) hskips hlead
      (.operandName hd htoken (ih n (by omega) n (by omega)))
  | group hskips hlead hitems hnode _ ih ih' =>
    intro n hn
    have hlen := hskips.length_le
    have hlen' := hitems.width
    simp only [Phrase.width, List.length_cons] at hlen hlen'
    exact .operand hd hlimit (by show _ ≤ n; omega) hskips hlead
      (.operandGroup hd (ih n (by omega) n _ (by omega)) hnode (ih' n (by omega) n (by omega)))
  | emptyGroup hskips hlead _ ih =>
    intro n hn
    have hlen := hskips.length_le
    simp only [List.length_cons] at hlen
    exact .operand hd hlimit (by show _ ≤ n; omega) hskips hlead
      (.operandEmptyGroup hd (ih n (by omega) n _ (by omega)))
  | linksEnd hskips hends =>
    intro n hn k hk
    obtain ⟨k, rfl⟩ : ∃ m, k = m + 1 := ⟨k - 1, by omega⟩
    exact .linksEnd hd (by show _ ≤ n; omega) hskips hends
  | property hskips hopens hskips' htoken _ ih =>
    intro n hn k hk
    obtain ⟨k, rfl⟩ : ∃ m, k = m + 1 := ⟨k - 1, by omega⟩
    have hlen := hskips.length_le
    have hlen' := hskips'.length_le
    have hlt := hopens.length_lt
    have hlt' := htoken.length_lt
    exact .link hd (by show _ ≤ n; omega) hskips hopens
      (.property hd (by show _ ≤ n; omega) hskips' htoken) (ih n (by omega) k (by omega))
  | index hskips hopens hkey hskips' _ ih ih' =>
    intro n hn k hk
    obtain ⟨k, rfl⟩ : ∃ m, k = m + 1 := ⟨k - 1, by omega⟩
    have hlen := hskips.length_le
    have hlen' := hkey.width
    have hlen'' := hskips'.length_le
    have hlt := hopens.length_lt
    simp only [Phrase.width, List.length_cons] at hlen' hlen''
    exact .link hd (by show _ ≤ n; omega) hskips hopens
      (.index hd (by show _ ≤ n; omega) (takes_enter_expression ih (by omega)) hskips')
      (ih' n (by omega) k (by omega))
  | call hskips hopens hlist _ ih ih' =>
    intro n hn k hk
    obtain ⟨k, rfl⟩ : ∃ m, k = m + 1 := ⟨k - 1, by omega⟩
    have hlen := hskips.length_le
    have hlen' := hlist.width
    have hlt := hopens.length_lt
    exact .link hd (by show _ ≤ n; omega) hskips hopens
      (.call (ih n (by omega) n (by show _ ≤ n; omega))) (ih' n (by omega) k (by omega))
  | listEnd hskips hclosable =>
    intro n hn k hk
    obtain ⟨k, rfl⟩ : ∃ m, k = m + 1 := ⟨k - 1, by omega⟩
    exact .listEnd hd (by show _ ≤ n; omega) hskips hclosable
  | listComma hskips hnext _ ih =>
    intro n hn k hk
    obtain ⟨k, rfl⟩ : ∃ m, k = m + 1 := ⟨k - 1, by omega⟩
    have hlen := hskips.length_le
    simp only [List.length_cons] at hlen
    exact .listComma hd (by show _ ≤ n; omega) hskips hnext (ih n (by omega) k (by omega))
  | listFill hskips hcloser hcomma haccepts he hcompound _ ih ih' =>
    intro n hn k hk
    obtain ⟨k, rfl⟩ : ∃ m, k = m + 1 := ⟨k - 1, by omega⟩
    have hlen := hskips.length_le
    have hlen' := he.width
    simp only [Phrase.width, Option.isSome_some, if_true] at hlen'
    exact .listFill hd (by show _ ≤ n; omega) hskips hcloser hcomma haccepts
      (takes_enter_expression ih (by omega)) hcompound (ih' n (by omega) k (by omega))
  | itemsEnd hskips =>
    intro n hn k found hk
    obtain ⟨k, rfl⟩ : ∃ m, k = m + 1 := ⟨k - 1, by omega⟩
    rw [List.append_nil]
    exact .itemsEnd hd (by show _ ≤ n; omega) hskips
  | itemsSeparator hskips hsep _ ih =>
    intro n hn k found hk
    obtain ⟨k, rfl⟩ : ∃ m, k = m + 1 := ⟨k - 1, by omega⟩
    have hlen := hskips.length_le
    simp only [List.length_cons] at hlen
    exact .itemsSeparator hd (by show _ ≤ n; omega) hskips hsep
      (ih n (by omega) k found (by omega))
  | @item _ e nodes _ _ _ _ _ hskips hsep he _ ih ih' =>
    intro n hn k found hk
    obtain ⟨k, rfl⟩ : ∃ m, k = m + 1 := ⟨k - 1, by omega⟩
    have hlen := hskips.length_le
    have hlen' := he.width
    simp only [Phrase.width, Option.isSome_some, if_true] at hlen'
    have hpush : found.toList ++ e :: nodes = (found.push e).toList ++ nodes := by simp
    rw [hpush]
    exact .item hd (by show _ ≤ n; omega) hskips hsep
      (takes_enter_expression ih (by omega)) (ih' n (by omega) k _ (by omega))
  | itemsStop hskips hsep _ hstop ih =>
    intro n hn k found hk
    obtain ⟨k, rfl⟩ : ∃ m, k = m + 1 := ⟨k - 1, by omega⟩
    have hlen := hskips.length_le
    rw [List.append_nil]
    exact .itemsStop hd (by show _ ≤ n; omega) hskips hsep
      (takes_enter_expression ih (by omega)) hstop

end Knot

/-- **Without a nesting limit, every reading of a whole text is what is parsed.** -/
theorem Dialect.parse_of_reads {d : Dialect} {A : List SlotEvent → Prop} (hd : d.Plain)
    (hlimit : d.grammar.nestingLimit = none) {text : String} {nodes : List Expr}
    (h : Reads d A (.items none nodes) text.toList []) :
    d.parse text = some (.ok (Expr.bundle .compound nodes)) := by
  have hlen : text.toList.length = text.length := String.length_toList
  let c := d.context text.toList.toArray (budgetFor text.length)
  have hitems : Takes c (expressionsWithin none c.budget #[]) text.toList nodes [] :=
    h.taken hd hlimit (budgetFor text.length) (by simp only [budgetFor]; omega)
      (budgetFor text.length) #[] (by simp only [budgetFor]; omega)
  have hprogram : Takes c program text.toList (Expr.bundle .compound nodes) [] :=
    (Takes.notify_nil hd.start).bind ((Takes.budget.bind hitems).bind (Takes.notify_nil hd.finish))
  obtain ⟨-, hrun⟩ := hprogram List.suffix_rfl
  have hreply : d.parseReply text = .ok (Expr.bundle .compound nodes) _ :=
    State.placed_initial text.toList ▸ hrun State.initial
  rw [parse, hreply]
  rfl

/-! ### Readings do not depend on the nesting limit -/

section Limit

variable {g : Grammar} (limit : Option Nat)

theorem operatorUpTo_setNestingLimit {known : String → Bool} {c : Cursor} (n : Nat) :
    Lexeme.operatorUpTo (g.setNestingLimit limit) known c n = Lexeme.operatorUpTo g known c n := by
  induction n with
  | zero => rfl
  | succ n ih =>
    rw [Lexeme.operatorUpTo, Lexeme.operatorUpTo, ih]
    rfl

theorem unaryOpIn_setNestingLimit (input : List Char) :
    (g.setNestingLimit limit).unaryOpIn input = g.unaryOpIn input :=
  operatorUpTo_setNestingLimit limit _

theorem binaryOpIn_setNestingLimit (input : List Char) :
    (g.setNestingLimit limit).binaryOpIn input = g.binaryOpIn input :=
  operatorUpTo_setNestingLimit limit _

theorem lead_setNestingLimit (input : List Char) :
    (g.setNestingLimit limit).lead input = g.lead input := by
  cases input with
  | nil => rfl
  | cons ch more =>
    rw [Grammar.lead, Grammar.lead, unaryOpIn_setNestingLimit]
    rfl

theorem NameToken.setNestingLimit {input rest : List Char} {w : String}
    (h : NameToken g input w rest) : NameToken (g.setNestingLimit limit) input w rest :=
  ⟨h.isName, h.split, h.maximal⟩

theorem NumberToken.setNestingLimit {input rest : List Char} {raw : String} {value : Float}
    (h : NumberToken g input raw value rest) :
    NumberToken (g.setNestingLimit limit) input raw value rest :=
  ⟨h.isNumeral, h.value, h.split, h.stops⟩

end Limit

/-- A reading is one under any nesting limit. -/
theorem Reads.setNestingLimit {d : Dialect} {A : List SlotEvent → Prop} {p : Phrase}
    {input rest : List Char} (limit : Option Nat) (h : Reads d A p input rest) :
    Reads (d.mapGrammar (·.setNestingLimit limit)) A p input rest := by
  have hlead (input : List Char) : (d.mapGrammar (·.setNestingLimit limit)).grammar.lead input
      = d.grammar.lead input := lead_setNestingLimit limit input
  have hbinary (input : List Char) :
      (d.mapGrammar (·.setNestingLimit limit)).grammar.binaryOpIn input
        = d.grammar.binaryOpIn input := binaryOpIn_setNestingLimit limit input
  induction h with
  | expression _ hskips hno ih => exact .expression ih hskips hno
  | conditional _ hcond hskips _ _ ih ih' ih'' => exact .conditional ih hcond hskips ih' ih''
  | noChain _ ih => exact .noChain ih
  | chain _ _ ih ih' => exact .chain ih ih'
  | tailEnd hskips hop => exact .tailEnd hskips ((hbinary _).trans hop)
  | tailPutBack hskips hop hzero => exact .tailPutBack hskips ((hbinary _).trans hop) hzero
  | tailOperator hskips hop hprec _ _ ih ih' =>
    exact .tailOperator hskips ((hbinary _).trans hop) hprec ih ih'
  | noOperand hskips h => exact .noOperand hskips ((hlead _).trans h)
  | number hskips h htoken =>
    exact .number hskips ((hlead _).trans h) (htoken.setNestingLimit limit)
  | string hskips h htoken _ ih => exact .string hskips ((hlead _).trans h) htoken ih
  | array hskips _ hA _ ih ih' => exact .array hskips ih hA ih'
  | unary hskips h _ ih => exact .unary hskips ((hlead _).trans h) ih
  | name hskips h htoken _ ih =>
    exact .name hskips ((hlead _).trans h) (htoken.setNestingLimit limit) ih
  | group hskips h _ hnode _ ih ih' => exact .group hskips ((hlead _).trans h) ih hnode ih'
  | emptyGroup hskips h _ ih => exact .emptyGroup hskips ((hlead _).trans h) ih
  | linksEnd hskips hends => exact .linksEnd hskips hends
  | property hskips hopens hskips' htoken _ ih =>
    exact .property hskips hopens hskips' (htoken.setNestingLimit limit) ih
  | index hskips hopens _ hskips' _ ih ih' => exact .index hskips hopens ih hskips' ih'
  | call hskips hopens _ _ ih ih' => exact .call hskips hopens ih ih'
  | listEnd hskips hclosable => exact .listEnd hskips hclosable
  | listComma hskips hnext _ ih => exact .listComma hskips hnext ih
  | listFill hskips hcloser hcomma haccepts _ hcompound _ ih ih' =>
    exact .listFill hskips hcloser hcomma haccepts ih hcompound ih'
  | itemsEnd hskips => exact .itemsEnd hskips
  | itemsSeparator hskips hsep _ ih => exact .itemsSeparator hskips hsep ih
  | item hskips hsep _ _ ih ih' => exact .item hskips hsep ih ih'
  | itemsStop hskips hsep _ hstop ih => exact .itemsStop hskips hsep ih hstop

/-- **A text has at most one reading as a program.** -/
theorem Reads.program_unique {d : Dialect} {A B : List SlotEvent → Prop} (hd : d.Plain)
    {nodes nodes' : List Expr} {input : List Char} (h : Reads d A (.items none nodes) input [])
    (h' : Reads d B (.items none nodes') input []) : nodes = nodes' := by
  let d' := d.mapGrammar (·.setNestingLimit none)
  let n := 2 * input.length + 4
  have hd' : d'.Plain := ⟨hd.start, hd.finish, hd.expression, hd.operand, hd.operandDone, hd.blanks,
    hd.expressionDone⟩
  -- both are what one run of the program answers
  have hrun : Takes (d'.context input.toArray n) (expressionsWithin none n #[]) input nodes [] :=
    (h.setNestingLimit none).taken hd' rfl n (Nat.le_refl _) n #[] (by omega)
  have hrun' : Takes (d'.context input.toArray n) (expressionsWithin none n #[]) input nodes' [] :=
    (h'.setNestingLimit none).taken hd' rfl n (Nat.le_refl _) n #[] (by omega)
  have hreply := (hrun List.suffix_rfl).2 .initial
  have hreply' := (hrun' List.suffix_rfl).2 .initial
  exact (Reply.ok.inj (hreply.symm.trans hreply')).1

end OperatorGrammar
