/-
OperatorGrammar/Proofs/ReadsSound.lean

Whatever a plain dialect reads is a reading.

Each production is taken apart on its own, with the entries of the grammar
assumed to be readings already (`Context.Sound`).  The loops go by induction on
their rounds.  The knot is then tied by induction on the budget: a context on a
larger budget is sound because its entries are productions in a context on a
smaller one (`context_sound`).

Main result: `Dialect.parse_reads`.
-/
import OperatorGrammar.Proofs.ListRun
import OperatorGrammar.Proofs.Layout

namespace OperatorGrammar

/-- The operands and expressions that a context enters are readings. -/
structure Context.Sound (c : Context) : Prop where
  operand : ∀ {s r s'}, c.enter .operand s = .ok r s' →
    Reads c.dialect AnyArray (.operand r) (restAt c.text s.index) (restAt c.text s'.index)
  expression : ∀ {s r s'}, c.enter .expression s = .ok r s' →
    Reads c.dialect AnyArray (.expression r) (restAt c.text s.index) (restAt c.text s'.index)

namespace Reading

variable {c : Context} {s s' : State}

/-! ### Chains -/

theorem binaryOp_none (hd : c.dialect.Plain) (h : binaryOp c s = .ok none s') :
    Skips c.dialect.HasComments (restAt c.text s.index) (restAt c.text s'.index) ∧
      c.dialect.grammar.binaryOpIn (restAt c.text s'.index) = none := by
  rw [binaryOp, bind_eq_ok] at h
  obtain ⟨_, s₁, hblanks, h⟩ := h
  rw [bind_of_ok grammar_apply, bind_of_ok cursor_apply] at h
  rcases hop : Lexeme.binaryOperator c.dialect.grammar ⟨c.text, s₁.index⟩ with - | op
  · simp only [hop] at h
    cases h
    exact ⟨skips_of_skipBlanks hd hblanks, by rw [← Lexeme.binaryOperator_eq, hop]⟩
  · simp only [hop] at h
    rw [bind_of_ok (forward_apply _)] at h
    cases h

/-- An operator that is read stands in front of what is left, and moving back by its
length puts it back. -/
theorem binaryOp_some (hd : c.dialect.Plain) {op : BinaryOp}
    (h : binaryOp c s = .ok (some op) s') :
    op = c.dialect.grammar.binaryOp op.symbol ∧
      Skips c.dialect.HasComments (restAt c.text s.index)
        (op.symbol.toList ++ restAt c.text s'.index) ∧
      c.dialect.grammar.binaryOpIn (op.symbol.toList ++ restAt c.text s'.index)
        = some op.symbol ∧
      restAt c.text (s'.index - op.symbol.length)
        = op.symbol.toList ++ restAt c.text s'.index := by
  rw [binaryOp, bind_eq_ok] at h
  obtain ⟨_, s₁, hblanks, h⟩ := h
  rw [bind_of_ok grammar_apply, bind_of_ok cursor_apply] at h
  have hskips := skips_of_skipBlanks hd hblanks
  rcases hop : Lexeme.binaryOperator c.dialect.grammar ⟨c.text, s₁.index⟩ with - | symbol
  · simp only [hop] at h
    cases h
  · simp only [hop] at h
    rw [bind_of_ok (forward_apply _)] at h
    cases h
    rw [Lexeme.binaryOperator_eq] at hop
    obtain ⟨-, hne, rest, hsplit⟩ := Grammar.binaryOpIn_sound hop
    have hrest : restAt c.text (min (s₁.index + symbol.length) c.text.size) = rest := by
      rw [restAt_forward, hsplit, List.drop_left' String.length_toList]
    -- the cursor was not stopped by the end of the text, so moving back undoes the move
    have hback : min (s₁.index + symbol.length) c.text.size - symbol.length = s₁.index := by
      have hlen := congrArg List.length hsplit
      rw [length_restAt, List.length_append, String.length_toList] at hlen
      have hpos := List.length_pos_iff.mpr hne
      rw [String.length_toList] at hpos
      omega
    simp only [hrest, hback, ← hsplit]
    exact ⟨rfl, hskips, hop, trivial⟩

theorem reads_of_chainRun (hd : c.dialect.Plain) (hc : c.Sound) {opening : Bool}
    {pairs : List (BinaryOp × Expr)} (h : ChainRun c opening s pairs s') :
    Reads c.dialect AnyArray (.tail opening pairs) (restAt c.text s.index)
      (restAt c.text s'.index) := by
  induction h with
  | stop hop =>
    obtain ⟨hskips, hnone⟩ := binaryOp_none hd hop
    exact .tailEnd hskips hnone
  | putBack hop hzero =>
    obtain ⟨heq, hskips, hsome, hback⟩ := binaryOp_some hd hop
    rw [heq] at hzero
    rw [hback]
    exact .tailPutBack hskips hsome hzero
  | operator hop hprec henter _ ih =>
    obtain ⟨heq, hskips, hsome, -⟩ := binaryOp_some hd hop
    rw [heq] at hprec ⊢
    exact .tailOperator hskips hsome hprec (hc.operand henter) ih

theorem reads_of_binaryExpression (hd : c.dialect.Plain) (hc : c.Sound) {e : Option Expr}
    (h : binaryExpression c s = .ok e s') :
    Reads c.dialect AnyArray (.chain e) (restAt c.text s.index) (restAt c.text s'.index) := by
  cases e with
  | some e =>
    obtain ⟨first, s₁, pairs, hfirst, hrun, rfl⟩ := chainRun_of_binaryExpression h
    exact .chain (hc.operand hfirst) (reads_of_chainRun hd hc hrun)
  | none =>
    rw [binaryExpression, bind_eq_ok] at h
    obtain ⟨found, s₁, hfirst, h⟩ := h
    cases found with
    | none =>
      cases h
      exact .noChain (hc.operand hfirst)
    | some first =>
      obtain ⟨rest, s₂, -, h⟩ := bind_eq_ok.mp h
      cases h

/-! ### Expressions -/

/-- One level deeper, the body runs on the same text from the same place. -/
theorem nested_eq_ok {α : Type} {body : Reading α} {a : α} (h : nested body c s = .ok a s') :
    ∃ s₁, body c { s with depth := s.depth + 1 } = .ok a s₁ ∧ s'.index = s₁.index := by
  rw [nested] at h
  split at h
  · cases h
  · rcases hbody : body c { s with depth := s.depth + 1 } with ⟨b, s₁⟩ | ⟨e, s₁⟩ | -
    · simp only [hbody] at h
      cases h
      exact ⟨s₁, rfl, rfl⟩
    · simp only [hbody] at h
      cases h
    · simp only [hbody] at h
      cases h

theorem reads_of_expression (hd : c.dialect.Plain) (hc : c.Sound) {e : Option Expr}
    (h : expression c s = .ok e s') :
    Reads c.dialect AnyArray (.expression e) (restAt c.text s.index) (restAt c.text s'.index) := by
  obtain ⟨s₁, h, hindex⟩ := nested_eq_ok h
  rw [hindex]
  rw [bind_of_ok (search_of_nil hd.expression), bind_eq_ok] at h
  obtain ⟨node, s₂, hchain, h⟩ := h
  obtain ⟨_, s₃, hblanks, h⟩ := bind_eq_ok.mp h
  have hreads := reads_of_binaryExpression hd hc hchain
  have hskips := skips_of_skipBlanks hd hblanks
  cases node with
  | none =>
    rw [notify_conditional_none hd] at h
    cases h
    exact .expression hreads hskips (by simp)
  | some test =>
    -- only the conditional plugin listens here
    by_cases hcond : c.dialect.HasConditionals
    · rcases (notify_conditional_eq_ok hd hcond).mp h with ⟨hmark, rfl, rfl⟩ | hbranches
      · refine .expression hreads hskips fun _ _ => ?_
        rwa [← getElem?_eq_head?]
      · obtain ⟨hmark, consequent, s₄, alternate, hcons, hcolon, halt, rfl⟩ := hbranches
        have hafter {i : Nat} : restAt c.text (min (i + 1) c.text.size) = restAt c.text (i + 1) :=
          restAt_min
        rw [restAt_eq_cons hmark] at hskips
        have hcons' := hc.expression hcons
        have halt' := hc.expression halt
        simp only [hafter] at hcons' halt'
        rw [restAt_eq_cons hcolon] at hcons'
        exact .conditional hreads hcond hskips hcons' halt'
    · have hp : c.dialect.hooks.get .expressionDone = [] := Classical.not_not.mp hcond
      rw [notify_of_nil hp] at h
      cases h
      exact .expression hreads hskips fun _ h => absurd h hcond

/-! ### Programs, groups and lists -/

/-- A step over the character at the cursor. -/
theorem restAt_forward_one {text : Array Char} {i : Nat} {ch : Char} {more : List Char}
    (h : restAt text i = ch :: more) : restAt text (min (i + 1) text.size) = more := by
  rw [restAt_forward, h]
  rfl

theorem reads_of_itemsRun (hd : c.dialect.Plain) (hc : c.Sound) {closer : Option Char} {n : Nat}
    {nodes : List Expr} (h : ItemsRun c closer n s nodes s') :
    Reads c.dialect AnyArray (.items closer nodes) (restAt c.text s.index)
      (restAt c.text s'.index) := by
  induction h with
  | atEnd hskip hend =>
    have hskips := skips_of_skipBlanks hd hskip
    rw [restAt_eq_nil_of_none hend] at hskips ⊢
    exact .itemsEnd hskips
  | separator hskip hch hsep _ ih =>
    have hskips := skips_of_skipBlanks hd hskip
    have hcons := restAt_eq_cons hch
    rw [hcons] at hskips
    rw [restAt_forward_one hcons] at ih
    exact .itemsSeparator hskips hsep ih
  | item hskip hch hsep henter _ ih =>
    have hskips := skips_of_skipBlanks hd hskip
    have hexpr := hc.expression henter
    rw [restAt_eq_cons hch] at hskips hexpr
    exact .item hskips hsep hexpr ih
  -- no expression came: the loop ends only at the end or in front of the closer
  | @stop _ _ _ _ s' hskip hch hsep henter hlast =>
    have hskips := skips_of_skipBlanks hd hskip
    have hexpr := hc.expression henter
    rw [restAt_eq_cons hch] at hskips hexpr
    refine .itemsStop hskips hsep hexpr ?_
    rcases hnext : c.text[s'.index]? with - | last
    · exact .inl (restAt_eq_nil_of_none hnext)
    · exact .inr ⟨last, hlast last hnext, by rw [← getElem?_eq_head?, hnext]⟩

theorem reads_of_expressions (hd : c.dialect.Plain) (hc : c.Sound) {closer : Option Char}
    {nodes : List Expr} (h : expressions closer c s = .ok nodes s') :
    Reads c.dialect AnyArray (.items closer nodes) (restAt c.text s.index)
      (restAt c.text s'.index) := by
  rw [expressions, bind_of_ok budget_apply] at h
  obtain ⟨more, rfl, hrun⟩ := itemsRun_of_expressionsWithin h
  exact reads_of_itemsRun hd hc hrun

/-- Events that the rules allow are read as the rest of a list. -/
theorem reads_of_listRun (hd : c.dialect.Plain) (hc : c.Sound) {kind : ListKind}
    {events : List SlotEvent} {s₁ : State} (h : ListRun c kind s events s₁) {before : Slots}
    {items : List (Option Expr)} (hitems : before.outcome kind events = some items) :
    ∃ after, items = after.items.toList ∧
      Reads c.dialect AnyArray (.list kind before events after) (restAt c.text s.index)
        (restAt c.text (s₁.index + 1)) := by
  induction h generalizing before with
  | close hblanks hch =>
    have hskips := skips_of_skipBlanks hd hblanks
    rw [restAt_eq_cons hch] at hskips
    rw [Slots.outcome] at hitems
    split at hitems
    · next hclosable =>
      cases hitems
      exact ⟨before, rfl, .listEnd hskips hclosable⟩
    · cases hitems
  | comma hblanks hch _ ih =>
    have hcons := restAt_eq_cons hch
    have hskips := skips_of_skipBlanks hd hblanks
    rw [hcons] at hskips
    obtain ⟨next, hnext, hitems⟩ := Option.bind_eq_some_iff.mp hitems
    obtain ⟨after, rfl, hreads⟩ := ih hitems
    rw [restAt_forward_one hcons] at hreads
    exact ⟨after, rfl, .listComma hskips hnext hreads⟩
  | filled hblanks hch hcloser hcomma henter hcompound _ ih =>
    have hcons := restAt_eq_cons hch
    have hskips := skips_of_skipBlanks hd hblanks
    have hexpr := hc.expression henter
    rw [hcons] at hskips hexpr
    rw [Slots.outcome] at hitems
    split at hitems
    · next haccepts =>
      obtain ⟨after, rfl, hreads⟩ := ih hitems
      exact ⟨after, rfl, .listFill hskips hcloser hcomma haccepts hexpr hcompound hreads⟩
    · cases hitems

theorem reads_of_slots (hd : c.dialect.Plain) (hc : c.Sound) {kind : ListKind}
    {items : List (Option Expr)} (h : slots kind c s = .ok items s') :
    ∃ events after, items = after.items.toList ∧
      Reads c.dialect AnyArray (.list kind .empty events after) (restAt c.text s.index)
        (restAt c.text s'.index) := by
  rw [slots, bind_of_ok budget_apply] at h
  obtain ⟨events, s₁, hrun, hitems, rfl⟩ := listRun_of_slotsWithin h
  obtain ⟨after, hafter, hreads⟩ := reads_of_listRun hd hc hrun hitems
  exact ⟨events, after, hafter, hreads⟩

theorem reads_of_group (hd : c.dialect.Plain) (hc : c.Sound) {ch : Char} {inside : List Char}
    (hcons : restAt c.text s.index = ch :: inside) {r : Option Expr} (h : group c s = .ok r s') :
    ∃ nodes, r = Expr.bundle .sequence nodes ∧
      Reads c.dialect AnyArray (.items (some ')') nodes) inside
        (')' :: restAt c.text s'.index) := by
  rw [group, bind_of_ok (forward_apply _), bind_eq_ok] at h
  obtain ⟨nodes, s₁, hnodes, h⟩ := h
  have hreads := reads_of_expressions hd hc hnodes
  rw [restAt_forward_one hcons] at hreads
  rw [bind_of_ok current_apply] at h
  by_cases hlast : c.text[s₁.index]? = some ')'
  · simp only [hlast, if_true] at h
    rw [bind_of_ok (forward_apply _)] at h
    cases h
    have hclose := restAt_eq_cons hlast
    refine ⟨nodes, rfl, ?_⟩
    rw [hclose] at hreads
    show Reads _ _ _ _ (')' :: restAt c.text (min (s₁.index + 1) c.text.size))
    rwa [restAt_forward_one hclose]
  · simp only [hlast, if_false] at h
    cases h

/-! ### Links -/

theorem linkStart_none (h : linkStart c s = .ok none s') :
    s' = s ∧ EndsLinks (restAt c.text s.index) := by
  rw [linkStart, bind_of_ok cursor_apply] at h
  rcases hch : (⟨c.text, s.index⟩ : Cursor).current with - | ch
  · simp only [hch] at h
    cases h
    refine ⟨rfl, ?_⟩
    rw [restAt_eq_nil_of_none hch]
    exact ⟨by simp, by simp⟩
  simp only [hch] at h
  rcases hform : LinkForm.ofChar? ch with - | form
  · simp only [hform] at h
    split at h
    · -- the optional forms all answer a link
      rw [bind_of_ok (forward_apply _)] at h
      obtain ⟨_, s₁, -, h⟩ := bind_eq_ok.mp h
      rw [bind_of_ok current_apply] at h
      generalize c.text[s₁.index]? = next at h
      split at h
      · cases h
      · cases h
      · cases h
    · rename_i hmark
      cases h
      refine ⟨rfl, ?_, ?_⟩
      · rw [restAt_eq_cons hch]
        intro ch' hch'
        cases hch'
        exact hform
      · rintro ⟨more, hmore⟩
        refine hmark ⟨?_, ?_⟩
        · rw [restAt_eq_cons hch] at hmore
          exact (List.cons.inj hmore).1.symm
        · show c.text[s.index + 1]? = _
          rw [getElem?_add, ← hmore]
          rfl
  · simp only [hform] at h
    cases h

theorem linkStart_some (hd : c.dialect.Plain) {form : LinkForm} {optional : Bool}
    (h : linkStart c s = .ok (some (form, optional)) s') :
    OpensLink c.dialect.HasComments (restAt c.text s.index) form optional
      (restAt c.text s'.index) := by
  rw [linkStart, bind_of_ok cursor_apply] at h
  rcases hch : (⟨c.text, s.index⟩ : Cursor).current with - | ch
  · simp only [hch] at h
    cases h
  have hcons := restAt_eq_cons hch
  simp only [hch] at h
  rcases hform : LinkForm.ofChar? ch with - | form'
  · simp only [hform] at h
    split at h
    · rename_i hmark
      obtain ⟨rfl, hpoint⟩ := hmark
      have hcons' := restAt_eq_cons hpoint
      rw [hcons, hcons']
      have hafter : restAt c.text (min (s.index + 2) c.text.size)
          = restAt c.text (s.index + 1 + 1) := restAt_min
      rw [bind_of_ok (forward_apply _)] at h
      obtain ⟨_, s₁, hblanks, h⟩ := bind_eq_ok.mp h
      have hskips := skips_of_skipBlanks hd hblanks
      simp only [hafter] at hskips
      rw [bind_of_ok current_apply] at h
      -- the character behind the mark decides the form
      generalize hnext : c.text[s₁.index]? = next at h
      split at h
      · cases h
        have hbracket := restAt_eq_cons hnext
        show OpensLink _ _ _ _ (restAt c.text (min (s₁.index + 1) c.text.size))
        rw [restAt_forward_one hbracket]
        rw [hbracket] at hskips
        exact .optionalIndex hskips
      · cases h
        have hparen := restAt_eq_cons hnext
        show OpensLink _ _ _ _ (restAt c.text (min (s₁.index + 1) c.text.size))
        rw [restAt_forward_one hparen]
        rw [hparen] at hskips
        exact .optionalCall hskips
      · rename_i hbracket hparen
        cases h
        rw [getElem?_eq_head?] at hnext
        exact .optionalProperty hskips (hnext ▸ hbracket) (hnext ▸ hparen)
    · cases h
  · simp only [hform] at h
    cases h
    show OpensLink _ _ _ _ (restAt c.text (min (s.index + 1) c.text.size))
    rw [restAt_forward_one hcons, hcons]
    exact .plain hform

/-- One link, in front of the links after it. -/
theorem reads_of_linkBody (hd : c.dialect.Plain) (hc : c.Sound) {node linked e : Expr}
    {form : LinkForm} {optional : Bool} {input start rest : List Char}
    (h : linkBody node form c s = .ok linked s')
    (hskips : Skips c.dialect.HasComments input start)
    (hopens : OpensLink c.dialect.HasComments start form optional (restAt c.text s.index))
    (hmore : Reads c.dialect AnyArray (.links (.marked optional linked) e)
      (restAt c.text s'.index) rest) :
    Reads c.dialect AnyArray (.links node e) input rest := by
  cases form with
  | property =>
    rw [linkBody, bind_eq_ok] at h
    obtain ⟨_, s₁, hblanks, h⟩ := h
    obtain ⟨w, s₂, hname, h⟩ := bind_eq_ok.mp h
    cases h
    exact .property hskips hopens (skips_of_skipBlanks hd hblanks)
      (Lexeme.token_of_name (scan_eq_ok.mp hname).1) hmore
  | index =>
    rw [linkBody, bind_eq_ok] at h
    obtain ⟨key, s₁, henter, h⟩ := h
    cases key with
    | none => cases h
    | some key =>
      obtain ⟨_, s₂, hblanks, h⟩ := bind_eq_ok.mp h
      have hkey := hc.expression henter
      have hskips' := skips_of_skipBlanks hd hblanks
      rw [bind_of_ok current_apply] at h
      by_cases hlast : c.text[s₂.index]? = some ']'
      · simp only [hlast, if_true] at h
        rw [bind_of_ok (forward_apply _)] at h
        cases h
        have hclose := restAt_eq_cons hlast
        simp only [restAt_forward_one hclose] at hmore
        rw [hclose] at hskips'
        exact .index hskips hopens hkey hskips' hmore
      · simp only [hlast, if_false] at h
        cases h
  | call =>
    rw [linkBody, bind_eq_ok] at h
    obtain ⟨items, s₁, hslots, h⟩ := h
    cases h
    obtain ⟨events, after, rfl, hlist⟩ := reads_of_slots hd hc hslots
    exact .call hskips hopens hlist hmore

theorem reads_of_linksWithin (hd : c.dialect.Plain) (hc : c.Sound) {n : Nat} {node e : Expr}
    {input : List Char} (hskips : Skips c.dialect.HasComments input (restAt c.text s.index))
    (h : linksWithin n node c s = .ok e s') :
    Reads c.dialect AnyArray (.links node e) input (restAt c.text s'.index) := by
  induction n generalizing node s input with
  | zero => cases h
  | succ n ih =>
    rw [linksWithin, bind_eq_ok] at h
    obtain ⟨found, s₁, hstart, h⟩ := h
    cases found with
    | none =>
      obtain ⟨rfl, hends⟩ := linkStart_none hstart
      cases h
      exact .linksEnd hskips hends
    | some link =>
      obtain ⟨form, optional⟩ := link
      obtain ⟨linked, s₂, hbody, h⟩ := bind_eq_ok.mp h
      obtain ⟨_, s₃, hblanks, h⟩ := bind_eq_ok.mp h
      exact reads_of_linkBody hd hc hbody hskips (linkStart_some hd hstart)
        (ih (skips_of_skipBlanks hd hblanks) h)

theorem reads_of_linkedOperand (hd : c.dialect.Plain) (hc : c.Sound) {node : Expr}
    {r : Option Expr} (h : linkedOperand (some node) c s = .ok r s') :
    ∃ e, r = some e ∧
      Reads c.dialect AnyArray (.links node e) (restAt c.text s.index)
        (restAt c.text s'.index) := by
  rw [linkedOperand, bind_eq_ok] at h
  obtain ⟨e, s₁, hlinks, h⟩ := h
  rw [notify_of_nil hd.operandDone] at h
  cases h
  rw [links, bind_eq_ok] at hlinks
  obtain ⟨_, s₂, hblanks, hlinks⟩ := hlinks
  rw [bind_of_ok budget_apply] at hlinks
  exact ⟨e, rfl, reads_of_linksWithin hd hc (skips_of_skipBlanks hd hblanks) hlinks⟩

/-! ### Operands -/

theorem reads_of_unaryOperand (hd : c.dialect.Plain) (hc : c.Sound) {op : String}
    {input after : List Char} {r : Option Expr}
    (hskips : Skips c.dialect.HasComments input (restAt c.text s.index))
    (hsplit : restAt c.text s.index = op.toList ++ after)
    (hlead : c.dialect.grammar.lead (restAt c.text s.index) = .unary op)
    (h : unaryOperand op c s = .ok r s') :
    Reads c.dialect AnyArray (.operand r) input (restAt c.text s'.index) := by
  rw [unaryOperand, bind_of_ok (forward_apply _), bind_eq_ok] at h
  obtain ⟨argument, s₁, henter, h⟩ := h
  cases argument with
  | none => cases h
  | some argument =>
    simp only [] at h
    rw [notify_of_nil hd.operandDone] at h
    cases h
    have hargument := hc.operand henter
    simp only [restAt_forward, hsplit, List.drop_left' String.length_toList] at hargument
    rw [hsplit] at hskips hlead
    exact .unary hskips hlead hargument

/-- The branch of an operand that a lead chooses. -/
def operandBy (g : Grammar) : Lead → Reading (Option Expr)
  | .number => do return some (← scan Lexeme.number)
  | .string => do linkedOperand (some (← scan fun _ => Lexeme.string))
  | .array => do
    forward 1
    linkedOperand (some (.array (← slots .elements)))
  | .unary op => unaryOperand op
  | .name => do linkedOperand (some (Lexeme.meaning g (← scan Lexeme.name)))
  | .group => do linkedOperand (← group)
  | .nothing => linkedOperand none

theorem operandFrom_apply {ch : Char} {more : List Char}
    (hcons : restAt c.text s.index = ch :: more) :
    operandFrom ch c s
      = operandBy c.dialect.grammar (c.dialect.grammar.lead (ch :: more)) c s := by
  rw [operandFrom, bind_of_ok grammar_apply, Grammar.lead]
  -- the tests are the same and come in the same order as in `Grammar.lead`
  by_cases hnumber : Grammar.isDigit ch ∨ ch = '.'
  · rw [if_pos hnumber, if_pos hnumber]
    rfl
  rw [if_neg hnumber, if_neg hnumber]
  by_cases hquote : ch = '\'' ∨ ch = '"'
  · rw [if_pos hquote, if_pos hquote]
    rfl
  rw [if_neg hquote, if_neg hquote]
  by_cases hbracket : ch = '['
  · rw [if_pos hbracket, if_pos hbracket]
    rfl
  rw [if_neg hbracket, if_neg hbracket, bind_of_ok cursor_apply, Lexeme.unaryOperator_eq, hcons]
  rcases hop : c.dialect.grammar.unaryOpIn (ch :: more) with - | op
  · simp only []
    by_cases hstart : c.dialect.grammar.isIdentifierStart ch
    · rw [if_pos hstart, if_pos hstart]
      rfl
    rw [if_neg hstart, if_neg hstart]
    by_cases hparen : ch = '('
    · rw [if_pos hparen, if_pos hparen]
      rfl
    · rw [if_neg hparen, if_neg hparen]
      rfl
  · rfl

/-- An operand from its first character on. -/
theorem reads_of_operandFrom (hd : c.dialect.Plain) (hc : c.Sound) {ch : Char}
    {input more : List Char} {r : Option Expr}
    (hskips : Skips c.dialect.HasComments input (restAt c.text s.index))
    (hcons : restAt c.text s.index = ch :: more) (h : operandFrom ch c s = .ok r s') :
    Reads c.dialect AnyArray (.operand r) input (restAt c.text s'.index) := by
  have hspec := c.dialect.grammar.lead_spec ch more
  rw [operandFrom_apply hcons] at h
  rcases hlead : c.dialect.grammar.lead (ch :: more) with - | - | - | op | - | - | -
  all_goals rw [hlead] at h hspec
  all_goals rw [← hcons] at hlead
  · -- number
    obtain ⟨number, s₁, hscan, h⟩ := bind_eq_ok.mp h
    cases h
    obtain ⟨raw, value, rfl, htoken⟩ := Lexeme.token_of_number (scan_eq_ok.mp hscan).1
    exact .number hskips hlead htoken
  · -- string
    obtain ⟨string, s₁, hscan, h⟩ := bind_eq_ok.mp h
    have hfirst : ∀ q ∈ c.text[s.index]?, IsQuote q := by
      intro q hq
      rw [getElem?_eq_head?, hcons] at hq
      cases hq
      exact hspec
    obtain ⟨raw, value, rfl, htoken⟩ := Lexeme.token_of_string hfirst (scan_eq_ok.mp hscan).1
    obtain ⟨e, rfl, hlinks⟩ := reads_of_linkedOperand hd hc h
    exact .string hskips hlead htoken hlinks
  · -- array
    rw [operandBy, bind_of_ok (forward_apply _)] at h
    obtain ⟨items, s₁, hslots, h⟩ := bind_eq_ok.mp h
    obtain ⟨events, after, rfl, hlist⟩ := reads_of_slots hd hc hslots
    obtain ⟨e, rfl, hlinks⟩ := reads_of_linkedOperand hd hc h
    rw [restAt_forward_one hcons] at hlist
    obtain rfl : ch = '[' := hspec
    rw [hcons] at hskips
    exact .array hskips hlist trivial hlinks
  · -- unary
    obtain ⟨-, -, after, hsplit⟩ := Grammar.unaryOpIn_sound hspec
    exact reads_of_unaryOperand hd hc hskips (hcons.trans hsplit) hlead h
  · -- name
    obtain ⟨w, s₁, hscan, h⟩ := bind_eq_ok.mp h
    obtain ⟨e, rfl, hlinks⟩ := reads_of_linkedOperand hd hc h
    exact .name hskips hlead (Lexeme.token_of_name (scan_eq_ok.mp hscan).1) hlinks
  · -- group
    obtain ⟨node, s₁, hgroup, h⟩ := bind_eq_ok.mp h
    obtain ⟨nodes, rfl, hitems⟩ := reads_of_group hd hc hcons hgroup
    obtain rfl : ch = '(' := hspec
    rw [hcons] at hskips hlead
    rcases nodes with - | ⟨node, more⟩
    · have hnone : notify .operandDone none c s₁ = .ok r s' := h
      rw [notify_of_nil hd.operandDone] at hnone
      cases hnone
      exact .emptyGroup hskips hlead hitems
    · obtain ⟨node', hnode⟩ : ∃ node', Expr.bundle .sequence (node :: more) = some node' := by
        cases more with
        | nil => exact ⟨_, rfl⟩
        | cons _ _ => exact ⟨_, rfl⟩
      rw [hnode] at h
      obtain ⟨e, rfl, hlinks⟩ := reads_of_linkedOperand hd hc h
      exact .group hskips hlead hitems hnode hlinks
  · -- nothing
    have hnone : notify .operandDone none c s = .ok r s' := h
    rw [notify_of_nil hd.operandDone] at hnone
    cases hnone
    exact .noOperand hskips hlead

theorem reads_of_operand (hd : c.dialect.Plain) (hc : c.Sound) {r : Option Expr}
    (h : operand c s = .ok r s') :
    Reads c.dialect AnyArray (.operand r) (restAt c.text s.index) (restAt c.text s'.index) := by
  obtain ⟨s₁, h, hindex⟩ := nested_eq_ok h
  rw [hindex]
  obtain ⟨_, s₂, hblanks, h⟩ := bind_eq_ok.mp h
  have hskips := skips_of_skipBlanks hd hblanks
  rw [bind_of_ok (search_of_nil hd.operand)] at h
  simp only [] at h
  rw [bind_of_ok current_apply] at h
  rcases hch : c.text[s₂.index]? with - | ch
  · simp only [hch, notify_of_nil hd.operandDone] at h
    cases h
    refine .noOperand hskips ?_
    rw [restAt_eq_nil_of_none hch]
    rfl
  · simp only [hch] at h
    exact reads_of_operandFrom hd hc hskips (restAt_eq_cons hch) h

end Reading

/-! ### Tying the knot -/

namespace Dialect

/-- On every budget, what a plain dialect enters is a reading. -/
theorem context_sound {d : Dialect} (hd : d.Plain) (text : Array Char) (n : Nat) :
    (d.context text n).Sound := by
  -- a level of the grammar enters only the level below
  induction n with
  | zero =>
    constructor
    · intro s r s' h
      cases h
    · intro s r s' h
      cases h
  | succ n ih =>
    constructor
    · intro s r s' h
      exact Reading.reads_of_operand (c := d.context text n) hd ih h
    · intro s r s' h
      exact Reading.reads_of_expression (c := d.context text n) hd ih h

theorem program_reads {d : Dialect} (hd : d.Plain) {text : Array Char} {n : Nat}
    {r : Option Expr} {s' : State}
    (h : Reading.program (d.context text n) .initial = .ok r s') :
    ∃ nodes, r = Expr.bundle .compound nodes ∧
      Reads d AnyArray (.items none nodes) text.toList (restAt text s'.index) := by
  rw [Reading.program, Reading.bind_of_ok (Reading.notify_of_nil (c := d.context text n) hd.start),
    Reading.bind_eq_ok] at h
  obtain ⟨nodes, s₁, hnodes, h⟩ := h
  rw [Reading.notify_of_nil (c := d.context text n) hd.finish] at h
  cases h
  exact ⟨nodes, rfl, Reading.reads_of_expressions (c := d.context text n) hd
    (context_sound hd text n) hnodes⟩

end Dialect

/-- A program without a closing character is read to the end of the text. -/
theorem Reads.items_none {d : Dialect} {A : List SlotEvent → Prop} {nodes : List Expr}
    {input rest : List Char} (h : Reads d A (.items none nodes) input rest) : rest = [] := by
  generalize hp : Phrase.items none nodes = p at h
  induction h generalizing nodes with
  | itemsEnd _ => rfl
  | itemsSeparator _ _ _ ih =>
    cases hp
    exact ih rfl
  | item _ _ _ _ _ ih =>
    cases hp
    exact ih rfl
  -- without a closer an expression is missing only at the end
  | itemsStop _ _ _ hstop _ =>
    cases hp
    rcases hstop with h | ⟨last, h, -⟩
    · exact h
    · cases h
  | _ => cases hp

/-- **Whatever a plain dialect parses is a reading of the whole text.** -/
theorem Dialect.parse_reads {d : Dialect} (hd : d.Plain) {text : String} {r : Option Expr}
    (h : d.parse text = some (.ok r)) :
    ∃ nodes, r = Expr.bundle .compound nodes ∧
      Reads d AnyArray (.items none nodes) text.toList [] := by
  rw [parse] at h
  rcases hreply : d.parseReply text with ⟨value, s'⟩ | ⟨e, s'⟩ | -
  · rw [hreply] at h
    cases h
    obtain ⟨nodes, hr, hreads⟩ := program_reads hd hreply
    exact ⟨nodes, hr, hreads.items_none ▸ hreads⟩
  · rw [hreply] at h
    cases h
  · rw [hreply] at h
    cases h

end OperatorGrammar
