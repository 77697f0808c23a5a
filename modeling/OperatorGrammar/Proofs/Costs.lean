/-
OperatorGrammar/Proofs/Costs.lean

How many levels a reading opens.

An expression and an operand are each one level, and under a limit only so many may
be open.  `Reading.Costs` says of a reading in front of a given text how many levels
it opens: it answers where the limit leaves so many, and fails at the limit
everywhere else.  So the number is exact, and it does not depend on the limit.

A sequence costs what its dearest part does, and a part that opens no level is one
of those that are already known (`Reading.Takes`).  So a path through a production
costs what its one part that enters the grammar costs, and one more when the
production opens a level itself.
-/
import OperatorGrammar.Proofs.OpenLevels
import OperatorGrammar.Proofs.ReadsComplete

namespace OperatorGrammar

/-! ### Levels that are left -/

namespace Dialect

variable {d : Dialect} {j k : Nat}

theorem Allows.mono (h : d.Allows k) (hle : j ≤ k) : d.Allows j := by
  unfold Allows at h ⊢
  cases hlimit : d.grammar.nestingLimit with
  | none => rfl
  | some limit =>
    rw [hlimit] at h
    exact decide_eq_true (Nat.le_trans hle (of_decide_eq_true h))

theorem allows_max : d.Allows (max j k) ↔ d.Allows j ∧ d.Allows k := by
  constructor
  · intro h
    exact ⟨h.mono (Nat.le_max_left _ _), h.mono (Nat.le_max_right _ _)⟩
  · rintro ⟨hj, hk⟩
    rcases Nat.le_total j k with hle | hle
    · rwa [Nat.max_eq_right hle]
    · rwa [Nat.max_eq_left hle]

end Dialect

/-- At the limit no further level is left. -/
theorem Context.atLimit_iff {c : Context} {s : State} :
    c.AtLimit s ↔ ¬ c.dialect.Allows (s.depth + 1) := by
  unfold AtLimit Dialect.Allows
  cases c.dialect.grammar.nestingLimit with
  | none => simp
  | some limit =>
    simp only [Option.any_some, Option.all_some, decide_eq_true_eq]
    omega

namespace Reading

variable {α β : Type} {c : Context} {input mid rest : List Char} {j k : Nat}

/-- From in front of `input` the reading opens so many levels: where the limit leaves them,
it answers `a` and stops in front of `rest`, and elsewhere it fails at the limit. -/
def Costs (c : Context) (k : Nat) (x : Reading α) (input : List Char) (a : α)
    (rest : List Char) : Prop :=
  input <:+ c.text.toList → rest <:+ c.text.toList ∧
    ∀ s : State, c.dialect.Allows s.depth →
      (c.dialect.Allows (s.depth + k) ∧
        x c (s.placed c.text input) = .ok a (s.placed c.text rest)) ∨
      (¬ c.dialect.Allows (s.depth + k) ∧
        ∃ i s', x c (s.placed c.text input) = .fail ⟨.nestingLimit, i⟩ s')

namespace Costs

/-! ### Sequences -/

/-- A reading that opens no level. -/
theorem of_takes {x : Reading α} {a : α} (h : Takes c x input a rest) :
    Costs c 0 x input a rest := by
  intro hin
  obtain ⟨hrest, hrun⟩ := h hin
  exact ⟨hrest, fun s hs => .inl ⟨hs, hrun s⟩⟩

/-- A sequence costs what its dearest part does. -/
theorem bind {x : Reading α} {f : α → Reading β} {a : α} {b : β}
    (hx : Costs c j x input a mid) (hf : Costs c k (f a) mid b rest) :
    Costs c (max j k) (x >>= f) input b rest := by
  intro hin
  obtain ⟨hmid, hx⟩ := hx hin
  obtain ⟨hrest, hf⟩ := hf hmid
  refine ⟨hrest, ?_⟩
  intro s hs
  rw [← Nat.add_max_add_left, Dialect.allows_max]
  rcases hx s hs with ⟨hj, hrun⟩ | ⟨hj, i, s', hrun⟩
  · rw [bind_of_ok hrun]
    rcases hf s hs with ⟨hk, hrun⟩ | ⟨hk, hfail⟩
    · exact .inl ⟨⟨hj, hk⟩, hrun⟩
    · exact .inr ⟨fun h => hk h.2, hfail⟩
  · refine .inr ⟨fun h => hj h.1, i, s', ?_⟩
    rw [bind_apply, hrun]

/-- What opens no level may follow. -/
theorem bind_takes {x : Reading α} {f : α → Reading β} {a : α} {b : β}
    (hx : Costs c k x input a mid) (hf : Takes c (f a) mid b rest) :
    Costs c k (x >>= f) input b rest := by
  have h := hx.bind (of_takes hf)
  rwa [Nat.max_eq_left (Nat.zero_le k)] at h

/-- What opens no level may come first. -/
theorem of_takes_bind {x : Reading α} {f : α → Reading β} {a : α} {b : β}
    (hx : Takes c x input a mid) (hf : Costs c k (f a) mid b rest) :
    Costs c k (x >>= f) input b rest := by
  have h := (of_takes hx).bind hf
  rwa [Nat.max_eq_right (Nat.zero_le k)] at h

/-- Reading one level deeper costs one level more. -/
theorem nested {x : Reading α} {a : α} (hx : Costs c k x input a rest) :
    Costs c (k + 1) (Reading.nested x) input a rest := by
  intro hin
  obtain ⟨hrest, hx⟩ := hx hin
  refine ⟨hrest, ?_⟩
  intro s hs
  rw [show s.depth + (k + 1) = s.depth + 1 + k by omega]
  by_cases hat : c.AtLimit (s.placed c.text input)
  · refine .inr ⟨fun h => ?_, _, _, nested_of_atLimit hat⟩
    exact Context.atLimit_iff.mp hat (h.mono (Nat.le_add_right _ _))
  · rw [nested_of_not_atLimit hat]
    have hopen : c.dialect.Allows (s.depth + 1) :=
      Classical.not_not.mp fun h => hat (Context.atLimit_iff.mpr h)
    rcases hx { s with depth := s.depth + 1 } hopen with ⟨hk, hrun⟩ | ⟨hk, i, s', hrun⟩
    · refine .inl ⟨hk, ?_⟩
      have hbody : x c { s.placed c.text input with depth := (s.placed c.text input).depth + 1 }
          = .ok a (State.placed { s with depth := s.depth + 1 } c.text rest) := hrun
      rw [hbody]
      rfl
    · refine .inr ⟨hk, i, { s' with depth := s'.depth - 1 }, ?_⟩
      have hbody : x c { s.placed c.text input with depth := (s.placed c.text input).depth + 1 }
          = .fail ⟨.nestingLimit, i⟩ s' := hrun
      rw [hbody]

/-! ### One path through a production -/

section Productions

variable {ch : Char} (hd : c.dialect.HookFree)
include hd

/-- White space, where there is none. -/
theorem skipNone (hn : input.length + 1 ≤ c.budget)
    (hhead : ∀ ch ∈ input.head?, ¬ Grammar.isBlank ch) :
    Takes c Reading.skipBlanks input () input :=
  Takes.skipBlanks hd.plain (skips_nothing hd.not_hasComments hhead) hn

theorem expression (hn : rest.length + 1 ≤ c.budget)
    (hhead : ∀ ch ∈ rest.head?, ¬ Grammar.isBlank ch) {e : Option Expr}
    (h : Costs c k Reading.binaryExpression input e rest) :
    Costs c (k + 1) Reading.expression input e rest :=
  nested (of_takes_bind (Takes.search_nil (hd _))
    (h.bind_takes ((skipNone hd hn hhead).bind (Takes.notify_nil (hd _)))))

/-- An operand behind which no operator comes. -/
theorem lone (hn : rest.length + 1 ≤ c.budget)
    (hhead : ∀ ch ∈ rest.head?, ¬ Grammar.isBlank ch)
    (hop : c.dialect.grammar.binaryOpIn rest = none) {e : Expr}
    (h : Costs c k (reenter .operand) input (some e) rest) :
    Costs c k Reading.binaryExpression input (some e) rest := by
  have hnone : Takes c binaryOp rest none rest :=
    .binaryOp_none hd.plain hn (skips_nothing hd.not_hasComments hhead) hop
  exact h.bind_takes ((hnone.bind (.pure [])).bind (.pure _))

/-- Two operands with an operator between them, behind which no operator comes. -/
theorem binary (hn : rest.length + 1 ≤ c.budget)
    (hhead : ∀ ch ∈ rest.head?, ¬ Grammar.isBlank ch)
    (hnone : c.dialect.grammar.binaryOpIn rest = none) {op : BinaryOp} {left right : Expr}
    {after : List Char} (hleft : Costs c j (reenter .operand) input (some left) mid)
    (hop : Takes c binaryOp mid (some op) after)
    (hright : Costs c k (reenter .operand) after (some right) rest) :
    Costs c (max j k) Reading.binaryExpression input (some (.binary op.symbol left right))
      rest := by
  obtain ⟨n, hbudget⟩ : ∃ n, c.budget = n + 1 := ⟨c.budget - 1, by omega⟩
  have hend : Takes c (chainWithin c.budget #[(op, right)]) rest [(op, right)] rest := by
    have hnone : Takes c binaryOp rest none rest :=
      .binaryOp_none hd.plain hn (skips_nothing hd.not_hasComments hhead) hnone
    rw [hbudget]
    exact hnone.bind (.pure _)
  have hoperand : Costs c k (rightOperand op) after right rest := hright.bind_takes (.pure right)
  have hchain : Costs c k chainRest mid [(op, right)] rest :=
    of_takes_bind hop (hoperand.bind_takes (Takes.budget.bind hend))
  exact hleft.bind (hchain.bind_takes (.pure _))

/-- An operand, given the branch that its lead chooses. -/
theorem operand (hn : input.length + 1 ≤ c.budget)
    (hhead : ∀ ch ∈ input.head?, ¬ Grammar.isBlank ch) {lead : Lead}
    (hlead : c.dialect.grammar.lead input = lead) {e : Option Expr}
    (h : Costs c k (operandBy c.dialect.grammar lead) input e rest) :
    Costs c (k + 1) Reading.operand input e rest := by
  subst hlead
  refine nested (of_takes_bind (skipNone hd hn hhead) (of_takes_bind (Takes.search_nil (hd _))
    (of_takes_bind .current ?_)))
  cases input with
  | nil => exact h
  | cons ch more =>
    intro hin
    obtain ⟨hrest, hrun⟩ := h hin
    refine ⟨hrest, ?_⟩
    intro s hs
    have hfrom := operandFrom_apply (s := s.placed c.text (ch :: more)) (restAt_of_suffix hin)
    have hrun := hrun s hs
    rw [← hfrom] at hrun
    exact hrun

theorem operandUnary {op : String} {argument : Expr}
    (h : Costs c k (reenter .operand) input (some argument) rest) :
    Costs c k (operandBy c.dialect.grammar (.unary op)) (op.toList ++ input)
      (some (.signed op argument)) rest :=
  of_takes_bind .forward_string (h.bind_takes (Takes.notify_nil (hd _)))

/-- A node with no links behind it. -/
theorem linksNone (hn : input.length + 1 ≤ c.budget)
    (hhead : ∀ ch ∈ input.head?, ¬ Grammar.isBlank ch) (hends : EndsLinks input) {n : Nat}
    (hrounds : 0 < n) (node : Expr) :
    Takes c (Reading.skipBlanks >>= fun _ => linksWithin n node) input node input := by
  obtain ⟨n, rfl⟩ : ∃ m, n = m + 1 := ⟨n - 1, by omega⟩
  exact .linksEnd hd.plain hn (skips_nothing hd.not_hasComments hhead) hends

/-- A name with no links behind it. -/
theorem name (hn : input.length + 1 ≤ c.budget) (hhead : ∀ ch ∈ input.head?, ¬ Grammar.isBlank ch)
    (hlead : c.dialect.grammar.lead input = .name) {w : String}
    (htoken : NameToken c.dialect.grammar input w rest)
    (hrest : ∀ ch ∈ rest.head?, ¬ Grammar.isBlank ch) (hends : EndsLinks rest) :
    Costs c 1 Reading.operand input (some (Lexeme.meaning c.dialect.grammar w)) rest := by
  have hroom : rest.length + 1 ≤ c.budget := by
    rw [htoken.split, List.length_append] at hn
    omega
  exact .operand hd hn hhead hlead (.of_takes (.operandName hd.plain htoken
    (linksNone hd hroom hrest hends (by omega) _)))

/-! ### Groups and lists -/

/-- An expression in front of further items. -/
theorem item (hn : input.length + 1 ≤ c.budget) (hhead : input.head? = some ch)
    (hblank : ¬ Grammar.isBlank ch) (hsep : ¬ (ch = ';' ∨ ch = ',')) {closer : Option Char}
    {n : Nat} {found : Array Expr} {e : Expr} {nodes : List Expr}
    (he : Costs c j (reenter .expression) input (some e) mid)
    (hmore : Costs c k (expressionsWithin closer n (found.push e)) mid nodes rest) :
    Costs c (max j k) (expressionsWithin closer (n + 1) found) input nodes rest := by
  refine of_takes_bind (skipNone hd hn ?_) (of_takes_bind .current ?_)
  · rw [hhead]
    rintro _ ⟨⟩
    exact hblank
  · rw [hhead]
    simp only [hsep, if_false]
    exact he.bind hmore

/-- The closing character, in front of which no expression comes. -/
theorem itemsStop (hn : (ch :: rest).length + 1 ≤ c.budget) (hblank : ¬ Grammar.isBlank ch)
    (hsep : ¬ (ch = ';' ∨ ch = ',')) {n : Nat} {found : Array Expr}
    (he : Costs c k (reenter .expression) (ch :: rest) none (ch :: rest)) :
    Costs c k (expressionsWithin (some ch) (n + 1) found) (ch :: rest) found.toList
      (ch :: rest) := by
  refine of_takes_bind (skipNone hd hn (by simpa using hblank)) (of_takes_bind .current ?_)
  simp only [List.head?_cons, hsep, if_false]
  refine he.bind_takes (Takes.current.bind ?_)
  simp only [List.head?_cons, if_true]
  exact .pure _

/-- The expression in a slot of a list. -/
theorem listFill (hn : input.length + 1 ≤ c.budget) (hhead : input.head? = some ch)
    (hblank : ¬ Grammar.isBlank ch) {kind : ListKind} (hcloser : ch ≠ kind.closer)
    (hcomma : ch ≠ ',') {n : Nat} {before : Slots} {e : Expr} {items : List (Option Expr)}
    (haccepts : before.accepts) (he : Costs c k (reenter .expression) input (some e) mid)
    (hcompound : ¬ e.isCompound)
    (hmore : Takes c (slotsWithin kind n (before.fill e)) mid items rest) :
    Costs c k (slotsWithin kind (n + 1) before) input items rest := by
  refine of_takes_bind (skipNone hd hn ?_) (of_takes_bind .current ?_)
  · rw [hhead]
    rintro _ ⟨⟩
    exact hblank
  · rw [hhead]
    simp only [hcloser, hcomma, haccepts, if_false, if_true]
    refine he.bind_takes ?_
    simp only [hcompound]
    exact hmore

/-! ### Operands with something inside -/

theorem linkedOperand {node e : Expr}
    (h : Costs c k (Reading.skipBlanks >>= fun _ => linksWithin c.budget node) input e rest) :
    Costs c k (Reading.linkedOperand (some node)) input (some e) rest := by
  have hlinks : Costs c k (links node) input e rest := h
  exact hlinks.bind_takes (Takes.notify_nil (hd _))

theorem operandGroup {e : Expr}
    (h : Costs c k (expressionsWithin (some ')') c.budget #[]) input [e] (')' :: mid))
    (hlinks : Takes c (Reading.skipBlanks >>= fun _ => linksWithin c.budget e) mid e rest) :
    Costs c k (operandBy c.dialect.grammar .group) ('(' :: input) (some e) rest := by
  have hgroup : Costs c k group ('(' :: input) (some e) mid := by
    refine of_takes_bind .forward_one ((of_takes_bind .budget h).bind_takes (Takes.current.bind ?_))
    simp only [List.head?_cons, if_true]
    exact Takes.forward_one.bind (.pure _)
  exact hgroup.bind_takes (Takes.linkedOperand hd.plain hlinks)

theorem operandArray {items : List (Option Expr)} {e : Expr}
    (hslots : Costs c k (slotsWithin .elements c.budget .empty) input items mid)
    (hlinks : Takes c (Reading.skipBlanks >>= fun _ => linksWithin c.budget (.array items))
      mid e rest) :
    Costs c k (operandBy c.dialect.grammar .array) ('[' :: input) (some e) rest :=
  of_takes_bind .forward_one ((of_takes_bind .budget hslots).bind_takes
    (Takes.linkedOperand hd.plain hlinks))

/-- A name with one link that opens levels. -/
theorem operandLink (hn : mid.length + 1 ≤ c.budget)
    (hhead : ∀ ch ∈ mid.head?, ¬ Grammar.isBlank ch) {w : String} {form : LinkForm}
    {opened : List Char} {linked e : Expr}
    (hname : NameToken c.dialect.grammar input w mid)
    (hopens : OpensLink c.dialect.HasComments mid form false opened) {after : List Char}
    (hbody : Costs c k (linkBody (Lexeme.meaning c.dialect.grammar w) form) opened linked after)
    (hmore : ∀ n, c.budget = n + 1 →
      Takes c (Reading.skipBlanks >>= fun _ => linksWithin n linked) after e rest) :
    Costs c k (operandBy c.dialect.grammar .name) input (some e) rest := by
  obtain ⟨n, hbudget⟩ : ∃ n, c.budget = n + 1 := ⟨c.budget - 1, by omega⟩
  refine of_takes_bind (.name hname) (linkedOperand hd ?_)
  rw [hbudget]
  exact of_takes_bind (skipNone hd hn hhead) (of_takes_bind
    (.linkStart_some hd.plain (by omega) hopens) (hbody.bind_takes (hmore n hbudget)))

/-- The key of an index, up to its bracket. -/
theorem index (hn : (']' :: rest).length + 1 ≤ c.budget) {node key : Expr}
    (hkey : Costs c k (reenter .expression) input (some key) (']' :: rest)) :
    Costs c k (linkBody node .index) input (.link node key true) rest := by
  refine hkey.bind_takes ((skipNone hd hn (by simp [Grammar.isBlank])).bind
    (Takes.current.bind ?_))
  simp only [List.head?_cons, if_true]
  exact Takes.forward_one.bind (.pure _)

omit hd in
/-- The arguments of a call, up to its parenthesis. -/
theorem call {node : Expr} {items : List (Option Expr)}
    (hslots : Costs c k (slotsWithin .arguments c.budget .empty) input items rest) :
    Costs c k (linkBody node .call) input (.apply node (items.filterMap id)) rest :=
  (of_takes_bind .budget hslots).bind_takes (.pure _)

end Productions

end Costs

end Reading

end OperatorGrammar
