/-
OperatorGrammar/Proofs/Layout.lean

The tree that precedence and associativity ask for, and the chain reader that
builds it.

A chain `t₀ o₁ t₁ … oₙ tₙ` has many readings as a binary tree.  A `Layout` is
one of them, with the operands as leaves even when an operand is itself a binary
node.  A layout is `Ordered` when no operator stands where another one should
have closed it: looking down the right edge of a left operand, every operator is
one that the root closes, and looking down the left edge of a right operand,
none closes the root.

Two facts about the stack algorithm give everything:

* closing all waiting operators right now always yields an ordered layout
  (`ordered_climb`): this is the invariant, and pushing an operator keeps it
  because `reduce` stops exactly at the first operator that is not closed;
* an ordered layout rebuilds itself (`climb_layout`): fed its own reading, the
  algorithm holds its right edge on the stack at every moment.

The second fact makes the ordered layout of a chain unique.  Main result:
`binaryExpression_ordered`, for any context, hence for any callbacks.
-/
import OperatorGrammar.Proofs.Reading
import OperatorGrammar.Proofs.Sameness

namespace OperatorGrammar

/-- `later` takes its left operand away from `earlier`: it binds less tightly,
or as tightly and the two do not both group to the right. -/
def BinaryOp.Reduces (later earlier : BinaryOp) : Prop :=
  later.precedence < earlier.precedence ∨
    later.precedence = earlier.precedence ∧ ¬ (later.right ∧ earlier.right)

theorem BinaryOp.closes_iff {later earlier : BinaryOp} :
    later.closes earlier ↔ later.Reduces earlier := by
  unfold BinaryOp.closes BinaryOp.Reduces
  by_cases h : later.right && earlier.right
  · simp only [h, if_true, decide_eq_true_eq]
    simp only [Bool.and_eq_true] at h
    simp [h]
  · simp only [h, Bool.false_eq_true, if_false, decide_eq_true_eq]
    simp only [Bool.and_eq_true] at h
    simp only [h, not_false_eq_true, and_true]
    omega

/-- A binary tree over the operands of a chain. -/
inductive Layout where
  | operand (e : Expr)
  | node (op : BinaryOp) (left right : Layout)

namespace Layout

/-- The expression that a layout stands for. -/
def expr : Layout → Expr
  | operand e => e
  | node op left right => .binary op.symbol left.expr right.expr

/-- The leftmost operand. -/
def first : Layout → Expr
  | operand e => e
  | node _ left _ => left.first

/-- The operators and operands after the first operand, from left to right. -/
def rest : Layout → List (BinaryOp × Expr)
  | operand _ => []
  | node op left right => left.rest ++ (op, right.first) :: right.rest

/-- The operators from the root down along left operands. -/
def leftSpine : Layout → List BinaryOp
  | operand _ => []
  | node op left _ => op :: left.leftSpine

/-- The operators from the root down along right operands. -/
def rightSpine : Layout → List BinaryOp
  | operand _ => []
  | node op _ right => op :: right.rightSpine

/-- At every inner node, the operator reduces all operators on the right spine of
its left operand, and none on the left spine of its right operand reduces it. -/
def Ordered : Layout → Prop
  | operand _ => True
  | node op left right =>
    (∀ z ∈ left.rightSpine, op.Reduces z) ∧ (∀ v ∈ right.leftSpine, ¬ v.Reduces op) ∧
      left.Ordered ∧ right.Ordered

end Layout

namespace Chain

open Layout

variable {α β : Type}

/-! ### Climbing does not look at operands -/

/-- The stack with every left operand replaced by its image. -/
def Waiting.map (f : α → β) (w : Waiting α) : Waiting β := ⟨f w.left, w.op⟩

section Naturality

variable {f : α → β} {join : BinaryOp → α → α → α} {join' : BinaryOp → β → β → β}

theorem reduce_map (hf : ∀ op l r, f (join op l r) = join' op (f l) (f r)) (op : BinaryOp)
    (S : List (Waiting α)) (a : α) :
    reduce join' op (S.map (Waiting.map f)) (f a)
      = ((reduce join op S a).1.map (Waiting.map f), f (reduce join op S a).2) := by
  induction S generalizing a with
  | nil => rfl
  | cons w S ih =>
    by_cases h : op.closes w.op
    · have hop : op.closes (w.map f).op := h
      simp only [List.map_cons, reduce, h, hop, if_true]
      rw [← ih, hf]
      rfl
    · have hop : ¬ op.closes (w.map f).op := h
      simp only [List.map_cons, reduce, h, hop, if_false, Bool.false_eq_true]

theorem finish_map (hf : ∀ op l r, f (join op l r) = join' op (f l) (f r))
    (S : List (Waiting α)) (a : α) :
    finish join' (S.map (Waiting.map f)) (f a) = f (finish join S a) := by
  induction S generalizing a with
  | nil => rfl
  | cons w S ih =>
    show finish join' (S.map (Waiting.map f)) (join' w.op (f w.left) (f a)) = _
    rw [← hf, ih]
    rfl

/-- A map that respects joining can be applied before climbing or after it. -/
theorem climb_map (hf : ∀ op l r, f (join op l r) = join' op (f l) (f r))
    (S : List (Waiting α)) (a : α) (rest : List (BinaryOp × α)) :
    climb join' (S.map (Waiting.map f)) (f a) (rest.map (Prod.map id f))
      = f (climb join S a rest) := by
  induction rest generalizing S a with
  | nil => exact finish_map hf S a
  | cons p rest ih =>
    obtain ⟨op, next⟩ := p
    show climb join' (⟨(reduce join' op (S.map (Waiting.map f)) (f a)).2, op⟩ ::
      (reduce join' op (S.map (Waiting.map f)) (f a)).1) (f next) (rest.map (Prod.map id f)) = _
    rw [reduce_map hf, climb, ← ih]
    rfl

end Naturality

/-! ### Closing and pushing -/

/-- An operator does not reduce the innermost waiting one. -/
def Held (op : BinaryOp) (S : List (Waiting α)) : Prop :=
  ∀ w ∈ S.head?, ¬ op.Reduces w.op

theorem finish_reduce (join : BinaryOp → α → α → α) (op : BinaryOp) (S : List (Waiting α))
    (a : α) :
    finish join (reduce join op S a).1 (reduce join op S a).2 = finish join S a := by
  induction S generalizing a with
  | nil => rfl
  | cons w S ih =>
    by_cases h : op.closes w.op
    · simp only [reduce, h, if_true, ih]
      rfl
    · simp only [reduce, h, Bool.false_eq_true, if_false]

theorem held_reduce (join : BinaryOp → α → α → α) (op : BinaryOp) (S : List (Waiting α))
    (a : α) : Held op (reduce join op S a).1 := by
  induction S generalizing a with
  | nil => simp [reduce, Held]
  | cons w S ih =>
    by_cases h : op.closes w.op
    · simp only [reduce, h, if_true]
      exact ih _
    · simp only [reduce, h, Bool.false_eq_true, if_false]
      -- the stack is left as it is, because its innermost operator is not reduced
      rintro w' hw'
      obtain rfl : w = w' := by simpa using hw'
      rwa [← BinaryOp.closes_iff]

theorem reduce_of_held (join : BinaryOp → α → α → α) {op : BinaryOp} {S : List (Waiting α)}
    (h : Held op S) (a : α) : reduce join op S a = (S, a) := by
  cases S with
  | nil => rfl
  | cons w S =>
    have hw : ¬ op.closes w.op := by
      rw [BinaryOp.closes_iff]
      exact h w (by simp)
    simp only [reduce, hw, Bool.false_eq_true, if_false]

/-! ### The invariant: closing now gives an ordered layout -/

/-- All operators down the right edge of the operand that `reduce` leaves are ones
that the new operator reduces. -/
theorem rightSpine_reduce {op : BinaryOp} {S : List (Waiting Layout)} {a : Layout}
    (ha : ∀ z ∈ a.rightSpine, op.Reduces z) :
    ∀ z ∈ (reduce node op S a).2.rightSpine, op.Reduces z := by
  induction S generalizing a with
  | nil => exact ha
  | cons w S ih =>
    by_cases h : op.closes w.op
    · simp only [reduce, h, if_true]
      -- the closed operator joins the right edge, and it is reduced like the rest
      refine ih ?_
      simp only [rightSpine, List.mem_cons, forall_eq_or_imp]
      exact ⟨BinaryOp.closes_iff.mp h, ha⟩
    · simpa only [reduce, h, Bool.false_eq_true, if_false] using ha

theorem ordered_of_finish {S : List (Waiting Layout)} {a : Layout}
    (h : (finish node S a).Ordered) : a.Ordered := by
  induction S generalizing a with
  | nil => exact h
  | cons w S ih => exact (ih (a := node w.op w.left a) h).2.2.2

theorem held_of_finish {S : List (Waiting Layout)} {a : Layout}
    (h : (finish node S a).Ordered) : ∀ v ∈ a.leftSpine, Held v S := by
  cases S with
  | nil => simp [Held]
  | cons w S =>
    intro v hv u hu
    obtain rfl : w = u := by simpa using hu
    exact (ordered_of_finish (S := S) (a := node w.op w.left a) h).2.1 v hv

/-- What stands below the stack may be exchanged for an ordered layout, as long as no
operator on the left edge of the new one reduces the innermost waiting operator. -/
theorem ordered_finish_of_leftSpine {S : List (Waiting Layout)} {a b : Layout}
    (h : (finish node S a).Ordered) (hb : b.Ordered)
    (hspine : ∀ v ∈ b.leftSpine, Held v S) : (finish node S b).Ordered := by
  induction S generalizing a b with
  | nil => exact hb
  | cons w S ih =>
    have hnode : (finish node S (node w.op w.left a)).Ordered := h
    obtain ⟨hleft, -, hl, -⟩ := ordered_of_finish hnode
    refine ih hnode ⟨hleft, ?_, hl, hb⟩ ?_
    · intro v hv
      exact hspine v hv w (by simp)
    · -- the left edge of the closed operator does not depend on its right operand
      intro v hv
      exact held_of_finish hnode v hv

/-- Pushing an operator with its right operand keeps the invariant. -/
theorem ordered_push {op : BinaryOp} {S : List (Waiting Layout)} {a : Layout} (e : Expr)
    (h : (finish node S a).Ordered) (ha : ∀ z ∈ a.rightSpine, op.Reduces z)
    (hop : Held op S) : (finish node (⟨a, op⟩ :: S) (operand e)).Ordered := by
  have hnode : (node op a (operand e)).Ordered :=
    ⟨ha, by simp [leftSpine], ordered_of_finish h, trivial⟩
  show (finish node S (node op a (operand e))).Ordered
  refine ordered_finish_of_leftSpine h hnode ?_
  simp only [leftSpine, List.mem_cons, forall_eq_or_imp]
  exact ⟨hop, held_of_finish h⟩

/-- Operators with their right operands, each operand a leaf. -/
def leaves (rest : List (BinaryOp × Expr)) : List (BinaryOp × Layout) :=
  rest.map (Prod.map id operand)

/-- Climbing keeps the invariant; the last operand read is a leaf throughout. -/
theorem ordered_climb {S : List (Waiting Layout)} {a : Layout}
    (rest : List (BinaryOp × Expr)) (h : (finish node S a).Ordered)
    (ha : a.rightSpine = []) : (climb node S a (leaves rest)).Ordered := by
  induction rest generalizing S a with
  | nil => exact h
  | cons p rest ih =>
    obtain ⟨op, e⟩ := p
    -- closing changes nothing that is seen from outside; then the operator is pushed
    have hclosed : (finish node (reduce node op S a).1 (reduce node op S a).2).Ordered := by
      rwa [finish_reduce]
    refine ih (ordered_push e hclosed ?_ (held_reduce node op S a)) rfl
    exact rightSpine_reduce (by simp [ha])

/-! ### Climbing keeps the reading -/

theorem first_finish_node (S : List (Waiting Layout)) (op : BinaryOp) (a b : Layout) :
    (finish node S (node op a b)).first = (finish node S a).first := by
  suffices ∀ a a' : Layout, a.first = a'.first →
      (finish node S a).first = (finish node S a').first from this _ _ rfl
  induction S with
  | nil => exact fun a a' h => h
  | cons w S ih =>
    intro a a' h
    exact ih (node w.op w.left a) (node w.op w.left a') rfl

theorem rest_finish_node (S : List (Waiting Layout)) (op : BinaryOp) (a b : Layout) :
    (finish node S (node op a b)).rest
      = (finish node S a).rest ++ (op, b.first) :: b.rest := by
  -- stronger: what two operands differ by at the end is all that the results differ by
  suffices ∀ (a a' : Layout) (more : List (BinaryOp × Expr)), a'.first = a.first →
      a'.rest = a.rest ++ more →
      (finish node S a').rest = (finish node S a).rest ++ more from
    this a (node op a b) _ rfl rfl
  induction S with
  | nil => exact fun a a' more _ h => h
  | cons w S ih =>
    intro a a' more hf hr
    refine ih (node w.op w.left a) (node w.op w.left a') more rfl ?_
    simp [rest, hf, hr]

theorem first_climb (S : List (Waiting Layout)) (a : Layout)
    (rest : List (BinaryOp × Expr)) :
    (climb node S a (leaves rest)).first = (finish node S a).first := by
  induction rest generalizing S a with
  | nil => rfl
  | cons p rest ih =>
    obtain ⟨op, e⟩ := p
    calc (climb node S a (leaves ((op, e) :: rest))).first
        = (finish node (reduce node op S a).1
            (node op (reduce node op S a).2 (operand e))).first := ih _ _
      _ = (finish node S a).first := by rw [first_finish_node, finish_reduce]

theorem rest_climb (S : List (Waiting Layout)) (a : Layout)
    (rest : List (BinaryOp × Expr)) :
    (climb node S a (leaves rest)).rest = (finish node S a).rest ++ rest := by
  induction rest generalizing S a with
  | nil => exact (List.append_nil _).symm
  | cons p rest ih =>
    obtain ⟨op, e⟩ := p
    calc (climb node S a (leaves ((op, e) :: rest))).rest
        = (finish node (reduce node op S a).1
            (node op (reduce node op S a).2 (operand e))).rest ++ rest := ih _ _
      _ = (finish node S a).rest ++ (op, e) :: rest := by
          rw [rest_finish_node, finish_reduce]
          simp [first, Layout.rest]

/-! ### An ordered layout rebuilds itself -/

/-- The right edge of a layout as waiting operators, innermost first. -/
def opened : Layout → List (Waiting Layout)
  | operand _ => []
  | node op left right => opened right ++ [⟨left, op⟩]

/-- The rightmost operand. -/
def last : Layout → Expr
  | operand e => e
  | node _ _ right => last right

theorem finish_opened (S : List (Waiting Layout)) (T : Layout) :
    finish node (opened T ++ S) (operand (last T)) = finish node S T := by
  induction T generalizing S with
  | operand e => rfl
  | node op left right _ ih =>
    rw [opened, last, List.append_assoc, ih]
    rfl

/-- An operator that reduces the whole right edge of a layout closes it and goes on
with the stack outside. -/
theorem reduce_opened {op : BinaryOp} {T : Layout} (h : ∀ z ∈ T.rightSpine, op.Reduces z)
    (S : List (Waiting Layout)) :
    reduce node op (opened T ++ S) (operand (last T)) = reduce node op S T := by
  induction T generalizing S with
  | operand e => rfl
  | node op' left right _ ih =>
    simp only [rightSpine, List.mem_cons, forall_eq_or_imp] at h
    have hop : op.closes op' := BinaryOp.closes_iff.mpr h.1
    rw [opened, last, List.append_assoc, ih h.2]
    simp [reduce, hop]

/-- Fed the reading of an ordered layout, climbing ends with its right edge open. -/
theorem climb_opened {T : Layout} (hT : T.Ordered) {S : List (Waiting Layout)}
    (hstack : ∀ v ∈ T.leftSpine, Held v S) (more : List (BinaryOp × Layout)) :
    climb node S (operand T.first) (leaves T.rest ++ more)
      = climb node (opened T ++ S) (operand (last T)) more := by
  induction T generalizing S more with
  | operand e => rfl
  | node op left right ihl ihr =>
    obtain ⟨hright, hleft, hl, hr⟩ := hT
    simp only [leftSpine, List.mem_cons, forall_eq_or_imp] at hstack
    -- the operator closes the right edge of the left part and stops at the stack outside
    have hop : reduce node op (opened left ++ S) (operand (last left)) = (S, left) := by
      rw [reduce_opened hright, reduce_of_held node hstack.1]
    calc climb node S (operand left.first)
          (leaves (left.rest ++ (op, right.first) :: right.rest) ++ more)
        = climb node (opened left ++ S) (operand (last left))
            ((op, operand right.first) :: (leaves right.rest ++ more)) := by
          rw [← ihl hl hstack.2]
          simp [leaves]
      _ = climb node (⟨left, op⟩ :: S) (operand right.first) (leaves right.rest ++ more) := by
          rw [climb, hop]
      _ = climb node (opened (node op left right) ++ S) (operand (last right)) more := by
          rw [ihr hr (fun v hv w hw => ?_), opened, List.append_assoc]
          · rfl
          · obtain rfl : (⟨left, op⟩ : Waiting Layout) = w := by simpa using hw
            exact hleft v hv

theorem climb_layout {T : Layout} (hT : T.Ordered) :
    climb node [] (operand T.first) (leaves T.rest) = T := by
  have h := climb_opened hT (S := []) (fun v _ => by simp [Held]) []
  rw [List.append_nil] at h
  exact h.trans (finish_opened [] T)

/-! ### The layout of a chain -/

/-- The layout that the chain reader builds. -/
def layout (first : Expr) (rest : List (BinaryOp × Expr)) : Layout :=
  climb node [] (operand first) (leaves rest)

theorem layout_ordered (first : Expr) (rest : List (BinaryOp × Expr)) :
    (layout first rest).Ordered :=
  ordered_climb rest (S := []) (a := operand first) trivial rfl

theorem layout_first (first : Expr) (rest : List (BinaryOp × Expr)) :
    (layout first rest).first = first :=
  first_climb [] (operand first) rest

theorem layout_rest (first : Expr) (rest : List (BinaryOp × Expr)) :
    (layout first rest).rest = rest :=
  rest_climb [] (operand first) rest

theorem layout_expr (first : Expr) (rest : List (BinaryOp × Expr)) :
    (layout first rest).expr = tree first rest := by
  have hmap : (leaves rest).map (Prod.map id expr) = rest := by
    simp [leaves, Function.comp_def, expr, Prod.map]
  calc (layout first rest).expr
      = climb (fun op left right => .binary op.symbol left right) [] first
          ((leaves rest).map (Prod.map id expr)) :=
        (climb_map (fun _ _ _ => rfl) [] (operand first) (leaves rest)).symm
    _ = tree first rest := by rw [hmap, tree]

theorem layout_unique {T : Layout} (hT : T.Ordered) : layout T.first T.rest = T :=
  climb_layout hT

end Chain

/-! ### The run of a chain -/

/-- How the operators and operands after the first operand are read: each operator
that is kept, with the operand that the next call for one returned.  `opening` holds
for the first operator only, which may have any precedence; a later one of
precedence zero is put back and ends the chain. -/
inductive ChainRun (c : Context) : (opening : Bool) → State → List (BinaryOp × Expr) → State → Prop
  | stop {opening s s'} :
      Reading.binaryOp c s = .ok none s' → ChainRun c opening s [] s'
  | putBack {op s s'} :
      Reading.binaryOp c s = .ok (some op) s' → op.precedence = 0 →
      ChainRun c false s [] { s' with index := s'.index - op.symbol.length }
  | operator {opening op e rest s s₁ s₂ s'} :
      Reading.binaryOp c s = .ok (some op) s₁ → (opening = false → op.precedence ≠ 0) →
      c.enter .operand s₁ = .ok (some e) s₂ → ChainRun c false s₂ rest s' →
      ChainRun c opening s ((op, e) :: rest) s'

namespace Reading

variable {c : Context} {s s' : State}

theorem rightOperand_eq_ok {op : BinaryOp} {e : Expr} :
    rightOperand op c s = .ok e s' ↔ c.enter .operand s = .ok (some e) s' := by
  rw [rightOperand]
  rw [bind_eq_ok]
  constructor
  · rintro ⟨found, s₁, h, hr⟩
    cases found with
    | none => simp at hr
    | some e' =>
      cases hr
      exact h
  · intro h
    exact ⟨some e, s', h, rfl⟩

theorem chainRun_of_chainWithin {n : Nat} {found : Array (BinaryOp × Expr)}
    {pairs : List (BinaryOp × Expr)} (h : chainWithin n found c s = .ok pairs s') :
    ∃ rest, pairs = found.toList ++ rest ∧ ChainRun c false s rest s' := by
  induction n generalizing found s with
  | zero => simp [chainWithin] at h
  | succ n ih =>
    rw [chainWithin, bind_eq_ok] at h
    obtain ⟨next, s₁, hop, h⟩ := h
    cases next with
    | none =>
      cases h
      exact ⟨[], by simp, .stop hop⟩
    | some op =>
      by_cases hzero : op.precedence = 0
      -- an operator of precedence zero is put back and ends the chain
      · simp only [hzero, if_true] at h
        rw [bind_of_ok (rewind_apply _)] at h
        cases h
        exact ⟨[], by simp, .putBack hop hzero⟩
      · simp only [hzero, if_false] at h
        obtain ⟨e, s₂, he, h⟩ := bind_eq_ok.mp h
        obtain ⟨rest, hpairs, hrun⟩ := ih h
        refine ⟨(op, e) :: rest, by simp [hpairs], ?_⟩
        exact .operator hop (fun _ => hzero) (rightOperand_eq_ok.mp he) hrun

theorem chainRun_of_chainRest {pairs : List (BinaryOp × Expr)}
    (h : chainRest c s = .ok pairs s') : ChainRun c true s pairs s' := by
  rw [chainRest, bind_eq_ok] at h
  obtain ⟨next, s₁, hop, h⟩ := h
  cases next with
  | none =>
    cases h
    exact .stop hop
  | some op =>
    obtain ⟨e, s₂, he, h⟩ := bind_eq_ok.mp h
    rw [bind_of_ok budget_apply] at h
    obtain ⟨rest, rfl, hrun⟩ := chainRun_of_chainWithin h
    exact .operator hop (by simp) (rightOperand_eq_ok.mp he) hrun

/-- A chain that returns a node: its operands, its operators, and the node as the
tree that the chain algorithm builds from them. -/
theorem chainRun_of_binaryExpression {e : Expr}
    (h : binaryExpression c s = .ok (some e) s') :
    ∃ first s₁ rest, c.enter .operand s = .ok (some first) s₁ ∧ ChainRun c true s₁ rest s' ∧
      e = Chain.tree first rest := by
  rw [binaryExpression, bind_eq_ok] at h
  obtain ⟨found, s₁, hfirst, h⟩ := h
  cases found with
  | none => simp at h
  | some first =>
    obtain ⟨rest, s₂, hrest, h⟩ := bind_eq_ok.mp h
    cases h
    exact ⟨first, s₁, rest, hfirst, chainRun_of_chainRest hrest, rfl⟩

/-- **Precedence climbing builds the one ordered tree.**  Whatever the callbacks do,
the node that a chain returns is the expression of a layout that reads
`t₀ o₁ t₁ … oₙ tₙ` from left to right, with the operands that were returned and the
operators that were kept; that layout is ordered, and no other ordered layout reads
the same. -/
theorem binaryExpression_ordered {e : Expr} (h : binaryExpression c s = .ok (some e) s') :
    ∃ first s₁ rest, c.enter .operand s = .ok (some first) s₁ ∧ ChainRun c true s₁ rest s' ∧
      ∃ T : Layout, T.expr = e ∧ (T.first = first ∧ T.rest = rest) ∧ T.Ordered ∧
        ∀ T' : Layout, T'.first = first → T'.rest = rest → T'.Ordered → T' = T := by
  obtain ⟨first, s₁, rest, hfirst, hrun, rfl⟩ := chainRun_of_binaryExpression h
  refine ⟨first, s₁, rest, hfirst, hrun, Chain.layout first rest, Chain.layout_expr first rest,
    ⟨Chain.layout_first first rest, Chain.layout_rest first rest⟩,
    Chain.layout_ordered first rest, ?_⟩
  rintro T' rfl rfl hT'
  exact (Chain.layout_unique hT').symm

/-- A chain with an operator that groups to the right: `a^b^c-d`. -/
theorem binaryExpression_ordered_power :
    let d := Dialect.standard.mapGrammar fun g =>
      (g.clearBinaryOps.addBinaryOp "^" 2 true).addBinaryOp "-" 1 false
    let c := d.context "a^b^c-d".toList.toArray 6
    let e : Expr := .binary "-" (.binary "^" (.identifier "a")
      (.binary "^" (.identifier "b") (.identifier "c"))) (.identifier "d")
    Reading.binaryExpression c .initial = .ok (some e) ⟨7, 0, #[]⟩ ∧
      ∃ first s₁ rest, c.enter .operand .initial = .ok (some first) s₁ ∧
        ChainRun c true s₁ rest ⟨7, 0, #[]⟩ ∧
        ∃ T : Layout, T.expr = e ∧ (T.first = first ∧ T.rest = rest) ∧ T.Ordered ∧
          ∀ T' : Layout, T'.first = first → T'.rest = rest → T'.Ordered → T' = T := by
  intro d c e
  have h : Reading.binaryExpression c .initial = .ok (some e) ⟨7, 0, #[]⟩ :=
    Reply.eq_of_answers (by decide +kernel) rfl
  exact ⟨h, binaryExpression_ordered h⟩

end Reading

end OperatorGrammar
