/-
OperatorGrammar/Proofs/Removal.lean

An operator that is added and removed again leaves no trace.

Adding an operator may raise the greatest length that a grammar carries, and
removing it recounts the operators only when it is as long as the greatest.  Still
no case distinction on lengths is needed: a grammar that has counted its operators
is determined by its tables (`Grammar.Counted.eq_of_tables`), and every change
leaves it counted.  The tables themselves agree because erasing a key takes back
its insertion, in the order of the other keys.

Removing a text that is no operator changes nothing, because the operators that
group to the right are all binary operators.

Main result: `Session.Configured.removal_absorbs`.
-/
import OperatorGrammar.Proofs.ConfigurationHistory

namespace OperatorGrammar

/-! ### Grammars -/

namespace Grammar

variable {g g' : Grammar} {op : String}

/-- A grammar that has counted its operators is determined by its tables. -/
theorem Counted.eq_of_tables (h : g.Counted) (h' : g'.Counted) (hunary : g.unaryOps = g'.unaryOps)
    (hbinary : g.binaryOps = g'.binaryOps) (hright : g.rightAssociative = g'.rightAssociative)
    (hchars : g.identifierChars = g'.identifierChars) (hliterals : g.literals = g'.literals)
    (hkeyword : g.receiverKeyword = g'.receiverKeyword)
    (hlimit : g.nestingLimit = g'.nestingLimit) : g = g' := by
  have hlongestUnary : g.longestUnary = g'.longestUnary := by
    rw [h.unary, h'.unary, hunary]
  have hlongestBinary : g.longestBinary = g'.longestBinary := by
    rw [h.binary, h'.binary, hbinary]
  cases g
  cases g'
  simp_all

theorem Counted.removeBinaryOp_addBinaryOp (h : g.Counted) (op : String) (precedence : Nat)
    (right : Bool) : (g.addBinaryOp op precedence right).removeBinaryOp op = g.removeBinaryOp op := by
  refine ((h.addBinaryOp op precedence right).removeBinaryOp op).eq_of_tables (h.removeBinaryOp op)
    rfl OrderedMap.erase_insert ?_ rfl rfl rfl rfl
  cases right with
  | true => exact OrderedSet.erase_insert
  | false => exact OrderedSet.erase_erase

theorem Counted.removeUnaryOp_addUnaryOp (h : g.Counted) (op : String) :
    (g.addUnaryOp op).removeUnaryOp op = g.removeUnaryOp op :=
  ((h.addUnaryOp op).removeUnaryOp op).eq_of_tables (h.removeUnaryOp op)
    OrderedSet.erase_insert rfl rfl rfl rfl rfl rfl

/-- Where only binary operators group to the right, removing another text changes nothing. -/
theorem Counted.removeBinaryOp_of_not_isBinaryOp (h : g.Counted)
    (hright : ∀ op, g.isRightAssociative op → g.isBinaryOp op) (hop : ¬ g.isBinaryOp op) :
    g.removeBinaryOp op = g := by
  have hbinary : op ∉ g.binaryOps.keys := fun hmem => hop (OrderedMap.contains_iff.mpr hmem)
  have hplain : op ∉ g.rightAssociative.members := fun hmem =>
    hop (hright op (OrderedSet.contains_iff.mpr hmem))
  exact (h.removeBinaryOp op).eq_of_tables h rfl (OrderedMap.erase_of_not_mem hbinary)
    (OrderedSet.erase_of_not_mem hplain) rfl rfl rfl rfl

theorem Counted.removeUnaryOp_of_not_isUnaryOp (h : g.Counted) (hop : ¬ g.isUnaryOp op) :
    g.removeUnaryOp op = g := by
  have hunary : op ∉ g.unaryOps.members := fun hmem => hop (OrderedSet.contains_iff.mpr hmem)
  exact (h.removeUnaryOp op).eq_of_tables h (OrderedSet.erase_of_not_mem hunary) rfl rfl rfl rfl
    rfl rfl

end Grammar

/-! ### Sessions -/

namespace Session

variable {s : Session}

/-- A change of the tables that leaves them as they are leaves the session as it is. -/
theorem mapGrammar_of_eq {f : Grammar → Grammar} (h : f s.dialect.grammar = s.dialect.grammar) :
    s.mapGrammar f = s := by
  rw [mapGrammar, Dialect.mapGrammar, h]

/-- A removal takes back any number of additions of the operator. -/
theorem runSteps_removeBinaryOp (h : s.dialect.grammar.Counted) (op : String)
    (additions : List (Nat × Bool)) :
    runSteps false (additions.map (fun a => .addBinaryOp op a.1 a.2) ++ [.removeBinaryOp op]) s
      = runSteps false [.removeBinaryOp op] s := by
  induction additions generalizing s with
  | nil => rfl
  | cons a additions ih =>
    let added := s.mapGrammar (·.addBinaryOp op a.1 a.2)
    have hadded : added.dialect.grammar.Counted := h.addBinaryOp op a.1 a.2
    have hremoved : added.mapGrammar (·.removeBinaryOp op) = s.mapGrammar (·.removeBinaryOp op) :=
      congrArg (fun g => s.mapGrammar fun _ => g) (h.removeBinaryOp_addBinaryOp op a.1 a.2)
    exact (ih hadded).trans hremoved

theorem runSteps_removeUnaryOp (h : s.dialect.grammar.Counted) (op : String) (count : Nat) :
    runSteps false (List.replicate count (.addUnaryOp op) ++ [.removeUnaryOp op]) s
      = runSteps false [.removeUnaryOp op] s := by
  induction count generalizing s with
  | zero => rfl
  | succ count ih =>
    let added := s.mapGrammar (·.addUnaryOp op)
    have hadded : added.dialect.grammar.Counted := h.addUnaryOp op
    have hremoved : added.mapGrammar (·.removeUnaryOp op) = s.mapGrammar (·.removeUnaryOp op) :=
      congrArg (fun g => s.mapGrammar fun _ => g) (h.removeUnaryOp_addUnaryOp op)
    exact (ih hadded).trans hremoved

theorem Configured.counted {history : List Edit} {saved : List (List Edit)}
    (h : s.Configured history saved) : s.dialect.grammar.Counted := by
  rw [h.edited.1]
  exact Grammar.Counted.edited ⟨rfl, rfl⟩ history

theorem Configured.isBinaryOp_of_isRightAssociative {history : List Edit}
    {saved : List (List Edit)} (h : s.Configured history saved) (op : String) :
    s.dialect.grammar.isRightAssociative op → s.dialect.grammar.isBinaryOp op := by
  rw [h.edited.1]
  exact (Grammar.accounted_edited history).right_binary op

/-- **Adding an operator and removing it leaves no trace.**  In every session, a removal after
any number of additions of the operator, with any precedences and associativities, is that
removal alone: the tables are the same, in the same order, and so are the carried lengths and
everything else.  Where the text was no operator before, the session is as it was. -/
theorem Configured.removal_absorbs {history : List Edit} {saved : List (List Edit)}
    (h : s.Configured history saved) (op : String) :
    (∀ additions : List (Nat × Bool),
      let run := runSteps false
        (additions.map (fun a => .addBinaryOp op a.1 a.2) ++ [.removeBinaryOp op]) s
      run = runSteps false [.removeBinaryOp op] s ∧
        (¬ s.dialect.grammar.isBinaryOp op → run = s)) ∧
    ∀ count : Nat,
      let run := runSteps false (List.replicate count (.addUnaryOp op) ++ [.removeUnaryOp op]) s
      run = runSteps false [.removeUnaryOp op] s ∧
        (¬ s.dialect.grammar.isUnaryOp op → run = s) := by
  have hcounted := h.counted
  refine ⟨fun additions => ?_, fun count => ?_⟩
  · have habsorbs := runSteps_removeBinaryOp hcounted op additions
    refine ⟨habsorbs, fun hop => habsorbs.trans (mapGrammar_of_eq ?_)⟩
    exact hcounted.removeBinaryOp_of_not_isBinaryOp h.isBinaryOp_of_isRightAssociative hop
  · have habsorbs := runSteps_removeUnaryOp hcounted op count
    exact ⟨habsorbs, fun hop =>
      habsorbs.trans (mapGrammar_of_eq (hcounted.removeUnaryOp_of_not_isUnaryOp hop))⟩

/-- An operator that is longer than all others is added twice and removed, on a copy of a
dialect that has an operator of its own. -/
theorem Configured.removal_absorbs_longest :
    let s := (Step.run (.addBinaryOp "and" 3 true) .standard).2.clone
    (∃ history saved, s.Configured history saved) ∧
      ¬ s.dialect.grammar.isBinaryOp "implies" ∧
      runSteps false [.addBinaryOp "implies" 1 true, .addBinaryOp "implies" 2 false,
        .removeBinaryOp "implies"] s = s := by
  intro s
  have h : s.Configured (Grammar.standardHistory ++ [.addBinaryOp "and" 3 true])
      [Grammar.standardHistory ++ [.addBinaryOp "and" 3 true]] := .clone (.step _ .start)
  have hop : ¬ s.dialect.grammar.isBinaryOp "implies" := by decide +kernel
  exact ⟨⟨_, _, h⟩, hop, ((h.removal_absorbs "implies").1 [(1, true), (2, false)]).2 hop⟩

end Session

end OperatorGrammar
