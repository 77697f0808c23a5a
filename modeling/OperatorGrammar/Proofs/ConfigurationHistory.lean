/-
OperatorGrammar/Proofs/ConfigurationHistory.lean

What the tables of a grammar hold, told from the history of its configuration.

An `Edit` is one change of the tables.  A step of a configuration carries out some
edits: none, one, or those of all the plugins that it applies, to any depth
(`Step.edits`), and a session on several dialects has one history for each of
them (`Session.Configured`).  The standard grammar has a history, too: its own
entries were added to a grammar without any.

`Grammar.Accounted` says what a history means for a grammar: which keys each table
holds, in which order and with which values, which operators group to the right,
and how long the longest operator is.  One more edit keeps this
(`Grammar.Accounted.edit`), whatever the edits before were.

Main result: `Session.Configured.accounted`.
-/
import OperatorGrammar.Proofs.TableHistory
import OperatorGrammar.Plugin.Session

namespace OperatorGrammar

/-- One change of the tables of a grammar. -/
inductive Edit where
  | addUnaryOp (op : String)
  | removeUnaryOp (op : String)
  | clearUnaryOps
  | addBinaryOp (op : String) (precedence : Nat) (right : Bool)
  | removeBinaryOp (op : String)
  | clearBinaryOps
  | addIdentifierChar (ch : Char)
  | removeIdentifierChar (ch : Char)
  | addLiteral (name : String) (value : Value)
  | removeLiteral (name : String)
  | clearLiterals
  | setReceiverKeyword (keyword : String)
  | setNestingLimit (limit : Option Nat)

namespace Edit

/-- Carries out an edit. -/
def apply : Edit → Grammar → Grammar
  | addUnaryOp op, g => g.addUnaryOp op
  | removeUnaryOp op, g => g.removeUnaryOp op
  | clearUnaryOps, g => g.clearUnaryOps
  | addBinaryOp op precedence right, g => g.addBinaryOp op precedence right
  | removeBinaryOp op, g => g.removeBinaryOp op
  | clearBinaryOps, g => g.clearBinaryOps
  | addIdentifierChar ch, g => g.addIdentifierChar ch
  | removeIdentifierChar ch, g => g.removeIdentifierChar ch
  | addLiteral name value, g => g.addLiteral name value
  | removeLiteral name, g => g.removeLiteral name
  | clearLiterals, g => g.clearLiterals
  | setReceiverKeyword keyword, g => g.setReceiverKeyword keyword
  | setNestingLimit limit, g => g.setNestingLimit limit

/-! ### What an edit means for each table -/

def onUnaryOps : Edit → Option (Change String Unit)
  | addUnaryOp op => some (.put op ())
  | removeUnaryOp op => some (.erase op)
  | clearUnaryOps => some .clear
  | _ => none

/-- A binary operator has a precedence, and it groups to the right or not. -/
def onBinaryOps : Edit → Option (Change String (Nat × Bool))
  | addBinaryOp op precedence right => some (.put op (precedence, right))
  | removeBinaryOp op => some (.erase op)
  | clearBinaryOps => some .clear
  | _ => none

/-- Adding an operator that does not group to the right takes it out of those that do. -/
def onRightAssociative : Edit → Option (Change String Unit)
  | addBinaryOp op _ right => some (if right then .put op () else .erase op)
  | removeBinaryOp op => some (.erase op)
  | clearBinaryOps => some .clear
  | _ => none

def onIdentifierChars : Edit → Option (Change Char Unit)
  | addIdentifierChar ch => some (.put ch ())
  | removeIdentifierChar ch => some (.erase ch)
  | _ => none

def onLiterals : Edit → Option (Change String Value)
  | addLiteral name value => some (.put name value)
  | removeLiteral name => some (.erase name)
  | clearLiterals => some .clear
  | _ => none

end Edit

namespace Grammar

/-- Carries out edits in order. -/
def edited (g : Grammar) (history : List Edit) : Grammar :=
  history.foldl (fun g e => e.apply g) g

theorem edited_append (g : Grammar) (history more : List Edit) :
    g.edited (history ++ more) = (g.edited history).edited more :=
  List.foldl_append

/-- The grammar without any entries. -/
def blank : Grammar where
  unaryOps := .empty
  binaryOps := .empty
  rightAssociative := .empty
  identifierChars := .empty
  literals := .empty
  receiverKeyword := ""
  longestUnary := 0
  longestBinary := 0
  nestingLimit := none

/-- The history of the standard grammar. -/
def standardHistory : List Edit :=
  standardUnaryOps.map .addUnaryOp
    ++ standardBinaryOps.map (fun e => .addBinaryOp e.1 e.2 false)
    ++ ['$', '_'].map .addIdentifierChar
    ++ standardLiterals.map (fun e => .addLiteral e.1 e.2)
    ++ [.setReceiverKeyword "this", .setNestingLimit (some 256)]

set_option maxRecDepth 4000 in
/-- The standard tables are what their history leaves. -/
theorem edited_standardHistory : blank.edited standardHistory = standard := by
  rfl

/-! ### Accounts -/

/-- A number is the greatest length of some operators, and zero when there are none. -/
structure IsGreatestLength (ops : List String) (n : Nat) : Prop where
  bound : ∀ op ∈ ops, op.length ≤ n
  attained : ops ≠ [] → ∃ op ∈ ops, op.length = n
  zero : ops = [] → n = 0

/-- The tables of a grammar hold what a history leaves. -/
structure Accounted (g : Grammar) (history : List Edit) : Prop where
  unaryOps : Tracks (history.filterMap Edit.onUnaryOps) g.unaryOps.members
  binaryOps : TracksEntries Prod.fst (history.filterMap Edit.onBinaryOps) g.binaryOps
  rightAssociative : Tracks (history.filterMap Edit.onRightAssociative) g.rightAssociative.members
  identifierChars : Tracks (history.filterMap Edit.onIdentifierChars) g.identifierChars.members
  literals : TracksEntries id (history.filterMap Edit.onLiterals) g.literals
  /-- An operator groups to the right iff its latest addition said so. -/
  right_iff : ∀ op, g.isRightAssociative op ↔
    ∃ precedence, latest op (history.filterMap Edit.onBinaryOps) = some (precedence, true)
  right_binary : ∀ op, g.isRightAssociative op → g.isBinaryOp op
  longestUnary : IsGreatestLength g.unaryOps.members g.longestUnary
  longestBinary : IsGreatestLength g.binaryOps.keys g.longestBinary

/-! ### Greatest lengths -/

theorem isGreatestLength_iff {ops : List String} {n : Nat} :
    IsGreatestLength ops n ↔ n = longest ops := by
  constructor
  · rintro ⟨hbound, hattained, hzero⟩
    refine Nat.le_antisymm ?_ (longest_le_iff.mpr hbound)
    by_cases hops : ops = []
    · rw [hzero hops]
      exact Nat.zero_le _
    · obtain ⟨op, hop, rfl⟩ := hattained hops
      exact le_longest hop
  · rintro rfl
    refine ⟨fun op hop => le_longest hop, ?_, ?_⟩
    · -- going through the operators in order, the greatest so far is the length of one of them
      induction ops using List.reverseRecOn with
      | nil => exact fun h => absurd rfl h
      | append_singleton ops op ih =>
        intro _
        rw [longest_append]
        rcases Nat.le_total (longest ops) op.length with hle | hle
        · exact ⟨op, by simp, (Nat.max_eq_right hle).symm⟩
        · by_cases hops : ops = []
          · refine ⟨op, by simp, ?_⟩
            rw [hops]
            exact (Nat.zero_max _).symm
          · obtain ⟨op', hop', hlen⟩ := ih hops
            exact ⟨op', by simp [hop'], by rw [hlen, Nat.max_eq_left hle]⟩
    · rintro rfl
      rfl

variable {g : Grammar} {history : List Edit}

theorem Counted.edit (h : g.Counted) (e : Edit) : (e.apply g).Counted := by
  cases e with
  | addUnaryOp op => exact h.addUnaryOp op
  | removeUnaryOp op => exact h.removeUnaryOp op
  | clearUnaryOps => exact h.clearUnaryOps
  | addBinaryOp op precedence right => exact h.addBinaryOp op precedence right
  | removeBinaryOp op => exact h.removeBinaryOp op
  | clearBinaryOps => exact h.clearBinaryOps
  -- the other tables have no lengths to count
  | _ => exact ⟨h.unary, h.binary⟩

theorem Counted.edited (h : g.Counted) (edits : List Edit) : (g.edited edits).Counted := by
  induction edits generalizing g with
  | nil => exact h
  | cons e edits ih => exact ih (h.edit e)

end Grammar

/-! ### One more edit -/

section Edits

variable {κ α β : Type} [DecidableEq κ] {history : List Edit} {e : Edit}

theorem latest_edit {f : Edit → Option (Change κ α)} {k : κ} :
    latest k ((history ++ [e]).filterMap f)
      = (f e).elim (latest k (history.filterMap f))
          fun c => latest k (history.filterMap f ++ [c]) := by
  rw [List.filterMap_append]
  cases hf : f e with
  | none => simp [hf]
  | some c => simp [hf]

/-- A set on which an edit acts as the change that it means for it. -/
theorem Tracks.edit {f : Edit → Option (Change κ Unit)} {s s' : OrderedSet κ}
    (h : Tracks (history.filterMap f) s.members) (hs : s' = (f e).elim s fun c => c.onSet s) :
    Tracks ((history ++ [e]).filterMap f) s'.members := by
  rw [hs, List.filterMap_append]
  cases hf : f e with
  | none => simpa [hf] using h
  | some c =>
    simp only [List.filterMap_cons, hf, List.filterMap_nil, Option.elim_some]
    rw [Change.members_onSet]
    exact h.concat c

/-- A map on which an edit acts as the change that it means for it. -/
theorem TracksEntries.edit {f : Edit → Option (Change κ α)} {part : α → β}
    {m m' : OrderedMap κ β} (h : TracksEntries part (history.filterMap f) m)
    (hm : m' = (f e).elim m fun c => c.onMap part m) :
    TracksEntries part ((history ++ [e]).filterMap f) m' := by
  rw [hm, List.filterMap_append]
  cases hf : f e with
  | none => simpa [hf] using h
  | some c =>
    simp only [List.filterMap_cons, hf, List.filterMap_nil, Option.elim_some]
    exact h.concat c

end Edits

namespace Edit

variable (e : Edit) (g : Grammar)

theorem unaryOps_apply :
    (e.apply g).unaryOps = e.onUnaryOps.elim g.unaryOps fun c => c.onSet g.unaryOps := by
  cases e <;> rfl

theorem binaryOps_apply :
    (e.apply g).binaryOps
      = e.onBinaryOps.elim g.binaryOps fun c => c.onMap Prod.fst g.binaryOps := by
  cases e <;> rfl

theorem rightAssociative_apply :
    (e.apply g).rightAssociative
      = e.onRightAssociative.elim g.rightAssociative fun c => c.onSet g.rightAssociative := by
  cases e with
  | addBinaryOp op precedence right => cases right <;> rfl
  | _ => rfl

theorem identifierChars_apply :
    (e.apply g).identifierChars
      = e.onIdentifierChars.elim g.identifierChars fun c => c.onSet g.identifierChars := by
  cases e <;> rfl

theorem literals_apply :
    (e.apply g).literals = e.onLiterals.elim g.literals fun c => c.onMap id g.literals := by
  cases e <;> rfl

end Edit

/-- In every history, an operator has last been made to group to the right iff its latest
addition said so. -/
theorem latest_onRightAssociative (history : List Edit) (op : String) :
    (latest op (history.filterMap Edit.onRightAssociative)).isSome ↔
      ∃ precedence, latest op (history.filterMap Edit.onBinaryOps) = some (precedence, true) := by
  induction history using List.reverseRecOn with
  | nil => simp [latest, since]
  | append_singleton history e ih =>
    rw [latest_edit, latest_edit]
    cases e with
    | addBinaryOp op' precedence right =>
      simp only [Edit.onRightAssociative, Edit.onBinaryOps, Option.elim_some, latest_concat_put]
      by_cases hop : op' = op
      · cases right <;> simp [latest_concat_put, latest_concat_erase, hop]
      · cases right <;> simpa [latest_concat_put, latest_concat_erase, hop] using ih
    | removeBinaryOp op' =>
      simp only [Edit.onRightAssociative, Edit.onBinaryOps, Option.elim_some, latest_concat_erase]
      by_cases hop : op' = op
      · simp [hop]
      · simpa [hop] using ih
    | clearBinaryOps =>
      simp [Edit.onRightAssociative, Edit.onBinaryOps, latest_concat_clear]
    | _ => exact ih

namespace Grammar

variable {g : Grammar} {history : List Edit}

/-- The account of a grammar: its tables are tracked and its longest operators counted. -/
theorem Accounted.of_tracks
    (hunary : Tracks (history.filterMap Edit.onUnaryOps) g.unaryOps.members)
    (hbinary : TracksEntries Prod.fst (history.filterMap Edit.onBinaryOps) g.binaryOps)
    (hright : Tracks (history.filterMap Edit.onRightAssociative) g.rightAssociative.members)
    (hchars : Tracks (history.filterMap Edit.onIdentifierChars) g.identifierChars.members)
    (hliterals : TracksEntries id (history.filterMap Edit.onLiterals) g.literals)
    (hcounted : g.Counted) : g.Accounted history := by
  have hright_iff (op : String) : g.isRightAssociative op ↔ ∃ precedence,
      latest op (history.filterMap Edit.onBinaryOps) = some (precedence, true) := by
    rw [isRightAssociative, OrderedSet.contains_iff, hright.mem_iff, latest_onRightAssociative]
  refine ⟨hunary, hbinary, hright, hchars, hliterals, hright_iff, ?_,
    isGreatestLength_iff.mpr hcounted.unary, isGreatestLength_iff.mpr hcounted.binary⟩
  intro op hop
  obtain ⟨precedence, hlatest⟩ := (hright_iff op).mp hop
  rw [isBinaryOp, OrderedMap.contains, hbinary.value, hlatest]
  rfl

theorem accounted_blank : blank.Accounted [] :=
  .of_tracks .nil .nil .nil .nil .nil ⟨rfl, rfl⟩

/-- One more edit keeps the account. -/
theorem Accounted.edit (h : g.Accounted history) (e : Edit) :
    (e.apply g).Accounted (history ++ [e]) := by
  have hcounted : g.Counted :=
    ⟨isGreatestLength_iff.mp h.longestUnary, isGreatestLength_iff.mp h.longestBinary⟩
  exact .of_tracks (h.unaryOps.edit (e.unaryOps_apply g)) (h.binaryOps.edit (e.binaryOps_apply g))
    (h.rightAssociative.edit (e.rightAssociative_apply g))
    (h.identifierChars.edit (e.identifierChars_apply g)) (h.literals.edit (e.literals_apply g))
    (hcounted.edit e)

/-- Every history is accounted for. -/
theorem accounted_edited (history : List Edit) : (blank.edited history).Accounted history := by
  induction history using List.reverseRecOn with
  | nil => exact accounted_blank
  | append_singleton history e ih =>
    rw [edited_append]
    exact ih.edit e

end Grammar

/-! ### The edits of a configuration -/

mutual

/-- The edits that a step carries out, in order. -/
def Step.edits : Step → Session → List Edit
  | .addUnaryOp op, _ => [.addUnaryOp op]
  | .removeUnaryOp op, _ => [.removeUnaryOp op]
  | .clearUnaryOps, _ => [.clearUnaryOps]
  | .addBinaryOp op precedence right, _ => [.addBinaryOp op precedence right]
  | .removeBinaryOp op, _ => [.removeBinaryOp op]
  | .clearBinaryOps, _ => [.clearBinaryOps]
  | .addIdentifierChar ch, _ => [.addIdentifierChar ch]
  | .removeIdentifierChar ch, _ => [.removeIdentifierChar ch]
  | .addLiteral name value, _ => [.addLiteral name value]
  | .removeLiteral name, _ => [.removeLiteral name]
  | .clearLiterals, _ => [.clearLiterals]
  | .setReceiverKeyword keyword, _ => [.setReceiverKeyword keyword]
  | .setNestingLimit limit, _ => [.setNestingLimit limit]
  | .registerPlugins plugins, s =>
    if plugins.any fun p => p.name = "" then [] else editsOfPlugins plugins s
  | _, _ => []

/-- The edits of the plugins that are applied; one whose name is known is passed over. -/
def editsOfPlugins : List Plugin → Session → List Edit
  | [], _ => []
  | ⟨name, noted, steps⟩ :: plugins, s =>
    (if s.isRegistered name then [] else editsOfSteps noted steps s)
      ++ editsOfPlugins plugins (runPlugins [⟨name, noted, steps⟩] s)

/-- The edits of steps, one after another. -/
def editsOfSteps (noted : Bool) : List Step → Session → List Edit
  | [], _ => []
  | step :: steps, s => step.edits s ++ editsOfSteps noted steps (runSteps noted [step] s)

end

/-- A session has come from another by edits: they are all that happened to the tables of the
current dialect, and nothing happened to the dialects below it. -/
structure Session.EditedFrom (s : Session) (edits : List Edit) (s' : Session) : Prop where
  grammar : s'.dialect.grammar = s.dialect.grammar.edited edits
  saved : s'.saved = s.saved

namespace Session.EditedFrom

variable {s s₁ s₂ : Session} {edits more : List Edit}

theorem refl (s : Session) : s.EditedFrom [] s := ⟨rfl, rfl⟩

theorem trans (h : s.EditedFrom edits s₁) (h' : s₁.EditedFrom more s₂) :
    s.EditedFrom (edits ++ more) s₂ where
  grammar := by rw [h'.grammar, h.grammar, Grammar.edited_append]
  saved := h'.saved.trans h.saved

theorem addHook (s : Session) (point : HookPoint) (first : Bool) (source : HookSource) :
    s.EditedFrom [] (s.addHook point first source) := by
  cases source with
  | defined id =>
    rw [Session.addHook, resolve]
    cases s.defined.get? id with
    | none => exact refl s
    | some hook => exact ⟨rfl, rfl⟩
  | fresh script => exact ⟨rfl, rfl⟩

end Session.EditedFrom

mutual

/-- A step changes the tables by its edits and in no other way. -/
theorem Step.run_edited : ∀ (step : Step) (s : Session),
    s.EditedFrom (step.edits s) (step.run s).2
  | .addUnaryOp _, _ => ⟨rfl, rfl⟩
  | .removeUnaryOp _, _ => ⟨rfl, rfl⟩
  | .clearUnaryOps, _ => ⟨rfl, rfl⟩
  | .addBinaryOp _ _ _, _ => ⟨rfl, rfl⟩
  | .removeBinaryOp _, _ => ⟨rfl, rfl⟩
  | .clearBinaryOps, _ => ⟨rfl, rfl⟩
  | .addIdentifierChar _, _ => ⟨rfl, rfl⟩
  | .removeIdentifierChar _, _ => ⟨rfl, rfl⟩
  | .addLiteral _ _, _ => ⟨rfl, rfl⟩
  | .removeLiteral _, _ => ⟨rfl, rfl⟩
  | .clearLiterals, _ => ⟨rfl, rfl⟩
  | .setReceiverKeyword _, _ => ⟨rfl, rfl⟩
  | .setNestingLimit _, _ => ⟨rfl, rfl⟩
  | .registerPlugins plugins, s => by
    rw [Step.run, Step.edits]
    split
    · exact .refl s
    · exact runPlugins_edited plugins s
  -- the other steps leave the tables alone
  | .addHook point first source, s => .addHook s point first source
  | .defineHook _ _, _ => ⟨rfl, rfl⟩
  | .extendHooks _, _ => ⟨rfl, rfl⟩
  | .listHooks _, _ => ⟨rfl, rfl⟩
  | .isRegistered _, _ => ⟨rfl, rfl⟩
  | .tables, _ => ⟨rfl, rfl⟩
  | .operatorInfo _, _ => ⟨rfl, rfl⟩
  | .literalInfo _, _ => ⟨rfl, rfl⟩
  | .charInfo _, _ => ⟨rfl, rfl⟩
  | .parse _ _, _ => ⟨rfl, rfl⟩

theorem runPlugins_edited : ∀ (plugins : List Plugin) (s : Session),
    s.EditedFrom (editsOfPlugins plugins s) (runPlugins plugins s)
  | [], s => .refl s
  | ⟨name, noted, steps⟩ :: plugins, s => by
    have hfirst : s.EditedFrom (if s.isRegistered name then [] else editsOfSteps noted steps s)
        (runPlugins [⟨name, noted, steps⟩] s) := by
      rw [runPlugins, runPlugins]
      split
      · exact .refl s
      · have hsteps := runSteps_edited noted steps s
        exact ⟨hsteps.grammar, hsteps.saved⟩
    exact hfirst.trans (runPlugins_edited plugins (runPlugins [⟨name, noted, steps⟩] s))

theorem runSteps_edited : ∀ (noted : Bool) (steps : List Step) (s : Session),
    s.EditedFrom (editsOfSteps noted steps s) (runSteps noted steps s)
  | _, [], s => .refl s
  | noted, step :: steps, s => by
    have hfirst : s.EditedFrom (step.edits s) (runSteps noted [step] s) := by
      have hstep := Step.run_edited step s
      cases noted with
      | false => exact hstep
      | true => exact ⟨hstep.grammar, hstep.saved⟩
    exact hfirst.trans (runSteps_edited noted steps (runSteps noted [step] s))

end

/-! ### Sessions -/

/-- A session on one or more dialects, where `history` holds the edits that the current
one has been through, and `saved` those of the dialects below it. -/
inductive Session.Configured : Session → (history : List Edit) → (saved : List (List Edit)) → Prop
  | start : Configured .standard Grammar.standardHistory []
  | step {s history saved} (step : Step) : Configured s history saved →
      Configured (step.run s).2 (history ++ step.edits s) saved
  /-- A copy has been through what its original has. -/
  | clone {s history saved} : Configured s history saved →
      Configured s.clone history (history :: saved)
  | pop {s history below saved} : Configured s history (below :: saved) →
      Configured s.pop below saved

/-- The tables of all dialects of a session are what their histories leave. -/
theorem Session.Configured.edited {s : Session} {history : List Edit} {saved : List (List Edit)}
    (h : s.Configured history saved) : s.dialect.grammar = Grammar.blank.edited history ∧
      s.saved.map Dialect.grammar = saved.map Grammar.blank.edited := by
  induction h with
  | start => exact ⟨Grammar.edited_standardHistory.symm, rfl⟩
  | @step s _ _ step _ ih =>
    have hstep := step.run_edited s
    rw [hstep.grammar, hstep.saved, ih.1, Grammar.edited_append]
    exact ⟨rfl, ih.2⟩
  | clone _ ih =>
    refine ⟨ih.1, ?_⟩
    rw [List.map_cons, ← ih.1, ← ih.2]
    rfl
  | @pop s _ _ _ _ ih =>
    obtain ⟨-, hsaved⟩ := ih
    rw [Session.pop]
    cases hcase : s.saved with
    | nil => simp [hcase] at hsaved
    | cons d ds => simpa [hcase] using hsaved

/-- **In every session, the tables are what the history of the configuration leaves.**
Each key is there once, in the order in which the keys were first put since they were
last removed; the operators that group to the right are those whose latest addition said
so; and the carried lengths are those of the longest operators. -/
theorem Session.Configured.accounted {s : Session} {history : List Edit}
    {saved : List (List Edit)} (h : s.Configured history saved) :
    s.dialect.grammar.Accounted history := by
  rw [h.edited.1]
  exact Grammar.accounted_edited history

/-- On a copy, an operator is taken out and added anew by a plugin inside another one; a
second plugin of the same name is passed over. -/
theorem Session.Configured.accounted_nested :
    let inner : Plugin := ⟨"inner", true, [.addBinaryOp "and" 5 false, .addUnaryOp "not"]⟩
    let again : Plugin := ⟨"inner", false, [.clearBinaryOps]⟩
    let outer : Plugin := ⟨"outer", false, [.removeBinaryOp "and", .registerPlugins [inner, again]]⟩
    let first := Grammar.standardHistory ++ [.addBinaryOp "and" 3 true]
    let history := first ++ [.removeBinaryOp "and", .addBinaryOp "and" 5 false, .addUnaryOp "not"]
    let s := (Step.run (.registerPlugins [outer])
      (Step.run (.addBinaryOp "and" 3 true) .standard).2.clone).2
    s.Configured history [first] ∧ s.dialect.grammar.Accounted history := by
  intro inner again outer first history s
  have h : s.Configured history [first] := .step _ (.clone (.step _ .start))
  exact ⟨h, h.accounted⟩

end OperatorGrammar
