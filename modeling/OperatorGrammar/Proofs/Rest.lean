/-
OperatorGrammar/Proofs/Rest.lean

What is left of a text at an offset, as a list of characters.

The program walks over a fixed text by offsets.  A statement about a production
is easier to make about the list of characters that is still to be read: it then
does not name the text, the offset, or anything in front of the offset.  The
lemmas here translate each question that is asked of a cursor into one about
that list.
-/
import OperatorGrammar.Cursor

namespace OperatorGrammar

/-! ### Runs of a class of characters -/

section Runs

variable {p : Char → Bool} {run rest : List Char}

theorem takeWhile_append_run (hrun : ∀ ch ∈ run, p ch) (hrest : ∀ ch ∈ rest.head?, ¬ p ch) :
    (run ++ rest).takeWhile p = run := by
  rw [List.takeWhile_append_of_pos hrun]
  cases rest with
  | nil => simp
  | cons ch rest =>
    have hch : ¬ p ch := hrest ch rfl
    simp [hch]

theorem dropWhile_append_run (hrun : ∀ ch ∈ run, p ch) (hrest : ∀ ch ∈ rest.head?, ¬ p ch) :
    (run ++ rest).dropWhile p = rest := by
  rw [List.dropWhile_append_of_pos hrun]
  cases rest with
  | nil => rfl
  | cons ch rest =>
    have hch : ¬ p ch := hrest ch rfl
    simp [hch]

/-- A run and what stands behind it can be told apart. -/
theorem append_run_inj {run' rest' : List Char} (hrun : ∀ ch ∈ run, p ch)
    (hrest : ∀ ch ∈ rest.head?, ¬ p ch) (hrun' : ∀ ch ∈ run', p ch)
    (hrest' : ∀ ch ∈ rest'.head?, ¬ p ch) (h : run ++ rest = run' ++ rest') :
    run = run' ∧ rest = rest' := by
  have htake := congrArg (List.takeWhile p) h
  have hdrop := congrArg (List.dropWhile p) h
  rw [takeWhile_append_run hrun hrest, takeWhile_append_run hrun' hrest'] at htake
  rw [dropWhile_append_run hrun hrest, dropWhile_append_run hrun' hrest'] at hdrop
  exact ⟨htake, hdrop⟩

theorem head?_dropWhile_run (l : List Char) : ∀ ch ∈ (l.dropWhile p).head?, ¬ p ch := by
  induction l with
  | nil => simp
  | cons ch l ih =>
    by_cases h : p ch
    · simpa [h] using ih
    · simp [h]

theorem mem_takeWhile_run {l : List Char} : ∀ ch ∈ l.takeWhile p, p ch := by
  induction l with
  | nil => simp
  | cons ch l ih =>
    by_cases h : p ch
    · simpa [h] using ih
    · simp [h]

end Runs

/-- What holds of the members of a fixed list is found by looking at each. -/
theorem forall_mem_of_all {α : Type} {p : α → Prop} [DecidablePred p] {l : List α}
    (h : l.all fun a => p a) : ∀ a ∈ l, p a := by
  intro a ha
  exact of_decide_eq_true (List.all_eq_true.mp h a ha)

/-! ### Offsets and what is left -/

/-- What is left of a text from an offset on. -/
def restAt (text : Array Char) (i : Nat) : List Char :=
  text.toList.drop i

variable {text : Array Char} {i : Nat}

@[simp] theorem restAt_zero : restAt text 0 = text.toList := rfl

@[simp] theorem length_restAt : (restAt text i).length = text.size - i := by
  simp [restAt]

theorem restAt_add (k : Nat) : restAt text (i + k) = (restAt text i).drop k := by
  simp [restAt]

theorem restAt_min : restAt text (min i text.size) = restAt text i := by
  rcases Nat.le_total i text.size with h | h
  · rw [Nat.min_eq_left h]
  · rw [Nat.min_eq_right h]
    simp [restAt, List.drop_eq_nil_of_le, h]

/-- Moving forward drops characters, also where the end of the text stops it. -/
theorem restAt_forward (k : Nat) :
    restAt text (min (i + k) text.size) = (restAt text i).drop k := by
  rw [restAt_min, restAt_add]

theorem getElem?_add (k : Nat) : text[i + k]? = (restAt text i)[k]? := by
  simp [restAt, List.getElem?_drop]

theorem getElem?_eq_head? : text[i]? = (restAt text i).head? := by
  rw [List.head?_eq_getElem?, ← getElem?_add, Nat.add_zero]

theorem mem_text_of_getElem? {ch : Char} (h : text[i]? = some ch) : ch ∈ text.toList :=
  Array.mem_toList_iff.mpr (Array.mem_of_getElem? h)

theorem restAt_eq_nil_of_none (h : text[i]? = none) : restAt text i = [] := by
  rw [getElem?_eq_head?] at h
  exact List.head?_eq_none_iff.mp h

theorem eq_size_of_restAt_eq_nil (hi : i ≤ text.size) (h : restAt text i = []) :
    i = text.size := by
  have hlength := congrArg List.length h
  rw [length_restAt, List.length_nil] at hlength
  omega

theorem restAt_eq_cons {ch : Char} (h : text[i]? = some ch) :
    restAt text i = ch :: restAt text (i + 1) := by
  rw [getElem?_eq_head?, List.head?_eq_some_iff] at h
  obtain ⟨more, hmore⟩ := h
  rw [restAt_add, hmore]
  rfl

/-! ### Skipping a class of characters -/

theorem skipFrom_eq (p : Char → Bool) {n : Nat} (hn : (restAt text i).length ≤ n) :
    Cursor.skipFrom text p n i = i + ((restAt text i).takeWhile p).length := by
  induction n generalizing i with
  | zero =>
    have hnil : restAt text i = [] := List.length_eq_zero_iff.mp (Nat.le_zero.mp hn)
    simp [Cursor.skipFrom, hnil]
  | succ n ih =>
    rw [Cursor.skipFrom]
    rcases h : text[i]? with - | ch
    · simp [restAt_eq_nil_of_none h]
    · rw [restAt_eq_cons h] at hn ⊢
      by_cases hp : p ch
      · simp only [hp, if_true, List.takeWhile_cons, List.length_cons]
        rw [ih (by simpa using hn)]
        omega
      · simp [hp]

theorem skipWhile_eq (x : Nat) (p : Char → Bool) :
    Cursor.skipWhile ⟨text, x⟩ p i = i + ((restAt text i).takeWhile p).length :=
  skipFrom_eq p (by simp)

theorem restAt_skipWhile (x : Nat) (p : Char → Bool) :
    restAt text (Cursor.skipWhile ⟨text, x⟩ p i) = (restAt text i).dropWhile p := by
  rw [skipWhile_eq, restAt_add]
  calc (restAt text i).drop ((restAt text i).takeWhile p).length
      = ((restAt text i).takeWhile p ++ (restAt text i).dropWhile p).drop
          ((restAt text i).takeWhile p).length := by rw [List.takeWhile_append_dropWhile]
    _ = (restAt text i).dropWhile p := List.drop_left

/-! ### Slices -/

theorem slice_eq (x j : Nat) :
    Cursor.slice ⟨text, x⟩ i j = String.ofList ((restAt text i).take (j - i)) := by
  unfold Cursor.slice restAt
  congr 1
  simp only [Array.toList_extract, List.extract_eq_take_drop]
  rcases Nat.le_total i (min j text.size) with h | h
  · rw [Nat.min_eq_left h]
    rcases Nat.le_total j text.size with hj | hj
    · rw [Nat.min_eq_left hj]
    · rw [Nat.min_eq_right hj, List.take_of_length_le (by simp), List.take_of_length_le]
      simp only [List.length_drop, Array.length_toList]
      omega
  · rw [Nat.min_eq_right h]
    have hempty : (text.toList.drop i).take (j - i) = [] := by
      rw [List.take_eq_nil_iff, List.drop_eq_nil_iff, Array.length_toList]
      omega
    simp [hempty]

theorem slice_add (x k : Nat) :
    Cursor.slice ⟨text, x⟩ i (i + k) = String.ofList ((restAt text i).take k) := by
  rw [slice_eq, Nat.add_sub_cancel_left]

end OperatorGrammar
