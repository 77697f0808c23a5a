/-
OperatorGrammar/Cursor.lean

A place in a text, and what can be asked from there.

Design.  A text is an array of characters and every offset counts characters.
A callback hands over distances as 64-bit words, and the sum of the place and
such a distance is a word again.  A text has fewer than `2 ^ 63` characters, so
only a distance of at least `2 ^ 63` can make the sum wrap.
-/

namespace OperatorGrammar

/-- A place in a text. -/
structure Cursor where
  text : Array Char
  index : Nat

namespace Cursor

/-- The number of characters from the place on. -/
def remaining (c : Cursor) : Nat :=
  c.text.size - c.index

/-- Whether no character is left. -/
def atEnd (c : Cursor) : Bool :=
  c.text.size ≤ c.index

/-- The character at an offset from the start of the text. -/
def charAt (c : Cursor) (i : Nat) : Option Char :=
  c.text[i]?

/-- The character at the place. -/
def current (c : Cursor) : Option Char :=
  c.charAt c.index

/-- The sum of the place and a distance, as a word. -/
def plusWord (c : Cursor) (n : UInt64) : Nat :=
  if n.toNat < UInt64.size / 2 then c.index + n.toNat else (c.index + n.toNat) % UInt64.size

/-- The character `n` places further on. -/
def peek (c : Cursor) (n : UInt64) : Option Char :=
  c.charAt (c.plusWord n)

/-- The place `n` characters further on, but not past the end. -/
def advance (c : Cursor) (n : UInt64) : Cursor :=
  { c with index := min (c.plusWord n) c.text.size }

/-- Whether the text from the place on starts with some characters. -/
def startsWithChars (c : Cursor) : List Char → Nat → Bool
  | [], _ => true
  | ch :: chs, i => c.charAt i = some ch && c.startsWithChars chs (i + 1)

/-- Whether the text from the place on starts with another text. -/
def startsWith (c : Cursor) (other : String) : Bool :=
  c.startsWithChars other.toList c.index

/-- The text between two offsets, which may lie past the end and in any order. -/
def slice (c : Cursor) (start stop : Nat) : String :=
  String.ofList (c.text.extract (min start (min stop c.text.size)) (min stop c.text.size)).toList

/-- The whole text. -/
def source (c : Cursor) : String :=
  String.ofList c.text.toList

/-- The first index from `i` on at which a class of characters ends, looking at
no more than `n` characters. -/
def skipFrom (text : Array Char) (p : Char → Bool) : Nat → Nat → Nat
  | 0, i => i
  | n + 1, i =>
    match text[i]? with
    | some ch => if p ch then skipFrom text p n (i + 1) else i
    | none => i

/-- The first index from `i` on at which a class of characters ends. -/
def skipWhile (c : Cursor) (p : Char → Bool) (i : Nat) : Nat :=
  skipFrom c.text p (c.text.size - i) i

end Cursor

end OperatorGrammar
