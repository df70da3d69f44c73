import KernelMemory.Panic

/-!
# Named fields of a word

A `BitLayout` names runs of bits in a 64-bit word, lowest bit first.  Fields are read and replaced
by arithmetic on the word, so that a field is a digit of the word in a mixed radix; bits that no
field names are kept by every replacement and left out of the text.
-/

namespace KernelMemory

/-- A named run of bits. -/
structure BitField where
  name : String
  /-- The position of the lowest bit. -/
  offset : Nat
  /-- The number of bits, or `none` for a single bit that is read as a truth value. -/
  width? : Option Nat := none
deriving DecidableEq, Repr

namespace BitField

/-- The number of bits. -/
def width (f : BitField) : Nat :=
  f.width?.getD 1

/-- The largest value that fits the field. -/
def max (f : BitField) : Nat :=
  2 ^ f.width - 1

/-- The value of the field in a word. -/
def get (f : BitField) (word : UInt64) : Nat :=
  word.toNat / 2 ^ f.offset % 2 ^ f.width

/-- Whether any bit of the field is set. -/
def test (f : BitField) (word : UInt64) : Bool :=
  f.get word != 0

/-- The word with the field replaced, if the value fits the field. -/
def set (f : BitField) (word : UInt64) (value : Nat) : Except Panic UInt64 :=
  if value ≤ f.max then
    .ok (UInt64.ofNat (word.toNat - f.get word * 2 ^ f.offset + value * 2 ^ f.offset))
  else .error (.valueOutOfBounds f.max)

/-- The value of the field as text: a truth value for a single bit, a decimal number otherwise. -/
def valueText (f : BitField) (word : UInt64) : String :=
  match f.width? with
  | none => toString (f.test word)
  | some _ => toString (f.get word)

end BitField

/-- A word with named fields. -/
structure BitLayout where
  name : String
  fields : List BitField
deriving DecidableEq, Repr

/-- Every field with its value, in braces behind the name: `Name { a: true, b: 5 }`. -/
def BitLayout.debugText (layout : BitLayout) (word : UInt64) : String :=
  let fields := layout.fields.map fun f => f.name ++ ": " ++ f.valueText word
  layout.name ++ " \x7b " ++ ", ".intercalate fields ++ " \x7d"

end KernelMemory
