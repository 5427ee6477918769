/-!
# Text

## Addresses and words

Numbers are written with a leading `0x` and the fewest lowercase digits.  A
signed 64-bit word is written by its two's-complement bits, so negative words
have sixteen digits.

## Names and their keys

A name may be written in any case, with dashes or underscores, and with blanks
around it.  All its spellings share one key, and every table that is asked by
name is indexed by key.  Letters outside ASCII keep their case.
-/

namespace Stimulus
namespace Text

def hex (n : Nat) : String :=
  "0x" ++ String.ofList (Nat.toDigits 16 n)

def hexWord (word : Int64) : String :=
  hex word.toUInt64.toNat

/-!
# Blank characters
-/

/-- The characters of the Unicode property White_Space: 25 code points. -/
def isBlank (c : Char) : Bool :=
  let n := c.toNat
  (0x09 ≤ n && n ≤ 0x0D) || n == 0x20 || n == 0x85 || n == 0xA0 ||
    n == 0x1680 || (0x2000 ≤ n && n ≤ 0x200A) || n == 0x2028 || n == 0x2029 ||
    n == 0x202F || n == 0x205F || n == 0x3000

def strip (cs : List Char) : List Char :=
  ((cs.dropWhile isBlank).reverse.dropWhile isBlank).reverse

end Text

/-!
# Lookup keys
-/

/-- What the spellings of one name have in common. -/
structure Key where
  text : String
deriving DecidableEq

namespace Key

def fold (c : Char) : Char :=
  if c = '-' then '_' else c.toLower

def ofName (name : String) : Key :=
  ⟨String.ofList ((Text.strip name.toList).map fold)⟩

end Key

end Stimulus
