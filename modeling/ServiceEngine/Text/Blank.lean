/-!
# White space

The characters that separate words in patterns, cadences, spans and record ids: the code points of
the Unicode property `White_Space`.
-/

namespace ServiceEngine.Text

def isBlank (c : Char) : Bool :=
  let n := c.toNat
  (9 ≤ n && n ≤ 13) || n = 0x20 || n = 0x85 || n = 0xA0 || n = 0x1680 ||
    (0x2000 ≤ n && n ≤ 0x200A) || n = 0x2028 || n = 0x2029 || n = 0x202F || n = 0x205F || n = 0x3000

/-- The text `cs` without the white space at its two ends. -/
def trim (cs : List Char) : List Char :=
  ((cs.dropWhile isBlank).reverse.dropWhile isBlank).reverse

/-- The text `cs` with the letters `A` to `Z` in lower case. -/
def lower (cs : List Char) : List Char := cs.map Char.toLower

end ServiceEngine.Text
