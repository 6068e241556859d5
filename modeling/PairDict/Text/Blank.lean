/-! # White space

The characters with the Unicode property `White_Space`.  There are 25 of them;
the zero-width space and the byte order mark are not among them.
-/
namespace PairDict.Blank

/-- Whether a character is white space. -/
def isBlank (c : Char) : Bool :=
  let n := c.toNat
  (9 ≤ n && n ≤ 13) || n = 0x20 || n = 0x85 || n = 0xA0 || n = 0x1680 ||
    (0x2000 ≤ n && n ≤ 0x200A) || n = 0x2028 || n = 0x2029 || n = 0x202F || n = 0x205F ||
    n = 0x3000

/-- Drop what satisfies `p` from both ends of a list. -/
def trimBy {β : Type} (p : β → Bool) (xs : List β) : List β :=
  ((xs.dropWhile p).reverse.dropWhile p).reverse

end PairDict.Blank
