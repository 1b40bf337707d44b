/-! # Blank characters and line ends

The two classes differ: a tab is blank and ends no line, and only some blanks end a line. Nothing
here reads a table, since both classes are short.
-/
namespace FitCode.Text

/-- White space in the wide sense of Unicode, with the four information separators. -/
def isBlank (c : Char) : Bool :=
  let n := c.toNat
  (9 ≤ n && n ≤ 13) || (28 ≤ n && n ≤ 32) || n == 0x85 || n == 0xa0 || n == 0x1680 ||
    (0x2000 ≤ n && n ≤ 0x200a) || n == 0x2028 || n == 0x2029 || n == 0x202f || n == 0x205f ||
    n == 0x3000

/-- Characters that end a line when a text is cut into all its lines. -/
def isLineEnd (c : Char) : Bool :=
  let n := c.toNat
  (10 ≤ n && n ≤ 13) || (28 ≤ n && n ≤ 30) || n == 0x85 || n == 0x2028 || n == 0x2029

def trimEnd (p : Char → Bool) (cs : List Char) : List Char :=
  (cs.reverse.dropWhile p).reverse

def trimBoth (p : Char → Bool) (cs : List Char) : List Char :=
  trimEnd p (cs.dropWhile p)

end FitCode.Text
