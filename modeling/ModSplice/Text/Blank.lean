/-! White space: the characters with the Unicode property `White_Space`. -/
namespace ModSplice.Text

/-- A character with the property `White_Space`. The zero width space and the byte order mark are
not among them. -/
def isBlank (c : Char) : Bool :=
  let n := c.toNat
  if n < 128 then n == 32 || (9 ≤ n && n ≤ 13)
  else n == 0x85 || n == 0xa0 || n == 0x1680 || (0x2000 ≤ n && n ≤ 0x200a) ||
    n == 0x2028 || n == 0x2029 || n == 0x202f || n == 0x205f || n == 0x3000

end ModSplice.Text
