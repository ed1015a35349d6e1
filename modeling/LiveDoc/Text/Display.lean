import LiveDoc.Text.CharClass
import LiveDoc.Text.CharTable.Combining
import LiveDoc.Text.CharTable.Hidden
import LiveDoc.Text.CharTable.Wide

namespace LiveDoc.Text

-- The columns a character takes on a terminal. Control characters take none.
def columns (c : Char) : Nat :=
  let n := c.toNat
  if n < 128 then if n < 32 ∨ n = 127 then 0 else 1
  else if n < 160 ∨ inRanges CharTable.combining c then 0
  else if inRanges CharTable.wide c then 2
  else 1

-- Whether a reader could tell the character in print.
def isShown (c : Char) : Bool :=
  let n := c.toNat
  if n < 128 then 32 ≤ n && n != 127 else !inRanges CharTable.hidden c

def hexText (n : Nat) : List Char := Nat.toDigits 16 n

def quotedChar (c : Char) : List Char :=
  if c = '\n' then ['\\', 'n']
  else if c = '\t' then ['\\', 't']
  else if c = '\r' then ['\\', 'r']
  else if c.toNat = 0 then ['\\', '0']
  else if c = '\\' ∨ c = '\x22' then ['\\', c]
  else if isShown c then [c]
  else "\\u\x7b".toList ++ hexText c.toNat ++ ['\x7d']

-- A text between double quotes, with escapes for what could not be told in print.
def quoted (text : String) : String :=
  "\x22" ++ String.ofList (text.toList.map quotedChar).flatten ++ "\x22"

end LiveDoc.Text
