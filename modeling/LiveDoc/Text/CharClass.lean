import LiveDoc.Text.Basic
import LiveDoc.Text.CharTable.Alphabetic
import LiveDoc.Text.CharTable.Number
import LiveDoc.Text.CharTable.Punctuation

namespace LiveDoc.Text

def inRanges (ranges : List (Nat × Nat)) (c : Char) : Bool :=
  ranges.any fun (first, last) => first ≤ c.toNat && c.toNat ≤ last

-- Unicode property White_Space.
def isBlank (c : Char) : Bool :=
  let n := c.toNat
  (9 ≤ n && n ≤ 13) || n == 32 || n == 0x85 || n == 0xA0 || n == 0x1680 ||
    (0x2000 ≤ n && n ≤ 0x200A) || n == 0x2028 || n == 0x2029 || n == 0x202F ||
    n == 0x205F || n == 0x3000

-- The tables start above ASCII only for speed; below it the classes are spelled out.
def isLetter (c : Char) : Bool :=
  if c.toNat < 128 then c.isAlpha else inRanges CharTable.alphabetic c

def isLetterOrDigit (c : Char) : Bool :=
  if c.toNat < 128 then c.isAlphanum
  else inRanges CharTable.alphabetic c || inRanges CharTable.number c

def isAsciiPunctuation (c : Char) : Bool :=
  let n := c.toNat
  (33 ≤ n && n ≤ 47) || (58 ≤ n && n ≤ 64) || (91 ≤ n && n ≤ 96) || (123 ≤ n && n ≤ 126)

-- Punctuation and symbols count alike.
def isPunctuation (c : Char) : Bool :=
  if c.toNat < 128 then isAsciiPunctuation c else inRanges CharTable.punctuation c

def trimBlanks (text : List Char) : List Char := trim isBlank text

def words (text : List Char) : List (List Char) := fields isBlank text

def isAllBlank (text : List Char) : Bool := text.all isBlank

-- Runs of blanks become one space and the ends lose theirs.
def squeezeBlanks (text : List Char) : List Char := [' '].intercalate (words text)

end LiveDoc.Text
