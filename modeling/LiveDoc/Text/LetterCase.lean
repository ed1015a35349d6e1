import LiveDoc.Text.CharClass
import LiveDoc.Text.CharTable.Cased
import LiveDoc.Text.CharTable.CaseIgnorable
import LiveDoc.Text.CharTable.Lowercase

namespace LiveDoc.Text

def CharTable.CaseRun.holds (run : CharTable.CaseRun) (n : Nat) : Bool :=
  run.first ≤ n && n ≤ run.last && (n - run.first) % run.step == 0

-- One character has a lowercase form of two: the dotted capital I keeps its dot.
def lowerChar (c : Char) : List Char :=
  if c.toNat < 128 then [c.toLower]
  else if c.toNat = 0x130 then ['i', Char.ofNat 0x307]
  else match CharTable.lowercase.find? (·.holds c.toNat) with
    | some run => [Char.ofNat (c.toNat + run.shift).toNat]
    | none => [c]

def isCased (c : Char) : Bool := inRanges CharTable.cased c

def isCaseIgnorable (c : Char) : Bool := inRanges CharTable.caseIgnorable c

-- The nearest letter, looking past characters that do not take part in casing, has case.
def meetsCased (text : List Char) : Bool :=
  match text.dropWhile isCaseIgnorable with
  | [] => false
  | c :: _ => isCased c

def sigma : Char := Char.ofNat 0x3A3

-- A capital sigma ends a word when a cased letter stands before it and none after it.
-- `before` is the text already passed, nearest character first.
def lowerFrom (before : List Char) : List Char → List Char
  | [] => []
  | c :: rest =>
      let lowered :=
        if c = sigma then
          if meetsCased before && !meetsCased rest then [Char.ofNat 0x3C2] else [Char.ofNat 0x3C3]
        else lowerChar c
      lowered ++ lowerFrom (c :: before) rest

def lower (text : List Char) : List Char := lowerFrom [] text

end LiveDoc.Text
