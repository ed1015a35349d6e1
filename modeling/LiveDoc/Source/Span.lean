import LiveDoc.Text.Basic

namespace LiveDoc

-- Half-open, in bytes.
structure ByteRange where
  start : Nat
  stop : Nat
  deriving DecidableEq, Repr

def ByteRange.shift (range : ByteRange) (amount : Nat) : ByteRange :=
  ⟨range.start + amount, range.stop + amount⟩

-- A range of one registered source and the line it starts on, counted from one.
structure Span where
  source : Nat
  range : ByteRange
  line : Nat
  deriving DecidableEq, Repr

def Span.of (text : List Char) (source : Nat) (range : ByteRange) : Span :=
  ⟨source, range, Text.lineAt text range.start⟩

end LiveDoc
