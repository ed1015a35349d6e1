namespace LiveDoc.Text

-- Positions in a text count the bytes of its UTF-8 form.
def byteCount : List Char → Nat
  | [] => 0
  | c :: rest => c.utf8Size + byteCount rest

@[simp] theorem byteCount_nil : byteCount [] = 0 := rfl

@[simp] theorem byteCount_cons (c : Char) (text : List Char) :
    byteCount (c :: text) = c.utf8Size + byteCount text := rfl

@[simp] theorem byteCount_append (front back : List Char) :
    byteCount (front ++ back) = byteCount front + byteCount back := by
  induction front with
  | nil => simp
  | cons c rest ih => simp [ih, Nat.add_assoc]

-- A cut inside a character keeps the whole character out.
def takeBytes : Nat → List Char → List Char
  | _, [] => []
  | count, c :: rest =>
      if c.utf8Size ≤ count then c :: takeBytes (count - c.utf8Size) rest else []

def dropBytes : Nat → List Char → List Char
  | _, [] => []
  | count, c :: rest =>
      if c.utf8Size ≤ count then dropBytes (count - c.utf8Size) rest else c :: rest

theorem takeBytes_append_dropBytes (count : Nat) (text : List Char) :
    takeBytes count text ++ dropBytes count text = text := by
  induction text generalizing count with
  | nil => rfl
  | cons c rest ih =>
      by_cases h : c.utf8Size ≤ count
      · simp [takeBytes, dropBytes, h, ih]
      · simp [takeBytes, dropBytes, h]

theorem takeBytes_byteCount (front back : List Char) :
    takeBytes (byteCount front) (front ++ back) = front := by
  induction front with
  | nil =>
      cases back with
      | nil => rfl
      | cons c rest =>
          have h := c.utf8Size_pos
          simp [takeBytes, Nat.not_le.mpr h]
  | cons c rest ih => simp [takeBytes, ih]

theorem dropBytes_byteCount (front back : List Char) :
    dropBytes (byteCount front) (front ++ back) = back := by
  have h := takeBytes_append_dropBytes (byteCount front) (front ++ back)
  rw [takeBytes_byteCount] at h
  exact List.append_cancel_left h

def slice (text : List Char) (start stop : Nat) : List Char :=
  takeBytes (stop - start) (dropBytes start text)

-- The line that holds an offset, counted from one. A position past the end is on the last line.
def lineAt (text : List Char) (offset : Nat) : Nat :=
  (takeBytes offset text).count '\n' + 1

-- Cuts after every newline, so that the pieces joined are the text again.
def lines : List Char → List (List Char)
  | [] => []
  | c :: rest =>
      if c = '\n' then [c] :: lines rest
      else match lines rest with
        | [] => [[c]]
        | line :: more => (c :: line) :: more

theorem flatten_lines (text : List Char) : (lines text).flatten = text := by
  induction text with
  | nil => rfl
  | cons c rest ih =>
      unfold lines
      by_cases h : c = '\n'
      · simp [h, ih]
      · simp only [h, if_false]
        cases hl : lines rest with
        | nil => rw [hl] at ih; simp_all
        | cons line more => rw [hl] at ih; simpa using ih

def trimStart (drop : Char → Bool) (text : List Char) : List Char :=
  text.dropWhile drop

def trimEnd (drop : Char → Bool) (text : List Char) : List Char :=
  (text.reverse.dropWhile drop).reverse

def trim (drop : Char → Bool) (text : List Char) : List Char :=
  trimEnd drop (trimStart drop text)

-- What follows `lead` in `text`, when `text` starts with it.
def after? : (lead text : List Char) → Option (List Char)
  | [], text => some text
  | _ :: _, [] => none
  | c :: lead, d :: text => if c = d then after? lead text else none

-- The text before and after the first occurrence of a non-empty `mark`.
def cutAt? (mark : List Char) : List Char → Option (List Char × List Char)
  | [] => if mark = [] then some ([], []) else none
  | c :: rest =>
      match after? mark (c :: rest) with
      | some back => some ([], back)
      | none => (cutAt? mark rest).map fun (front, back) => (c :: front, back)

-- The maximal pieces that hold no separator; empty pieces are dropped.
def fields (separator : Char → Bool) : List Char → List (List Char)
  | [] => []
  | c :: rest =>
      if separator c then fields separator rest
      else match rest with
        | [] => [[c]]
        | d :: _ =>
            if separator d then [c] :: fields separator rest
            else match fields separator rest with
              | [] => [[c]]
              | field :: more => (c :: field) :: more

def contains (mark text : List Char) : Bool := (cutAt? mark text).isSome

def joined (separator : String) : List String → String
  | [] => ""
  | [piece] => piece
  | piece :: rest => piece ++ separator ++ joined separator rest

-- Decimal digits, padded on the left to at least `width` characters.
def padded (fill : Char) (width : Nat) (text : String) : String :=
  "".pushn fill (width - text.length) ++ text

end LiveDoc.Text
