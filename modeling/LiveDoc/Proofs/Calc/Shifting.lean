import LiveDoc.Proofs.Calc.Depth

namespace LiveDoc.Calc

open Text

mutual

-- A tree whose text stands so many bytes further on.
def Expr.shift (amount : Nat) : Expr → Expr
  | .var name place => .var name (place.shift amount)
  | .call function place arguments =>
      .call function (place.shift amount) (Expr.shiftList amount arguments)
  | .unary op operand => .unary op (operand.shift amount)
  | .binary op left right => .binary op (left.shift amount) (right.shift amount)
  | .text value => .text value
  | .number value => .number value
  | .bool value => .bool value
  | .unit => .unit

def Expr.shiftList (amount : Nat) : List Expr → List Expr
  | [] => []
  | e :: rest => e.shift amount :: Expr.shiftList amount rest

end

def Located.shift (amount : Nat) (t : Located) : Located := ⟨t.token, t.range.shift amount⟩

-- Statements, errors and places whose text stands so many lines and bytes further on.
def Statement.shift (lines amount : Nat) : Statement → Statement
  | .assign name value line => .assign name (value.shift amount) (line + lines)
  | .run value line => .run (value.shift amount) (line + lines)

def SyntaxError.shift (lines amount : Nat) (error : SyntaxError) : SyntaxError :=
  ⟨error.fault, error.range.shift amount, error.line + lines⟩

def Place.shift (lines amount : Nat) (place : Place) : Place :=
  ⟨place.whole.shift amount, place.line + lines⟩

theorem map_shift_cons (amount : Nat) (token : Token) (range : ByteRange) (more : List Located) :
    (⟨token, range⟩ :: more).map (·.shift amount) =
      ⟨token, range.shift amount⟩ :: more.map (·.shift amount) := rfl

-- Two readings of the same text, the second one further on.
abbrev Shifts {α β : Type} (lines amount : Nat) (R : α → β → Prop) :
    Except SyntaxError α → Except SyntaxError β → Prop :=
  Action.Follows (SyntaxError.shift lines amount) R

theorem shifts_error {α β : Type} {lines amount : Nat} {R : α → β → Prop} (place : Place)
    (input : List Located) (fault : Fault) :
    Shifts lines amount R (.error (place.error input fault))
      (.error ((place.shift lines amount).error (input.map (·.shift amount)) fault)) := by
  cases input with
  | nil => exact .error _
  | cons t more => exact .error _

-- The same tree and the same tokens behind it, further on.
def Parsed.Shifts {α : Type} (amount : Nat) (move : α → α) {input later : List Located}
    (parsed : Parsed α input) (other : Parsed α later) : Prop :=
  other.tree = move parsed.tree ∧ other.rest = parsed.rest.map (·.shift amount)

-- One reader does with tokens that stand further on what another one does with them.
def ReaderShifts (lines amount : Nat) (reader other : ExprParser) : Prop :=
  ∀ input, Shifts lines amount (Parsed.Shifts amount (Expr.shift amount)) (reader input)
    (other (input.map (·.shift amount)))

section Readers

variable {lines amount : Nat} {place : Place}

theorem shifts_chain {operand other : Nat → ExprParser}
    (hoperand : ∀ level, ReaderShifts lines amount (operand level) (other level))
    (level : Nat) (tree : Expr) (input : List Located) :
    Shifts lines amount
      (fun pair later =>
        later.1 = pair.1.shift amount ∧ later.2.1 = pair.2.1.map (·.shift amount))
      (chain operand level tree input)
      (chain other level (tree.shift amount) (input.map (·.shift amount))) := by
  match input with
  | [] =>
      rw [List.map_nil, chain, chain]
      exact .ok ⟨rfl, rfl⟩
  | ⟨token, range⟩ :: more =>
      rw [map_shift_cons, chain, chain]
      cases token with
      | number _ | text _ | bool _ | name _ => exact .ok ⟨rfl, rfl⟩
      | symbol symbol =>
          dsimp only
          split
          · exact .ok ⟨rfl, rfl⟩
          · rename_i op own _
            split
            · exact .ok ⟨rfl, rfl⟩
            · refine (hoperand (own + 1) more).bind fun right right' hright => ?_
              have := right.shorter
              have hrest := shifts_chain hoperand level (.binary op tree right.tree) right.rest
              rw [Expr.shift, ← hright.1, ← hright.2] at hrest
              exact hrest.bind fun pair later hpair => .ok hpair
termination_by input.length

variable {inner other : ExprParser}

theorem shifts_arguments (hinner : ReaderShifts lines amount inner other)
    (input : List Located) :
    Shifts lines amount (Parsed.Shifts amount (Expr.shiftList amount))
      (arguments place inner input)
      (arguments (place.shift lines amount) other (input.map (·.shift amount))) := by
  rw [arguments.eq_def, arguments.eq_def]
  refine (hinner input).bind ?_
  rintro ⟨tree, rest, hshorter⟩ ⟨_, _, hshorter'⟩ ⟨rfl, rfl⟩
  -- What stands behind an argument decides.
  cases rest with
  | nil => exact shifts_error place [] _
  | cons t more =>
      obtain ⟨token, range⟩ := t
      cases token with
      | number _ | text _ | bool _ | name _ => exact shifts_error place (_ :: more) _
      | symbol symbol =>
          cases symbol with
          | comma =>
              have : more.length < input.length := by
                have := hshorter
                simp only [List.length_cons] at this
                omega
              refine (shifts_arguments hinner more).bind fun others others' hothers => .ok ⟨?_, ?_⟩
              · rw [Expr.shiftList, ← hothers.1]
              · exact hothers.2
          | close => exact .ok ⟨rfl, rfl⟩
          | _ => exact shifts_error place (_ :: more) _
termination_by input.length

-- What an operand that stands alone is read as, where the tokens behind its first one decide.
section Alone

variable {input : List Located} (place : Place) (inner : ExprParser) (name : String)
  (r r' : ByteRange)

theorem primary_var (h : ∀ r' rest, input ≠ ⟨.symbol .open, r'⟩ :: rest) :
    ∃ hshorter, primary place inner (⟨.name name, r⟩ :: input) =
      .ok ⟨.var name r, input, hshorter⟩ := by
  refine ⟨by simp, ?_⟩
  unfold primary
  dsimp only
  split
  · exact (h _ _ rfl).elim
  · exact (h _ _ rfl).elim
  · rfl

theorem primary_call (h : ∀ r'' rest, input ≠ ⟨.symbol .close, r''⟩ :: rest) :
    ∃ hshorter : ∀ list : Parsed (List Expr) input,
        list.rest.length < (⟨.name name, r⟩ :: ⟨.symbol .open, r'⟩ :: input).length,
      primary place inner (⟨.name name, r⟩ :: ⟨.symbol .open, r'⟩ :: input) = (do
        let list ← arguments place inner input
        .ok ⟨.call name r list.tree, list.rest, hshorter list⟩) := by
  refine ⟨fun list => Nat.lt_add_right 2 list.shorter, ?_⟩
  cases input with
  | nil => rfl
  | cons t more =>
      obtain ⟨token, own⟩ := t
      cases token with
      | number _ | text _ | bool _ | name _ => rfl
      | symbol symbol =>
          cases symbol with
          | close => exact (h own more rfl).elim
          | _ => rfl

theorem primary_group (h : ∀ r' rest, input ≠ ⟨.symbol .close, r'⟩ :: rest) :
    ∃ hshorter : ∀ {body : Parsed Expr input} {r' rest}, body.rest = ⟨.symbol .close, r'⟩ :: rest →
        rest.length < (⟨.symbol .open, r⟩ :: input).length,
      primary place inner (⟨.symbol .open, r⟩ :: input) = (do
        let body ← inner input
        match hr : body.rest with
        | ⟨.symbol .close, _⟩ :: rest' => .ok ⟨body.tree, rest', hshorter hr⟩
        | rest' => .error (place.error rest' .missingClose)) := by
  refine ⟨fun {body} _ _ hr => Nat.lt_add_right 1 (body.shorter_of_rest hr), ?_⟩
  unfold primary
  dsimp only
  split
  · exact (h _ _ rfl).elim
  · rfl

end Alone

-- Whether a parenthesis comes next is seen further on, too.
theorem ne_symbol_shift {symbol : Symbol} {input : List Located}
    (h : ∀ r rest, input ≠ ⟨.symbol symbol, r⟩ :: rest) (r : ByteRange) (rest : List Located) :
    input.map (·.shift amount) ≠ ⟨.symbol symbol, r⟩ :: rest := by
  intro hmap
  obtain ⟨⟨token, own⟩, more, rfl, htoken, -⟩ := List.map_eq_cons_iff.mp hmap
  cases htoken
  exact h _ _ rfl

theorem starts_or_not (symbol : Symbol) (input : List Located) :
    (∃ r rest, input = ⟨.symbol symbol, r⟩ :: rest) ∨
      ∀ r rest, input ≠ ⟨.symbol symbol, r⟩ :: rest := by
  by_cases h : ∃ r rest, input = ⟨.symbol symbol, r⟩ :: rest
  · exact .inl h
  · exact .inr fun r rest hinput => h ⟨r, rest, hinput⟩

theorem shifts_group (hinner : ReaderShifts lines amount inner other) {input : List Located}
    (hclose : ∀ r rest, input ≠ ⟨.symbol .close, r⟩ :: rest) (range : ByteRange) :
    Shifts lines amount (Parsed.Shifts amount (Expr.shift amount))
      (primary place inner (⟨.symbol .open, range⟩ :: input))
      (primary (place.shift lines amount) other
        ((⟨.symbol .open, range⟩ :: input).map (·.shift amount))) := by
  obtain ⟨hrest, hown⟩ := primary_group place inner range hclose
  obtain ⟨hrest', hother⟩ := primary_group (place.shift lines amount) other (range.shift amount)
    (ne_symbol_shift hclose)
  rw [hown, map_shift_cons, hother]
  refine (hinner input).bind ?_
  rintro ⟨tree, rest, hshorter⟩ ⟨_, _, hshorter'⟩ ⟨rfl, rfl⟩
  cases rest with
  | nil => exact shifts_error place [] _
  | cons t more =>
      obtain ⟨token, own⟩ := t
      cases token with
      | number _ | text _ | bool _ | name _ => exact shifts_error place (_ :: more) _
      | symbol symbol =>
          cases symbol with
          | close => exact .ok ⟨rfl, rfl⟩
          | _ => exact shifts_error place (_ :: more) _

theorem shifts_name (hinner : ReaderShifts lines amount inner other) (name : String)
    (range : ByteRange) (input : List Located) :
    Shifts lines amount (Parsed.Shifts amount (Expr.shift amount))
      (primary place inner (⟨.name name, range⟩ :: input))
      (primary (place.shift lines amount) other
        ((⟨.name name, range⟩ :: input).map (·.shift amount))) := by
  rcases starts_or_not .open input with ⟨r, rest, rfl⟩ | hopen
  · rcases starts_or_not .close rest with ⟨r', rest, rfl⟩ | hclose
    · exact .ok ⟨rfl, rfl⟩
    · obtain ⟨hlist, hown⟩ := primary_call place inner name range r hclose
      obtain ⟨hlist', hother⟩ := primary_call (place.shift lines amount) other name
        (range.shift amount) (r.shift amount) (ne_symbol_shift hclose)
      rw [hown, map_shift_cons, map_shift_cons, hother]
      refine (shifts_arguments hinner rest).bind fun list later hlist => .ok ⟨?_, hlist.2⟩
      rw [Expr.shift, ← hlist.1]
  · obtain ⟨hvar, hown⟩ := primary_var place inner name range hopen
    obtain ⟨hvar', hother⟩ := primary_var (place.shift lines amount) other name
      (range.shift amount) (ne_symbol_shift hopen)
    rw [hown, map_shift_cons, hother]
    exact .ok ⟨rfl, rfl⟩

theorem shifts_primary (hinner : ReaderShifts lines amount inner other) :
    ReaderShifts lines amount (primary place inner) (primary (place.shift lines amount) other) := by
  intro input
  cases input with
  | nil => exact shifts_error place [] _
  | cons t more =>
      obtain ⟨token, range⟩ := t
      cases token with
      | number _ | text _ | bool _ => exact .ok ⟨rfl, rfl⟩
      | name name => exact shifts_name hinner name range more
      | symbol symbol =>
          cases symbol with
          | «open» =>
              rcases starts_or_not .close more with ⟨r, rest, rfl⟩ | hclose
              · exact .ok ⟨rfl, rfl⟩
              · exact shifts_group hinner hclose range
          | _ => exact shifts_error place (_ :: more) _

variable {below belowLater : Readers}

theorem shifts_operand (hoperand : ReaderShifts lines amount below.operand belowLater.operand)
    (hexpression : ReaderShifts lines amount (below.expression 0) (belowLater.expression 0)) :
    ReaderShifts lines amount (operand place below)
      (operand (place.shift lines amount) belowLater) := by
  intro input
  have hprimary := @shifts_primary lines amount place _ _ hexpression input
  cases input with
  | nil => exact hprimary
  | cons t more =>
      obtain ⟨token, range⟩ := t
      cases token with
      | number _ | text _ | bool _ | name _ => exact hprimary
      | symbol symbol =>
          rw [map_shift_cons, operand, operand]
          dsimp only
          cases symbol.unary? with
          | none => exact hprimary
          | some op =>
              refine (hoperand more).bind fun body later hbody => .ok ⟨?_, hbody.2⟩
              rw [Expr.shift, ← hbody.1]

theorem isAssign_shift (amount : Nat) (input : List Located) :
    (input.map (·.shift amount)).head?.any isAssign = input.head?.any isAssign := by
  cases input <;> rfl

theorem shifts_expression (hoperand : ReaderShifts lines amount below.operand belowLater.operand)
    (hexpression : ∀ level,
      ReaderShifts lines amount (below.expression level) (belowLater.expression level))
    (level : Nat) :
    ReaderShifts lines amount (expression place below level)
      (expression (place.shift lines amount) belowLater level) := by
  intro input
  refine (shifts_operand hoperand (hexpression 0) input).bind ?_
  rintro first ⟨_, _, _⟩ ⟨rfl, rfl⟩
  refine (shifts_chain hexpression level first.tree first.rest).bind ?_
  rintro ⟨tree, rest, hrest⟩ ⟨_, _, hrest'⟩ ⟨rfl, rfl⟩
  dsimp only
  rw [isAssign_shift]
  split
  · exact shifts_error place rest _
  · exact .ok ⟨rfl, rfl⟩

-- The readers of every depth do not look at where tokens stand.
theorem shifts_readers (place : Place) (budget : Nat) :
    ReaderShifts lines amount (readers place budget).operand
        (readers (place.shift lines amount) budget).operand ∧
      ∀ level, ReaderShifts lines amount ((readers place budget).expression level)
        ((readers (place.shift lines amount) budget).expression level) := by
  induction budget with
  | zero =>
      exact ⟨fun input => shifts_error place input _, fun _ input => shifts_error place input _⟩
  | succ budget ih => exact ⟨shifts_operand ih.1 (ih.2 0), shifts_expression ih.1 ih.2⟩

theorem shifts_whole (place : Place) (trailing : Fault) (input : List Located) :
    Shifts lines amount (fun e later => later = e.shift amount) (whole place trailing input)
      (whole (place.shift lines amount) trailing (input.map (·.shift amount))) := by
  refine ((shifts_readers place maxNesting).2 0 input).bind fun parsed later hparsed => ?_
  obtain ⟨htree, hrest⟩ := hparsed
  by_cases hend : parsed.rest = []
  · rw [if_pos hend, if_pos (by rw [hrest, hend, List.map_nil])]
    exact .ok htree
  · rw [if_neg hend, if_neg (by rwa [hrest, List.map_eq_nil_iff]), hrest]
    exact shifts_error place parsed.rest _

end Readers

section Statements

variable {lines amount : Nat}

theorem shifts_tokens (line offset : Nat) (text : List Char) :
    Shifts lines amount (fun ts later => later = ts.map (·.shift amount)) (tokens line offset text)
      (tokens (line + lines) (offset + amount) text) := by
  fun_induction tokens line offset text with
  | case1 offset =>
      rw [tokens]
      exact .ok rfl
  | case2 offset c rest hblank ih =>
      rw [tokens, if_pos hblank, Nat.add_right_comm]
      exact ih
  | case3 offset rest hblank =>
      rw [tokens, if_neg hblank, if_pos rfl]
      exact .ok rfl
  | case4 offset c rest hblank hmark misread hlexeme =>
      rw [tokens, if_neg hblank, if_neg hmark, hlexeme]
      dsimp only
      rw [Nat.add_right_comm]
      exact .error _
  | case5 offset c rest hblank hmark token count hlexeme stop ih =>
      rw [tokens, if_neg hblank, if_neg hmark, hlexeme]
      dsimp only
      rw [Nat.add_right_comm offset amount]
      refine ih.map fun ts later hlater => ?_
      rw [hlater]
      rfl

-- A line holds the same statement further on.
theorem shifts_parseStatement (line offset : Nat) (text : List Char) :
    Shifts lines amount (fun own later => later = own.map (Statement.shift lines amount))
      (parseStatement line offset text)
      (parseStatement (line + lines) (offset + amount) text) := by
  have hplace : (⟨⟨offset + amount, offset + amount + byteCount text⟩, line + lines⟩ : Place) =
      Place.shift lines amount ⟨⟨offset, offset + byteCount text⟩, line⟩ := by
    rw [Nat.add_right_comm]
    rfl
  unfold parseStatement
  dsimp only
  rw [hplace]
  refine (shifts_tokens line offset text).bind ?_
  rintro located _ rfl
  split
  · exact .ok rfl
  · refine (shifts_whole _ _ _).map fun value later hvalue => ?_
    rw [hvalue]
    rfl
  · rename_i hnil hassign
    have hvalue := @shifts_whole lines amount ⟨⟨offset, offset + byteCount text⟩, line⟩
      .afterExpression located
    split
    · rename_i hmap
      exact (hnil (List.map_eq_nil_iff.mp hmap)).elim
    · rename_i hmap
      obtain ⟨⟨_, _⟩, more, rfl, hname, hmore⟩ := List.map_eq_cons_iff.mp hmap
      obtain ⟨⟨_, _⟩, rest, rfl, hsymbol, -⟩ := List.map_eq_cons_iff.mp hmore
      cases hname
      cases hsymbol
      exact (hassign _ _ _ _ rfl).elim
    · refine hvalue.map fun value later hlater => ?_
      rw [hlater]
      rfl

end Statements

section Guards

variable {amount : Nat}

theorem firstCall?_shift (amount : Nat) (e : Expr) :
    (e.shift amount).firstCall? = e.firstCall?.map fun own => (own.1, own.2.shift amount) := by
  cases e with
  | number _ | text _ | bool _ | unit | var _ _ | call _ _ _ => rfl
  | unary op operand => exact firstCall?_shift amount operand
  | binary op left right =>
      rw [Expr.shift, Expr.firstCall?, Expr.firstCall?, firstCall?_shift amount left,
        firstCall?_shift amount right, Option.map_or]

-- A condition whose text stands so many bytes further on.
def Guard.shift (amount : Nat) (guard : Guard) : Guard :=
  ⟨guard.expr.shift amount, by rw [firstCall?_shift, guard.callFree]; rfl⟩

theorem shifts_parseExpr (offset : Nat) (text : List Char) :
    Shifts 0 amount (fun e later => later = e.shift amount) (parseExpr text offset)
      (parseExpr text (offset + amount)) := by
  have hplace : (⟨⟨offset + amount, offset + amount + byteCount text⟩, 1⟩ : Place) =
      Place.shift 0 amount ⟨⟨offset, offset + byteCount text⟩, 1⟩ := by
    rw [Nat.add_right_comm]
    rfl
  unfold parseExpr
  rw [hplace]
  refine (shifts_tokens 1 offset text).bind ?_
  rintro located _ rfl
  exact shifts_whole _ _ _

-- A condition is read alike further on, and a call in it is found alike.
theorem shifts_parseGuard (offset : Nat) (text : List Char) :
    Shifts 0 amount (fun guard later => later = guard.shift amount) (parseGuard text offset)
      (parseGuard text (offset + amount)) := by
  unfold parseGuard
  refine (shifts_parseExpr offset text).bind ?_
  rintro e _ rfl
  have hshift := firstCall?_shift amount e
  split
  · rename_i hfree
    rw [hfree, Option.map_none] at hshift
    split
    · exact .ok rfl
    · rename_i hcall
      rw [hshift] at hcall
      cases hcall
  · rename_i function range hcall
    rw [hcall, Option.map_some] at hshift
    split
    · rename_i hfree
      rw [hshift] at hfree
      cases hfree
    · rename_i later laterRange hlater
      rw [hshift] at hlater
      cases hlater
      exact .error _

end Guards

end LiveDoc.Calc
