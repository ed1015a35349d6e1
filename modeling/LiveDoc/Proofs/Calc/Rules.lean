import LiveDoc.Proofs.Calc.Depth

namespace LiveDoc.Calc

-- A call that an evaluation makes.
structure Invocation where
  function : String
  arguments : List Value

-- A handler that writes down the calls it is given, also those that it refuses.
def Calls.logged {σ : Type} (calls : Calls σ) : Calls (σ × List Invocation) :=
  fun function arguments => ExceptT.mk fun (s, log) =>
    let (result, after) := (calls function arguments).run s
    (result, (after, log ++ [⟨function, arguments⟩]))

-- An operator needs its right operand, unless the left one decides alone.
def BinaryOp.Needs (op : BinaryOp) (left : Value) : Prop :=
  (op = .and → left.isTruthy = true) ∧ (op = .or → left.isFalsy = true)

section Rules

variable {σ : Type} (calls : Calls σ) (session : Session)

mutual

-- The meaning of an expression, without any limit: from a state of the handler it makes these
-- calls, comes to this value or error and leaves this state.
inductive Gives : Expr → σ → List Invocation → Except ScriptError Value → σ → Prop
  | number (value : Float) (s : σ) : Gives (.number value) s [] (.ok (.number value)) s
  | text (value : String) (s : σ) : Gives (.text value) s [] (.ok (.text value)) s
  | bool (value : Bool) (s : σ) : Gives (.bool value) s [] (.ok (.bool value)) s
  | unit (s : σ) : Gives .unit s [] (.ok .unit) s
  | bound {name : String} {value : Value} (place : ByteRange) (s : σ) :
      session.get? name = some value → Gives (.var name place) s [] (.ok value) s
  | unbound {name : String} (place : ByteRange) (s : σ) :
      session.get? name = none →
      Gives (.var name place) s [] (.error (.undefinedVariable name)) s
  | call {function : String} {arguments : List Expr} {values : List Value} {s middle after : σ}
      {made : List Invocation} {result : Except ScriptError Value} (place : ByteRange) :
      GivesAll arguments s made (.ok values) middle →
      (calls function values).run middle = (result, after) →
      Gives (.call function place arguments) s (made ++ [⟨function, values⟩]) result after
  | callFails {arguments : List Expr} {s after : σ} {made : List Invocation} {error : ScriptError}
      (function : String) (place : ByteRange) :
      GivesAll arguments s made (.error error) after →
      Gives (.call function place arguments) s made (.error error) after
  | unary {operand : Expr} {s after : σ} {made : List Invocation} {value : Value} (op : UnaryOp) :
      Gives operand s made (.ok value) after →
      Gives (.unary op operand) s made (op.apply value) after
  | unaryFails {operand : Expr} {s after : σ} {made : List Invocation} {error : ScriptError}
      (op : UnaryOp) :
      Gives operand s made (.error error) after →
      Gives (.unary op operand) s made (.error error) after
  | leftFails {left : Expr} {s after : σ} {made : List Invocation} {error : ScriptError}
      (op : BinaryOp) (right : Expr) :
      Gives left s made (.error error) after →
      Gives (.binary op left right) s made (.error error) after
  | andSkips {left : Expr} {s after : σ} {made : List Invocation} {value : Value} (right : Expr) :
      Gives left s made (.ok value) after → value.isFalsy = true →
      Gives (.binary .and left right) s made (.ok (.bool false)) after
  | orSkips {left : Expr} {s after : σ} {made : List Invocation} {value : Value} (right : Expr) :
      Gives left s made (.ok value) after → value.isTruthy = true →
      Gives (.binary .or left right) s made (.ok (.bool true)) after
  | rightFails {op : BinaryOp} {left right : Expr} {s middle after : σ}
      {made more : List Invocation} {value : Value} {error : ScriptError} :
      Gives left s made (.ok value) middle → op.Needs value →
      Gives right middle more (.error error) after →
      Gives (.binary op left right) s (made ++ more) (.error error) after
  | both {op : BinaryOp} {left right : Expr} {s middle after : σ} {made more : List Invocation}
      {value other : Value} :
      Gives left s made (.ok value) middle → op.Needs value →
      Gives right middle more (.ok other) after →
      Gives (.binary op left right) s (made ++ more) (op.apply value other) after

-- The same for arguments, from left to right.
inductive GivesAll : List Expr → σ → List Invocation → Except ScriptError (List Value) → σ → Prop
  | nil (s : σ) : GivesAll [] s [] (.ok []) s
  | firstFails {e : Expr} {s after : σ} {made : List Invocation} {error : ScriptError}
      (rest : List Expr) :
      Gives e s made (.error error) after → GivesAll (e :: rest) s made (.error error) after
  | restFails {e : Expr} {rest : List Expr} {s middle after : σ} {made more : List Invocation}
      {value : Value} {error : ScriptError} :
      Gives e s made (.ok value) middle → GivesAll rest middle more (.error error) after →
      GivesAll (e :: rest) s (made ++ more) (.error error) after
  | cons {e : Expr} {rest : List Expr} {s middle after : σ} {made more : List Invocation}
      {value : Value} {values : List Value} :
      Gives e s made (.ok value) middle → GivesAll rest middle more (.ok values) after →
      GivesAll (e :: rest) s (made ++ more) (.ok (value :: values)) after

end

def Expr.isChain : Expr → Bool
  | .binary _ _ _ => true
  | _ => false

mutual

-- Evaluation comes to a part of the expression that stands this many levels below it, and nothing
-- before it fails. The operators of a chain share a level, and all its operands are one below.
inductive Reaches : Expr → σ → Nat → Prop
  | here (e : Expr) (s : σ) : Reaches e s 0
  | operand {operand : Expr} {s : σ} {level : Nat} (op : UnaryOp) :
      Reaches operand s level → Reaches (.unary op operand) s (level + 1)
  | argument {arguments : List Expr} {s : σ} {level : Nat} (function : String)
      (place : ByteRange) :
      ReachesIn arguments s level → Reaches (.call function place arguments) s (level + 1)
  | first {left : Expr} {s : σ} {level : Nat} (op : BinaryOp) (right : Expr) :
      left.isChain = false → Reaches left s level → Reaches (.binary op left right) s (level + 1)
  | along {left : Expr} {s : σ} {level : Nat} (op : BinaryOp) (right : Expr) :
      left.isChain = true → Reaches left s level → Reaches (.binary op left right) s level
  | right {op : BinaryOp} {left right : Expr} {s middle : σ} {made : List Invocation}
      {value : Value} {level : Nat} :
      Gives calls session left s made (.ok value) middle → op.Needs value →
      Reaches right middle level → Reaches (.binary op left right) s (level + 1)

inductive ReachesIn : List Expr → σ → Nat → Prop
  | first {e : Expr} {s : σ} {level : Nat} (rest : List Expr) :
      Reaches e s level → ReachesIn (e :: rest) s level
  | later {e : Expr} {rest : List Expr} {s middle : σ} {made : List Invocation} {value : Value}
      {level : Nat} :
      Gives calls session e s made (.ok value) middle → ReachesIn rest middle level →
      ReachesIn (e :: rest) s level

end

-- Evaluation comes to a part that stands too deep.
def Overruns (e : Expr) (s : σ) : Prop :=
  ∃ level, Reaches calls session e s level ∧ maxDepth < level

end Rules

section Totality

variable {σ : Type} (calls : Calls σ) (session : Session)

theorem needs_iff {op : BinaryOp} {value : Value} : op.Needs value ↔ op.decided? value = none := by
  cases op <;> simp [BinaryOp.Needs, BinaryOp.decided?, Value.isTruthy]

-- Where the right operand is not needed, the operator is one of the two that skip it.
theorem gives_of_decided {op : BinaryOp} {left right : Expr} {s after : σ}
    {made : List Invocation} {value settled : Value}
    (hleft : Gives calls session left s made (.ok value) after)
    (hsettled : op.decided? value = some settled) :
    Gives calls session (.binary op left right) s made (.ok settled) after := by
  unfold BinaryOp.decided? at hsettled
  split at hsettled
  · split at hsettled
    · cases hsettled
      exact .andSkips right hleft ‹_›
    · cases hsettled
  · split at hsettled
    · cases hsettled
      exact .orSkips right hleft ‹_›
    · cases hsettled
  · cases hsettled

mutual

-- The rules settle every expression.
theorem exists_gives (e : Expr) (s : σ) :
    ∃ made result after, Gives calls session e s made result after := by
  match e with
  | .number value => exact ⟨_, _, _, .number value s⟩
  | .text value => exact ⟨_, _, _, .text value s⟩
  | .bool value => exact ⟨_, _, _, .bool value s⟩
  | .unit => exact ⟨_, _, _, .unit s⟩
  | .var name place =>
      cases hget : session.get? name with
      | none => exact ⟨_, _, _, .unbound place s hget⟩
      | some value => exact ⟨_, _, _, .bound place s hget⟩
  | .call function place arguments =>
      obtain ⟨made, values | values, middle, harguments⟩ := exists_givesAll arguments s
      · exact ⟨_, _, _, .callFails function place harguments⟩
      · exact ⟨_, _, _, .call place harguments rfl⟩
  | .unary op operand =>
      obtain ⟨made, error | value, after, hoperand⟩ := exists_gives operand s
      · exact ⟨_, _, _, .unaryFails op hoperand⟩
      · exact ⟨_, _, _, .unary op hoperand⟩
  | .binary op left right =>
      obtain ⟨made, error | value, middle, hleft⟩ := exists_gives left s
      · exact ⟨_, _, _, .leftFails op right hleft⟩
      · cases hsettled : op.decided? value with
        | some settled => exact ⟨_, _, _, gives_of_decided calls session hleft hsettled⟩
        | none =>
            have hneeds := needs_iff.mpr hsettled
            obtain ⟨more, error | other, after, hright⟩ := exists_gives right middle
            · exact ⟨_, _, _, .rightFails hleft hneeds hright⟩
            · exact ⟨_, _, _, .both hleft hneeds hright⟩

theorem exists_givesAll (es : List Expr) (s : σ) :
    ∃ made result after, GivesAll calls session es s made result after := by
  match es with
  | [] => exact ⟨_, _, _, .nil s⟩
  | e :: rest =>
      obtain ⟨made, error | value, middle, hfirst⟩ := exists_gives e s
      · exact ⟨_, _, _, .firstFails rest hfirst⟩
      · obtain ⟨more, error | values, after, hrest⟩ := exists_givesAll rest middle
        · exact ⟨_, _, _, .restFails hfirst hrest⟩
        · exact ⟨_, _, _, .cons hfirst hrest⟩

end

end Totality

section Inversion

variable {σ : Type} {calls : Calls σ} {session : Session}

-- What came of a call: its arguments failed, or the handler answered.
theorem Gives.of_call {function : String} {place : ByteRange} {arguments : List Expr} {s after : σ}
    {made : List Invocation} {result : Except ScriptError Value}
    (h : Gives calls session (.call function place arguments) s made result after) :
    (∃ error, GivesAll calls session arguments s made (.error error) after ∧
      result = .error error) ∨
    ∃ before values middle, GivesAll calls session arguments s before (.ok values) middle ∧
      made = before ++ [⟨function, values⟩] ∧
      (calls function values).run middle = (result, after) := by
  cases h with
  | callFails _ _ harguments => exact .inl ⟨_, harguments, rfl⟩
  | call _ harguments hcall => exact .inr ⟨_, _, _, harguments, rfl, hcall⟩

-- What came of an operator: its left operand failed, its left operand settled it, or the right
-- operand followed.
theorem Gives.of_binary {op : BinaryOp} {left right : Expr} {s after : σ} {made : List Invocation}
    {result : Except ScriptError Value}
    (h : Gives calls session (.binary op left right) s made result after) :
    (∃ error, Gives calls session left s made (.error error) after ∧ result = .error error) ∨
    (∃ value settled, Gives calls session left s made (.ok value) after ∧
      op.decided? value = some settled ∧ result = .ok settled) ∨
    ∃ value before middle more other, Gives calls session left s before (.ok value) middle ∧
      op.decided? value = none ∧ Gives calls session right middle more other after ∧
      made = before ++ more ∧ result = other.bind (op.apply value) := by
  cases h with
  | leftFails _ _ hleft => exact .inl ⟨_, hleft, rfl⟩
  | andSkips _ hleft hfalsy =>
      exact .inr (.inl ⟨_, _, hleft, by simp [BinaryOp.decided?, hfalsy], rfl⟩)
  | orSkips _ hleft htruthy =>
      exact .inr (.inl ⟨_, _, hleft, by simp [BinaryOp.decided?, htruthy], rfl⟩)
  | rightFails hleft hneeds hright =>
      exact .inr (.inr ⟨_, _, _, _, _, hleft, needs_iff.mp hneeds, hright, rfl, rfl⟩)
  | both hleft hneeds hright =>
      exact .inr (.inr ⟨_, _, _, _, _, hleft, needs_iff.mp hneeds, hright, rfl, rfl⟩)

theorem Gives.of_unary {op : UnaryOp} {operand : Expr} {s after : σ} {made : List Invocation}
    {result : Except ScriptError Value}
    (h : Gives calls session (.unary op operand) s made result after) :
    ∃ other, Gives calls session operand s made other after ∧ result = other.bind op.apply := by
  cases h with
  | unary _ hoperand => exact ⟨_, hoperand, rfl⟩
  | unaryFails _ hoperand => exact ⟨_, hoperand, rfl⟩

theorem GivesAll.of_cons {e : Expr} {rest : List Expr} {s after : σ} {made : List Invocation}
    {result : Except ScriptError (List Value)}
    (h : GivesAll calls session (e :: rest) s made result after) :
    (∃ error, Gives calls session e s made (.error error) after ∧ result = .error error) ∨
    ∃ value before middle more others, Gives calls session e s before (.ok value) middle ∧
      GivesAll calls session rest middle more others after ∧ made = before ++ more ∧
      result = others.map (value :: ·) := by
  cases h with
  | firstFails _ hfirst => exact .inl ⟨_, hfirst, rfl⟩
  | restFails hfirst hrest => exact .inr ⟨_, _, _, _, _, hfirst, hrest, rfl, rfl⟩
  | cons hfirst hrest => exact .inr ⟨_, _, _, _, _, hfirst, hrest, rfl, rfl⟩

end Inversion

section Uniqueness

variable {σ : Type} {calls : Calls σ} {session : Session}

mutual

-- The rules settle every expression in one way.
theorem Gives.unique {e : Expr} {s after after' : σ} {made made' : List Invocation}
    {result result' : Except ScriptError Value} (h : Gives calls session e s made result after)
    (h' : Gives calls session e s made' result' after') :
    made' = made ∧ result' = result ∧ after' = after := by
  match e with
  | .number _ | .text _ | .bool _ | .unit =>
      cases h
      cases h'
      exact ⟨rfl, rfl, rfl⟩
  | .var _ _ => cases h <;> cases h' <;> simp_all
  | .unary op operand =>
      obtain ⟨other, hoperand, rfl⟩ := h.of_unary
      obtain ⟨other', hoperand', rfl⟩ := h'.of_unary
      obtain ⟨rfl, rfl, rfl⟩ := hoperand.unique hoperand'
      exact ⟨rfl, rfl, rfl⟩
  | .call _ _ arguments =>
      rcases h.of_call with ⟨error, harguments, rfl⟩ |
          ⟨before, values, middle, harguments, rfl, hcall⟩
        <;> rcases h'.of_call with ⟨error', harguments', rfl⟩ |
          ⟨before', values', middle', harguments', rfl, hcall'⟩
        <;> obtain ⟨rfl, hresult, rfl⟩ := harguments.unique harguments'
        <;> cases hresult
      · exact ⟨rfl, rfl, rfl⟩
      · rw [hcall] at hcall'
        cases hcall'
        exact ⟨rfl, rfl, rfl⟩
  | .binary op left right =>
      rcases h.of_binary with ⟨error, hleft, rfl⟩ | ⟨value, settled, hleft, hsettled, rfl⟩ |
          ⟨value, before, middle, more, other, hleft, hneeds, hright, rfl, rfl⟩
        <;> rcases h'.of_binary with ⟨error', hleft', rfl⟩ |
          ⟨value', settled', hleft', hsettled', rfl⟩ |
          ⟨value', before', middle', more', other', hleft', hneeds', hright', rfl, rfl⟩
        <;> obtain ⟨rfl, hresult, rfl⟩ := hleft.unique hleft'
        <;> cases hresult
      · exact ⟨rfl, rfl, rfl⟩
      · rw [hsettled] at hsettled'
        cases hsettled'
        exact ⟨rfl, rfl, rfl⟩
      · rw [hsettled] at hneeds'
        cases hneeds'
      · rw [hneeds] at hsettled'
        cases hsettled'
      · obtain ⟨rfl, rfl, rfl⟩ := hright.unique hright'
        exact ⟨rfl, rfl, rfl⟩

theorem GivesAll.unique {es : List Expr} {s after after' : σ} {made made' : List Invocation}
    {result result' : Except ScriptError (List Value)}
    (h : GivesAll calls session es s made result after)
    (h' : GivesAll calls session es s made' result' after') :
    made' = made ∧ result' = result ∧ after' = after := by
  match es with
  | [] =>
      cases h
      cases h'
      exact ⟨rfl, rfl, rfl⟩
  | e :: rest =>
      rcases h.of_cons with ⟨error, hfirst, rfl⟩ |
          ⟨value, before, middle, more, others, hfirst, hrest, rfl, rfl⟩
        <;> rcases h'.of_cons with ⟨error', hfirst', rfl⟩ |
          ⟨value', before', middle', more', others', hfirst', hrest', rfl, rfl⟩
        <;> obtain ⟨rfl, hresult, rfl⟩ := hfirst.unique hfirst'
        <;> cases hresult
      · exact ⟨rfl, rfl, rfl⟩
      · obtain ⟨rfl, rfl, rfl⟩ := hrest.unique hrest'
        exact ⟨rfl, rfl, rfl⟩

end

end Uniqueness

end LiveDoc.Calc
