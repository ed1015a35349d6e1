import LiveDoc.Calc.Value
import LiveDoc.Data.NameTable

namespace LiveDoc.Calc

-- A value and the index of the block that bound it last.
structure Binding where
  value : Value
  boundBy : Nat
  deriving BEq, Repr

-- The one namespace of a run. Blocks bind into it on behalf of the current block.
structure Session where
  bindings : NameTable Binding
  current : Nat
  deriving BEq, Repr

namespace Session

def empty : Session := ⟨[], 0⟩

def binding? (session : Session) (name : String) : Option Binding :=
  NameTable.find? name session.bindings

def get? (session : Session) (name : String) : Option Value :=
  (session.binding? name).map (·.value)

def bind (session : Session) (name : String) (value : Value) : Session :=
  { session with bindings := NameTable.put name ⟨value, session.current⟩ session.bindings }

def enter (session : Session) (block : Nat) : Session := { session with current := block }

@[simp] theorem binding?_bind_self (session : Session) (name : String) (value : Value) :
    (session.bind name value).binding? name = some ⟨value, session.current⟩ := by
  simp [binding?, bind]

theorem binding?_bind_of_ne (session : Session) {name other : String} (h : other ≠ name)
    (value : Value) : (session.bind name value).binding? other = session.binding? other := by
  simp [binding?, bind, NameTable.find?_put_of_ne h]

@[simp] theorem binding?_enter (session : Session) (block : Nat) (name : String) :
    (session.enter block).binding? name = session.binding? name := rfl

end Session

end LiveDoc.Calc
