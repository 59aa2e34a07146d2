import QuintupleMachine.Description.Error
import QuintupleMachine.Table

/-! # Readings

The result of reading a text, with the states that were defined again on the way: the later
definition is kept, and the reader may want to know. -/

namespace QuintupleMachine

/-- A result, and the states that were redefined before it was reached, in order. -/
structure Reading (ε α : Type) where
  redefined : List Nat
  result : Except ε α

namespace Reading

variable {ε ε' α β : Type}

/-- A result without redefinitions. -/
def ofExcept (result : Except ε α) : Reading ε α := ⟨[], result⟩

/-- Changes a success. -/
def map (f : α → β) (reading : Reading ε α) : Reading ε β :=
  ⟨reading.redefined, reading.result.map f⟩

/-- Changes a failure. -/
def mapError (f : ε → ε') (reading : Reading ε α) : Reading ε' α :=
  ⟨reading.redefined, reading.result.mapError f⟩

@[simp] theorem result_map (f : α → β) (reading : Reading ε α) :
    (reading.map f).result = reading.result.map f := rfl

@[simp] theorem result_mapError (f : ε → ε') (reading : Reading ε α) :
    (reading.mapError f).result = reading.result.mapError f := rfl

end Reading

end QuintupleMachine
