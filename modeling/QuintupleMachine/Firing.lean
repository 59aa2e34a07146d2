import QuintupleMachine.Quintuple
import QuintupleMachine.Tape

/-! # Firing a rule

A rule fires on the cell under the head.  It writes and hands over only if it accepts what it
reads, but the head moves either way: a rule that does not accept scans on in its own state. -/

namespace QuintupleMachine

/-- What a firing leaves behind.  There is no head once it has moved off to the left. -/
structure Firing where
  accepted : Bool
  next : Nat
  head : Option Nat
  tape : Tape
deriving DecidableEq

/-- Fires a rule with the head at a position; nothing fires past the end of the tape. -/
def Quintuple.fire (rule : Quintuple) (tape : Tape) (head : Nat) : Option Firing :=
  match tape.get? head with
  | none => none
  | some symbol =>
    if rule.accepts symbol then
      some ⟨true, rule.next, rule.direction.apply head, tape.set head rule.write⟩
    else
      some ⟨false, rule.state, rule.direction.apply head, tape⟩

theorem Quintuple.fire_eq_none {rule : Quintuple} {tape : Tape} {head : Nat} :
    rule.fire tape head = none ↔ tape.length ≤ head := by
  rw [← Tape.get?_eq_none, fire]
  split
  · simp_all
  · split <;> simp_all

theorem Quintuple.length_of_fire {rule : Quintuple} {tape : Tape} {head : Nat} {firing : Firing}
    (h : rule.fire tape head = some firing) : firing.tape.length = tape.length := by
  unfold fire at h
  split at h
  · cases h
  · split at h <;> cases h <;> simp

end QuintupleMachine
