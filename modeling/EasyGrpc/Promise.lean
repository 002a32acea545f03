import Mathlib.Logic.Function.Basic

/-!
# A promise and its future

A promise is a cell written at most once, with a value or with an exception. The writer that comes
second is refused: in C++ it is thrown a `std::future_error`.
-/

namespace EasyGrpc

universe u v

/-- The shared state of a `std::promise` and the futures taken from it. -/
inductive Promise (α : Type u) (ε : Type v) where
  | pending
  | value (a : α)
  | exception (e : ε)
  deriving DecidableEq, Repr

namespace Promise

variable {α : Type u} {ε : Type v}

def Fulfilled (p : Promise α ε) : Prop := p ≠ .pending

instance : DecidablePred (Fulfilled : Promise α ε → Prop)
  | .pending => isFalse fun h => h rfl
  | .value _ => isTrue nofun
  | .exception _ => isTrue nofun

/-- `set_value`; `none` is the `future_error` of a promise that is already satisfied. -/
def setValue (p : Promise α ε) (a : α) : Option (Promise α ε) :=
  match p with
  | .pending => some (.value a)
  | _ => none

def setException (p : Promise α ε) (e : ε) : Option (Promise α ε) :=
  match p with
  | .pending => some (.exception e)
  | _ => none

theorem setValue_pending (a : α) : (pending : Promise α ε).setValue a = some (.value a) := by
  rw [setValue]

theorem setException_pending (e : ε) :
    (pending : Promise α ε).setException e = some (.exception e) := by
  rw [setException]

@[simp]
theorem fulfilled_value (a : α) : (value a : Promise α ε).Fulfilled := nofun

@[simp]
theorem fulfilled_exception (e : ε) : (exception e : Promise α ε).Fulfilled := nofun

theorem fulfilled_getD_setValue (p : Promise α ε) (a : α) : ((p.setValue a).getD p).Fulfilled := by
  cases p with
  | pending => exact fulfilled_value a
  | value b => exact fulfilled_value b
  | exception e => exact fulfilled_exception e

theorem setValue_eq_some_iff {p q : Promise α ε} {a : α} :
    p.setValue a = some q ↔ p = .pending ∧ q = .value a := by
  cases p <;> simp [setValue, eq_comm]

theorem setException_eq_some_iff {p q : Promise α ε} {e : ε} :
    p.setException e = some q ↔ p = .pending ∧ q = .exception e := by
  cases p <;> simp [setException, eq_comm]

end Promise

end EasyGrpc
