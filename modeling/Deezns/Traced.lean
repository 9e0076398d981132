import Mathlib.Data.List.Basic

/-!
# Computations with a trace

A computation yields a value and the events on the way to it. Sequencing joins
the traces, so a law about every event is proved for the parts.
-/

@[ext] structure Traced (ε α : Type) where
  value : α
  trace : List ε
  deriving DecidableEq, Repr

namespace Traced

variable {ε α β : Type}

instance : Monad (Traced ε) where
  pure a := ⟨a, []⟩
  bind m f := ⟨(f m.value).value, m.trace ++ (f m.value).trace⟩

/-- A computation whose only effect is an event. -/
def emit (e : ε) : Traced ε Unit := ⟨(), [e]⟩

@[simp] theorem value_pure (a : α) : (pure a : Traced ε α).value = a := rfl
@[simp] theorem trace_pure (a : α) : (pure a : Traced ε α).trace = [] := rfl
@[simp] theorem value_bind (m : Traced ε α) (f : α → Traced ε β) :
    (m >>= f).value = (f m.value).value := rfl
@[simp] theorem trace_bind (m : Traced ε α) (f : α → Traced ε β) :
    (m >>= f).trace = m.trace ++ (f m.value).trace := rfl
@[simp] theorem value_map (f : α → β) (m : Traced ε α) : (f <$> m).value = f m.value := rfl
@[simp] theorem trace_map (f : α → β) (m : Traced ε α) : (f <$> m).trace = m.trace :=
  List.append_nil _
@[simp] theorem value_emit (e : ε) : (emit e).value = () := rfl
@[simp] theorem trace_emit (e : ε) : (emit e).trace = [e] := rfl

end Traced
