import Marginalia.Text.Basic

/-! # Records of what was done

Work that is worth a record returns its value together with the records, in order.
-/

namespace Marginalia

inductive Severity where
  | trace
  | debug
  | warn
  deriving DecidableEq

def Severity.name : Severity → Text
  | trace => "TRACE"
  | debug => "DEBUG"
  | warn => "WARN"

structure Record where
  severity : Severity
  text : Text
  deriving DecidableEq

def Record.line (r : Record) : Text := r.severity.name ++ " " ++ r.text

structure Logged (α : Type) where
  value : α
  records : List Record

namespace Logged

instance : Monad Logged where
  pure a := ⟨a, []⟩
  bind x f := ⟨(f x.value).value, x.records ++ (f x.value).records⟩

def note (severity : Severity) (text : Text) : Logged Unit := ⟨(), [⟨severity, text⟩]⟩

variable {α β : Type}

@[simp] theorem value_pure (a : α) : (pure a : Logged α).value = a := rfl

@[simp] theorem value_bind (x : Logged α) (f : α → Logged β) :
    (x >>= f).value = (f x.value).value := rfl

@[simp] theorem records_pure (a : α) : (pure a : Logged α).records = [] := rfl

@[simp] theorem records_bind (x : Logged α) (f : α → Logged β) :
    (x >>= f).records = x.records ++ (f x.value).records := rfl

end Logged

end Marginalia
