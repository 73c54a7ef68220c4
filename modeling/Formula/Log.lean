/-!
Records of what has been done, which accompany a value.
-/

set_option autoImplicit false

namespace Formula

inductive LogLevel where
  | trace
  | debug
  deriving DecidableEq, Repr

def LogLevel.name : LogLevel → String
  | trace => "TRACE"
  | debug => "DEBUG"

structure LogRecord where
  level : LogLevel
  message : String
  deriving DecidableEq, Repr

def LogRecord.text (r : LogRecord) : String := r.level.name ++ " " ++ r.message

/-- A value with the records made on the way to it, the oldest first. -/
structure Logged (α : Type) where
  value : α
  records : List LogRecord

namespace Logged

instance : Monad Logged where
  pure a := ⟨a, []⟩
  bind x f := ⟨(f x.value).value, x.records ++ (f x.value).records⟩

def record (level : LogLevel) (message : String) : Logged Unit := ⟨(), [⟨level, message⟩]⟩

variable {α β : Type}

@[simp] theorem value_pure (a : α) : (pure a : Logged α).value = a := rfl

@[simp] theorem records_pure (a : α) : (pure a : Logged α).records = [] := rfl

@[simp] theorem value_bind (x : Logged α) (f : α → Logged β) :
    (x >>= f).value = (f x.value).value := rfl

@[simp] theorem records_bind (x : Logged α) (f : α → Logged β) :
    (x >>= f).records = x.records ++ (f x.value).records := rfl

@[simp] theorem value_map (f : α → β) (x : Logged α) : (f <$> x).value = f x.value := rfl

@[simp] theorem value_mapM (f : α → Logged β) (l : List α) :
    (l.mapM f).value = l.map fun a => (f a).value := by
  have gen (done : List β) :
      (List.mapM.loop f l done).value = done.reverse ++ l.map fun a => (f a).value := by
    induction l generalizing done with
    | nil => simp [List.mapM.loop]
    | cons a rest ih => simp [List.mapM.loop, ih]
  simpa [List.mapM] using gen []

end Logged

end Formula
