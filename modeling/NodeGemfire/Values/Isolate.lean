/-!
# What C++ code asks of V8

A conversion returns a value and leaves a trace in the isolate: the exceptions
it scheduled with `Nan::ThrowError`, of which the last is the one pending, and
the warnings it printed. Scheduling an exception does not stop the C++ code.
-/

namespace NodeGemfire

/-- An exception of the native client. -/
structure GeodeException where
  name : String
  message : String
  deriving DecidableEq

/-- An `Error` object, as `Nan::Error` and `v8Error` build them. -/
structure JsError where
  name : String
  message : String
  deriving DecidableEq

/-- A result, with the exceptions scheduled and the warnings printed on the way. -/
structure Isolate (α : Type) where
  value : α
  thrown : List JsError
  warned : List String

namespace Isolate

variable {α β : Type}

protected def bind (x : Isolate α) (f : α → Isolate β) : Isolate β :=
  ⟨(f x.value).value, x.thrown ++ (f x.value).thrown, x.warned ++ (f x.value).warned⟩

instance : Monad Isolate where
  pure a := ⟨a, [], []⟩
  bind := Isolate.bind

@[simp] theorem pure_value (a : α) : (pure a : Isolate α).value = a := rfl

@[simp] theorem pure_thrown (a : α) : (pure a : Isolate α).thrown = [] := rfl

@[simp] theorem bind_value (x : Isolate α) (f : α → Isolate β) :
    (x >>= f).value = (f x.value).value := rfl

@[simp] theorem bind_thrown (x : Isolate α) (f : α → Isolate β) :
    (x >>= f).thrown = x.thrown ++ (f x.value).thrown := rfl

private theorem bind_pure_id (x : Isolate α) : x >>= pure = x := by
  show (⟨x.value, x.thrown ++ [], x.warned ++ []⟩ : Isolate α) = x
  simp only [List.append_nil]

private theorem bind_assoc {γ : Type} (x : Isolate α) (f : α → Isolate β) (g : β → Isolate γ) :
    x >>= f >>= g = x >>= fun a => f a >>= g := by
  show (⟨_, (x.thrown ++ _) ++ _, (x.warned ++ _) ++ _⟩ : Isolate γ) =
    ⟨_, x.thrown ++ (_ ++ _), x.warned ++ (_ ++ _)⟩
  rw [List.append_assoc, List.append_assoc]
  rfl

instance : LawfulMonad Isolate :=
  LawfulMonad.mk' Isolate bind_pure_id (fun _ _ => rfl) bind_assoc

@[simp] theorem map_value (f : α → β) (x : Isolate α) : (f <$> x).value = f x.value := rfl

@[simp] theorem map_thrown (f : α → β) (x : Isolate α) : (f <$> x).thrown = x.thrown := by
  show x.thrown ++ [] = x.thrown
  rw [List.append_nil]

@[simp] theorem pure_bind (a : α) (f : α → Isolate β) : pure a >>= f = f a := rfl

end Isolate

/-- `Nan::ThrowError` with a text. -/
def nanThrowError (message : String) : Isolate Unit := ⟨(), [⟨"Error", message⟩], []⟩

def v8Error (exception : GeodeException) : JsError := ⟨exception.name, exception.message⟩

/-- An error object tells the name and the message of the exception. -/
theorem v8Error_eq_iff {exception : GeodeException} {error : JsError} :
    v8Error exception = error ↔ error.name = exception.name ∧ error.message = exception.message := by
  cases error
  simp [v8Error, eq_comm]

/-- `ThrowGemfireException`. -/
def throwGemfireException (exception : GeodeException) : Isolate Unit :=
  ⟨(), [v8Error exception], []⟩

def consoleWarn (message : String) : Isolate Unit := ⟨(), [], [message]⟩

@[simp] theorem nanThrowError_thrown (message : String) :
    (nanThrowError message).thrown = [⟨"Error", message⟩] := rfl

@[simp] theorem throwGemfireException_thrown (exception : GeodeException) :
    (throwGemfireException exception).thrown = [v8Error exception] := rfl

end NodeGemfire
