import Offload.Outcome

/-!
# How a wrapped function ends

A function returns a value, returns an error, or panics. What it hands over is still code: rendering
an error as a text may panic, and so may writing a value.

It is code once more when it is dropped. The value, the error and the payload of a panic are taken
to be dropped without a panic, so their destructors do not show here.
-/

namespace Offload

/-- The end of one call of a wrapped function. -/
inductive Conclusion (α : Type) where
  /-- It returns a value. Writing the value may panic. -/
  | returns (value : α) (writing : Option Payload := none)
  /-- It returns an error of a type. Rendering the error gives its message, or panics. -/
  | errs (typeName : String) (rendering : Except Payload String)
  | panics (payload : Payload)
  deriving Repr

namespace Conclusion

variable {α : Type}

/-- The outcome that a worker reports, or the panic of rendering the error. -/
def outcome : Conclusion α → Except Payload (Outcome α)
  | returns value _ => .ok (.success value)
  | errs typeName (.ok message) => .ok (.failure (.ofError typeName message))
  | errs _ (.error payload) => .error payload
  | panics payload => .ok (.failure (.ofPanic payload))

/-- The panic of writing the value, if there is one. -/
def writingPanic : Conclusion α → Option Payload
  | returns _ writing => writing
  | _ => none

end Conclusion

end Offload
