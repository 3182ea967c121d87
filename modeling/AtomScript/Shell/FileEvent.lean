/-!
# Events of a watched file
-/

namespace AtomScript

/-- What happened to a watched file. -/
inductive FileEvent where
  | any | access | create | modify | remove | other
  deriving DecidableEq, Inhabited, Repr

/-- The contents may have changed, so the file is run again. -/
def FileEvent.reloads : FileEvent → Bool
  | create | modify => true
  | _ => false

end AtomScript
