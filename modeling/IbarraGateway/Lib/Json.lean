import Mathlib.Data.Rat.Defs

/-!
# JSON values

Objects keep their members in the order of the text.
-/

namespace IbarraGateway

inductive Json
  | null
  | bool (b : Bool)
  | num (q : Rat)
  | str (s : String)
  | arr (items : List Json)
  | obj (members : List (String × Json))

namespace Json

/-- An object with a member of the name. -/
def hasMember (name : String) : Json → Bool
  | obj members => members.any fun m => m.1 = name
  | _ => false

end Json
end IbarraGateway
