import AiraGateway.Library.Dict
import AiraGateway.Library.Text

/-!
# JSON values

A JSON value as a program reads it into its own types: integers are exact, a number with a
fraction or an exponent is kept as the text that states it, and an object is the list of its
members in order.
-/

namespace AiraGateway

inductive Json
  | null
  | bool (b : Bool)
  | int (n : ℤ)
  | float (text : Text)
  | str (text : Text)
  | arr (items : List Json)
  | obj (members : List (Text × Json))

namespace Json

mutual

def decEq : (a b : Json) → Decidable (a = b)
  | null, null => isTrue rfl
  | bool a, bool b => decidable_of_iff (a = b) (by simp)
  | int a, int b => decidable_of_iff (a = b) (by simp)
  | float a, float b => decidable_of_iff (a = b) (by simp)
  | str a, str b => decidable_of_iff (a = b) (by simp)
  | arr a, arr b =>
    match decEqItems a b with
    | isTrue h => isTrue (by rw [h])
    | isFalse h => isFalse (by simpa using h)
  | obj a, obj b =>
    match decEqMembers a b with
    | isTrue h => isTrue (by rw [h])
    | isFalse h => isFalse (by simpa using h)
  | null, bool _ | null, int _ | null, float _ | null, str _ | null, arr _ | null, obj _ =>
    isFalse (by simp)
  | bool _, null | bool _, int _ | bool _, float _ | bool _, str _ | bool _, arr _
  | bool _, obj _ => isFalse (by simp)
  | int _, null | int _, bool _ | int _, float _ | int _, str _ | int _, arr _ | int _, obj _ =>
    isFalse (by simp)
  | float _, null | float _, bool _ | float _, int _ | float _, str _ | float _, arr _
  | float _, obj _ => isFalse (by simp)
  | str _, null | str _, bool _ | str _, int _ | str _, float _ | str _, arr _ | str _, obj _ =>
    isFalse (by simp)
  | arr _, null | arr _, bool _ | arr _, int _ | arr _, float _ | arr _, str _ | arr _, obj _ =>
    isFalse (by simp)
  | obj _, null | obj _, bool _ | obj _, int _ | obj _, float _ | obj _, str _ | obj _, arr _ =>
    isFalse (by simp)

def decEqItems : (a b : List Json) → Decidable (a = b)
  | [], [] => isTrue rfl
  | [], _ :: _ | _ :: _, [] => isFalse (by simp)
  | x :: xs, y :: ys =>
    match decEq x y, decEqItems xs ys with
    | isTrue h, isTrue h' => isTrue (by rw [h, h'])
    | isFalse h, _ => isFalse (by simp [h])
    | _, isFalse h => isFalse (by simp [h])

def decEqMembers : (a b : List (Text × Json)) → Decidable (a = b)
  | [], [] => isTrue rfl
  | [], _ :: _ | _ :: _, [] => isFalse (by simp)
  | (k, x) :: xs, (l, y) :: ys =>
    match decEq x y, decEqMembers xs ys with
    | isTrue h, isTrue h' => decidable_of_iff (k = l) (by simp [h, h'])
    | isFalse h, _ => isFalse (by simp [h])
    | _, isFalse h => isFalse (by simp [h])

end

instance : DecidableEq Json := decEq

/-- What an object states under a name; nothing for a value that is no object. -/
def get (name : Text) : Json → Option Json
  | obj members => dictGet members name
  | _ => none

end Json

end AiraGateway
