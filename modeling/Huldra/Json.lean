/-!
# Json — the values of a JSON column

What `json.dumps` writes with sorted keys and `json.loads` reads back: the fields of an object stand
in the order of their keys.
-/

namespace Huldra

inductive Json where
  | null
  | bool (value : Bool)
  | number (value : Rat)
  | string (value : String)
  | array (items : List Json)
  | object (fields : List (String × Json))
  deriving Repr, Inhabited

namespace Json

/-- A `dict[str, Any]`. -/
abbrev Object := List (String × Json)

/-- A text, or `None`. -/
def ofText : Option String → Json
  | none => .null
  | some value => .string value

/-- A number, or `None`. -/
def ofNumber : Option Nat → Json
  | none => .null
  | some value => .number value

/-! ## Equality is decided -/

mutual

def decEq : (a b : Json) → Decidable (a = b)
  | .null, b =>
      match b with
      | .null => isTrue rfl
      | .bool _ | .number _ | .string _ | .array _ | .object _ => isFalse Json.noConfusion
  | .bool x, b =>
      match b with
      | .bool y => decidable_of_iff (x = y) (by rw [Json.bool.injEq])
      | .null | .number _ | .string _ | .array _ | .object _ => isFalse Json.noConfusion
  | .number x, b =>
      match b with
      | .number y => decidable_of_iff (x = y) (by rw [Json.number.injEq])
      | .null | .bool _ | .string _ | .array _ | .object _ => isFalse Json.noConfusion
  | .string x, b =>
      match b with
      | .string y => decidable_of_iff (x = y) (by rw [Json.string.injEq])
      | .null | .bool _ | .number _ | .array _ | .object _ => isFalse Json.noConfusion
  | .array xs, b =>
      match b with
      | .array ys =>
          match decEqItems xs ys with
          | isTrue h => isTrue (congrArg Json.array h)
          | isFalse h => isFalse fun heq => h (Json.array.inj heq)
      | .null | .bool _ | .number _ | .string _ | .object _ => isFalse Json.noConfusion
  | .object xs, b =>
      match b with
      | .object ys =>
          match decEqFields xs ys with
          | isTrue h => isTrue (congrArg Json.object h)
          | isFalse h => isFalse fun heq => h (Json.object.inj heq)
      | .null | .bool _ | .number _ | .string _ | .array _ => isFalse Json.noConfusion

def decEqItems : (xs ys : List Json) → Decidable (xs = ys)
  | [], [] => isTrue rfl
  | [], y :: ys => isFalse (List.cons_ne_nil y ys).symm
  | x :: xs, [] => isFalse (List.cons_ne_nil x xs)
  | x :: xs, y :: ys =>
      match decEq x y, decEqItems xs ys with
      | isTrue hx, isTrue hxs => isTrue (by rw [hx, hxs])
      | isFalse hx, _ => isFalse fun h => hx (List.cons.inj h).1
      | _, isFalse hxs => isFalse fun h => hxs (List.cons.inj h).2

def decEqFields : (xs ys : List (String × Json)) → Decidable (xs = ys)
  | [], [] => isTrue rfl
  | [], y :: ys => isFalse (List.cons_ne_nil y ys).symm
  | x :: xs, [] => isFalse (List.cons_ne_nil x xs)
  | (key, x) :: xs, (key', y) :: ys =>
      match decEq x y, decEqFields xs ys, inferInstanceAs (Decidable (key = key')) with
      | isTrue hx, isTrue hxs, isTrue hkey => isTrue (by rw [hx, hxs, hkey])
      | isFalse hx, _, _ => isFalse fun h => hx (Prod.mk.inj (List.cons.inj h).1).2
      | _, isFalse hxs, _ => isFalse fun h => hxs (List.cons.inj h).2
      | _, _, isFalse hkey => isFalse fun h => hkey (Prod.mk.inj (List.cons.inj h).1).1

end

instance : DecidableEq Json := decEq

example : array [.object [("name", .string "A"), ("affiliation", .null)]] ≠
    array [.object [("name", .string "A"), ("affiliation", .string "B")]] := by decide

end Json
end Huldra
