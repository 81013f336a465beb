import Difflore.Foundation.Text
import Mathlib.Data.Char

/-! # JSON values

The members of an object are in the order of their keys, as a parser keeps them.
-/

namespace Difflore.Foundation

inductive JsonNumber
  | integer (value : Int)
  | float (text : Text)
  deriving DecidableEq

inductive Json
  | null
  | bool (value : Bool)
  | number (value : JsonNumber)
  | string (text : Text)
  | array (items : List Json)
  | object (members : List (Text × Json))

namespace Json

mutual

def beq : Json → Json → Bool
  | null, null => true
  | bool a, bool b => a == b
  | number a, number b => a == b
  | string a, string b => a == b
  | array a, array b => beqItems a b
  | object a, object b => beqMembers a b
  | _, _ => false

def beqItems : List Json → List Json → Bool
  | [], [] => true
  | a :: as, b :: bs => beq a b && beqItems as bs
  | _, _ => false

def beqMembers : List (Text × Json) → List (Text × Json) → Bool
  | [], [] => true
  | (key, a) :: as, (other, b) :: bs => key == other && beq a b && beqMembers as bs
  | _, _ => false

end

mutual

theorem beq_iff : ∀ a b : Json, beq a b = true ↔ a = b
  | null, other => by cases other <;> simp [beq]
  | bool _, other => by cases other <;> simp [beq]
  | number _, other => by cases other <;> simp [beq]
  | string _, other => by cases other <;> simp [beq]
  | array items, other => by cases other <;> simp [beq, beqItems_iff items]
  | object members, other => by cases other <;> simp [beq, beqMembers_iff members]

theorem beqItems_iff : ∀ as bs : List Json, beqItems as bs = true ↔ as = bs
  | [], bs => by cases bs <;> simp [beqItems]
  | a :: as, bs => by cases bs <;> simp [beqItems, beq_iff a, beqItems_iff as]

theorem beqMembers_iff : ∀ as bs : List (Text × Json), beqMembers as bs = true ↔ as = bs
  | [], bs => by cases bs <;> simp [beqMembers]
  | (key, a) :: as, bs => by
    rcases bs with _ | ⟨⟨other, b⟩, bs⟩ <;> simp [beqMembers, beq_iff a, beqMembers_iff as]

end

instance : DecidableEq Json := fun a b => decidable_of_iff _ (beq_iff a b)

def get (key : Text) : Json → Option Json
  | object members => (members.find? fun member => member.1 = key).map Prod.snd
  | _ => none

def asStr : Json → Option Text
  | string text => some text
  | _ => none

def asArray : Json → Option (List Json)
  | array items => some items
  | _ => none

end Json

/-- A JSON file, as it is read: a broken one has the error of its reader. -/
inductive JsonFile (Object : Type)
  | missing
  | broken (err : Text)
  | config (config : Object)

def loadJsonObject {Object : Type} [EmptyCollection Object] : JsonFile Object → Except Text Object
  | .missing => .ok ∅
  | .broken err => .error err
  | .config config => .ok config

end Difflore.Foundation
