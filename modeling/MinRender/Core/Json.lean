import Mathlib.Algebra.Group.Int.Defs
import Mathlib.Algebra.Group.Nat.Defs
import Mathlib.Data.Rat.Defs

/-!
# JSON values and typed reads

The JSON values the application exchanges, and the reads it makes of them:
`contains`, `value(key, default)`, `get<T>()` and `at(key).get_to(field)`. A
read that raises is an error value here. Text and values are related by a
`JsonText`, whose parser and printer stand for the JSON library.
-/

namespace MinRender

/-- A JSON value. Integers cover the signed and the unsigned kind. -/
inductive Json
  | null
  | bool (b : Bool)
  | int (n : Int)
  | float (q : Rat)
  | str (s : String)
  | arr (xs : List Json)
  | obj (fields : List (String × Json))

/-- What a typed read raises: the receiver is no object, or the stored value
has an incompatible type. -/
inductive JsonError
  | notAnObject
  | typeMismatch
deriving DecidableEq, Repr

/-- The JSON library: `parse` is `none` where it raises a parse error, and
`what` is the text of what reading an unusable text raises. -/
structure JsonText where
  parse : String → Option Json
  dump : Json → String
  what : String → String := fun _ => ""

/-- `static_cast` to a signed integer of `bits` bits. -/
def toSigned (bits : Nat) (n : Int) : Int := n.bmod (2 ^ bits)

/-- `static_cast` to an unsigned integer of `bits` bits. -/
def toUnsigned (bits : Nat) (n : Int) : Int := n % 2 ^ bits

namespace Json

/-- The value under a key; a value that is no object has none. -/
def find? : Json → String → Option Json
  | .obj fields, key => fields.lookup key
  | _, _ => none

def contains (j : Json) (key : String) : Bool := (j.find? key).isSome

def isObject : Json → Bool
  | .obj _ => true
  | _ => false

def isString : Json → Bool
  | .str _ => true
  | _ => false

def isNumber : Json → Bool
  | .int _ | .float _ => true
  | _ => false

def isBool : Json → Bool
  | .bool _ => true
  | _ => false

/-- `get<std::string>()`. -/
def getString : Json → Except JsonError String
  | .str s => .ok s
  | _ => .error .typeMismatch

/-- `get<bool>()`. -/
def getBool : Json → Except JsonError Bool
  | .bool b => .ok b
  | _ => .error .typeMismatch

/-- The number a value converts to: floats are truncated, and only the
conversions that go through the generic arithmetic reader take a boolean. -/
def number? (boolean : Bool) : Json → Option Int
  | .int n => some n
  | .float q => some (q.num.tdiv q.den)
  | .bool b => if boolean then some (if b then 1 else 0) else none
  | _ => none

/-- `get<int>()`. -/
def getInt (j : Json) : Except JsonError Int :=
  match j.number? true with
  | some n => .ok (toSigned 32 n)
  | none => .error .typeMismatch

/-- `get<uint16_t>()`. -/
def getUInt16 (j : Json) : Except JsonError Int :=
  match j.number? true with
  | some n => .ok (toUnsigned 16 n)
  | none => .error .typeMismatch

/-- `get<int64_t>()`: the library's own integer type, which takes no
boolean. -/
def getInt64 (j : Json) : Except JsonError Int :=
  match j.number? false with
  | some n => .ok (toSigned 64 n)
  | none => .error .typeMismatch

/-- `get<uint64_t>()`, the library's own unsigned type. -/
def getUInt64 (j : Json) : Except JsonError Int :=
  match j.number? false with
  | some n => .ok (toUnsigned 64 n)
  | none => .error .typeMismatch

/-- `get<std::vector<T>>()`. -/
def getArray {α : Type} (get : Json → Except JsonError α) :
    Json → Except JsonError (List α)
  | .arr xs => xs.mapM get
  | _ => .error .typeMismatch

/-- `get<std::map<std::string, std::string>>()`. -/
def getStringMap : Json → Except JsonError (List (String × String))
  | .obj fields => fields.mapM fun kv => do
      let v ← kv.2.getString
      pure (kv.1, v)
  | _ => .error .typeMismatch

/-- `j.value(key, fallback)`. -/
def value {α : Type} (get : Json → Except JsonError α) (key : String)
    (fallback : α) : Json → Except JsonError α
  | .obj fields =>
      match fields.lookup key with
      | some v => get v
      | none => .ok fallback
  | _ => .error .notAnObject

/-- `if (j.contains(key)) j.at(key).get_to(field)`. -/
def field {α : Type} (get : Json → Except JsonError α) (key : String)
    (fallback : α) (j : Json) : Except JsonError α :=
  match j.find? key with
  | some v => get v
  | none => .ok fallback

/-- `field` for an optional member, which a JSON null leaves empty. -/
def optField {α : Type} (get : Json → Except JsonError α) (key : String)
    (j : Json) : Except JsonError (Option α) :=
  match j.find? key with
  | some .null | none => .ok none
  | some v => some <$> get v

/-! ## When a read raises -/

/-- The read returned a value. -/
def Returns {α : Type} (r : Except JsonError α) : Prop := r.isOk = true

instance {α : Type} (r : Except JsonError α) : Decidable (Returns r) :=
  inferInstanceAs (Decidable (r.isOk = true))

@[simp] theorem returns_ok {α : Type} (a : α) :
    Returns (.ok a : Except JsonError α) := rfl

@[simp] theorem not_returns_error {α : Type} (e : JsonError) :
    ¬ Returns (.error e : Except JsonError α) := by
  simp [Returns, Except.isOk, Except.toBool]

theorem returns_iff {α : Type} {r : Except JsonError α} :
    Returns r ↔ ∃ a, r = .ok a := by
  cases r with
  | ok a => simp
  | error e => simp

/-- The value under `key`, if there is one, satisfies `p`. -/
def Fits (p : Json → Bool) (key : String) (j : Json) : Prop :=
  ∀ v, j.find? key = some v → p v = true

/-- The types `get<std::string>()` accepts under a key. -/
abbrev StringAt (key : String) (j : Json) : Prop := Fits isString key j

/-- The types `get<int>()` and `get<uint16_t>()` accept under a key. -/
abbrev IntAt (key : String) (j : Json) : Prop :=
  Fits (fun v => v.isNumber || v.isBool) key j

/-- The types `get<int64_t>()` accepts under a key. -/
abbrev NumberAt (key : String) (j : Json) : Prop := Fits isNumber key j

/-- The types `get<bool>()` accepts under a key. -/
abbrev BoolAt (key : String) (j : Json) : Prop := Fits isBool key j

@[simp] theorem returns_getString {j : Json} :
    Returns j.getString ↔ j.isString = true := by
  cases j <;> simp [getString, isString]

@[simp] theorem returns_getBool {j : Json} :
    Returns j.getBool ↔ j.isBool = true := by
  cases j <;> simp [getBool, isBool]

@[simp] theorem returns_getInt {j : Json} :
    Returns j.getInt ↔ (j.isNumber || j.isBool) = true := by
  cases j <;> simp [getInt, number?, isNumber, isBool]

@[simp] theorem returns_getUInt16 {j : Json} :
    Returns j.getUInt16 ↔ (j.isNumber || j.isBool) = true := by
  cases j <;> simp [getUInt16, number?, isNumber, isBool]

@[simp] theorem returns_getInt64 {j : Json} :
    Returns j.getInt64 ↔ j.isNumber = true := by
  cases j <;> simp [getInt64, number?, isNumber]

/-- **When `value` returns.** The receiver is an object, and what it stores
under the key, if anything, has a type the conversion accepts. -/
theorem returns_value {α : Type} {get : Json → Except JsonError α}
    {p : Json → Bool} (hget : ∀ v, Returns (get v) ↔ p v = true)
    {key : String} {fallback : α} {j : Json} :
    Returns (j.value get key fallback) ↔ j.isObject = true ∧ Fits p key j := by
  cases j with
  | obj fields =>
      simp only [value, isObject, Fits, find?]
      cases hl : fields.lookup key with
      | none => simp
      | some v => simp [hget]
  | _ => simp [value, isObject]

/-- What a read gives, the fallback where it raises. -/
def readOr {α : Type} (get : Json → Except JsonError α) (key : String)
    (fallback : α) (j : Json) : α :=
  (j.value get key fallback).toOption.getD fallback

theorem readOr_of_eq_ok {α : Type} {get : Json → Except JsonError α} {key : String}
    {fallback a : α} {j : Json} (h : j.value get key fallback = .ok a) :
    j.readOr get key fallback = a := by
  simp [readOr, h, Except.toOption]

/-- A sequence of reads gives a value through the value of the first. -/
theorem bind_eq_ok {α β : Type} {r : Except JsonError α}
    {f : α → Except JsonError β} {b : β} :
    (r >>= f) = .ok b ↔ ∃ a, r = .ok a ∧ f a = .ok b := by
  cases r with
  | ok a => simp [bind, Except.bind]
  | error e => simp [bind, Except.bind]

/-- A sequence of reads returns when the first does and the rest then does. -/
theorem returns_bind {α β : Type} {r : Except JsonError α}
    {f : α → Except JsonError β} :
    Returns (r >>= f) ↔ ∃ a, r = .ok a ∧ Returns (f a) := by
  cases r with
  | ok a => simp [bind, Except.bind]
  | error e => simp [bind, Except.bind]

/-- `returns_bind` for a read: the rest goes on with what the read gives. -/
theorem returns_value_bind {α β : Type} {get : Json → Except JsonError α}
    {p : Json → Bool} (hget : ∀ v, Returns (get v) ↔ p v = true) {key : String}
    {fallback : α} {j : Json} (hobj : j.isObject = true)
    {f : α → Except JsonError β} :
    Returns (j.value get key fallback >>= f) ↔
      Fits p key j ∧ Returns (f (j.readOr get key fallback)) := by
  have hread : Returns (j.value get key fallback) ↔ j.isObject = true ∧ Fits p key j :=
    returns_value hget
  unfold readOr
  cases hr : j.value get key fallback with
  | ok a =>
      rw [hr] at hread
      simp [bind, Except.bind, Except.toOption, (hread.mp (returns_ok a)).2]
  | error e =>
      rw [hr] at hread
      have hfits : ¬ Fits p key j := fun hp => not_returns_error e (hread.mpr ⟨hobj, hp⟩)
      simp [bind, Except.bind, hfits]

end Json

end MinRender
