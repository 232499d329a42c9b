import Glider.Lib.Decimal

namespace Glider.Lib

-- A parsed JSON document. A number is kept as it was written; of two members with one key the first
-- counts.
inductive Json where
  | null
  | bool (b : Bool)
  | number (text : Bytes)
  | string (s : Bytes)
  | array (items : List Json)
  | object (members : List (Bytes × Json))

namespace Json

open Bytes (ascii)

def typeName : Json → Bytes
  | null => ascii "null"
  | bool _ => ascii "boolean"
  | number _ => ascii "number"
  | string _ => ascii "string"
  | array _ => ascii "array"
  | object _ => ascii "object"

def find (j : Json) (key : Bytes) : Option Json :=
  match j with
  | object members => (members.find? fun m => m.1 = key).map Prod.snd
  | _ => none

def contains (j : Json) (key : Bytes) : Bool := (j.find key).isSome

def isObject : Json → Bool
  | object _ => true
  | _ => false

def string? : Json → Option Bytes
  | string s => some s
  | _ => none

def array? : Json → Option (List Json)
  | array items => some items
  | _ => none

-- Only containers and `null` can be empty.
def empty : Json → Bool
  | null => true
  | array items => items.isEmpty
  | object members => members.isEmpty
  | _ => false

-- The checked accesses throw; what is kept of the exception is its text.
def at? (j : Json) (key : Bytes) : Except Bytes Json :=
  match j with
  | object members =>
    match members.find? fun m => m.1 = key with
    | some m => .ok m.2
    | none =>
      .error (ascii "[json.exception.out_of_range.403] key '" ++ key ++ ascii "' not found")
  | _ => .error (ascii "[json.exception.type_error.304] cannot use at() with " ++ j.typeName)

def getString (j : Json) : Except Bytes Bytes :=
  match j with
  | string s => .ok s
  | _ =>
    .error (ascii "[json.exception.type_error.302] type must be string, but is " ++ j.typeName)

def getStrings : List Json → Except Bytes (List Bytes)
  | [] => .ok []
  | j :: rest => do
      let s ← j.getString
      let tail ← getStrings rest
      return s :: tail

-- `value` with a default text.
def valueString (j : Json) (key default : Bytes) : Except Bytes Bytes :=
  match j with
  | object members =>
    match members.find? fun m => m.1 = key with
    | some m => m.2.getString
    | none => .ok default
  | _ => .error (ascii "[json.exception.type_error.306] cannot use value() with " ++ j.typeName)

-- `at(key).get<std::string>()`.
def atString (j : Json) (key : Bytes) : Except Bytes Bytes := do
  let value ← j.at? key
  value.getString

def getBool (j : Json) : Except Bytes Bool :=
  match j with
  | bool b => .ok b
  | _ =>
    .error (ascii "[json.exception.type_error.302] type must be boolean, but is " ++ j.typeName)

-- A number type is read from a number or from a boolean; how a text is rounded is left open.
def getNumber {α : Type*} (ofText : Bytes → α) (ofBool : Bool → α) (j : Json) : Except Bytes α :=
  match j with
  | number text => .ok (ofText text)
  | bool b => .ok (ofBool b)
  | _ =>
    .error (ascii "[json.exception.type_error.302] type must be number, but is " ++ j.typeName)

-- `value` with a default of any type.
def value {α : Type*} (j : Json) (key : Bytes) (default : α) (get : Json → Except Bytes α) :
    Except Bytes α :=
  match j with
  | object members =>
    match members.find? fun m => m.1 = key with
    | some m => get m.2
    | none => .ok default
  | _ => .error (ascii "[json.exception.type_error.306] cannot use value() with " ++ j.typeName)

-- What a loop over a value runs through.
def items : Json → List Json
  | null => []
  | array items => items
  | object members => members.map Prod.snd
  | j => [j]

theorem toOption_at? (j : Json) (key : Bytes) : (j.at? key).toOption = j.find key := by
  cases j with
  | object members =>
    simp only [at?, find]
    cases members.find? fun m => m.1 = key with
    | none | some m => rfl
  | null | bool b | number text | string s | array items => rfl

theorem toOption_getString (j : Json) : j.getString.toOption = j.string? := by
  cases j with
  | string s | null | bool b | number text | array items | object members => rfl

-- A member that is a text.
def text? (j : Json) (key : Bytes) : Option Bytes := (j.find key).bind string?

theorem toOption_atString (j : Json) (key : Bytes) : (j.atString key).toOption = j.text? key := by
  rw [text?, ← toOption_at?, atString]
  cases j.at? key with
  | error what => rfl
  | ok value => exact value.toOption_getString

theorem text?_of_valueString {j : Json} {key default s : Bytes}
    (h : j.valueString key default = .ok s) : (j.text? key).getD default = s := by
  cases j with
  | object members =>
    simp only [valueString] at h
    simp only [text?, find]
    cases hfind : members.find? fun m => m.1 = key with
    | none =>
      rw [hfind] at h
      exact Except.ok.inj h
    | some m =>
      have hget : m.2.getString = .ok s := by simpa [hfind] using h
      have hstring : m.2.string? = some s := by
        rw [← toOption_getString, hget]
        rfl
      simp [hstring]
  | null | bool b | number text | string s | array items => cases h

mutual

def beq : Json → Json → Bool
  | .null, .null => true
  | .bool a, .bool b => a == b
  | .number a, .number b => a == b
  | .string a, .string b => a == b
  | .array a, .array b => beqItems a b
  | .object a, .object b => beqMembers a b
  | _, _ => false

def beqItems : List Json → List Json → Bool
  | [], [] => true
  | a :: as, b :: bs => beq a b && beqItems as bs
  | _, _ => false

def beqMembers : List (Bytes × Json) → List (Bytes × Json) → Bool
  | [], [] => true
  | (k, a) :: as, (l, b) :: bs => k == l && beq a b && beqMembers as bs
  | _, _ => false

end

mutual

theorem beq_iff : ∀ a b : Json, beq a b = true ↔ a = b
  | .null, b => by cases b <;> simp [beq]
  | .bool a, b => by cases b <;> simp [beq]
  | .number a, b => by cases b <;> simp [beq]
  | .string a, b => by cases b <;> simp [beq]
  | .array a, b => by cases b <;> simp [beq, beqItems_iff a]
  | .object a, b => by cases b <;> simp [beq, beqMembers_iff a]

theorem beqItems_iff : ∀ as bs : List Json, beqItems as bs = true ↔ as = bs
  | [], bs => by cases bs <;> simp [beqItems]
  | a :: as, bs => by cases bs <;> simp [beqItems, beq_iff a, beqItems_iff as]

theorem beqMembers_iff : ∀ as bs : List (Bytes × Json), beqMembers as bs = true ↔ as = bs
  | [], bs => by cases bs <;> simp [beqMembers]
  | (k, a) :: as, bs => by
      cases bs <;> simp [beqMembers, beq_iff a, beqMembers_iff as, Prod.ext_iff]

end

instance : DecidableEq Json := fun a b => decidable_of_iff (beq a b = true) (beq_iff a b)

end Json

namespace Decimal

-- A text that is an integer of any size and nothing else.
def whole? (s : Bytes) : Option ℤ :=
  let unsigned := if s.head? = some 45 then s.tail else s
  let value : ℤ := unsigned.foldl (fun n d => 10 * n + (d.toNat - 48)) 0
  if unsigned ≠ [] ∧ ∀ b ∈ unsigned, isDigit b = true then
    some (if s.head? = some 45 then -value else value)
  else none

theorem whole?_ofInt (n : ℤ) : whole? (ofInt n) = some n := by
  unfold whole?
  by_cases hneg : n < 0
  · have hsigned : ofInt n = 45 :: digits n.natAbs := if_pos hneg
    rw [hsigned]
    simp only [List.head?_cons, if_true, List.tail_cons, value_digits]
    rw [if_pos ⟨digits_ne_nil _, isDigit_digits _⟩]
    congr 1
    omega
  · have hunsigned : ofInt n = digits n.natAbs := if_neg hneg
    rw [hunsigned]
    simp only [head?_digits_ne (.inl rfl), if_false, value_digits]
    rw [if_pos ⟨digits_ne_nil _, isDigit_digits _⟩]
    congr 1
    omega

end Decimal

namespace Json

def ofInteger (n : ℤ) : Json := number (Decimal.ofInt n)

-- The number as a text is cast: `floating` is what a cast makes of one that is no integer.
def castNumber (floating : Bytes → ℤ) (text : Bytes) : ℤ :=
  (Decimal.whole? text).getD (floating text)

@[simp] theorem castNumber_ofInt (floating : Bytes → ℤ) (n : ℤ) :
    castNumber floating (Decimal.ofInt n) = n := by
  rw [castNumber, Decimal.whole?_ofInt]
  rfl

-- The member of a key where there may be none.
def optional (key : Bytes) (value : Option Json) : List (Bytes × Json) :=
  value.toList.map fun v => (key, v)

theorem find_cons (m : Bytes × Json) (l : List (Bytes × Json)) (key : Bytes) :
    (object (m :: l)).find key = if m.1 = key then some m.2 else (object l).find key := by
  by_cases h : m.1 = key <;> simp [find, h]

theorem find_append (l l' : List (Bytes × Json)) (key : Bytes) :
    (object (l ++ l')).find key = ((object l).find key).or ((object l').find key) := by
  simp only [find, List.find?_append]
  cases l.find? fun m => m.1 = key with
  | none | some m => rfl

theorem find_optional (key key' : Bytes) (value : Option Json) :
    (object (optional key value)).find key' = if key = key' then value else none := by
  cases value with
  | none => simp [optional, find]
  | some v => by_cases h : key = key' <;> simp [optional, find, h]

end Json

end Glider.Lib
