import Glider.Lib.Json
import Mathlib.Data.UInt

namespace Glider.Llm.LMStudioApi

open Glider.Lib
open Bytes (ascii)
open Json (ofInteger castNumber optional find_cons find_append find_optional)

-- Why a value was not read: an exception of the library, or `operator[]` of a constant object that
-- lacks the key, whose behaviour is undefined.
inductive Failure where
  | thrown (what : Bytes)
  | undefined
  deriving DecidableEq

abbrev Read := Except Failure

def ofLibrary {α : Type} (x : Except Bytes α) : Read α := x.mapError Failure.thrown

-- `if (j.contains(key)) j.at(key).get_to(p)`, and the form that also leaves `p` at a null.
def getTo {α : Type} (get : Json → α → Read α) (j : Json) (key : String) (p : α) : Read α :=
  match j.find (ascii key) with
  | some v => get v p
  | none => .ok p

def getToUnlessNull {α : Type} (get : Json → α → Read α) (j : Json) (key : String) (p : α) :
    Read α :=
  match j.find (ascii key) with
  | none | some .null => .ok p
  | some v => get v p

-- A fresh value of the type is read and stored.
def fresh {α : Type} (get : Json → Read α) (v : Json) (_ : α) : Read α := get v

def getOptional {α : Type} (get : Json → Read α) : Json → Read (Option α)
  | .null => .ok none
  | v => some <$> get v

def getItems {α : Type} (get : Json → Read α) : List Json → Read (List α)
  | [] => .ok []
  | v :: rest => do
      let item ← get v
      let items ← getItems get rest
      return item :: items

def getVector {α : Type} (get : Json → Read α) : Json → Read (List α)
  | .array items => getItems get items
  | v =>
    .error (.thrown (ascii "[json.exception.type_error.302] type must be array, but is " ++
      v.typeName))

-- The texts of an enumeration; a text that is none of them is read as the first.
def getEnum {α : Type} (first : α) (texts : List (α × Bytes)) (v : Json) : Read α :=
  .ok (((texts.find? fun t => v = .string t.2).map Prod.fst).getD first)

inductive LLMType where
  | llm
  | embedding
  deriving DecidableEq

def LLMType.text : LLMType → Bytes
  | llm => ascii "llm"
  | embedding => ascii "embedding"

inductive LLMFormat where
  | gguf
  | mlx
  deriving DecidableEq

def LLMFormat.text : LLMFormat → Bytes
  | gguf => ascii "gguf"
  | mlx => ascii "mlx"

structure Quantization where
  name : Bytes
  bits_per_weight : Int32

structure Config where
  context_length : Int64
  eval_batch_size : Option Int32
  flash_attention : Option Bool
  num_experts : Option Int32
  offload_kv_cache_to_gpu : Option Bool

structure LoadedInstance where
  id : Bytes
  config : Config

structure Capabilities where
  vision : Bool
  trained_for_tool_use : Bool

@[ext] structure Model where
  type : LLMType
  publisher : Bytes
  key : Bytes
  display_name : Bytes
  architecture : Option Bytes
  quantization : Quantization
  size_bytes : UInt64
  params_string : Bytes
  loaded_instances : List LoadedInstance
  max_context_length : Int32
  format : LLMFormat
  capabilities : Option Capabilities
  description : Option Bytes

-- What `get` reads into.
def Quantization.zero : Quantization := ⟨[], 0⟩

def Config.zero : Config := ⟨0, none, none, none, none⟩

def LoadedInstance.zero : LoadedInstance := ⟨[], Config.zero⟩

def Model.zero : Model :=
  ⟨.llm, [], [], [], none, Quantization.zero, 0, [], [], 0, .gguf, none, none⟩

section ToJson

def ofInt32 (n : Int32) : Json := ofInteger n.toInt

def Quantization.to_json (p : Quantization) : Json :=
  .object [(ascii "name", .string p.name), (ascii "bits_per_weight", ofInt32 p.bits_per_weight)]

def Capabilities.to_json (p : Capabilities) : Json :=
  .object [(ascii "vision", .bool p.vision),
    (ascii "trained_for_tool_use", .bool p.trained_for_tool_use)]

def Config.to_json (p : Config) : Json :=
  .object ([(ascii "context_length", ofInteger p.context_length.toInt)] ++
    optional (ascii "eval_batch_size") (p.eval_batch_size.map ofInt32) ++
    optional (ascii "flash_attention") (p.flash_attention.map .bool) ++
    optional (ascii "num_experts") (p.num_experts.map ofInt32) ++
    optional (ascii "offload_kv_cache_to_gpu") (p.offload_kv_cache_to_gpu.map .bool))

def LoadedInstance.to_json (p : LoadedInstance) : Json :=
  .object [(ascii "id", .string p.id), (ascii "config", p.config.to_json)]

def Model.required (p : Model) : List (Bytes × Json) :=
  [(ascii "type", .string p.type.text),
    (ascii "publisher", .string p.publisher),
    (ascii "key", .string p.key),
    (ascii "display_name", .string p.display_name),
    (ascii "quantization", p.quantization.to_json),
    (ascii "size_bytes", ofInteger p.size_bytes.toNat),
    (ascii "params_string", .string p.params_string),
    (ascii "loaded_instances", .array (p.loaded_instances.map LoadedInstance.to_json)),
    (ascii "max_context_length", ofInt32 p.max_context_length),
    (ascii "format", .string p.format.text)]

def Model.to_json (p : Model) : Json :=
  .object (p.required ++ optional (ascii "architecture") (p.architecture.map .string) ++
    optional (ascii "capabilities") (p.capabilities.map Capabilities.to_json) ++
    optional (ascii "description") (p.description.map .string))

end ToJson

section FromJson

variable (floating : Bytes → ℤ)

def getString (v : Json) : Read Bytes := ofLibrary v.getString

def getBool (v : Json) : Read Bool := ofLibrary v.getBool

-- `static_cast<int>` keeps the value modulo `2 ^ 32`.
def getInt (v : Json) : Read Int32 :=
  ofLibrary (v.getNumber (fun text => .ofInt (castNumber floating text)) fun b => if b then 1 else 0)

-- The library's own integer type is not read from a boolean.
def getInt64 (v : Json) : Read Int64 :=
  match v with
  | .number text => .ok (.ofInt (castNumber floating text))
  | v =>
    .error (.thrown (ascii "[json.exception.type_error.302] type must be number, but is " ++
      v.typeName))

def value {α : Type} (get : Json → Read α) (j : Json) (key : String) (default : α) : Read α :=
  match j with
  | .object _ =>
    match j.find (ascii key) with
    | some v => get v
    | none => .ok default
  | _ =>
    .error (.thrown (ascii "[json.exception.type_error.306] cannot use value() with " ++
      j.typeName))

-- `j[key]` of a constant value.
def subscript (j : Json) (key : String) : Read Json :=
  match j with
  | .object _ =>
    match j.find (ascii key) with
    | some v => .ok v
    | none => .error .undefined
  | _ =>
    .error (.thrown
      (ascii "[json.exception.type_error.305] cannot use operator[] with a string argument with " ++
        j.typeName))

def LLMType.from_json (v : Json) : Read LLMType :=
  getEnum .llm [(.llm, LLMType.llm.text), (.embedding, LLMType.embedding.text)] v

def LLMFormat.from_json (v : Json) : Read LLMFormat :=
  getEnum .gguf [(.gguf, LLMFormat.gguf.text), (.mlx, LLMFormat.mlx.text)] v

def Quantization.from_json (j : Json) (p : Quantization) : Read Quantization := do
  let name ← getToUnlessNull (fresh getString) j "name" p.name
  let bits_per_weight ←
    getToUnlessNull (fresh (getInt floating)) j "bits_per_weight" p.bits_per_weight
  return ⟨name, bits_per_weight⟩

def Capabilities.from_json (j : Json) : Read Capabilities := do
  let vision ← value getBool j "vision" false
  let trained_for_tool_use ← value getBool j "trained_for_tool_use" false
  return ⟨vision, trained_for_tool_use⟩

def Config.from_json (j : Json) (p : Config) : Read Config := do
  let context_length ← getTo (fresh (getInt64 floating)) j "context_length" p.context_length
  let eval_batch_size ←
    getTo (fresh (getOptional (getInt floating))) j "eval_batch_size" p.eval_batch_size
  let flash_attention ← getTo (fresh (getOptional getBool)) j "flash_attention" p.flash_attention
  let num_experts ← getTo (fresh (getOptional (getInt floating))) j "num_experts" p.num_experts
  let offload_kv_cache_to_gpu ←
    getTo (fresh (getOptional getBool)) j "offload_kv_cache_to_gpu" p.offload_kv_cache_to_gpu
  return ⟨context_length, eval_batch_size, flash_attention, num_experts, offload_kv_cache_to_gpu⟩

def LoadedInstance.from_json (j : Json) (p : LoadedInstance) : Read LoadedInstance := do
  let id ← getTo (fresh getString) j "id" p.id
  let config ← getTo (Config.from_json floating) j "config" p.config
  return ⟨id, config⟩

-- `j.value("size_bytes", 0)` is an `int`, which is then made a `size_t`.
def sizeBytes (n : Int32) : UInt64 := n.toInt64.toUInt64

def Model.from_json (j : Json) (p : Model) : Read Model := do
  let type ← getTo (fresh LLMType.from_json) j "type" p.type
  let publisher ← getTo (fresh getString) j "publisher" p.publisher
  let key ← getTo (fresh getString) j "key" p.key
  let display_name ← getTo (fresh getString) j "display_name" p.display_name
  let quantization ←
    getToUnlessNull (Quantization.from_json floating) j "quantization" p.quantization
  let loaded_instances ←
    getTo (fresh (getVector fun v => LoadedInstance.from_json floating v LoadedInstance.zero)) j
      "loaded_instances" p.loaded_instances
  let size_bytes ← sizeBytes <$> value (getInt floating) j "size_bytes" 0
  let params ← subscript j "params_string"
  let params_string ←
    if params = .null then .ok p.params_string else value getString j "params_string" []
  let max_context_length ← value (getInt floating) j "max_context_length" 0
  let format ← getToUnlessNull (fresh LLMFormat.from_json) j "format" p.format
  let architecture ←
    getToUnlessNull (fresh (getOptional getString)) j "architecture" p.architecture
  let capabilities ←
    getTo (fresh (getOptional Capabilities.from_json)) j "capabilities" p.capabilities
  let description ← getTo (fresh (getOptional getString)) j "description" p.description
  return ⟨type, publisher, key, display_name, architecture, quantization, size_bytes,
    params_string, loaded_instances, max_context_length, format, capabilities, description⟩

-- `j.get<Model>()`.
def Model.get (j : Json) : Read Model := Model.from_json floating j Model.zero

end FromJson

section RoundTrip

variable {floating : Bytes → ℤ} {α : Type}

theorem getTo_of_find {get : Json → α → Read α} {j v : Json} {key : String} {p : α}
    (h : j.find (ascii key) = some v) : getTo get j key p = get v p := by
  rw [getTo, h]

theorem getTo_of_none {get : Json → α → Read α} {j : Json} {key : String} {p : α}
    (h : j.find (ascii key) = none) : getTo get j key p = .ok p := by
  rw [getTo, h]

theorem getToUnlessNull_of_find {get : Json → α → Read α} {j v : Json} {key : String} {p : α}
    (h : j.find (ascii key) = some v) (hv : v ≠ .null) : getToUnlessNull get j key p = get v p := by
  rw [getToUnlessNull, h]
  cases v with
  | null => exact absurd rfl hv
  | _ => rfl

theorem getInt_ofInt32 (n : Int32) : getInt floating (ofInt32 n) = .ok n := by
  simp [getInt, ofInt32, ofInteger, Json.getNumber, ofLibrary, Except.mapError, Int32.ofInt_toInt]

theorem getInt64_ofInteger (n : Int64) : getInt64 floating (ofInteger n.toInt) = .ok n := by
  simp [getInt64, ofInteger, Int64.ofInt_toInt]

theorem Quantization.from_json_to_json (q p : Quantization) :
    Quantization.from_json floating q.to_json p = .ok q := by
  have hname : q.to_json.find (ascii "name") = some (.string q.name) := rfl
  have hbits : q.to_json.find (ascii "bits_per_weight") = some (ofInt32 q.bits_per_weight) := rfl
  rw [from_json, getToUnlessNull_of_find hname (by simp),
    getToUnlessNull_of_find hbits (by simp [ofInt32, ofInteger])]
  simp only [fresh, getInt_ofInt32]
  rfl

theorem Capabilities.from_json_to_json (c : Capabilities) :
    Capabilities.from_json c.to_json = .ok c := rfl

theorem getOptional_map {get : Json → Read α} {toJson : α → Json}
    (hget : ∀ a, get (toJson a) = .ok a) (hnull : ∀ a, toJson a ≠ .null) (a : α) :
    getOptional get (toJson a) = .ok (some a) := by
  have hsome : ∀ v : Json, v ≠ .null → getOptional get v = some <$> get v := by
    intro v hv
    cases v with
    | null => exact absurd rfl hv
    | _ => rfl
  rw [hsome _ (hnull a), hget]
  rfl

-- A member that was written only where there is a value is read back as it was.
theorem getTo_optional {get : Json → Read α} {toJson : α → Json}
    (hget : ∀ a, get (toJson a) = .ok a) (hnull : ∀ a, toJson a ≠ .null) {j : Json} {key : String}
    {v : Option α} (h : j.find (ascii key) = v.map toJson) :
    getTo (fresh (getOptional get)) j key none = .ok v := by
  cases v with
  | none => exact getTo_of_none h
  | some a =>
    rw [getTo_of_find h]
    exact getOptional_map hget hnull a

theorem getToUnlessNull_optional {get : Json → Read α} {toJson : α → Json}
    (hget : ∀ a, get (toJson a) = .ok a) (hnull : ∀ a, toJson a ≠ .null) {j : Json} {key : String}
    {v : Option α} (h : j.find (ascii key) = v.map toJson) :
    getToUnlessNull (fresh (getOptional get)) j key none = .ok v := by
  cases v with
  | none => rw [getToUnlessNull, h]; rfl
  | some a =>
    rw [getToUnlessNull_of_find h (hnull a)]
    exact getOptional_map hget hnull a

theorem Config.from_json_to_json (c : Config) :
    Config.from_json floating c.to_json Config.zero = .ok c := by
  have hlength : c.to_json.find (ascii "context_length") =
      some (ofInteger c.context_length.toInt) := rfl
  have hbatch : c.to_json.find (ascii "eval_batch_size") = c.eval_batch_size.map ofInt32 := by
    simp +decide [to_json, find_append, find_optional, find_cons]
  have hflash : c.to_json.find (ascii "flash_attention") = c.flash_attention.map .bool := by
    simp +decide [to_json, find_append, find_optional, find_cons]
  have hexperts : c.to_json.find (ascii "num_experts") = c.num_experts.map ofInt32 := by
    simp +decide [to_json, find_append, find_optional, find_cons]
  have hoffload : c.to_json.find (ascii "offload_kv_cache_to_gpu") =
      c.offload_kv_cache_to_gpu.map .bool := by
    simp +decide [to_json, find_append, find_optional, find_cons]
  have hint : ∀ n : Int32, ofInt32 n ≠ .null := by simp [ofInt32, ofInteger]
  have hbool : ∀ b : Bool, getBool (.bool b) = .ok b := fun _ => rfl
  simp only [from_json, zero, getTo_of_find hlength, fresh, getInt64_ofInteger,
    getTo_optional getInt_ofInt32 hint hbatch, getTo_optional getInt_ofInt32 hint hexperts,
    getTo_optional hbool (by simp) hflash, getTo_optional hbool (by simp) hoffload]
  rfl

theorem LoadedInstance.from_json_to_json (l : LoadedInstance) :
    LoadedInstance.from_json floating l.to_json LoadedInstance.zero = .ok l := by
  have hid : l.to_json.find (ascii "id") = some (.string l.id) := rfl
  have hconfig : l.to_json.find (ascii "config") = some l.config.to_json := rfl
  rw [from_json, getTo_of_find hid, getTo_of_find hconfig]
  simp only [zero, Config.from_json_to_json]
  rfl

theorem getItems_map {get : Json → Read α} {toJson : α → Json}
    (hget : ∀ a, get (toJson a) = .ok a) (l : List α) : getItems get (l.map toJson) = .ok l := by
  induction l with
  | nil => rfl
  | cons a l ih =>
    rw [List.map_cons, getItems, hget, ih]
    rfl

theorem LLMType.from_json_text (t : LLMType) : LLMType.from_json (.string t.text) = .ok t := by
  cases t <;> decide

theorem LLMFormat.from_json_text (f : LLMFormat) :
    LLMFormat.from_json (.string f.text) = .ok f := by
  cases f <;> decide

theorem Capabilities.to_json_ne_null (c : Capabilities) : c.to_json ≠ .null := by simp [to_json]

theorem Quantization.to_json_ne_null (q : Quantization) : q.to_json ≠ .null := by simp [to_json]

theorem subscript_of_find {j v : Json} {key : String} (h : j.find (ascii key) = some v) :
    subscript j key = .ok v := by
  cases j with
  | object members => rw [subscript, h]
  | _ => cases h

theorem value_of_find {get : Json → Read α} {j v : Json} {key : String} {p : α}
    (h : j.find (ascii key) = some v) : value get j key p = get v := by
  cases j with
  | object members => rw [value, h]
  | _ => cases h

-- All members come back but the size, which goes through an `int`.
theorem Model.get_to_json (m : Model) :
    Model.get floating m.to_json =
      .ok { m with size_bytes := sizeBytes (.ofInt m.size_bytes.toNat) } := by
  have htype : m.to_json.find (ascii "type") = some (.string m.type.text) := rfl
  have hpublisher : m.to_json.find (ascii "publisher") = some (.string m.publisher) := rfl
  have hkey : m.to_json.find (ascii "key") = some (.string m.key) := rfl
  have hname : m.to_json.find (ascii "display_name") = some (.string m.display_name) := rfl
  have hquantization : m.to_json.find (ascii "quantization") = some m.quantization.to_json := rfl
  have hsize : m.to_json.find (ascii "size_bytes") = some (ofInteger m.size_bytes.toNat) := rfl
  have hparams : m.to_json.find (ascii "params_string") = some (.string m.params_string) := rfl
  have hloaded : m.to_json.find (ascii "loaded_instances") =
      some (.array (m.loaded_instances.map LoadedInstance.to_json)) := rfl
  have hlength : m.to_json.find (ascii "max_context_length") =
      some (ofInt32 m.max_context_length) := rfl
  have hformat : m.to_json.find (ascii "format") = some (.string m.format.text) := rfl
  have harchitecture : m.to_json.find (ascii "architecture") = m.architecture.map .string := by
    simp +decide [to_json, required, find_append, find_optional, find_cons]
  have hcapabilities : m.to_json.find (ascii "capabilities") =
      m.capabilities.map Capabilities.to_json := by
    simp +decide [to_json, required, find_append, find_optional, find_cons]
  have hdescription : m.to_json.find (ascii "description") = m.description.map .string := by
    simp +decide [to_json, required, find_append, find_optional, find_cons]
  have hstring : ∀ s : Bytes, getString (.string s) = .ok s := fun _ => rfl
  have hread : getInt floating (ofInteger m.size_bytes.toNat) =
      .ok (.ofInt m.size_bytes.toNat) := by
    simp [getInt, ofInteger, Json.getNumber, ofLibrary, Except.mapError]
  have hitems : getVector (fun v => LoadedInstance.from_json floating v LoadedInstance.zero)
      (.array (m.loaded_instances.map LoadedInstance.to_json)) = .ok m.loaded_instances :=
    getItems_map LoadedInstance.from_json_to_json m.loaded_instances
  simp only [get, from_json, zero, fresh, getTo_of_find htype, getTo_of_find hpublisher,
    getTo_of_find hkey, getTo_of_find hname, getTo_of_find hloaded,
    getToUnlessNull_of_find hquantization (Quantization.to_json_ne_null _),
    getToUnlessNull_of_find hformat (by simp), value_of_find hsize, value_of_find hparams,
    value_of_find hlength, subscript_of_find hparams, LLMType.from_json_text,
    LLMFormat.from_json_text, Quantization.from_json_to_json, getInt_ofInt32, hstring, hread, hitems,
    getToUnlessNull_optional hstring (by simp) harchitecture,
    getTo_optional Capabilities.from_json_to_json Capabilities.to_json_ne_null hcapabilities,
    getTo_optional hstring (by simp) hdescription]
  rfl

-- The values that an `int` keeps: the small ones, and those that come back by sign extension.
theorem sizeBytes_ofInt (n : UInt64) :
    sizeBytes (.ofInt n.toNat) = n ↔ n.toNat < 2 ^ 31 ∨ 2 ^ 64 - 2 ^ 31 ≤ n.toNat := by
  have hcast : sizeBytes (.ofInt n.toNat) = n ↔ (Int32.ofInt n.toNat).toInt64 = n.toInt64 := by
    constructor
    · intro h
      rw [← Int64.toInt64_toUInt64 (Int32.ofInt n.toNat).toInt64]
      exact congrArg UInt64.toInt64 h
    · intro h
      rw [sizeBytes, h, UInt64.toUInt64_toInt64]
  have hsigned : n.toInt64.toInt = (n.toNat : ℤ).bmod (2 ^ 64) :=
    BitVec.toInt_eq_toNat_bmod n.toBitVec
  have hlt : n.toNat < 2 ^ 64 := n.toNat_lt
  rw [hcast, ← Int64.toInt_inj, Int32.toInt_toInt64, Int32.toInt_ofInt, hsigned, Int32.size]
  simp only [Int.bmod]
  omega

theorem Model.round_trip (m : Model) :
    Model.get floating m.to_json = .ok m ↔
      m.size_bytes.toNat < 2 ^ 31 ∨ 2 ^ 64 - 2 ^ 31 ≤ m.size_bytes.toNat := by
  rw [Model.get_to_json, Except.ok.injEq, ← sizeBytes_ofInt, Model.ext_iff]
  simp

end RoundTrip

def largeModel : Model := { Model.zero with size_bytes := 2 ^ 31 }

theorem largeModel_changes : ¬ ∀ floating m, Model.get floating m.to_json = .ok m := by
  intro h
  have hlarge := h (fun _ => 0) largeModel
  rw [Model.get_to_json, Except.ok.injEq, Model.ext_iff] at hlarge
  exact absurd hlarge.2.2.2.2.2.2.1 (by decide)

end Glider.Llm.LMStudioApi
