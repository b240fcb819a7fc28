import Mathlib.Data.Int.Notation
import Mathlib.Data.UInt

/-!
# What the router checks of a request before it calls a gRPC worker

A gRPC worker is called with a typed message, which the router builds from the JSON body of the
request (`proxy/mod.rs`, lines 131–575). A body that lacks a field, or has one of the wrong type or
out of range, is refused with the status `invalid_argument` and a text, and the worker is not
called. The functions below keep the names of those that build the messages, and check in the same
order. The messages themselves are left out: they go to the worker, and nothing here reads them.

## Main definitions

* `Json`: JSON values.
* `protoNativeGenerateRequestFromJson`, `openaiJsonRequestOptionsFromBody`: requests to generate.
* `protoUpdateWeightsFromDiskRequestFromJson`, `protoUpdateWeightVersionRequestFromJson`,
  `protoGetWeightsByNameRequestFromJson`, `protoAbortRequestFromJson`,
  `protoStartProfileRequestFromJson`: control requests.
-/

namespace SglangRs.Router

/-- A JSON number: an integer, or the bits of a double. -/
inductive JsonNumber where
  | integer (n : ℤ)
  | real (bits : UInt64)
deriving DecidableEq, Repr

inductive Json where
  | null
  | bool (b : Bool)
  | number (n : JsonNumber)
  | string (s : String)
  | array (items : List Json)
  | object (fields : List (String × Json))

/-- The fields of a JSON object. Their names are distinct. -/
abbrev JsonObject := List (String × Json)

namespace Json

def asI64 : Json → Option ℤ
  | number (.integer n) => if -2 ^ 63 ≤ n ∧ n < 2 ^ 63 then some n else none
  | _ => none

def asU64 : Json → Option ℕ
  | number (.integer n) => if 0 ≤ n ∧ n < 2 ^ 64 then some n.toNat else none
  | _ => none

def isNumber : Json → Bool
  | number _ => true
  | _ => false

def asBool : Json → Option Bool
  | bool b => some b
  | _ => none

def asStr : Json → Option String
  | string s => some s
  | _ => none

def asArray : Json → Option (List Json)
  | array items => some items
  | _ => none

def asObject : Json → Option JsonObject
  | object fields => some fields
  | _ => none

/-- A field of a value, if it is an object. -/
def get (value : Json) (field : String) : Option Json := value.asObject.bind (List.lookup field)

end Json

/-- A check, with the text of the status with which it refuses. -/
abbrev Check := Except String Unit

/-- A check of one property. -/
def require (holds : Bool) (message : String) : Check :=
  if holds then .ok () else .error message

/-! ### Fields -/

/-- Source: `proxy/mod.rs`, lines 135–140. -/
def valueAsI32 (value : Json) (field : String) : Check :=
  match value.asI64 with
  | none => .error s!"{field} must be an integer"
  | some raw => require (-2 ^ 31 ≤ raw ∧ raw < 2 ^ 31) s!"{field} is out of i32 range"

/-- Source: `proxy/mod.rs`, lines 142–149. -/
def valueAsU32 (value : Json) (field : String) : Check :=
  match value.asU64 with
  | none => .error s!"{field} must be an unsigned integer"
  | some raw => require (raw < 2 ^ 32) s!"{field} is out of u32 range"

section Optional

variable (object : JsonObject) (field : String)

/-- A field that may be missing. -/
def optionalField (check : Json → Check) : Check :=
  match object.lookup field with
  | none => .ok ()
  | some value => check value

/-- Source: `proxy/mod.rs`, lines 151–159. -/
def optionalI32Field : Check := optionalField object field (valueAsI32 · field)

/-- Source: `proxy/mod.rs`, lines 161–174. -/
def optionalF32Field : Check :=
  optionalField object field (require ·.isNumber s!"{field} must be a number")

/-- Source: `proxy/mod.rs`, lines 176–188. -/
def optionalBoolField : Check :=
  optionalField object field (require ·.asBool.isSome s!"{field} must be a boolean")

/-- Source: `proxy/mod.rs`, lines 190–203. -/
def optionalStringField : Check :=
  optionalField object field (require ·.asStr.isSome s!"{field} must be a string")

end Optional

/-- The items of an array are checked in order. -/
def checkItems (check : Json → Check) : List Json → Check
  | [] => .ok ()
  | item :: items => do
      check item
      checkItems check items

/-! ### Parts of a request -/

/-- Source: `proxy/mod.rs`, lines 226–237. -/
def requestOptionsFromJson (object : JsonObject) : Check := do
  optionalStringField object "request_id"
  optionalBoolField object "stream"
  optionalI32Field object "data_parallel_rank"

/-- Source: `proxy/mod.rs`, lines 249–265. -/
def stopFromJson (object : JsonObject) : Check :=
  match object.lookup "stop" with
  | some (.string _) => .ok ()
  | some (.array items) => checkItems (require ·.asStr.isSome "stop entries must be strings") items
  | some _ => .error "stop must be a string or string array"
  | none => .ok ()

/-- Source: `proxy/mod.rs`, lines 266–273. -/
def stopTokenIdsFromJson (object : JsonObject) : Check :=
  match object.lookup "stop_token_ids" with
  | some (.array items) => checkItems (valueAsU32 · "stop_token_ids") items
  | some _ => .error "stop_token_ids must be an array"
  | none => .ok ()

/-- Source: `proxy/mod.rs`, lines 239–300. -/
def protoSamplingParamsFromJson (payload : JsonObject) : Check :=
  optionalField payload "sampling_params" fun value =>
    match value.asObject with
    | none => .error "sampling_params must be an object"
    | some object => do
        stopFromJson object
        stopTokenIdsFromJson object
        optionalField object "seed" (require ·.asI64.isSome "seed must be an integer")
        optionalI32Field object "max_new_tokens"
        optionalF32Field object "temperature"
        optionalF32Field object "top_p"
        optionalI32Field object "top_k"
        optionalF32Field object "min_p"
        optionalF32Field object "frequency_penalty"
        optionalF32Field object "presence_penalty"
        optionalF32Field object "repetition_penalty"
        optionalI32Field object "stop_token_id"
        optionalI32Field object "n"
        optionalI32Field object "best_of"
        optionalBoolField object "ignore_eos"

/-- The three fields of the bootstrap.

Source: `proxy/mod.rs`, lines 319–331. -/
def bootstrapFromJson (object : JsonObject) : Check := do
  require ((object.lookup "bootstrap_host").bind Json.asStr).isSome
    "bootstrap_host must be a string"
  match object.lookup "bootstrap_port" with
    | none => .error "bootstrap_port is required"
    | some value => valueAsU32 value "bootstrap_port"
  require ((object.lookup "bootstrap_room").bind Json.asU64).isSome
    "bootstrap_room must be an unsigned integer"

/-- The fields stand in the request itself if it has any of them, and else in an object of their
own.

Source: `proxy/mod.rs`, lines 302–338. -/
def protoDisaggregatedParamsFromJson (payload : JsonObject) : Check :=
  if (payload.lookup "bootstrap_host").isSome || (payload.lookup "bootstrap_port").isSome ||
      (payload.lookup "bootstrap_room").isSome then
    bootstrapFromJson payload
  else
    optionalField payload "disaggregated_params" fun value =>
      match value.asObject with
      | none => .error "disaggregated_params must be an object"
      | some object => bootstrapFromJson object

/-! ### Requests -/

section Requests

variable (parseJson : List UInt8 → Except String Json) (body : List UInt8)

/-- The JSON object in a body. The two texts call it by `name` and by `subject`. -/
def bodyObject (name subject : String) : Except String JsonObject :=
  match parseJson body with
  | .error e => .error s!"invalid {name} JSON: {e}"
  | .ok value =>
      match value.asObject with
      | none => .error s!"{subject} body must be a JSON object"
      | some object => .ok object

/-- A field that must be a string that is not empty. -/
def requiredString (object : JsonObject) (field : String) : Check :=
  require (((object.lookup field).bind Json.asStr).any (· ≠ ""))
    s!"{field} is required and must be a string"

/-- A field that may be missing or null, and is a string otherwise. -/
def nullableString (object : JsonObject) (field : String) : Check :=
  match object.lookup field with
  | some (.string _) | some .null | none => .ok ()
  | some _ => .error s!"{field} must be a string when provided"

/-- Source: `proxy/mod.rs`, lines 340–347. -/
def generateJsonObject :
    Except String JsonObject := bodyObject parseJson body "/generate" "/generate"

/-- Source: `proxy/mod.rs`, lines 532–548. -/
def protoTextGenerateRequestFromJsonObject (object : JsonObject) : Check := do
  require ((object.lookup "text").bind Json.asStr).isSome "missing text"
  protoSamplingParamsFromJson object
  requestOptionsFromJson object
  protoDisaggregatedParamsFromJson object

/-- Source: `proxy/mod.rs`, lines 550–575. -/
def protoGenerateRequestFromJsonObject (object : JsonObject) : Check := do
  match object.lookup "input_ids" with
    | none => .error "missing input_ids"
    | some value =>
        match value.asArray with
        | none => .error "input_ids must be an array"
        | some items => checkItems (valueAsU32 · "input_ids") items
  protoSamplingParamsFromJson object
  requestOptionsFromJson object
  protoDisaggregatedParamsFromJson object

/-- Source: `proxy/mod.rs`, lines 517–530. -/
def protoNativeGenerateRequestFromJson : Check := do
  let object ← generateJsonObject parseJson body
  if (object.lookup "input_ids").isSome then protoGenerateRequestFromJsonObject object
  else protoTextGenerateRequestFromJsonObject object

/-- Source: `proxy/mod.rs`, lines 349–359. -/
def openaiJsonRequestOptionsFromBody : Check := do
  let object ← bodyObject parseJson body "OpenAI" "OpenAI JSON"
  requestOptionsFromJson object

/-- Source: `proxy/mod.rs`, lines 361–389. -/
def protoUpdateWeightsFromDiskRequestFromJson : Check := do
  let object ← bodyObject parseJson body "update_weights_from_disk" "update_weights_from_disk"
  requiredString object "model_path"
  nullableString object "load_format"

/-- Source: `proxy/mod.rs`, lines 391–414. -/
def protoUpdateWeightVersionRequestFromJson : Check := do
  let object ← bodyObject parseJson body "update_weight_version" "update_weight_version"
  requiredString object "new_version"

/-- Source: `proxy/mod.rs`, lines 416–451. -/
def protoGetWeightsByNameRequestFromJson : Check := do
  let object ← bodyObject parseJson body "get_weights_by_name" "get_weights_by_name"
  requiredString object "name"
  match object.lookup "truncate_size" with
    | some (.number n) =>
        require ((Json.number n).asU64.any (· < 2 ^ 32))
          "truncate_size must be a non-negative integer"
    | some .null | none => .ok ()
    | some _ => .error "truncate_size must be a non-negative integer"

/-- Source: `proxy/mod.rs`, lines 453–478. -/
def protoAbortRequestFromJson : Check := do
  let object ← bodyObject parseJson body "abort_request" "abort_request"
  let abortAll := ((object.lookup "abort_all").bind Json.asBool).getD false
  let requestId :=
    (((object.lookup "rid").or (object.lookup "request_id")).bind Json.asStr).getD ""
  require (abortAll || requestId ≠ "") "rid is required and must be a string"

/-- An empty body stands for a request without fields.

Source: `proxy/mod.rs`, lines 480–502. -/
def protoStartProfileRequestFromJson : Check :=
  if body.isEmpty then .ok ()
  else do
    let object ← bodyObject parseJson body "start_profile" "start_profile"
    nullableString object "output_dir"

end Requests

end SglangRs.Router
