import Mathlib.Data.Finmap

/-!
# MCP: transports in the configuration formats

`McpServerTransport` as `types.rs` stores it, and as `adapters/aionrs.rs` and `adapters/opencode.rs`
write it into the files of the agents and detect it there. The text of the database is written and
read by a JSON library, which is a parameter.
-/

namespace AionCore.Mcp

/-- A `HashMap<String, String>`. -/
abbrev TextMap := Finmap fun _ : String => String

inductive McpServerTransport where
  | stdio (command : String) (args : List String) (env : TextMap)
  | sse (url : String) (headers : TextMap)
  | http (url : String) (headers : TextMap)

/-- `McpError` as a transport raises it. -/
inductive TransportError where
  | invalidTransport (message : String)
  | json (message : String)

structure DetectedServer where
  name : String
  transport : McpServerTransport
  importable : Bool
  importSkipReason : Option String

/-- A value of JSON or TOML, `σ` being the scalars that are no strings. A table has the values under
its keys, whatever the function says of other keys. -/
inductive ConfigValue (σ : Type) where
  | scalar (s : σ)
  | string (s : String)
  | array (items : List (ConfigValue σ))
  | table (keys : Finset String) (value : String → ConfigValue σ)

inductive JsonScalar where
  | null
  | bool (b : Bool)
  | number (text : String)

inductive TomlScalar where
  | integer (n : ℤ)
  | float (text : String)
  | boolean (b : Bool)
  | datetime (text : String)

namespace ConfigValue

variable {σ : Type}

def get : ConfigValue σ → String → Option (ConfigValue σ)
  | .table keys value, k => if k ∈ keys then some (value k) else none
  | _, _ => none

def asStr : ConfigValue σ → Option String
  | .string s => some s
  | _ => none

/-- `as_array`, of which the strings are kept. -/
def asTexts : ConfigValue σ → Option (List String)
  | .array items => some (items.filterMap asStr)
  | _ => none

/-- `as_object` or `as_table`, of which the strings are kept. -/
def asTextMap : ConfigValue σ → Option TextMap
  | .table keys value => some <| Finmap.keysLookupEquiv.symm
      ⟨(keys.filter fun k => (value k).asStr.isSome = true,
        fun k => if k ∈ keys then (value k).asStr else none), fun k => by
          by_cases h : k ∈ keys <;> simp [h]⟩
  | _ => none

def isTable : ConfigValue σ → Bool
  | .table _ _ => true
  | _ => false

def ofTexts (texts : List String) : ConfigValue σ := .array (texts.map .string)

def ofTextMap (m : TextMap) : ConfigValue σ :=
  .table m.keys fun k => .string ((m.lookup k).getD "")

def record (fields : List (String × ConfigValue σ)) : ConfigValue σ :=
  .table (fields.map Prod.fst).toFinset fun k => (fields.lookup k).getD (.string "")

@[simp] theorem isTable_record (fields : List (String × ConfigValue σ)) :
    (record fields).isTable = true := rfl

@[simp] theorem get_record (fields : List (String × ConfigValue σ)) (k : String) :
    (record fields).get k = fields.lookup k := by
  rw [record, get]
  split
  · next h =>
    rw [List.mem_toFinset, List.mem_map] at h
    obtain ⟨field, hfield, rfl⟩ := h
    cases hv : fields.lookup field.1 with
    | some v => rfl
    | none => exact absurd rfl (bne_iff_ne.mp (List.lookup_eq_none_iff.mp hv field hfield))
  · next h =>
    refine (List.lookup_eq_none_iff.mpr fun field hfield => bne_iff_ne.mpr fun hk => h ?_).symm
    exact List.mem_toFinset.mpr (List.mem_map.mpr ⟨field, hfield, hk.symm⟩)

@[simp] theorem asTexts_ofTexts (texts : List String) :
    (ofTexts texts : ConfigValue σ).asTexts = some texts := by
  simp [ofTexts, asTexts, List.filterMap_map, Function.comp_def, asStr]

@[simp] theorem asTextMap_ofTextMap (m : TextMap) :
    (ofTextMap m : ConfigValue σ).asTextMap = some m := by
  refine congrArg some (Finmap.ext_lookup fun k => ?_)
  rw [Finmap.keysLookupEquiv_symm_apply_lookup]
  simp only [asStr]
  split
  · next h =>
    obtain ⟨v, hv⟩ := Finmap.mem_iff.mp (Finmap.mem_keys.mp h)
    simp [hv]
  · next h => exact (Finmap.lookup_eq_none.mpr fun hm => h (Finmap.mem_keys.mpr hm)).symm

variable (config : ConfigValue σ)

def readStdio : Option McpServerTransport :=
  ((config.get "command").bind asStr).map fun command =>
    .stdio command (((config.get "args").bind asTexts).getD [])
      (((config.get "env").bind asTextMap).getD ∅)

/-- `parse_headers`, `parse_headers_object` and `parse_toml_headers`. -/
def readHeaders : TextMap := ((config.get "headers").bind asTextMap).getD ∅

def readUrl : Option String := (config.get "url").bind asStr

/-- The `match` of `parse_server_entry` and of `parse_toml_server_entry`. -/
def readTransport (transportType : String) : Option McpServerTransport :=
  if transportType = "stdio" then config.readStdio
  else if transportType = "sse" then config.readUrl.map (.sse · config.readHeaders)
  else if transportType = "http" ∨ transportType = "streamable_http" then
    config.readUrl.map (.http · config.readHeaders)
  else none

end ConfigValue

open ConfigValue

/-- `parse_server_entry` of the Opencode adapter. -/
def parseServerEntry (name : String) (config : ConfigValue JsonScalar) : Option DetectedServer :=
  let transportType := ((config.get "type").bind asStr).getD "stdio"
  (config.readTransport transportType).map (⟨name, ·, true, none⟩)

def parseTomlServerEntry (name : String) (config : ConfigValue TomlScalar) :
    Option DetectedServer :=
  if config.isTable then
    let transportType :=
      (((config.get "transport").or (config.get "type")).bind asStr).getD "stdio"
    (config.readTransport transportType).map (⟨name, ·, true, none⟩)
  else none

/-- `serde_json::to_string` and `serde_json::from_str`. -/
structure SerdeJson where
  toString : ConfigValue JsonScalar → Except TransportError String
  fromStr : String → Except TransportError (ConfigValue JsonScalar)

namespace McpServerTransport

def transportType : McpServerTransport → String
  | .stdio _ _ _ => "stdio"
  | .sse _ _ => "sse"
  | .http _ _ => "http"

/-- The value that `to_config_json` serializes. -/
def configValue : McpServerTransport → ConfigValue JsonScalar
  | .stdio command args env =>
    .record [("command", .string command), ("args", .ofTexts args), ("env", .ofTextMap env)]
  | .sse url headers | .http url headers =>
    .record [("url", .string url), ("headers", .ofTextMap headers)]

def toConfigJson (serde : SerdeJson) (t : McpServerTransport) : Except TransportError String :=
  serde.toString t.configValue

def fromDb (serde : SerdeJson) (transportType configJson : String) :
    Except TransportError McpServerTransport := do
  let value ← serde.fromStr configJson
  let orMissing (transport : Option McpServerTransport) (message : String) :=
    transport.elim (Except.error (TransportError.invalidTransport message)) .ok
  if transportType = "stdio" then orMissing value.readStdio "stdio: missing command"
  else if transportType = "sse" then
    orMissing (value.readUrl.map (.sse · value.readHeaders)) "sse: missing url"
  else if transportType = "http" then
    orMissing (value.readUrl.map (.http · value.readHeaders)) "http: missing url"
  else .error (.invalidTransport ("unknown transport type: " ++ transportType))

/-- The field of a map that is left out when it is empty. -/
def mapField {σ : Type} (name : String) (m : TextMap) : List (String × ConfigValue σ) :=
  if m = ∅ then [] else [(name, .ofTextMap m)]

/-- `transport_to_toml` of the Aionrs adapter. -/
def toToml : McpServerTransport → ConfigValue TomlScalar
  | .stdio command args env =>
    .record ([("transport", .string "stdio"), ("command", .string command)] ++
      (if args = [] then [] else [("args", .ofTexts args)]) ++ mapField "env" env)
  | .sse url headers =>
    .record ([("transport", .string "sse"), ("url", .string url)] ++ mapField "headers" headers)
  | .http url headers =>
    .record ([("transport", .string "http"), ("url", .string url)] ++ mapField "headers" headers)

/-- `transport_to_json` of the Opencode adapter. -/
def toJson : McpServerTransport → ConfigValue JsonScalar
  | .stdio command args env =>
    .record ([("type", .string "stdio"), ("command", .string command), ("args", .ofTexts args)] ++
      mapField "env" env)
  | .sse url headers =>
    .record ([("type", .string "sse"), ("url", .string url)] ++ mapField "headers" headers)
  | .http url headers =>
    .record ([("type", .string "http"), ("url", .string url)] ++ mapField "headers" headers)

/-- A map that is left out when it is empty is read as the empty map. -/
@[simp] theorem asTextMap_mapField {σ : Type} (name : String) (m : TextMap) :
    (((mapField name m : List (String × ConfigValue σ)).lookup name).bind asTextMap).getD ∅ = m := by
  unfold mapField
  by_cases h : m = ∅ <;> simp [h]

theorem lookup_mapField_ne {σ : Type} {name k : String} (h : k ≠ name) (m : TextMap) :
    (mapField name m : List (String × ConfigValue σ)).lookup k = none := by
  unfold mapField
  by_cases hm : m = ∅
  · simp [hm]
  · simp [hm, List.lookup_cons, beq_false_of_ne h]

theorem fromDb_configValue (serde : SerdeJson) (t : McpServerTransport) {text : String}
    (h : serde.fromStr text = .ok t.configValue) : fromDb serde t.transportType text = .ok t := by
  rw [fromDb, h]
  cases t <;> simp [transportType, configValue, readStdio, readUrl, readHeaders, List.lookup_cons,
    asStr, bind, Except.bind]

theorem parseTomlServerEntry_toToml (name : String) (t : McpServerTransport) :
    parseTomlServerEntry name t.toToml = some ⟨name, t, true, none⟩ := by
  cases t with
  | stdio command args env =>
    by_cases h : args = [] <;>
      simp [h, parseTomlServerEntry, toToml, readTransport, readStdio, List.lookup_cons, asStr,
        lookup_mapField_ne]
  | sse url headers | http url headers =>
    simp [parseTomlServerEntry, toToml, readTransport, readUrl, readHeaders, List.lookup_cons, asStr]

theorem parseServerEntry_toJson (name : String) (t : McpServerTransport) :
    parseServerEntry name t.toJson = some ⟨name, t, true, none⟩ := by
  cases t <;> simp [parseServerEntry, toJson, readTransport, readStdio, readUrl, readHeaders,
    List.lookup_cons, asStr]

end McpServerTransport

end AionCore.Mcp
