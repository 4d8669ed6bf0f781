import Ignis.Lib.Fallible
import Ignis.Temporal.Wire

/-!
# Payloads there and back

Core's documents have a payload as `{"metadata": {...}, "data": "..."}`, a field that is empty left
out.  `payloadListField` copies them, `values` makes protobuf messages of the copies, and
`payloads` writes the messages into a document of its own.

A payload comes back if its metadata is neither empty nor has a name that spells an `int`
(`payloads_return_iff`).  `json_decode` makes an `int` of such a name, and `stringMapOf` refuses the
whole document for it; an empty map is written as `[]`, which is not a map.  The payloads' data and
the metadata's bytes go through base64 twice and are what they were.
-/

namespace Ignis

namespace Temporal

/-! ## Core's documents -/

/-- The keys under which the codec has lists of payloads. -/
inductive PayloadKey where
  | arguments
  | input
  | details
  deriving DecidableEq, Repr

def PayloadKey.name : PayloadKey → String
  | .arguments => "arguments"
  | .input => "input"
  | .details => "details"

/-- A map from strings to bytes, in protojson. -/
def metadataJson (metadata : OrdMap PhpString PhpString) : JsonValue :=
  .object (metadata.entries.map fun e => (e.1, .string (base64Encode e.2)))

/-- A payload as core writes it: a field that is empty is left out. -/
def corePayload (p : Payload) : JsonValue :=
  .object ((if p.metadata.entries = [] then [] else [(bytes "metadata", metadataJson p.metadata)])
    ++ if p.data = [] then [] else [(bytes "data", .string (base64Encode p.data))])

/-- A message with a list of payloads, as core writes it. -/
def coreDocument (k : PayloadKey) (ps : List Payload) : JsonValue :=
  .object (if ps = [] then [] else [(bytes k.name, .list (ps.map corePayload))])

/-! ## What a document denotes -/

/-- A `bytes` field. -/
def readBytes : JsonValue → Option PhpString
  | .string s => Classic.base64Decode s
  | _ => none

/-- A map from strings to bytes. -/
def readMap : JsonValue → Option (OrdMap PhpString PhpString)
  | .object members =>
      (members.mapM fun e => (readBytes e.2).map fun value => (e.1, value)).map OrdMap.ofList
  | _ => none

/-- A field of a message; one that is left out, or is null, has its default. -/
def readField {α : Type} (read : JsonValue → Option α) (default : α) (name : String)
    (members : List (PhpString × JsonValue)) : Option α :=
  match OrdMap.lookup (bytes name) members with
  | none | some .null => some default
  | some json => read json

/-- A payload.  A field that is not declared is refused. -/
def readPayload : JsonValue → Option Payload
  | .object members =>
      if members.all fun e => e.1 == bytes "metadata" || e.1 == bytes "data" then do
        let metadata ← readField readMap ∅ "metadata" members
        let data ← readField readBytes [] "data" members
        some ⟨metadata, data⟩
      else none
  | _ => none

/-- A repeated field. -/
def readPayloadList : JsonValue → Option (List Payload)
  | .list items => items.mapM readPayload
  | _ => none

/-- The payloads of a message. -/
def readPayloads (k : PayloadKey) : JsonValue → Option (List Payload)
  | .object members => readField readPayloadList [] k.name members
  | _ => none

/-- The same payload: a map has no order. -/
def Payload.Same (p q : Payload) : Prop :=
  p.data = q.data ∧ ∀ name, p.metadata.get? name = q.metadata.get? name

/-! ## The codec -/

/-- One turn of the loop of `values`. -/
def WirePayload.proto (w : WirePayload) : Payload where
  metadata := .ofList ((w.metadata.getD []).map fun e => (e.1, base64DecodeLax e.2))
  data := base64DecodeLax (w.data.getD [])

/-- `values`; the converter that the values are given is not asked for anything on the way. -/
def values (payloads : List WirePayload) : List Payload := payloads.map WirePayload.proto

/-- The payloads of a document of core's, in a document for core. -/
def resend (k : PayloadKey) (field : String) (document : JsonValue) :
    Except Throwable JsonValue :=
  (payloadListField document.decode k.name field).map fun payloads =>
    (assoc [(k.name, payloadsDoc (values payloads))]).encode

/-- The payloads come back: what is sent denotes the same list. -/
def Returns (k : PayloadKey) (field : String) (ps : List Payload) : Prop :=
  ∃ document qs, resend k field (coreDocument k ps) = .ok document ∧
    readPayloads k document = some qs ∧ List.Forall₂ Payload.Same qs ps

/-- No name of the metadata spells an `int`. -/
def Payload.Named (p : Payload) : Prop := ∀ name ∈ p.metadata.keys, handleNumericStr name = none

/-! ## What the codec reads -/

/-- A payload as the codec copies it. -/
def Payload.wire (p : Payload) : WirePayload where
  metadata :=
    if p.metadata.entries = [] then none
    else some (p.metadata.entries.map fun e => (e.1, base64Encode e.2))
  data := if p.data = [] then none else some (base64Encode p.data)

lemma PayloadKey.named (k : PayloadKey) : handleNumericStr (bytes k.name) = none := by
  cases k <;> decide

/-- What `json_decode` makes of a payload. -/
lemma decode_corePayload (p : Payload) :
    (corePayload p).decode
      = .arr ((if p.metadata.entries = [] then []
          else [(key "metadata", (metadataJson p.metadata).decode)])
        ++ if p.data = [] then [] else [(key "data", .str (base64Encode p.data))]) := by
  have hmetadata : handleNumericStr (bytes "metadata") = none := by decide
  have hdata : handleNumericStr (bytes "data") = none := by decide
  have hne : bytes "metadata" ≠ bytes "data" := by decide
  rw [corePayload, decode_object]
  · split_ifs <;> rfl
  · split_ifs <;> simp [hmetadata, hdata]
  · split_ifs <;> simp [hne]

lemma get_metadata (p : Payload) :
    (corePayload p).decode.get "metadata"
      = if p.metadata.entries = [] then .null else (metadataJson p.metadata).decode := by
  have hne : key "data" ≠ key "metadata" := by decide
  rw [decode_corePayload]
  split_ifs <;> simp [Val.get, OrdMap.lookup, hne]

lemma get_data (p : Payload) :
    (corePayload p).decode.get "data"
      = if p.data = [] then .null else .str (base64Encode p.data) := by
  have hne : key "metadata" ≠ key "data" := by decide
  rw [decode_corePayload]
  split_ifs <;> simp [Val.get, OrdMap.lookup, hne]

/-- Metadata with names is copied. -/
lemma stringMapOf_named {p : Payload} (h : p.Named) (field : String) :
    stringMapOf (metadataJson p.metadata).decode field
      = .ok (p.metadata.entries.map fun e => (e.1, base64Encode e.2)) := by
  have hdecode : (metadataJson p.metadata).decode
      = .arr (p.metadata.entries.map fun e => (.str e.1, .str (base64Encode e.2))) := by
    rw [metadataJson, decode_object, List.map_map]
    · rfl
    · intro e he
      obtain ⟨e, hmem, rfl⟩ := List.mem_map.1 he
      exact h _ (List.mem_map_of_mem hmem)
    · rw [List.map_map]
      exact p.metadata.nodup
  rw [hdecode]
  exact (List.mapM_map ..).trans (Fallible.mapM_eq_map fun _ _ => rfl)

/-- Metadata with a name that spells an `int` is refused. -/
lemma named_of_stringMapOf {p : Payload} {field : String} {out : List (PhpString × PhpString)}
    (h : stringMapOf (metadataJson p.metadata).decode field = .ok out) : p.Named := by
  intro name hname
  obtain ⟨e, he, rfl⟩ := List.mem_map.1 hname
  have hkey : ArrayKey.ofSymtable e.1 ∈ (decodeMembers []
      (p.metadata.entries.map fun e => (e.1, .string (base64Encode e.2)))).map Prod.fst :=
    (mem_keys_decodeMembers _ _).2 (Or.inr ⟨_, List.mem_map_of_mem he, rfl⟩)
  obtain ⟨⟨k, v⟩, hmem, hk⟩ := List.mem_map.1 hkey
  obtain ⟨copied, hcopied⟩ := Fallible.ok_of_mapM_eq_ok h hmem
  cases k with
  | int n => cases hcopied
  | str s => exact (ArrayKey.ofSymtable_eq_str hk.symm).2

lemma isset_metadata (p : Payload) :
    (corePayload p).decode.isset "metadata" = decide (p.metadata.entries ≠ []) := by
  rw [Val.isset, get_metadata]
  by_cases hempty : p.metadata.entries = []
  · simp [hempty]
  · rw [if_neg hempty, decide_eq_true hempty]
    rfl

/-- The copy of a payload is the copy of its metadata. -/
lemma payloadOf_corePayload (p : Payload) (field : String) :
    payloadOf (corePayload p).decode field
      = if p.metadata.entries = [] then .ok p.wire
        else (stringMapOf (metadataJson p.metadata).decode field).map fun metadata =>
          ⟨some metadata, p.wire.data⟩ := by
  have hisset := isset_metadata p
  have hmetadata := get_metadata p
  have hdata := get_data p
  obtain ⟨entries, hdecode⟩ : ∃ entries, (corePayload p).decode = .arr entries :=
    ⟨_, decode_corePayload p⟩
  rw [hdecode] at hisset hmetadata hdata ⊢
  by_cases hempty : p.metadata.entries = []
  · simp only [payloadOf, hisset, hdata, Payload.wire, hempty, ne_eq, not_true_eq_false,
      decide_false, Bool.false_eq_true, if_false, if_true]
    split_ifs <;> rfl
  · simp only [payloadOf, hisset, hmetadata, hdata, Payload.wire, hempty, ne_eq, not_false_eq_true,
      decide_true, if_false, if_true]
    cases stringMapOf (metadataJson p.metadata).decode field <;> split_ifs <;> rfl

lemma payloadOf_named {p : Payload} (h : p.Named) (field : String) :
    payloadOf (corePayload p).decode field = .ok p.wire := by
  rw [payloadOf_corePayload, stringMapOf_named h]
  split_ifs with hempty
  · rfl
  · rw [Except.map, Payload.wire, if_neg hempty]

lemma named_of_payloadOf {p : Payload} {field : String} {w : WirePayload}
    (h : payloadOf (corePayload p).decode field = .ok w) : p.Named := by
  rw [payloadOf_corePayload] at h
  split_ifs at h with hempty
  · intro name hname
    rw [OrdMap.keys, hempty] at hname
    cases hname
  · obtain ⟨out, hout, -⟩ := Fallible.of_map_eq_ok h
    exact named_of_stringMapOf hout

/-- The field with the payloads. -/
lemma get_payloads (k : PayloadKey) (ps : List Payload) :
    (coreDocument k ps).decode.get k.name
      = if ps = [] then .null else (JsonValue.list (ps.map corePayload)).decode := by
  rw [coreDocument]
  split_ifs with hps
  · rfl
  · rw [decode_object]
    · simp [Val.get, OrdMap.lookup, key]
    · simp [k.named]
    · simp

lemma payloadListField_named {ps : List Payload} (h : ∀ p ∈ ps, p.Named) (k : PayloadKey)
    (field : String) :
    payloadListField (coreDocument k ps).decode k.name field = .ok (ps.map Payload.wire) := by
  rw [payloadListField, get_payloads]
  by_cases hps : ps = []
  · subst hps
    rfl
  · rw [if_neg hps]
    have hvalues := decodeItems_values 0 (ps.map corePayload)
    have hcopies : ((decodeItems 0 (ps.map corePayload)).map Prod.snd).mapM
        (fun v => payloadOf v field) = .ok (ps.map Payload.wire) := by
      rw [hvalues, List.map_map, List.mapM_map]
      exact Fallible.mapM_eq_map fun p hp => payloadOf_named (h p hp) field
    rwa [List.mapM_map] at hcopies

lemma named_of_payloadListField {ps : List Payload} {k : PayloadKey} {field : String}
    {ws : List WirePayload}
    (h : payloadListField (coreDocument k ps).decode k.name field = .ok ws) :
    ∀ p ∈ ps, p.Named := by
  intro p hp
  rw [payloadListField, get_payloads, if_neg (List.ne_nil_of_mem hp)] at h
  have hmem : (corePayload p).decode ∈ (decodeItems 0 (ps.map corePayload)).map Prod.snd := by
    rw [decodeItems_values, List.map_map]
    exact List.mem_map_of_mem hp
  obtain ⟨e, he, heq⟩ := List.mem_map.1 hmem
  obtain ⟨w, hw⟩ := Fallible.ok_of_mapM_eq_ok h he
  rw [heq] at hw
  exact named_of_payloadOf hw

/-! ## What the codec has of them -/

/-- Copied and decoded, a payload is what it was. -/
lemma proto_wire (p : Payload) : p.wire.proto = p := by
  have hcopied : p.wire.metadata = if p.metadata.entries = [] then none
      else some (p.metadata.entries.map fun e => (e.1, base64Encode e.2)) := rfl
  have hmetadata : OrdMap.ofList ((p.wire.metadata.getD []).map fun e => (e.1, base64DecodeLax e.2))
      = p.metadata := by
    refine Eq.trans ?_ p.metadata.ofList_entries
    rw [hcopied]
    split_ifs with hempty
    · rw [hempty]
      rfl
    · simp [Function.comp_def, base64DecodeLax_encode]
  have hdata : base64DecodeLax (p.wire.data.getD []) = p.data := by
    have hcopiedData : p.wire.data = if p.data = [] then none else some (base64Encode p.data) := rfl
    rw [hcopiedData]
    split_ifs with hempty
    · exact hempty.symm
    · exact base64DecodeLax_encode p.data
  rw [WirePayload.proto, hmetadata, hdata]

lemma values_wire (ps : List Payload) : values (ps.map Payload.wire) = ps := by
  rw [values, List.map_map]
  exact List.map_id'' proto_wire ps

/-! ## What the codec writes -/

lemma readBytes_encode (s : PhpString) : readBytes (.string (base64Encode s)) = some s :=
  base64Decode_encode s

lemma readMap_metadataJson (metadata : OrdMap PhpString PhpString) :
    readMap (metadataJson metadata) = some metadata := by
  have hread : (metadata.entries.map fun e => (e.1, JsonValue.string (base64Encode e.2))).mapM
      (fun e => (readBytes e.2).map fun value => (e.1, value)) = some metadata.entries := by
    have hid := Fallible.mapM_eq_map (m := Option) (g := id) (l := metadata.entries)
      (f := fun e => (readBytes (.string (base64Encode e.2))).map fun value => (e.1, value))
      fun e _ => by rw [readBytes_encode]; rfl
    rw [List.mapM_map]
    rw [List.map_id] at hid
    exact hid
  rw [metadataJson, readMap, hread, Option.map_some, OrdMap.ofList_entries]

/-- Metadata with names, and with one at least, is written as a map. -/
lemma encode_metadataEntries {p : Payload} (h : p.Named) (hne : p.metadata.entries ≠ []) :
    (Val.arr p.metadataEntries).encode = metadataJson p.metadata := by
  have hkeys : p.metadataEntries
      = p.metadata.entries.map fun e => (.str e.1, .str (base64Encode e.2)) := by
    refine List.map_congr_left fun e he => ?_
    rw [ArrayKey.ofSymtable_eq_str_iff.2 (h _ (List.mem_map_of_mem he))]
  have hlist : isList p.metadataEntries = false := by
    rw [hkeys]
    obtain ⟨e, rest, hentries⟩ := List.exists_cons_of_ne_nil hne
    rw [hentries]
    rfl
  rw [Val.encode, hlist, if_neg (by decide), encodeMembers_eq, hkeys, List.map_map]
  rfl

/-- Metadata that is empty is written as a list. -/
lemma encode_metadataEntries_empty {p : Payload} (h : p.metadata.entries = []) :
    (Val.arr p.metadataEntries).encode = .list [] := by
  rw [Payload.metadataEntries, h]
  rfl

lemma encode_payloadDoc (p : Payload) :
    (payloadDoc p).encode
      = .object [(bytes "metadata", (Val.arr p.metadataEntries).encode),
        (bytes "data", .string (base64Encode p.data))] :=
  encode_assoc _ _

/-- A payload as the codec writes it is read as the payload, if its metadata is a map. -/
lemma readPayload_payloadDoc {p : Payload} (h : p.Named) (hne : p.metadata.entries ≠ []) :
    readPayload (payloadDoc p).encode = some p := by
  have hkey : bytes "metadata" ≠ bytes "data" := by decide
  have hobject : metadataJson p.metadata ≠ .null := by simp [metadataJson]
  have hread := readMap_metadataJson p.metadata
  rw [encode_payloadDoc, encode_metadataEntries h hne]
  generalize metadataJson p.metadata = json at hobject hread
  simp [readPayload, readField, OrdMap.lookup, hkey, readBytes_encode, hread]

lemma readPayload_payloadDoc_empty {p : Payload} (h : p.metadata.entries = []) :
    readPayload (payloadDoc p).encode = none := by
  rw [encode_payloadDoc, encode_metadataEntries_empty h]
  simp [readPayload, readField, OrdMap.lookup, readMap]

lemma encode_payloadsDoc (ps : List Payload) :
    (payloadsDoc ps).encode = .list (ps.map fun p => (payloadDoc p).encode) := by
  rw [payloadsDoc, encode_listVal, List.map_map]
  rfl

/-- A list of payloads that are written as core declares them. -/
lemma readPayloadList_payloadsDoc {ps : List Payload}
    (h : ∀ p ∈ ps, p.metadata.entries ≠ [] ∧ p.Named) :
    readPayloadList (payloadsDoc ps).encode = some ps := by
  rw [encode_payloadsDoc, readPayloadList, List.mapM_map]
  have hread := Fallible.mapM_eq_map (m := Option) (g := id) (l := ps)
    (f := fun p => readPayload (payloadDoc p).encode)
    fun p hp => readPayload_payloadDoc (h p hp).2 (h p hp).1
  rwa [List.map_id] at hread

/-- And of one that has a payload without metadata. -/
lemma nonempty_of_readPayloadList {ps qs : List Payload}
    (h : readPayloadList (payloadsDoc ps).encode = some qs) :
    ∀ p ∈ ps, p.metadata.entries ≠ [] := by
  intro p hp hempty
  rw [encode_payloadsDoc, readPayloadList] at h
  obtain ⟨q, hq⟩ := Fallible.some_of_mapM_eq_some h
    (List.mem_map_of_mem (f := fun p => (payloadDoc p).encode) hp)
  rw [readPayload_payloadDoc_empty hempty] at hq
  cases hq

lemma readPayloads_encode (k : PayloadKey) (ps : List Payload) :
    readPayloads k (assoc [(k.name, payloadsDoc ps)]).encode
      = readPayloadList (payloadsDoc ps).encode := by
  rw [encode_assoc, encode_payloadsDoc]
  simp [readPayloads, readField, OrdMap.lookup, encode_payloadsDoc]

/-! ## There and back -/

lemma resend_named {ps : List Payload} (h : ∀ p ∈ ps, p.Named) (k : PayloadKey)
    (field : String) :
    resend k field (coreDocument k ps) = .ok (assoc [(k.name, payloadsDoc ps)]).encode := by
  rw [resend, payloadListField_named h, Except.map, values_wire]

/-- **Which payloads come back.**  The lists in which every payload has metadata, and no name in it
that spells an `int`; a document with any other is refused, by the codec or by its reader. -/
theorem payloads_return_iff (k : PayloadKey) (field : String) (ps : List Payload) :
    Returns k field ps ↔ ∀ p ∈ ps, p.metadata.entries ≠ [] ∧ p.Named := by
  constructor
  · rintro ⟨document, qs, hsent, hread, -⟩ p hp
    obtain ⟨ws, hws, -⟩ := Fallible.of_map_eq_ok hsent
    have hnamed := named_of_payloadListField hws
    rw [resend_named hnamed] at hsent
    cases hsent
    rw [readPayloads_encode] at hread
    exact ⟨nonempty_of_readPayloadList hread p hp, hnamed p hp⟩
  · intro h
    refine ⟨_, ps, resend_named (fun p hp => (h p hp).2) k field, ?_, ?_⟩
    · rw [readPayloads_encode, readPayloadList_payloadsDoc h]
    · exact List.forall₂_same.2 fun p _ => ⟨rfl, fun _ => rfl⟩

/-- `{"metadata": {"0": ...}, "data": ...}`. -/
def numberedPayload : Payload :=
  ⟨(∅ : OrdMap PhpString PhpString).set (bytes "0") (bytes "json/plain"), bytes "1"⟩

/-- A payload whose metadata has the name `0`: the activation is refused for it. -/
theorem numbered_payload_refused : ¬ ∀ k field ps, Returns k field ps := by
  intro h
  obtain ⟨document, _, hsent, _⟩ := h .arguments "start.input" [numberedPayload]
  cases hsent

end Temporal

end Ignis
