import Ignis.Temporal.Payloads

/-!
# Heartbeats

An activity reports a heartbeat through sdk-php's RPC connection.  `CoreRpc::call` takes the token
out of its base64, `CoreSource::heartbeat` writes the bytes of the token as a list of numbers, and
`ignis_temporal_heartbeat` reads the document as a `coresdk.ActivityHeartbeat`, whose `task_token`
is `bytes`.

In protojson `bytes` are a string of base64 (`BytesAreStrings`).  A reader of which that is true
refuses the document, whatever the token is (`heartbeat_never_crosses`): nothing is recorded, and
the activity is told that it was (`call_tells_nothing`).  With the token as it came, in base64, the
document would be read (`readHeartbeat_base64`).
-/

namespace Ignis

namespace Temporal

namespace Heartbeats

/-- `coresdk.ActivityHeartbeat`. -/
structure ActivityHeartbeat where
  taskToken : PhpString
  details : List Payload

/-- The process: the workers in its table, and what core was given to record, by worker. -/
structure Process where
  workers : List ℕ
  recorded : List (ℕ × ActivityHeartbeat)

section Reader

-- `from_protojson::<ActivityHeartbeat>`, which is the work of `prost-reflect`
variable (fromProtojson : JsonValue → Option ActivityHeartbeat)

/-! ## The way of a heartbeat -/

/-- `ignis_temporal_heartbeat`. -/
def zifHeartbeat (s : Process) (worker : ℕ) (json : JsonValue) : Process × Bool :=
  if worker ∈ s.workers then
    match fromProtojson json with
    | some heartbeat => ({ s with recorded := s.recorded ++ [(worker, heartbeat)] }, true)
    | none => (s, false)
  else (s, false)

/-- `array_values(unpack('C*', $taskToken))`. -/
def unpackBytes (taskToken : PhpString) : Val := listVal (taskToken.map fun b => .int b.toNat)

/-- The document of `CoreSource::heartbeat`. -/
def heartbeatDoc (taskToken : PhpString) (details : Val) : Val :=
  assoc [("task_token", unpackBytes taskToken), ("details", details)]

/-- `CoreSource::heartbeat`: what `ignis_temporal_heartbeat` returns is not looked at. -/
def coreSourceHeartbeat (worker : ℕ) (s : Process) (taskToken : PhpString) (details : Val) :
    Process × Val :=
  ((zifHeartbeat fromProtojson s worker (heartbeatDoc taskToken details).encode).1, .arr [])

/-- `CoreRpc::call`, with the message of what it throws.  `sink` is the source's `heartbeat`, if it
is a `HeartbeatSink`, and `mergeFromString` reads the wire bytes of a `Payloads` message. -/
def call {σ : Type} (mergeFromString : PhpString → Except String (List Payload))
    (sink : Option (σ → PhpString → Val → σ × Val)) (s : σ) (method : PhpString) (payload : Val) :
    σ × Except String Val :=
  if method ≠ bytes "temporal.RecordActivityHeartbeat" then
    (s, .error ("RPC \"" ++ text method ++ "\" is not available on the core transport " ++
      "(only temporal.RecordActivityHeartbeat is)."))
  else
    match sink with
    | none => (s, .error "this host cannot record activity heartbeats (no HeartbeatSink)")
    | some heartbeat =>
        match payload.get "details", payload.get "taskToken" with
        | .str details, .str taskToken =>
            match mergeFromString (base64DecodeLax details) with
            | .error e => (s, .error e)
            | .ok ps =>
                let (s, answer) := heartbeat s (base64DecodeLax taskToken) (payloadsDoc ps)
                (s, .ok answer)
        | _, _ => (s, .error ("the \"temporal.RecordActivityHeartbeat\" payload must be " ++
            "array\x7btaskToken: string, details: string\x7d"))

/-! ## What is asked of it -/

/-- The document is read as the token and the payloads, and a live worker says so. -/
def Crosses (taskToken : PhpString) (details : List Payload) : Prop :=
  fromProtojson (heartbeatDoc taskToken (payloadsDoc details)).encode = some ⟨taskToken, details⟩ ∧
    ∀ (s : Process) (worker : ℕ), worker ∈ s.workers →
      (zifHeartbeat fromProtojson s worker
        (heartbeatDoc taskToken (payloadsDoc details)).encode).2 = true

/-- In protojson, a field of `bytes` is a string, or null where it has its default. -/
def BytesAreStrings : Prop :=
  ∀ members heartbeat json, fromProtojson (.object members) = some heartbeat →
    OrdMap.lookup (bytes "task_token") members = some json →
      json = .null ∨ ∃ s, json = .string s

variable {fromProtojson}

/-! ## No heartbeat crosses -/

/-- The token is written as a list. -/
lemma encode_unpackBytes (taskToken : PhpString) :
    (unpackBytes taskToken).encode = .list (taskToken.map fun b => .int b.toNat) := by
  rw [unpackBytes, encode_listVal, List.map_map]
  rfl

lemma heartbeatDoc_refused (h : BytesAreStrings fromProtojson) (taskToken : PhpString)
    (details : Val) : fromProtojson (heartbeatDoc taskToken details).encode = none := by
  rw [heartbeatDoc, encode_assoc]
  refine Option.eq_none_iff_forall_ne_some.2 fun heartbeat hread => ?_
  rcases h _ _ _ hread (if_pos rfl) with hnull | ⟨s, hstring⟩
  · rw [encode_unpackBytes] at hnull
    cases hnull
  · rw [encode_unpackBytes] at hstring
    cases hstring

/-- A document that is refused leaves everything as it is. -/
lemma zifHeartbeat_refused {json : JsonValue} (h : fromProtojson json = none) (s : Process)
    (worker : ℕ) : zifHeartbeat fromProtojson s worker json = (s, false) := by
  rw [zifHeartbeat, h]
  split_ifs <;> rfl

/-- **No heartbeat crosses.**  Whatever the token and the details are, the document is refused, and
`ignis_temporal_heartbeat` records nothing and returns false, for a live worker as for any other. -/
theorem heartbeat_never_crosses (h : BytesAreStrings fromProtojson) (taskToken : PhpString)
    (details : List Payload) :
    ¬ Crosses fromProtojson taskToken details ∧
      ∀ (s : Process) (worker : ℕ), zifHeartbeat fromProtojson s worker
        (heartbeatDoc taskToken (payloadsDoc details)).encode = (s, false) := by
  have hrefused := heartbeatDoc_refused h taskToken (payloadsDoc details)
  refine ⟨fun hcrosses => ?_, zifHeartbeat_refused hrefused⟩
  rw [Crosses, hrefused] at hcrosses
  cases hcrosses.1

end Reader

/-! ## A reader -/

/-- The name under which the token is given: both are read. -/
def tokenName (members : List (PhpString × JsonValue)) : String :=
  if (OrdMap.lookup (bytes "task_token") members).isSome then "task_token" else "taskToken"

/-- `coresdk.ActivityHeartbeat` as protojson has it.  A field that is not declared is refused. -/
def readHeartbeat : JsonValue → Option ActivityHeartbeat
  | .object members =>
      if members.all fun e => e.1 == bytes "task_token" || e.1 == bytes "taskToken" ||
          e.1 == bytes "details" then do
        let taskToken ← readField readBytes [] (tokenName members) members
        let details ← readField readPayloadList [] "details" members
        some ⟨taskToken, details⟩
      else none
  | _ => none

lemma bytesAreStrings_readHeartbeat : BytesAreStrings readHeartbeat := by
  intro members heartbeat json hread hlookup
  have hname : tokenName members = "task_token" := by rw [tokenName, hlookup]; rfl
  rw [readHeartbeat, hname] at hread
  split_ifs at hread
  obtain ⟨taskToken, htoken, -⟩ := Option.bind_eq_some_iff.1 hread
  rw [readField, hlookup] at htoken
  cases json with
  | null => exact .inl rfl
  | string s => exact .inr ⟨s, rfl⟩
  | _ => cases htoken

/-- With the token in base64 the document is read as what was sent. -/
theorem readHeartbeat_base64 (taskToken : PhpString) {details : List Payload}
    (h : ∀ p ∈ details, p.metadata.entries ≠ [] ∧ p.Named) :
    readHeartbeat (assoc [("task_token", .str (base64Encode taskToken)),
        ("details", payloadsDoc details)]).encode = some ⟨taskToken, details⟩ := by
  have hkey : bytes "task_token" ≠ bytes "details" := by decide
  have hdetails := readPayloadList_payloadsDoc h
  rw [encode_assoc, List.map_cons, List.map_cons, List.map_nil, Val.encode]
  rw [encode_payloadsDoc] at hdetails ⊢
  simp [readHeartbeat, readField, tokenName, OrdMap.lookup, hkey, readBytes_encode, hdetails]

/-- The token 1, 2, 3, without details. -/
theorem heartbeat_never_crosses_one :
    ¬ Crosses readHeartbeat [1, 2, 3] [] ∧
      ∀ (s : Process) (worker : ℕ), zifHeartbeat readHeartbeat s worker
        (heartbeatDoc [1, 2, 3] (payloadsDoc [])).encode = (s, false) :=
  heartbeat_never_crosses bytesAreStrings_readHeartbeat [1, 2, 3] []

theorem heartbeat_is_refused : ¬ ∀ taskToken details, Crosses readHeartbeat taskToken details := by
  intro h
  have hread := (h [1, 2, 3] []).1
  cases hread

/-! ## What the activity is told -/

section Call

variable {fromProtojson : JsonValue → Option ActivityHeartbeat}
  {mergeFromString : PhpString → Except String (List Payload)}

/-- Nothing that is called records anything. -/
theorem call_records_nothing (h : BytesAreStrings fromProtojson) (worker : ℕ) (s : Process)
    (method : PhpString) (payload : Val) :
    (call mergeFromString (some (coreSourceHeartbeat fromProtojson worker)) s method payload).1
      = s := by
  rw [call]
  split_ifs
  · rfl
  · simp only
    split
    · split
      · rfl
      · rw [coreSourceHeartbeat, zifHeartbeat_refused (heartbeatDoc_refused h _ _)]
    · rfl

/-- And a heartbeat that is well formed is answered as one that was recorded would be. -/
theorem call_tells_nothing (worker : ℕ) (s : Process) {details taskToken : PhpString}
    {payload : Val} {ps : List Payload} (hdetails : payload.get "details" = .str details)
    (htoken : payload.get "taskToken" = .str taskToken)
    (hmerge : mergeFromString (base64DecodeLax details) = .ok ps) :
    (call mergeFromString (some (coreSourceHeartbeat fromProtojson worker)) s
      (bytes "temporal.RecordActivityHeartbeat") payload).2 = .ok (.arr []) := by
  rw [call, if_neg (by simp), hdetails, htoken]
  simp only [hmerge]
  rfl

end Call

end Heartbeats

end Temporal

end Ignis
