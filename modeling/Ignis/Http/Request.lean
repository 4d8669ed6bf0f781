import Ignis.Http.Zval

/-!
# From the front door to the loop

A request travels as plain data through three layers: `request_to_zval` (Rust) builds the PHP array
of the completion, `Loop::dispatchUnawaited` reads the tag of that array, and
`Http\Request::validateRaw` checks every field before the loop believes it.  The header names are
where the layers disagree.  HTTP calls any token a header name, so `123` is one; the PHP array
stores it under the integer `123`; and the validator refuses an array whose keys are not all
strings.  The exception it throws is caught by nobody below `runUntil()`.

`dispatchUnawaited_requestToZval_iff` says exactly which requests get through.
-/

namespace Ignis

/-- `reactor::HttpRequest`: an HTTP request handed to PHP. -/
structure HttpRequest where
  method : PhpString
  uri : PhpString
  headers : List (PhpString × PhpString)
  body : PhpString
  deriving DecidableEq, Repr

/-- The `IgnisRequest` array shape: what is left of a completion once it has been validated. -/
structure IgnisRequest where
  method : PhpString
  uri : PhpString
  headers : OrdMap PhpString PhpString
  body : PhpString

/-- `tchar` of the HTTP grammar, the characters a header name is made of. -/
def isTchar (c : UInt8) : Bool :=
  isDigit c || (65 ≤ c && c ≤ 90) || (97 ≤ c && c ≤ 122) || (bytes "!#$%&'*+-.^_`|~").contains c

/-- A header name: a non-empty string of `tchar`s. -/
def isToken (name : PhpString) : Bool := !name.isEmpty && name.all isTchar

/-! ## `request_to_zval` -/

/-- The header array: each pair is written with `add_assoc_stringl_ex`, so a repeated name
overwrites the value and a name that spells an integer becomes an integer key. -/
def headersToZval (headers : List (PhpString × PhpString)) : OrdMap ArrayKey Scalar :=
  headers.foldl (fun a h => a.set (ArrayKey.ofSymtable h.1) (.string h.2)) ∅

/-- `request_to_zval`:
`['method' => .., 'uri' => .., 'headers' => [name => value], 'body' => ..]`. -/
def requestToZval (req : HttpRequest) : OrdMap ArrayKey Zval :=
  ((((∅ : OrdMap ArrayKey Zval).set (.str (bytes "method")) (.scalar (.string req.method))).set
    (.str (bytes "uri")) (.scalar (.string req.uri))).set
    (.str (bytes "headers")) (.array (headersToZval req.headers))).set
    (.str (bytes "body")) (.scalar (.string req.body))

/-! ## `Http\Request::validateRaw` -/

/-- `validatedHeaders`: every key and every value has to be a string. -/
def validatedHeaders (headers : OrdMap ArrayKey Scalar) (message : String) :
    Except Throwable (OrdMap PhpString PhpString) :=
  headers.entries.foldlM (fun out entry =>
    match entry with
    | (.str name, .string value) => .ok (out.set name value)
    | _ => .error ⟨.unexpectedValueException, message⟩) ∅

/-- `validateRaw`: the fields are read with `?? null` and checked before anything is returned. -/
def validateRaw (raw : OrdMap ArrayKey Zval) (message headerMessage : String) :
    Except Throwable IgnisRequest :=
  match raw.get? (.str (bytes "method")), raw.get? (.str (bytes "uri")),
      raw.get? (.str (bytes "headers")), raw.get? (.str (bytes "body")) with
  | some (.scalar (.string method)), some (.scalar (.string uri)), some (.array headers),
      some (.scalar (.string body)) => do
      let headers ← validatedHeaders headers headerMessage
      .ok ⟨method, uri, headers, body⟩
  | _, _, _, _ => .error ⟨.unexpectedValueException, message⟩

/-! ## `Loop::dispatchUnawaited` -/

/-- What a completion no fiber waits for turns out to be. -/
inductive Unawaited where
  | request (raw : IgnisRequest)
  | cancel (ageUs : ℤ)
  | ignored

/-- `Loop::asIgnisRequest`. -/
def asIgnisRequest (payload : OrdMap ArrayKey Zval) : Except Throwable IgnisRequest :=
  validateRaw payload "Ignis\\Loop: a malformed request completion"
    "Ignis\\Loop: a malformed request completion header"

/-- `Loop::asAgeUs`. -/
def asAgeUs (payload : OrdMap ArrayKey Zval) : Except Throwable ℤ :=
  match payload.get? (.str (bytes "age_us")) with
  | some (.scalar (.long ageUs)) => .ok ageUs
  | _ => .error ⟨.unexpectedValueException,
      "Ignis\\Loop: a cancel completion is missing an int age_us"⟩

/-- `Loop::dispatchUnawaited`, up to the call it makes: a payload with a `method` is a request, one
tagged `cancel` a cancellation, and anything else is dropped. -/
def dispatchUnawaited (payload : OrdMap ArrayKey Zval) : Except Throwable Unawaited :=
  match payload.get? (.str (bytes "method")) with
  | none | some (.scalar .null) =>
      match payload.get? (.str (bytes "kind")) with
      | some (.scalar (.string kind)) =>
          if kind = bytes "cancel" then return .cancel (← asAgeUs payload) else .ok .ignored
      | _ => .ok .ignored
  | some _ => return .request (← asIgnisRequest payload)

/-! ## Which requests get through -/

/-- A fold that only accepts or refuses: it succeeds exactly when every entry is accepted. -/
lemma validatedHeaders_ok_iff (headers : OrdMap ArrayKey Scalar) (message : String) :
    (∃ out, validatedHeaders headers message = .ok out)
      ↔ ∀ entry ∈ headers.entries, ∃ name value, entry = (.str name, .string value) := by
  unfold validatedHeaders
  generalize (∅ : OrdMap PhpString PhpString) = out₀
  induction headers.entries generalizing out₀ with
  | nil => simp [pure, Except.pure]
  | cons entry rest ih =>
      rw [List.foldlM_cons]
      rcases entry with ⟨n | name, _ | n' | value⟩
      all_goals simp [bind, Except.bind]
      simpa using ih (out₀.set name value)

lemma requestToZval_method (req : HttpRequest) :
    (requestToZval req).get? (.str (bytes "method")) = some (.scalar (.string req.method)) := by
  simp [requestToZval, OrdMap.get?_set, bytes]

lemma validateRaw_requestToZval (req : HttpRequest) (message headerMessage : String) :
    validateRaw (requestToZval req) message headerMessage
      = (validatedHeaders (headersToZval req.headers) headerMessage).map
          fun headers => ⟨req.method, req.uri, headers, req.body⟩ := by
  have hu : (requestToZval req).get? (.str (bytes "uri")) = some (.scalar (.string req.uri)) := by
    simp [requestToZval, OrdMap.get?_set, bytes]
  have hh : (requestToZval req).get? (.str (bytes "headers"))
      = some (.array (headersToZval req.headers)) := by
    simp [requestToZval, OrdMap.get?_set, bytes]
  have hb : (requestToZval req).get? (.str (bytes "body")) = some (.scalar (.string req.body)) := by
    simp [requestToZval]
  simp only [validateRaw, requestToZval_method, hu, hh, hb]
  cases validatedHeaders (headersToZval req.headers) headerMessage <;> rfl

/-- A completion built from a request is recognised as one. -/
lemma dispatchUnawaited_requestToZval (req : HttpRequest) :
    dispatchUnawaited (requestToZval req)
      = (asIgnisRequest (requestToZval req)).map .request := by
  simp only [dispatchUnawaited, requestToZval_method]
  cases asIgnisRequest (requestToZval req) <;> rfl

/-- What the header array holds: only strings, and under exactly the keys of the names. -/
lemma mem_headersToZval {headers : List (PhpString × PhpString)} {k : ArrayKey} {v : Scalar} :
    (k, v) ∈ (headersToZval headers).entries →
      (∃ value, v = .string value) ∧ ∃ h ∈ headers, k = ArrayKey.ofSymtable h.1 := by
  rw [OrdMap.mem_entries_iff, headersToZval]
  suffices H : ∀ a : OrdMap ArrayKey Scalar,
      (headers.foldl (fun a h => a.set (ArrayKey.ofSymtable h.1) (.string h.2)) a).get? k = some v →
        ((∃ value, v = .string value) ∧ ∃ h ∈ headers, k = ArrayKey.ofSymtable h.1)
          ∨ a.get? k = some v by
    intro h
    rcases H ∅ h with h | h
    · exact h
    · simp at h
  induction headers with
  | nil => exact fun a h => Or.inr h
  | cons h rest ih =>
      intro a hget
      rcases ih _ hget with ⟨hv, h', hmem, hk⟩ | hset
      · exact Or.inl ⟨hv, h', List.mem_cons_of_mem _ hmem, hk⟩
      · rw [OrdMap.get?_set] at hset
        split_ifs at hset with hk
        · exact Or.inl ⟨⟨h.2, (Option.some.inj hset).symm⟩, h, List.mem_cons_self, hk⟩
        · exact Or.inr hset

/-- Every name of the list is a key of the array. -/
lemma exists_mem_headersToZval {headers : List (PhpString × PhpString)} {h : PhpString × PhpString}
    (hmem : h ∈ headers) : ∃ v, (ArrayKey.ofSymtable h.1, v) ∈ (headersToZval headers).entries := by
  simp only [OrdMap.mem_entries_iff, headersToZval]
  suffices H : ∀ a : OrdMap ArrayKey Scalar,
      (h ∈ headers ∨ ∃ v, a.get? (ArrayKey.ofSymtable h.1) = some v) →
      ∃ v, (headers.foldl (fun a h => a.set (ArrayKey.ofSymtable h.1) (.string h.2)) a).get?
        (ArrayKey.ofSymtable h.1) = some v from H ∅ (Or.inl hmem)
  clear hmem
  induction headers with
  | nil => exact fun a ha => ha.resolve_left (by simp)
  | cons g rest ih =>
      intro a ha
      refine ih _ ?_
      by_cases hk : ArrayKey.ofSymtable h.1 = ArrayKey.ofSymtable g.1
      · exact Or.inr ⟨_, by rw [OrdMap.get?_set, if_pos hk]⟩
      · rcases ha with ha | ⟨v, hv⟩
        · rcases List.mem_cons.mp ha with rfl | ha
          · exact absurd rfl hk
          · exact Or.inl ha
        · exact Or.inr ⟨v, by rw [OrdMap.get?_set, if_neg hk, hv]⟩

lemma validatedHeaders_headersToZval_iff (headers : List (PhpString × PhpString))
    (message : String) :
    (∃ out, validatedHeaders (headersToZval headers) message = .ok out)
      ↔ ∀ h ∈ headers, handleNumericStr h.1 = none := by
  rw [validatedHeaders_ok_iff]
  constructor
  · intro hall h hmem
    obtain ⟨v, hv⟩ := exists_mem_headersToZval hmem
    obtain ⟨name, value, heq⟩ := hall _ hv
    exact (ArrayKey.ofSymtable_eq_str (Prod.mk.inj heq).1).2
  · rintro hnum ⟨k, v⟩ hmem
    obtain ⟨⟨value, rfl⟩, h, hh, rfl⟩ := mem_headersToZval hmem
    exact ⟨h.1, value, by rw [ArrayKey.ofSymtable_eq_str_iff.mpr (hnum h hh)]⟩

/-- **The requests that reach the loop.**  Whatever the method, the uri, the headers and the body,
dispatching the completion of a request returns normally, with the method, uri and body of the
request, exactly when no header name spells an integer.  For the other requests the validator
throws out of `dispatchEvents()`. -/
theorem dispatchUnawaited_requestToZval_iff (req : HttpRequest) :
    (∃ raw, dispatchUnawaited (requestToZval req) = .ok (.request raw)
        ∧ raw.method = req.method ∧ raw.uri = req.uri ∧ raw.body = req.body)
      ↔ ∀ h ∈ req.headers, handleNumericStr h.1 = none := by
  rw [← validatedHeaders_headersToZval_iff req.headers
    "Ignis\\Loop: a malformed request completion header"]
  rw [dispatchUnawaited_requestToZval, asIgnisRequest, validateRaw_requestToZval]
  cases validatedHeaders (headersToZval req.headers)
      "Ignis\\Loop: a malformed request completion header" with
  | error e => simp [Except.map]
  | ok headers => simp [Except.map]

/-- `GET /` with the single header `123: x`. -/
def numericHeaderRequest : HttpRequest :=
  ⟨bytes "GET", bytes "/", [(bytes "123", bytes "x")], []⟩

/-- The front door accepts the header name `123`, and the request it arrives on kills the loop. -/
theorem dispatchUnawaited_numeric_header_throws :
    (∀ h ∈ numericHeaderRequest.headers, isToken h.1 = true)
      ∧ dispatchUnawaited (requestToZval numericHeaderRequest)
          = .error ⟨.unexpectedValueException,
            "Ignis\\Loop: a malformed request completion header"⟩ :=
  ⟨by decide, rfl⟩

end Ignis
