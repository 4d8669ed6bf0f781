import Mathlib.Data.List.Induction
import Ignis.Http.Request

/-!
# Requests at the front door

hyper hands `http.rs` a method, a uri and a header map whose values are bytes.  Two things are read
off the headers before PHP sees the request.  `is_grpc` looks at the first `content-type`, as text,
and decides which of the two front doors serves the request; `request_parts` turns every value into
a Rust string, lossily, and this list is what `request_to_zval` makes a PHP array of.
-/

namespace Ignis

/-! ## `String::from_utf8_lossy` -/

/-- The bytes that may follow the first byte of a character, as ranges; `none` for a byte that
begins no character. -/
def utf8Tail (b : UInt8) : Option (List (UInt8 × UInt8)) :=
  if b < 0x80 then some []
  else if 0xC2 ≤ b ∧ b ≤ 0xDF then some [(0x80, 0xBF)]
  else if b = 0xE0 then some [(0xA0, 0xBF), (0x80, 0xBF)]
  else if b = 0xED then some [(0x80, 0x9F), (0x80, 0xBF)]
  else if 0xE1 ≤ b ∧ b ≤ 0xEF then some [(0x80, 0xBF), (0x80, 0xBF)]
  else if b = 0xF0 then some [(0x90, 0xBF), (0x80, 0xBF), (0x80, 0xBF)]
  else if 0xF1 ≤ b ∧ b ≤ 0xF3 then some [(0x80, 0xBF), (0x80, 0xBF), (0x80, 0xBF)]
  else if b = 0xF4 then some [(0x80, 0x8F), (0x80, 0xBF), (0x80, 0xBF)]
  else none

/-- How many of the bytes fit the ranges, and whether all ranges are used up. -/
def utf8Follow : List (UInt8 × UInt8) → PhpString → ℕ × Bool
  | [], _ => (0, true)
  | _ :: _, [] => (0, false)
  | (lo, hi) :: ranges, c :: cs =>
      if lo ≤ c ∧ c ≤ hi then
        let (n, complete) := utf8Follow ranges cs
        (n + 1, complete)
      else (0, false)

/-- U+FFFD. -/
def replacementCharacter : PhpString := [0xEF, 0xBF, 0xBD]

/-- The decoder, with a bound on the characters it reads. -/
def utf8Lossy : ℕ → PhpString → PhpString
  | 0, _ | _, [] => []
  | fuel + 1, b :: rest =>
      match utf8Tail b with
      | none => replacementCharacter ++ utf8Lossy fuel rest
      | some ranges =>
          let (n, complete) := utf8Follow ranges rest
          (if complete then b :: rest.take n else replacementCharacter)
            ++ utf8Lossy fuel (rest.drop n)

/-- `String::from_utf8_lossy`: every maximal piece of a character that cannot be completed becomes
one U+FFFD. -/
def fromUtf8Lossy (s : PhpString) : PhpString := utf8Lossy s.length s

/-- A byte that is a character by itself. -/
def isAscii (b : UInt8) : Bool := b < 0x80

/-- What the decoder begins with: the first byte itself if it is ASCII, and otherwise a byte that is
not. -/
lemma utf8Lossy_cons (fuel : ℕ) (b : UInt8) (rest : PhpString) :
    (isAscii b = true → utf8Lossy (fuel + 1) (b :: rest) = b :: utf8Lossy fuel rest)
      ∧ (isAscii b = false →
        ∃ c cs, utf8Lossy (fuel + 1) (b :: rest) = c :: cs ∧ isAscii c = false) := by
  constructor
  · intro hb
    have hlt : b < 0x80 := of_decide_eq_true hb
    simp [utf8Lossy, utf8Tail, hlt, utf8Follow]
  · intro hb
    simp only [utf8Lossy]
    split
    · exact ⟨0xEF, _, rfl, rfl⟩
    · split
      · exact ⟨b, _, rfl, hb⟩
      · exact ⟨0xEF, _, rfl, rfl⟩

/-- Decoding keeps ASCII: a text of ASCII characters begins the decoded string exactly when it
begins the bytes. -/
lemma isPrefixOf_utf8Lossy (p : PhpString) (hp : p.all isAscii = true) (s : PhpString) (fuel : ℕ)
    (hfuel : s.length ≤ fuel) : p.isPrefixOf (utf8Lossy fuel s) = p.isPrefixOf s := by
  induction p generalizing s fuel with
  | nil => simp
  | cons a p ih =>
      simp only [List.all_cons, Bool.and_eq_true] at hp
      cases s with
      | nil => cases fuel <;> simp [utf8Lossy]
      | cons b rest =>
          cases fuel with
          | zero => simp at hfuel
          | succ fuel =>
              have hlen : rest.length ≤ fuel := by simpa using hfuel
              obtain ⟨hascii, hother⟩ := utf8Lossy_cons fuel b rest
              cases hb : isAscii b with
              | true => rw [hascii hb, List.isPrefixOf, List.isPrefixOf, ih hp.2 rest fuel hlen]
              | false =>
                  obtain ⟨c, cs, heq, hc⟩ := hother hb
                  have hab : (a == b) = false := by
                    rw [beq_eq_false_iff_ne]
                    rintro rfl
                    rw [hb] at hp
                    cases hp.1
                  have hac : (a == c) = false := by
                    rw [beq_eq_false_iff_ne]
                    rintro rfl
                    rw [hc] at hp
                    cases hp.1
                  simp [heq, List.isPrefixOf, hab, hac]

/-! ## The request head -/

/-- `http::Request` as hyper parsed it.  `headers` is the header map in its own order, in which the
values of one name follow each other in the order they arrived. -/
structure Incoming where
  method : PhpString
  uri : PhpString
  headers : List (PhpString × PhpString)
  body : PhpString
  deriving DecidableEq, Repr

/-- `HeaderMap::get`: the first value of a name. -/
def Incoming.header (r : Incoming) (name : PhpString) : Option PhpString :=
  (r.headers.find? fun h => h.1 = name).map Prod.snd

/-- `HeaderValue::to_str`: the value, if it is visible ASCII. -/
def toStr (value : PhpString) : Option PhpString :=
  if value.all fun b => (32 ≤ b && b < 127) || b = 9 then some value else none

def contentType : PhpString := bytes "content-type"

def applicationGrpc : PhpString := bytes "application/grpc"

/-- `grpc::is_grpc`. -/
def isGrpc (r : Incoming) : Bool :=
  r.method = bytes "POST" &&
    ((r.header contentType).bind toStr).any fun ct => applicationGrpc.isPrefixOf ct

/-- `request_parts`: the header pairs that PHP sees. -/
def requestParts (r : Incoming) : List (PhpString × PhpString) :=
  r.headers.map fun h => (h.1, fromUtf8Lossy h.2)

/-- The request `handle` and `PhpGrpc::call` deliver; the gRPC door names the method itself.  Its
body is the message tonic has taken out of its frame. -/
def Incoming.delivered (r : Incoming) : HttpRequest where
  method := if isGrpc r then bytes "POST" else r.method
  uri := r.uri
  headers := requestParts r
  body := r.body

/-! ## What PHP reads -/

/-- The last value of a name: what the header array holds under it. -/
def Incoming.lastHeader (r : Incoming) (name : PhpString) : Option PhpString :=
  (r.headers.reverse.find? fun h => h.1 = name).map Prod.snd

lemma get?_headersToZval (headers : List (PhpString × PhpString)) {name : PhpString}
    (hname : handleNumericStr name = none) :
    (headersToZval headers).get? (.str name)
      = ((headers.reverse.find? fun h => h.1 = name).map Prod.snd).map Scalar.string := by
  unfold headersToZval
  induction headers using List.reverseRecOn with
  | nil => simp
  | append_singleton rest h ih =>
      have hkey : .str name = ArrayKey.ofSymtable h.1 ↔ h.1 = name := by
        constructor
        · intro he
          exact (ArrayKey.ofSymtable_eq_str he.symm).1.symm
        · rintro rfl
          exact (ArrayKey.ofSymtable_eq_str_iff.mpr hname).symm
      rw [List.foldl_append, List.foldl_cons, List.foldl_nil, OrdMap.get?_set, ih]
      by_cases hh : h.1 = name
      · rw [if_pos (hkey.mpr hh)]
        simp [hh]
      · rw [if_neg (mt hkey.mp hh)]
        simp [hh]

/-- The validator copies what it accepts. -/
lemma get?_validatedHeaders {headers : OrdMap ArrayKey Scalar} {message : String}
    {out : OrdMap PhpString PhpString} (h : validatedHeaders headers message = .ok out)
    (name : PhpString) : (out.get? name).map Scalar.string = headers.get? (.str name) := by
  have hnd := headers.nodup
  have hempty : headers.get? (.str name) = (OrdMap.lookup (.str name) headers.entries).or
      (((∅ : OrdMap PhpString PhpString).get? name).map Scalar.string) := by
    rw [OrdMap.get?_empty, Option.map_none, Option.or_none, OrdMap.get?]
  rw [hempty]
  unfold validatedHeaders at h
  -- the fold writes each entry over what it had; no key comes twice
  generalize (∅ : OrdMap PhpString PhpString) = out₀ at h ⊢
  generalize headers.entries = l at h hnd ⊢
  induction l generalizing out₀ with
  | nil =>
      simp only [List.foldlM_nil, pure, Except.pure, Except.ok.injEq] at h
      simp [OrdMap.lookup, h]
  | cons entry rest ih =>
      obtain ⟨hnew, hrest⟩ := List.nodup_cons.mp hnd
      rcases entry with ⟨n | key, _ | n' | value⟩
      all_goals simp only [List.foldlM_cons, bind, Except.bind, reduceCtorEq] at h
      rw [ih _ h hrest]
      by_cases hk : key = name
      · subst hk
        have hnone : OrdMap.lookup (.str key) rest = none := by
          by_contra hsome
          obtain ⟨v, hv⟩ := Option.ne_none_iff_exists'.mp hsome
          exact hnew (List.mem_map.mpr ⟨_, OrdMap.mem_of_lookup hv, rfl⟩)
        simp [OrdMap.lookup, hnone]
      · simp [OrdMap.lookup, hk, OrdMap.get?_set, Ne.symm hk]

/-- What the loop's `Request` has under a header name that is not a number: the last value that
arrived, decoded. -/
theorem get?_headers_of_asIgnisRequest {r : Incoming} {raw : IgnisRequest}
    (h : asIgnisRequest (requestToZval r.delivered) = .ok raw) {name : PhpString}
    (hname : handleNumericStr name = none) :
    raw.headers.get? name = (r.lastHeader name).map fromUtf8Lossy := by
  rw [asIgnisRequest, validateRaw_requestToZval] at h
  cases hv : validatedHeaders (headersToZval r.delivered.headers)
      "Ignis\\Loop: a malformed request completion header" with
  | error e => simp [hv, Except.map] at h
  | ok out =>
      simp only [hv, Except.map, Except.ok.injEq] at h
      subst h
      have hget := (get?_validatedHeaders hv name).trans (get?_headersToZval _ hname)
      have hfind : ∀ l : List (PhpString × PhpString),
          ((l.map fun h => (h.1, fromUtf8Lossy h.2)).find? fun h => h.1 = name).map Prod.snd
            = ((l.find? fun h => h.1 = name).map Prod.snd).map fromUtf8Lossy := by
        intro l
        rw [List.find?_map]
        simp [Function.comp_def, Option.map_map]
      have hlast : ((r.delivered.headers.reverse.find? fun h => h.1 = name).map Prod.snd)
          = (r.lastHeader name).map fromUtf8Lossy := by
        rw [Incoming.lastHeader, ← hfind, List.map_reverse]
        rfl
      rw [hlast] at hget
      exact Option.map_injective (fun _ _ => Scalar.string.inj) hget

end Ignis
