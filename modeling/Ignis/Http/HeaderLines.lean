import Ignis.Classic.Request
import Ignis.Http.FrontDoor

/-!
# Header lines that reach PHP

A client may send a name more than once: HTTP/2 splits `cookie` into several lines, and a proxy
adds lines of its own.  `request_to_zval` makes a map of the lines, so the last line of a name is
all there is of it, and `$_COOKIE` is made of the last `cookie` line.

`headers_reach_iff` says of a request exactly when every value and every cookie it was sent with
is there: no name comes twice or spells a number, every value is text, and the cookies of the line
agree.
-/

namespace Ignis

/-! ## Decoding keeps the ASCII characters -/

lemma utf8Tail_ranges {b : UInt8} {ranges : List (UInt8 × UInt8)} (h : utf8Tail b = some ranges) :
    (ranges = [] ∨ isAscii b = false) ∧ ∀ range ∈ ranges, isAscii range.1 = false := by
  unfold utf8Tail at h
  split_ifs at h with hb
  · cases h
    simp
  all_goals
    cases h
    refine ⟨.inr (by simpa [isAscii] using hb), ?_⟩
    simp [isAscii]

lemma countP_take_utf8Follow (ranges : List (UInt8 × UInt8)) (s : PhpString)
    (h : ∀ range ∈ ranges, isAscii range.1 = false) :
    (s.take (utf8Follow ranges s).1).countP isAscii = 0 := by
  induction ranges generalizing s with
  | nil => simp [utf8Follow]
  | cons range ranges ih =>
      cases s with
      | nil => simp [utf8Follow]
      | cons c cs =>
          obtain ⟨lo, hi⟩ := range
          have hlo : isAscii lo = false := h (lo, hi) List.mem_cons_self
          by_cases hc : lo ≤ c ∧ c ≤ hi
          · have hcascii : isAscii c = false := by
              simp only [isAscii, decide_eq_false_iff_not, UInt8.not_lt] at hlo ⊢
              exact UInt8.le_trans hlo hc.1
            simp only [utf8Follow, if_pos hc, List.take_succ_cons]
            rw [List.countP_cons_of_neg (by simp [hcascii])]
            exact ih cs fun r hr => h r (List.mem_cons_of_mem _ hr)
          · simp [utf8Follow, if_neg hc]

/-- Decoding neither makes an ASCII character nor loses one. -/
lemma countP_utf8Lossy (fuel : ℕ) (s : PhpString) (hfuel : s.length ≤ fuel) :
    (utf8Lossy fuel s).countP isAscii = s.countP isAscii := by
  induction fuel generalizing s with
  | zero =>
      have hs : s = [] := by simpa using hfuel
      simp [hs, utf8Lossy]
  | succ fuel ih =>
      cases s with
      | nil => simp [utf8Lossy]
      | cons b rest =>
          have hlen : rest.length ≤ fuel := by simpa using hfuel
          have hmark : replacementCharacter.countP isAscii = 0 := by decide
          simp only [utf8Lossy]
          cases htail : utf8Tail b with
          | none =>
              have hb : isAscii b = false := by
                by_contra hb
                simp only [Bool.not_eq_false, isAscii, decide_eq_true_eq] at hb
                simp [utf8Tail, hb] at htail
              rw [List.countP_append, hmark, ih rest hlen,
                List.countP_cons_of_neg (by simp [hb]), Nat.zero_add]
          | some ranges =>
              obtain ⟨hb, hranges⟩ := utf8Tail_ranges htail
              have htake := countP_take_utf8Follow ranges rest hranges
              have hsplit := List.take_append_drop (utf8Follow ranges rest).1 rest
              have hrest : (rest.drop (utf8Follow ranges rest).1).countP isAscii =
                  rest.countP isAscii := by
                conv_rhs => rw [← hsplit, List.countP_append, htake, Nat.zero_add]
              have hdrop := ih (rest.drop (utf8Follow ranges rest).1)
                (by rw [List.length_drop]; omega)
              simp only [List.countP_append, hdrop, hrest]
              split
              case isTrue => simp [List.countP_cons, htake, Nat.add_comm]
              case isFalse hpart =>
                  have hascii : isAscii b = false := by
                    refine hb.resolve_left ?_
                    rintro rfl
                    simp [utf8Follow] at hpart
                  simp [hmark, hascii]

lemma countP_fromUtf8Lossy (s : PhpString) :
    (fromUtf8Lossy s).countP isAscii = s.countP isAscii :=
  countP_utf8Lossy s.length s (Nat.le_refl _)

/-! ## What a name holds -/

/-- The values a name was sent with, in order. -/
def Incoming.values (r : Incoming) (name : PhpString) : List PhpString :=
  (r.headers.filter fun h => h.1 = name).map Prod.snd

/-- The text is the values, one after the other, with an ASCII separator between them. -/
def Joined (values : List PhpString) (text : PhpString) : Prop :=
  ∃ sep : PhpString, sep ≠ [] ∧ sep.all isAscii ∧ text = sep.intercalate values

lemma countP_getLast_le {values : List PhpString} {last : PhpString}
    (hlast : values.getLast? = some last) (sep : PhpString) :
    last.countP isAscii ≤ (sep.intercalate values).countP isAscii := by
  induction values with
  | nil => simp at hlast
  | cons v values ih =>
      cases values with
      | nil =>
          obtain rfl : v = last := by simpa using hlast
          simp
      | cons w values =>
          have hle := ih (by simpa using hlast)
          rw [List.intercalate_cons_cons, List.countP_append, List.countP_append]
          omega

/-- A decoded last value holds the values that were sent only if it is the only one. -/
lemma joined_fromUtf8Lossy_iff {values : List PhpString} {last : PhpString}
    (hlast : values.getLast? = some last) :
    Joined values (fromUtf8Lossy last) ↔ values = [last] ∧ fromUtf8Lossy last = last := by
  constructor
  · rintro ⟨sep, hsep, hascii, htext⟩
    match values with
    | [] => simp at hlast
    | [v] =>
        obtain rfl : v = last := by simpa using hlast
        exact ⟨rfl, by simpa using htext⟩
    | v :: w :: values =>
        have hle := @countP_getLast_le (w :: values) last (by simpa using hlast) sep
        have hpos : 0 < sep.countP isAscii := by
          rw [List.countP_eq_length.mpr (by simpa using hascii)]
          exact List.length_pos_iff.mpr hsep
        have hcount := congrArg (List.countP isAscii) htext
        rw [countP_fromUtf8Lossy, List.intercalate_cons_cons, List.countP_append,
          List.countP_append] at hcount
        omega
  · rintro ⟨rfl, htext⟩
    exact ⟨[44], by simp, by decide, by simpa using htext⟩

lemma Incoming.lastHeader_eq (r : Incoming) (name : PhpString) :
    r.lastHeader name = (r.values name).getLast? := by
  rw [Incoming.lastHeader, Incoming.values, ← List.head?_filter, List.filter_reverse,
    List.head?_reverse, List.getLast?_map]

lemma Incoming.length_values (r : Incoming) (name : PhpString) :
    (r.values name).length = (r.headers.map Prod.fst).count name := by
  rw [Incoming.values, List.length_map, List.count, List.countP_map, ← List.countP_eq_length_filter]
  exact List.countP_congr fun h _ => by simp

lemma Incoming.mem_values {r : Incoming} {h : PhpString × PhpString} (hmem : h ∈ r.headers) :
    h.2 ∈ r.values h.1 :=
  List.mem_map_of_mem (List.mem_filter.mpr ⟨hmem, by simp⟩)

/-! ## Requests that arrive whole -/

/-- The cookies of a line. -/
def cookiesOf (line : PhpString) : List (ArrayKey × Classic.Value) :=
  (Classic.explode 59 line).filterMap Classic.cookieOf

/-- Every value and every cookie of the request is in what the handler is given. -/
structure Reaches (parsers : Classic.Parsers) (time : ℤ) (microtime : ℚ) (r : Incoming)
    (raw : IgnisRequest) : Prop where
  headers : ∀ h ∈ r.headers, ∃ text, raw.headers.get? h.1 = some text ∧
    Joined (r.values h.1) text
  cookies : ∀ line ∈ r.values (bytes "cookie"), ∀ e ∈ cookiesOf line,
    (Classic.superglobals parsers time microtime raw).cookie.get? e.1 = some e.2

/-- No name comes twice or spells a number, every value is text, and no cookie comes with two
values. -/
structure Plain (r : Incoming) : Prop where
  once : (r.headers.map Prod.fst).Nodup
  text : ∀ h ∈ r.headers, handleNumericStr h.1 = none ∧ fromUtf8Lossy h.2 = h.2
  cookies : ∀ line ∈ r.values (bytes "cookie"), ∀ e ∈ cookiesOf line, ∀ e' ∈ cookiesOf line,
    e.1 = e'.1 → e.2 = e'.2

lemma dispatchUnawaited_eq_request_iff {r : Incoming} {raw : IgnisRequest} :
    dispatchUnawaited (requestToZval r.delivered) = .ok (.request raw) ↔
      asIgnisRequest (requestToZval r.delivered) = .ok raw := by
  rw [dispatchUnawaited_requestToZval]
  cases asIgnisRequest (requestToZval r.delivered) <;> simp [Except.map]

/-- A request is let through when no name spells a number. -/
lemma exists_asIgnisRequest_iff (r : Incoming) :
    (∃ raw, asIgnisRequest (requestToZval r.delivered) = .ok raw) ↔
      ∀ h ∈ r.headers, handleNumericStr h.1 = none := by
  have hnames : (∀ h ∈ r.delivered.headers, handleNumericStr h.1 = none) ↔
      ∀ h ∈ r.headers, handleNumericStr h.1 = none := by
    rw [Incoming.delivered, requestParts, List.forall_mem_map]
  rw [← hnames, ← validatedHeaders_headersToZval_iff r.delivered.headers
    "Ignis\\Loop: a malformed request completion header", asIgnisRequest, validateRaw_requestToZval]
  cases validatedHeaders (headersToZval r.delivered.headers)
    "Ignis\\Loop: a malformed request completion header" <;> simp [Except.map]

/-- What a name holds, and when that is all of it. -/
lemma joined_header_iff {r : Incoming} {raw : IgnisRequest}
    (hraw : asIgnisRequest (requestToZval r.delivered) = .ok raw) {h : PhpString × PhpString}
    (hmem : h ∈ r.headers) :
    (∃ text, raw.headers.get? h.1 = some text ∧ Joined (r.values h.1) text) ↔
      r.values h.1 = [h.2] ∧ fromUtf8Lossy h.2 = h.2 := by
  have hnum := (exists_asIgnisRequest_iff r).mp ⟨raw, hraw⟩ h hmem
  have hvalue := Incoming.mem_values hmem
  obtain ⟨last, hlast⟩ : ∃ last, (r.values h.1).getLast? = some last :=
    ⟨_, List.getLast?_eq_some_getLast (List.ne_nil_of_mem hvalue)⟩
  have hget : raw.headers.get? h.1 = some (fromUtf8Lossy last) := by
    rw [get?_headers_of_asIgnisRequest hraw hnum, Incoming.lastHeader_eq, hlast, Option.map_some]
  have hjoined := joined_fromUtf8Lossy_iff hlast
  constructor
  · rintro ⟨text, htext, htextJoined⟩
    obtain rfl := Option.some.inj (hget.symm.trans htext)
    obtain ⟨hvalues, hdecoded⟩ := hjoined.mp htextJoined
    obtain rfl : h.2 = last := by simpa [hvalues] using hvalue
    exact ⟨hvalues, hdecoded⟩
  · rintro ⟨hvalues, hdecoded⟩
    obtain rfl : h.2 = last := by simpa [hvalues] using hlast
    exact ⟨fromUtf8Lossy h.2, hget, hjoined.mpr ⟨hvalues, hdecoded⟩⟩

/-- A name comes once exactly when each line is all there is of its name. -/
lemma nodup_names_iff (r : Incoming) :
    (r.headers.map Prod.fst).Nodup ↔ ∀ h ∈ r.headers, r.values h.1 = [h.2] := by
  rw [List.nodup_iff_count_le_one]
  constructor
  · intro hcount h hmem
    have hle := hcount h.1
    rw [← Incoming.length_values] at hle
    have hvalue := Incoming.mem_values hmem
    match hvalues : r.values h.1 with
    | [] => simp [hvalues] at hvalue
    | [v] => simpa [hvalues, eq_comm] using hvalue
    | _ :: _ :: _ => simp [hvalues] at hle
  · intro hone name
    by_cases hname : name ∈ r.headers.map Prod.fst
    · obtain ⟨h, hmem, rfl⟩ := List.mem_map.mp hname
      rw [← Incoming.length_values, hone h hmem, List.length_singleton]
    · rw [List.count_eq_zero.mpr hname]
      exact Nat.zero_le 1

/-- `$_COOKIE` is made of what the request holds under `cookie`. -/
lemma cookies_reach_iff {r : Incoming} {raw : IgnisRequest}
    (hraw : asIgnisRequest (requestToZval r.delivered) = .ok raw)
    (hheaders : ∀ h ∈ r.headers, r.values h.1 = [h.2] ∧ fromUtf8Lossy h.2 = h.2)
    (parsers : Classic.Parsers) (time : ℤ) (microtime : ℚ) {line : PhpString}
    (hline : line ∈ r.values (bytes "cookie")) :
    (∀ e ∈ cookiesOf line,
        (Classic.superglobals parsers time microtime raw).cookie.get? e.1 = some e.2) ↔
      ∀ e ∈ cookiesOf line, ∀ e' ∈ cookiesOf line, e.1 = e'.1 → e.2 = e'.2 := by
  obtain ⟨h, hmem, rfl⟩ := List.mem_map.mp hline
  obtain ⟨hmem, hname⟩ := List.mem_filter.mp hmem
  have hname : h.1 = bytes "cookie" := of_decide_eq_true hname
  obtain ⟨hvalues, hdecoded⟩ := hheaders h hmem
  have hnum := (exists_asIgnisRequest_iff r).mp ⟨raw, hraw⟩ h hmem
  have hget : raw.headers.get? (bytes "cookie") = some h.2 := by
    rw [← hname, get?_headers_of_asIgnisRequest hraw hnum, Incoming.lastHeader_eq, hvalues,
      List.getLast?_singleton, Option.map_some, hdecoded]
  have hcookie : (Classic.superglobals parsers time microtime raw).cookie =
      OrdMap.ofList (cookiesOf h.2) := by
    simp only [Classic.superglobals, hget, Option.getD_some]
    rfl
  rw [hcookie]
  exact OrdMap.get?_ofList_iff

/-- **The requests that arrive whole.** -/
theorem headers_reach_iff (parsers : Classic.Parsers) (time : ℤ) (microtime : ℚ) (r : Incoming) :
    (∃ raw, dispatchUnawaited (requestToZval r.delivered) = .ok (.request raw) ∧
      Reaches parsers time microtime r raw) ↔ Plain r := by
  constructor
  · rintro ⟨raw, hraw, hreaches⟩
    rw [dispatchUnawaited_eq_request_iff] at hraw
    have hheaders := fun h hmem => (joined_header_iff hraw hmem).mp (hreaches.headers h hmem)
    refine ⟨(nodup_names_iff r).mpr fun h hmem => (hheaders h hmem).1, fun h hmem => ?_,
      fun line hline => ?_⟩
    · exact ⟨(exists_asIgnisRequest_iff r).mp ⟨raw, hraw⟩ h hmem, (hheaders h hmem).2⟩
    · exact (cookies_reach_iff hraw hheaders parsers time microtime hline).mp
        (hreaches.cookies line hline)
  · intro hplain
    obtain ⟨raw, hraw⟩ := (exists_asIgnisRequest_iff r).mpr fun h hmem => (hplain.text h hmem).1
    have hheaders : ∀ h ∈ r.headers, r.values h.1 = [h.2] ∧ fromUtf8Lossy h.2 = h.2 :=
      fun h hmem => ⟨(nodup_names_iff r).mp hplain.once h hmem, (hplain.text h hmem).2⟩
    refine ⟨raw, dispatchUnawaited_eq_request_iff.mpr hraw, fun h hmem => ?_, fun line hline => ?_⟩
    · exact (joined_header_iff hraw hmem).mpr (hheaders h hmem)
    · exact (cookies_reach_iff hraw hheaders parsers time microtime hline).mpr
        (hplain.cookies line hline)

/-- `GET /` with its cookies on two lines. -/
def splitCookieRequest : Incoming :=
  ⟨bytes "GET", bytes "/", [(bytes "cookie", bytes "a=1"), (bytes "cookie", bytes "b=2")], []⟩

/-- The readers of forms, on a request that has neither a query nor a body. -/
def noForms : Classic.Parsers where
  parseStr := fun _ => ∅
  multipart := fun _ _ => none

/-- The handler is given the second line, and `$_COOKIE` has no `a`. -/
theorem split_cookie_lost : ∃ raw,
    dispatchUnawaited (requestToZval splitCookieRequest.delivered) = .ok (.request raw) ∧
    raw.headers.get? (bytes "cookie") = some (bytes "b=2") ∧
    (Classic.superglobals noForms 0 0 raw).cookie.get? (.str (bytes "a")) = none ∧
    ¬ Reaches noForms 0 0 splitCookieRequest raw := by
  refine ⟨_, rfl, by decide, rfl, fun hreaches => ?_⟩
  have hcookie := hreaches.cookies (bytes "a=1") (by decide) (.str (bytes "a"), .string (bytes "1"))
    (List.mem_filterMap.mpr ⟨bytes "a=1", by decide, rfl⟩)
  cases hcookie

end Ignis
