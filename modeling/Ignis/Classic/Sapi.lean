import Ignis.Classic.Request

/-!
# What a thread keeps for its script

The output buffers, the header table, `$_REQUEST` and the session belong to the thread, and classic
mode leaves them there between requests: `Runner::reset()` clears what the last one left,
`Runner::response()` reads the answer off them.  The buffers are given with the top one first.

`reset` brings every thread to the same state, `clean`, as long as the buffers above the runner's
own can be removed (`reset_eq`).  Output callbacks are not modelled.
-/

namespace Ignis

namespace Classic

/-! ## Output buffers -/

structure Buffer where
  content : PhpString
  cleanable : Bool
  flushable : Bool
  removable : Bool
  deriving DecidableEq, Repr

/-- `ob_start(null, 0, PHP_OUTPUT_HANDLER_CLEANABLE)`, the buffer of the runner. -/
def bottom : Buffer := ⟨[], true, false, false⟩

/-- `echo`; without a buffer the bytes go to the process's own output. -/
def echo (s : PhpString) : List Buffer → List Buffer
  | [] => []
  | b :: bs => { b with content := b.content ++ s } :: bs

def obClean : List Buffer → List Buffer
  | [] => []
  | b :: bs => (if b.cleanable then { b with content := [] } else b) :: bs

def obEndClean : List Buffer → List Buffer
  | [] => []
  | b :: bs => if b.removable then bs else b :: bs

def obEndFlush : List Buffer → List Buffer
  | [] => []
  | b :: bs => if b.removable then echo b.content bs else b :: bs

def obFlush : List Buffer → List Buffer
  | [] => []
  | b :: bs => if b.flushable then { b with content := [] } :: echo b.content bs else b :: bs

/-- `(string) ob_get_contents()`. -/
def obGetContents : List Buffer → PhpString
  | [] => []
  | b :: _ => b.content

/-- `while (ob_get_level() > 1 && @ob_end_clean())`. -/
def endCleanAbove : List Buffer → List Buffer
  | b :: c :: bs => if b.removable then endCleanAbove (c :: bs) else b :: c :: bs
  | bs => bs

/-- `while (ob_get_level() > 1 && @ob_end_flush())`, for the top buffer and those below it. -/
def endFlushFrom (b : Buffer) : List Buffer → List Buffer
  | [] => [b]
  | c :: bs =>
      if b.removable then endFlushFrom { c with content := c.content ++ b.content } bs
      else b :: c :: bs

def endFlushAbove : List Buffer → List Buffer
  | [] => []
  | b :: bs => endFlushFrom b bs

/-! ## Headers -/

/-- `SG(sapi_headers)`: the lines, the code, and the status line of a `header('HTTP/...')`. -/
structure HeaderTable where
  lines : List PhpString
  code : ℕ
  statusLine : Option PhpString
  deriving DecidableEq, Repr

def lower (b : UInt8) : UInt8 := if 65 ≤ b && b ≤ 90 then b + 32 else b

/-- A line with the name, in any spelling. -/
def named (name line : PhpString) : Bool :=
  (line.take name.length).map lower == name.map lower && (line.drop name.length).head? == some 58

/-- `sapi_update_response_code`: only another code frees the status line. -/
def updateCode (code : ℕ) (t : HeaderTable) : HeaderTable :=
  if t.code = code then t else { t with code := code, statusLine := none }

/-- The code in a status line: the number after the first blanks, else 200. -/
def extractCode (line : PhpString) : ℕ :=
  match splitAt 32 line with
  | (_, none) => 200
  | (_, some rest) => digitsValue ((rest.dropWhile fun b => b = 32).takeWhile isDigit)

/-- `header($line, $replace, $code)`, with the line as PHP stores it and 0 for no code. -/
def header (line : PhpString) (replace : Bool) (code : ℕ) (t : HeaderTable) : HeaderTable :=
  if (line.take 5).map toUpper = bytes "HTTP/" then
    { updateCode (extractCode line) t with statusLine := some line }
  else
    let redirected :=
      if named (bytes "Location") line && !(300 ≤ t.code && t.code ≤ 399) && t.code != 201 then
        updateCode 302 t
      else if named (bytes "WWW-Authenticate") line then updateCode 401 t
      else t
    let coded := if code = 0 then redirected else updateCode code redirected
    let kept :=
      match splitAt 58 line with
      | (name, some _) =>
          if replace then coded.lines.filter fun l => !named name l else coded.lines
      | (_, none) => coded.lines
    { coded with lines := kept ++ [line] }

/-- `header_remove($name)`, and without a name. -/
def headerRemove (name : Option PhpString) (t : HeaderTable) : HeaderTable :=
  match name with
  | none => { t with lines := [] }
  | some name => { t with lines := t.lines.filter fun l => !named name l }

/-- `http_response_code($code)`. -/
def httpResponseCode (code : ℕ) (t : HeaderTable) : HeaderTable :=
  if code = 0 then t else { t with code := code }

/-- `parseHeaderLines`. -/
def parseHeaderLines (lines : List PhpString) : OrdMap ArrayKey (List PhpString) :=
  lines.foldl (fun map line =>
    match splitAt 58 line with
    | (_, none) => map
    | ([], _) => map
    | (name, some value) =>
        let k := ArrayKey.ofSymtable (trim name)
        map.set k ((map.get? k).getD [] ++ [value.dropWhile isBlank])) ∅

/-! ## The thread -/

structure Session where
  active : Bool
  id : PhpString
  /-- `$_SESSION`. -/
  data : Option PhpArray

structure Sapi where
  buffers : List Buffer
  headers : HeaderTable
  request : PhpArray
  session : Session

/-- The settings that `Runner` reads. -/
structure Settings where
  /-- `expose_php`: the line of `X-Powered-By`. -/
  poweredBy : Option PhpString
  /-- `default_mimetype` and `default_charset`. -/
  defaultContentType : PhpString
  /-- The session extension is there and `session.use_cookies` is 0. -/
  sessions : Bool
  /-- The line that `setcookie` adds for a session id. -/
  sessionCookie : PhpString → PhpString

structure Response where
  body : PhpString
  status : ℕ
  headers : OrdMap ArrayKey (List PhpString)

/-- `clearStatusLine`. -/
def clearStatusLine (t : HeaderTable) : HeaderTable :=
  headerRemove (some (bytes "X-Ignis"))
    (header (bytes "X-Ignis: reset") true 200 (header (bytes "X-Ignis: reset") true 599 t))

/-- `ensureRemovableOutputBuffer`. -/
def ensureBuffer : List Buffer → List Buffer
  | [] => [bottom]
  | bs => bs

/-- `reset`, less the flag of the fiber. -/
def reset (cfg : Settings) (s : Sapi) : Sapi :=
  let headers := clearStatusLine (headerRemove none s.headers)
  { s with
    buffers := obClean (endCleanAbove (ensureBuffer s.buffers))
    headers :=
      match cfg.poweredBy with
      | some line => header line true 0 headers
      | none => headers }

/-- `response`. -/
def response (cfg : Settings) (s : Sapi) : Sapi × Response :=
  let buffers := endFlushAbove s.buffers
  let map := parseHeaderLines s.headers.lines
  let typed := map.keys.any fun k =>
    match k with
    | .str name => name.map lower == bytes "content-type"
    | .int _ => false
  ({ s with buffers := buffers },
    { body := obGetContents buffers
      status := if 100 ≤ s.headers.code then s.headers.code else 200
      headers :=
        if typed then map
        else map.set (.str (bytes "Content-Type")) [cfg.defaultContentType] })

/-- `sessionBegin`, with the cookie of the request: the id that the client brought. -/
def sessionBegin (cfg : Settings) (cookie : PhpString) (s : Sapi) : Sapi × Option PhpString :=
  if cfg.sessions then
    ({ s with
        session :=
          { s.session with
            data := none
            -- an active session keeps its id
            id := if s.session.active then s.session.id else cookie } }, some cookie)
  else (s, none)

/-- `sessionEnd`. -/
def sessionEnd (cfg : Settings) (cookie : Option PhpString) (s : Sapi) : Sapi :=
  match cookie with
  | none => s
  | some cookie =>
      if s.session.active then
        let closed := { s with session := { s.session with active := false } }
        if s.session.id = cookie then closed
        else { closed with
                headers := header (cfg.sessionCookie s.session.id) false 0 closed.headers }
      else s

/-! ## The clean state -/

/-- What `reset` is to leave, apart from `$_REQUEST` and the session. -/
def cleanHeaders (cfg : Settings) : HeaderTable :=
  match cfg.poweredBy with
  | some line => header line true 0 ⟨[], 200, none⟩
  | none => ⟨[], 200, none⟩

/-- The buffers that `reset` can bring down to an empty one of the runner's. -/
def Resettable : List Buffer → Prop
  | [] => True
  | [b] => { b with content := [] } = bottom
  | b :: bs => b.removable = true ∧ Resettable bs

instance : ∀ bs, Decidable (Resettable bs)
  | [] => isTrue trivial
  | [b] => inferInstanceAs (Decidable ({ b with content := [] } = bottom))
  | b :: c :: bs =>
      have := instDecidableResettable (c :: bs)
      inferInstanceAs (Decidable (b.removable = true ∧ Resettable (c :: bs)))

/-! ## What `reset` leaves -/

lemma clean_of_resettable {bs : List Buffer} (h : Resettable bs) :
    obClean (endCleanAbove (ensureBuffer bs)) = [bottom] := by
  have hnonempty : ∀ bs, bs ≠ [] → Resettable bs → obClean (endCleanAbove bs) = [bottom] := by
    intro bs hne hbs
    induction bs with
    | nil => exact absurd rfl hne
    | cons b bs ih =>
        cases bs with
        | nil =>
            have hb : { b with content := [] } = bottom := hbs
            have hcleanable : b.cleanable = true := congrArg Buffer.cleanable hb
            show [if b.cleanable then { b with content := [] } else b] = _
            rw [if_pos hcleanable, hb]
        | cons c bs =>
            rw [endCleanAbove, if_pos hbs.1]
            exact ih (by simp) hbs.2
  cases bs with
  | nil => rfl
  | cons b bs => exact hnonempty (b :: bs) (by simp) h

lemma lines_updateCode (code : ℕ) (t : HeaderTable) : (updateCode code t).lines = t.lines := by
  rw [updateCode]
  split_ifs <;> rfl

lemma header_xIgnis {code : ℕ} (hcode : code ≠ 0) (t : HeaderTable) :
    header (bytes "X-Ignis: reset") true code t =
      { updateCode code t with
        lines := (t.lines.filter fun l => !named (bytes "X-Ignis") l) ++
          [bytes "X-Ignis: reset"] } := by
  have hhttp : ((bytes "X-Ignis: reset").take 5).map toUpper ≠ bytes "HTTP/" := by decide
  have hlocation : named (bytes "Location") (bytes "X-Ignis: reset") = false := by decide
  have hauth : named (bytes "WWW-Authenticate") (bytes "X-Ignis: reset") = false := by decide
  have hsplit : splitAt 58 (bytes "X-Ignis: reset") = (bytes "X-Ignis", some (bytes " reset")) := by
    decide
  rw [header, if_neg hhttp]
  simp [hlocation, hauth, hcode, hsplit, lines_updateCode]

/-- Whatever the code was, one of the two changes frees the status line. -/
lemma updateCode_reset (t : HeaderTable) (lines lines' : List PhpString) :
    ({ updateCode 200 { updateCode 599 t with lines := lines } with lines := lines' } : HeaderTable)
      = ⟨lines', 200, none⟩ := by
  by_cases h : t.code = 599
  · simp [updateCode, h]
  · simp [updateCode, h]

lemma clearStatusLine_eq (t : HeaderTable) :
    clearStatusLine (headerRemove none t) = ⟨[], 200, none⟩ := by
  have hnamed : named (bytes "X-Ignis") (bytes "X-Ignis: reset") = true := by decide
  rw [clearStatusLine, header_xIgnis (by decide), header_xIgnis (by decide), updateCode_reset]
  simp [headerRemove, hnamed]

/-- From a state that can be reset, nothing is left of it but `$_REQUEST` and the session. -/
lemma reset_eq {cfg : Settings} {s : Sapi} (h : Resettable s.buffers) :
    reset cfg s = ⟨[bottom], cleanHeaders cfg, s.request, s.session⟩ := by
  rw [reset, clean_of_resettable h, clearStatusLine_eq, cleanHeaders]

end Classic

end Ignis
