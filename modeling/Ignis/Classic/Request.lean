import Mathlib.Data.Rat.Defs
import Ignis.Http.Request

/-!
# A request as a classic script sees it

`Http\Request::superglobals()` makes `$_SERVER`, `$_GET`, `$_POST` and `$_COOKIE` of a request, and
`Classic\Runner` finds the script for its path (`resolve`) and adds what a web server tells a script
(`server`).  `parse_str`, and the reading of a multipart body as a query string that goes before it,
are parameters (`Parsers`): the modules above only need that they are functions.
-/

namespace Ignis

namespace Classic

/-- A PHP value in a superglobal. -/
inductive Value where
  | string (s : PhpString)
  | int (n : ℤ)
  | float (x : ℚ)
  | array (entries : List (ArrayKey × Value))
  deriving Inhabited

abbrev PhpArray := OrdMap ArrayKey Value

/-- `parse_str`; and the form fields of a multipart body, by its content type: `multipartQuery`,
if there is a boundary. -/
structure Parsers where
  parseStr : PhpString → PhpArray
  multipart : (contentType body : PhpString) → Option PhpString

/-! ## Strings -/

/-- The part before the first occurrence of a byte, and the part after it if there is one:
`strpos` with two `substr`s, `explode` with the limit 2. -/
def splitAt (sep : UInt8) : PhpString → PhpString × Option PhpString
  | [] => ([], none)
  | b :: s =>
      if b = sep then ([], some s)
      else
        let (before, after) := splitAt sep s
        (b :: before, after)

/-- `explode`. -/
def explode (sep : UInt8) : PhpString → List PhpString
  | [] => [[]]
  | b :: s =>
      if b = sep then [] :: explode sep s
      else
        match explode sep s with
        | [] => [[b]]
        | part :: parts => (b :: part) :: parts

/-- What `trim` takes off. -/
def isBlank (b : UInt8) : Bool := b = 32 || b = 10 || b = 13 || b = 9 || b = 11 || b = 0

/-- `trim`. -/
def trim (s : PhpString) : PhpString :=
  ((s.dropWhile isBlank).reverse.dropWhile isBlank).reverse

def toUpper (b : UInt8) : UInt8 := if 97 ≤ b && b ≤ 122 then b - 32 else b

def hexValue (b : UInt8) : Option ℕ :=
  if 48 ≤ b && b ≤ 57 then some (b.toNat - 48)
  else if 65 ≤ b && b ≤ 70 then some (b.toNat - 55)
  else if 97 ≤ b && b ≤ 102 then some (b.toNat - 87)
  else none

/-- `rawurldecode`: a `%` with two hexadecimal digits is a byte. -/
def rawurldecode : PhpString → PhpString
  | 37 :: h :: l :: s =>
      match hexValue h, hexValue l with
      | some m, some n => UInt8.ofNat (16 * m + n) :: rawurldecode s
      | _, _ => 37 :: rawurldecode (h :: l :: s)
  | b :: s => b :: rawurldecode s
  | [] => []

/-- `urldecode`. -/
def urldecode (s : PhpString) : PhpString := rawurldecode (s.map fun b => if b = 43 then 32 else b)

def base64Value (b : UInt8) : Option ℕ :=
  if 65 ≤ b && b ≤ 90 then some (b.toNat - 65)
  else if 97 ≤ b && b ≤ 122 then some (b.toNat - 71)
  else if 48 ≤ b && b ≤ 57 then some (b.toNat + 4)
  else if b = 43 then some 62
  else if b = 47 then some 63
  else none

/-- The bytes of the six-bit groups; what does not fill a byte is dropped. -/
def base64Bytes : List ℕ → PhpString
  | a :: b :: c :: d :: rest =>
      UInt8.ofNat (4 * a + b / 16) :: UInt8.ofNat (16 * (b % 16) + c / 4) ::
        UInt8.ofNat (64 * (c % 4) + d) :: base64Bytes rest
  | [a, b, c] => [UInt8.ofNat (4 * a + b / 16), UInt8.ofNat (16 * (b % 16) + c / 4)]
  | [a, b] => [UInt8.ofNat (4 * a + b / 16)]
  | _ => []

/-- The groups and the number of pads.  White space is skipped, nothing but that follows a pad. -/
def base64Groups : PhpString → Option (List ℕ × ℕ)
  | [] => some ([], 0)
  | b :: s =>
      match base64Groups s with
      | none => none
      | some (groups, pads) =>
          if b = 61 then if groups = [] then some ([], pads + 1) else none
          else if b = 32 || b = 10 || b = 13 || b = 9 then some (groups, pads)
          else (base64Value b).map fun v => (v :: groups, pads)

/-- `base64_decode` of the strict kind. -/
def base64Decode (s : PhpString) : Option PhpString :=
  match base64Groups s with
  | none => none
  | some (groups, pads) =>
      if groups.length % 4 = 1 then none
      else if pads ≠ 0 ∧ (2 < pads ∨ (groups.length + pads) % 4 ≠ 0) then none
      else some (base64Bytes groups)

/-- `\s` of a regular expression. -/
def isSpace (b : UInt8) : Bool := (9 ≤ b && b ≤ 13) || b = 32

/-- `/^Basic\s+(\S+)/i`, and the group decoded. -/
def basicCredentials (authorization : PhpString) : Option PhpString :=
  if (authorization.take 5).map toUpper = bytes "BASIC" then
    let rest := authorization.drop 5
    let word := (rest.dropWhile isSpace).takeWhile fun b => !isSpace b
    if (rest.head?.map isSpace).getD false && !word.isEmpty then base64Decode word else none
  else none

/-! ## `Http\Request` -/

/-- An array of texts. -/
def ofStrings (entries : List (String × PhpString)) : PhpArray :=
  entries.foldl (fun a e => a.set (.str (bytes e.1)) (.string e.2)) ∅

def path (r : IgnisRequest) : PhpString := (splitAt 63 r.uri).1

def queryString (r : IgnisRequest) : PhpString := ((splitAt 63 r.uri).2).getD []

/-- `'HTTP_' . strtoupper(str_replace('-', '_', $name))`. -/
def httpKey (name : PhpString) : ArrayKey :=
  .str (bytes "HTTP_" ++ name.map fun b => if b = 45 then 95 else toUpper b)

/-- One of the pairs of a cookie header. -/
def cookieOf (pair : PhpString) : Option (ArrayKey × Value) :=
  match splitAt 61 pair with
  | (_, none) => none
  | (name, some value) => some (ArrayKey.ofSymtable (trim name), .string (urldecode (trim value)))

structure Superglobals where
  server : PhpArray
  get : PhpArray
  post : PhpArray
  cookie : PhpArray

/-- `superglobals()`, at a time. -/
def superglobals (parsers : Parsers) (time : ℤ) (microtime : ℚ) (r : IgnisRequest) : Superglobals :=
  let header := fun (name : String) => r.headers.get? (bytes name)
  let fixed := ofStrings [("REQUEST_METHOD", r.method), ("REQUEST_URI", r.uri),
    ("QUERY_STRING", queryString r), ("SCRIPT_NAME", bytes "/index.php"),
    ("SERVER_PROTOCOL", bytes "HTTP/1.1")]
  let timed := (fixed.set (.str (bytes "REQUEST_TIME")) (.int time)).set
    (.str (bytes "REQUEST_TIME_FLOAT")) (.float microtime)
  let named := r.headers.entries.foldl (fun a e => a.set (httpKey e.1) (.string e.2)) timed
  let content := fun (a : PhpArray) (key : String) (value : Option PhpString) =>
    match value with
    | some v => a.set (.str (bytes key)) (.string v)
    | none => a
  let type := (header "content-type").getD []
  { server := content (content named "CONTENT_TYPE" (header "content-type")) "CONTENT_LENGTH"
      (header "content-length")
    get := parsers.parseStr (queryString r)
    post :=
      if r.method = bytes "POST" ∧ (bytes "application/x-www-form-urlencoded").isPrefixOf type then
        parsers.parseStr r.body
      else if r.method = bytes "POST" then
        match parsers.multipart type r.body with
        | some query => parsers.parseStr query
        | none => ∅
      else ∅
    cookie := ((explode 59 ((header "cookie").getD [])).filterMap cookieOf).foldl
      (fun a e => a.set e.1 e.2) ∅ }

/-! ## `Classic\Runner` -/

/-- The statics of `Runner` and the files they are about. -/
structure Config where
  docroot : PhpString
  index : Option PhpString
  extra : PhpArray
  env : PhpArray
  isFile : PhpString → Bool
  isDir : PhpString → Bool

/-- What `resolve` finds: the file, `SCRIPT_NAME` and `PATH_INFO`. -/
structure Script where
  file : PhpString
  name : PhpString
  pathInfo : PhpString
  deriving DecidableEq, Repr

/-- The loop of `resolve`: the longest prefix that is a file wins. -/
def resolveFrom (cfg : Config) (path script : PhpString) : List PhpString → Option Script
  | [] =>
      match cfg.index with
      | none => none
      | some name =>
          let index := script ++ 47 :: name
          if cfg.isFile (cfg.docroot ++ index) then some ⟨cfg.docroot ++ index, index, []⟩ else none
  | segment :: segments =>
      let script := script ++ 47 :: segment
      if cfg.isFile (cfg.docroot ++ script) then
        some ⟨cfg.docroot ++ script, script, path.drop script.length⟩
      else if cfg.isDir (cfg.docroot ++ script) then resolveFrom cfg path script segments
      else none

def resolve (cfg : Config) (path : PhpString) : Option Script :=
  let path := rawurldecode path
  let segments := explode 47 path
  if path.contains 0 || segments.contains (bytes "..") then none
  else resolveFrom cfg path [] (segments.filter fun segment => segment != [])

/-- `str_ends_with($file, '.php')`. -/
def Script.isPhp (s : Script) : Bool := (bytes ".php").isSuffixOf s.file

/-- `server`: what a web server tells the script, less the request line and the headers. -/
def server (cfg : Config) (r : IgnisRequest) (s : Script) : PhpArray :=
  let host := splitAt 58 ((r.headers.get? (bytes "host")).getD (bytes "localhost"))
  let fixed := ofStrings [("SERVER_SOFTWARE", bytes "Ignis"),
    ("GATEWAY_INTERFACE", bytes "CGI/1.1"), ("REQUEST_SCHEME", bytes "http"),
    ("SERVER_NAME", host.1),
    ("SERVER_PORT", host.2.getD (bytes "80")), ("DOCUMENT_ROOT", cfg.docroot),
    ("SCRIPT_FILENAME", s.file), ("SCRIPT_NAME", s.name), ("DOCUMENT_URI", s.name),
    ("PHP_SELF", s.name ++ s.pathInfo)]
  let located := fixed.union
    (if s.pathInfo = [] then ∅
      else ofStrings [("PATH_INFO", s.pathInfo), ("PATH_TRANSLATED", cfg.docroot ++ s.pathInfo)])
  let authorized :=
    match basicCredentials ((r.headers.get? (bytes "authorization")).getD []) with
    | none => located
    | some credentials =>
        let (user, password) := splitAt 58 credentials
        let named := (located.set (.str (bytes "PHP_AUTH_USER")) (.string user)).set
          (.str (bytes "PHP_AUTH_PW")) (.string (password.getD []))
        named.union (ofStrings [("AUTH_TYPE", bytes "Basic"), ("REMOTE_USER", user)])
  (authorized.union cfg.extra).union cfg.env

end Classic

end Ignis
