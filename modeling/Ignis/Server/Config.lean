import Ignis.Classic.Resolve
import Ignis.Http.Decimal

/-!
# The configuration file

`ignis serve` takes the configuration file over into the environment, each value only where the
environment has none, and turns itself into the older command line.  What follows reads nothing but
the environment and that command line: the flags of the process, the bounds of the front door, the
watcher and, in PHP, the scheduler's budget.

The file, when it has been read, is a `Config`.  The numbers in it are `usize` or `u64`, which on
this target are the same.  Two kinds of text are left out: a variable that is not UTF-8, which
stands in the way of the file and which Rust then reads as one that is not there, and a value with a
NUL in the file, which the environment does not take.
-/

namespace Ignis.Config

open Classic (explode trim)

/-! ## How a variable is read -/

abbrev Env := OrdMap String PhpString

/-- `str::parse` to a `usize` or a `u64`. -/
def parseU64 (v : PhpString) : Option ℕ :=
  let digits := if v.head? = some 43 then v.tail else v
  if digits ≠ [] ∧ digits.all isDigit ∧ digitsValue digits < 2 ^ 64 then some (digitsValue digits)
  else none

/-- `parse_or`, of a variable. -/
def envU64 (env : Env) (name : String) (default : ℕ) : ℕ :=
  ((env.get? name).bind parseU64).getD default

/-- What may stand before and after a number. -/
def isSpace (b : UInt8) : Bool := b = 32 || (9 ≤ b && b ≤ 13)

def stripSpace (v : PhpString) : PhpString :=
  ((v.dropWhile isSpace).reverse.dropWhile isSpace).reverse

def unsigned (v : PhpString) : PhpString :=
  if v.head? = some 43 ∨ v.head? = some 45 then v.tail else v

/-- The end of a floating point number, from the `e`. -/
def isExponent : PhpString → Bool
  | [] => true
  | b :: v => (b = 69 || b = 101) && unsigned v ≠ [] && (unsigned v).all isDigit

def isFloat (v : PhpString) : Bool :=
  let whole := v.takeWhile isDigit
  match v.dropWhile isDigit with
  | 46 :: rest =>
      (whole ≠ [] || rest.takeWhile isDigit ≠ []) && isExponent (rest.dropWhile isDigit)
  | rest => whole ≠ [] && isExponent rest

/-- `is_numeric`, and the cast to `int` of what is: an integer that is too large is the largest
there is.  How a floating point number is cast is `castFloat`. -/
def toInt (castFloat : PhpString → ℤ) (v : PhpString) : Option ℤ :=
  let body := stripSpace v
  let digits := unsigned body
  if digits ≠ [] ∧ digits.all isDigit then
    some (if body.head? = some 45 then max (-(digitsValue digits)) (-zendLongMax - 1)
      else min (digitsValue digits) zendLongMax)
  else if isFloat digits then some (castFloat body)
  else none

/-- `Env::flag`. -/
def flag (env : Env) (name : String) (default : Bool) : Bool :=
  match env.get? name with
  | none => default
  | some v => v ≠ [] && v ≠ [48]

/-- `Env::integer`. -/
def integer (castFloat : PhpString → ℤ) (env : Env) (name : String) (default minimum : ℤ) : ℤ :=
  match (env.get? name).bind (toInt castFloat) with
  | some n => max minimum n
  | none => default

/-- What `array_filter` keeps. -/
def truthy (v : PhpString) : Bool := v ≠ [] && v ≠ [48]

/-- `Env::commaList`, of a value. -/
def commaItems (v : PhpString) : List PhpString := ((explode 44 v).map trim).filter truthy

/-- `Env::commaList`. -/
def commaList (env : Env) (name : String) (default : List PhpString) : List PhpString :=
  match env.get? name with
  | none | some [] => default
  | some v => commaItems v

/-! ## The file -/

structure Budget where
  fibers : Option UInt64 := none
  queue : Option UInt64 := none

structure Limits where
  maxBodyBytes : Option UInt64 := none
  maxConnections : Option UInt64 := none
  headerTimeoutMs : Option UInt64 := none
  idleTimeoutMs : Option UInt64 := none
  drainTimeoutMs : Option UInt64 := none

structure Watch where
  enabled : Option Bool := none
  settleMs : Option UInt64 := none
  reloadParallel : Option UInt64 := none

end Config

/-- What is in `ignis.toml`. -/
structure Config where
  entry : Option PhpString := none
  listen : Option PhpString := none
  threads : Option UInt64 := none
  workers : Option UInt64 := none
  supervise : Option Bool := none
  phpIni : Option PhpString := none
  log : Option PhpString := none
  budget : Config.Budget := {}
  limits : Config.Limits := {}
  watch : Config.Watch := {}
  exempt : Option (List PhpString) := none

namespace Config

/-- The build, the machine and its files; `load` is `Config::load`. -/
structure Host where
  phpNts : Bool
  cores : UInt64
  isFile : PhpString → Bool
  load : PhpString → Except PhpString Config

def Host.defaultThreads (host : Host) : UInt64 := if host.phpNts then 1 else host.cores

def Host.defaultWorkers (host : Host) : UInt64 := if host.phpNts then host.cores else 1

def Host.supervisesThreadsByDefault (host : Host) : Bool := !host.phpNts

/-- Why `serve` runs nothing; the process exits with 2. -/
inductive ServeError where
  | load (error : PhpString)
  | noEntry
  | missing (entry : PhpString)
  /-- The older command line has no script. -/
  | usage
  /-- A build with one interpreter is asked for a second thread. -/
  | singleInterpreter (what : PhpString)
  deriving DecidableEq, Repr

/-- What is printed; the errors of `serve` itself come after `ignis serve: `. -/
def ServeError.message : ServeError → PhpString
  | .load error => error
  | .noEntry => bytes
      "serve needs an entry script: `ignis serve app.php` or `entry = \"app.php\"` in ignis.toml"
  | .missing entry => bytes "entry script " ++ entry ++ bytes " does not exist"
  | .usage => bytes
      "usage: ignis serve [--config ignis.toml] [entry.php]\n       ignis [--workers N] [--threads N] [--supervise] (<script.php> | -r <code> | --) [args...]\n       ignis --version"
  | .singleInterpreter what => bytes "ignis: " ++ what ++ bytes
      " needs a thread-safe PHP, and this binary is linked against a non-thread-safe one.\nA non-thread-safe engine is one interpreter per process: run one process per core instead, \nand supervise them with whatever already supervises your processes."

/-- `default_env`. -/
def defaultEnv (env : Env) (name : String) (value : PhpString) : Env :=
  if env.has name then env else env.set name value

def number (n : UInt64) : PhpString := bytes n.toNat.repr

/-- What is offered to the environment, in this order. -/
def rows (host : Host) (cfg : Config) : List (String × Option PhpString) :=
  [("IGNIS_LISTEN", cfg.listen),
    ("IGNIS_LISTEN", some (bytes "127.0.0.1:8080")),
    ("IGNIS_THREADS", cfg.threads.map number),
    ("IGNIS_WORKERS", cfg.workers.map number),
    ("IGNIS_THREADS", some (number host.defaultThreads)),
    ("IGNIS_WORKERS", some (number host.defaultWorkers)),
    ("IGNIS_PHP_INI", cfg.phpIni),
    ("RUST_LOG", cfg.log),
    ("IGNIS_FIBER_BUDGET", cfg.budget.fibers.map number),
    ("IGNIS_FIBER_BUDGET", some (bytes "1024")),
    ("IGNIS_QUEUE_DEPTH", cfg.budget.queue.map number),
    ("IGNIS_QUEUE_DEPTH", some (bytes "4096")),
    ("IGNIS_BUDGET_EXEMPT", cfg.exempt.map (List.intercalate [44])),
    ("IGNIS_BUDGET_EXEMPT", some (bytes "/_ignis/")),
    ("IGNIS_MAX_BODY_BYTES", cfg.limits.maxBodyBytes.map number),
    ("IGNIS_MAX_CONNECTIONS", cfg.limits.maxConnections.map number),
    ("IGNIS_HEADER_TIMEOUT_MS", cfg.limits.headerTimeoutMs.map number),
    ("IGNIS_IDLE_TIMEOUT_MS", cfg.limits.idleTimeoutMs.map number),
    ("IGNIS_DRAIN_TIMEOUT_MS", cfg.limits.drainTimeoutMs.map number),
    ("IGNIS_WATCH", if cfg.watch.enabled = some true then some (bytes "1") else none),
    ("IGNIS_WATCH_SETTLE_MS", cfg.watch.settleMs.map number),
    ("IGNIS_WATCH_RELOAD_PARALLEL", cfg.watch.reloadParallel.map number)]

def offer (env : Env) : String × Option PhpString → Env
  | (name, some value) => defaultEnv env name value
  | (_, none) => env

def bridge (host : Host) (cfg : Config) (env : Env) : Env := (rows host cfg).foldl offer env

/-- What `serve` is to run. -/
structure Plan where
  cfg : Config
  entry : PhpString
  /-- The arguments after the entry. -/
  rest : List PhpString

/-- `--config` in front, with its path. -/
def configPath : List PhpString → Option PhpString × List PhpString
  | first :: path :: rest =>
      if first = bytes "--config" then (some path, rest) else (none, first :: path :: rest)
  | args => (none, args)

def loadConfig (host : Host) : Option PhpString → Except ServeError Config
  | some path => (host.load path).mapError .load
  | none =>
      if host.isFile (bytes "ignis.toml") then (host.load (bytes "ignis.toml")).mapError .load
      else .ok {}

def planOf (host : Host) (cfg : Config) (args : List PhpString) : Except ServeError Plan :=
  match args.head?.or cfg.entry with
  | none => .error .noEntry
  | some entry => if host.isFile entry then .ok ⟨cfg, entry, args.tail⟩ else .error (.missing entry)

/-- `serve_to_legacy_args`, as far as the check of the entry. -/
def plan (host : Host) (args : List PhpString) : Except ServeError Plan := do
  let cfg ← loadConfig host (configPath args).1
  planOf host cfg (configPath args).2

/-- The command line `serve` turns into. -/
def Plan.legacyArgs (host : Host) (p : Plan) : List PhpString :=
  (if p.cfg.supervise.getD host.supervisesThreadsByDefault then [bytes "--supervise"] else [])
    ++ p.entry :: p.rest

/-! ## The command line -/

structure RuntimeFlags where
  workers : ℕ
  threads : ℕ
  supervise : Bool
  deriving DecidableEq, Repr

/-- The loop of `parse_runtime_flags`. -/
def takeFlags : RuntimeFlags → List PhpString → RuntimeFlags × List PhpString
  | flags, [] => (flags, [])
  | flags, [arg] =>
      if arg = bytes "--supervise" then ({ flags with supervise := true }, []) else (flags, [arg])
  | flags, arg :: value :: rest =>
      if arg = bytes "--workers" then
        takeFlags { flags with workers := (parseU64 value).getD 1 } rest
      else if arg = bytes "--threads" then
        takeFlags { flags with threads := (parseU64 value).getD 1 } rest
      else if arg = bytes "--supervise" then
        takeFlags { flags with supervise := true } (value :: rest)
      else (flags, arg :: value :: rest)

/-- `parse_runtime_flags`. -/
def parseRuntimeFlags (env : Env) (args : List PhpString) : RuntimeFlags × List PhpString :=
  let taken := takeFlags ⟨envU64 env "IGNIS_WORKERS" 1, envU64 env "IGNIS_THREADS" 1, false⟩ args
  (⟨max taken.1.workers 1, max taken.1.threads 1, taken.1.supervise⟩, taken.2)

/-- What PHP is given to run. -/
inductive Program where
  | inline (code : PhpString)
  | stdin
  | script (path : PhpString)
  deriving DecidableEq, Repr

/-- `take_inline_code`, and the script otherwise; with the arguments that are left. -/
def program : List PhpString → Option (Program × List PhpString)
  | [] => none
  | [arg] => if arg = bytes "--" then some (.stdin, []) else some (.script arg, [])
  | arg :: value :: rest =>
      if arg = bytes "-r" then some (.inline value, rest)
      else if arg = bytes "--" then some (.stdin, value :: rest)
      else some (.script arg, value :: rest)

/-- `check_single_interpreter_flags`. -/
def checkSingleInterpreterFlags (host : Host) (flags : RuntimeFlags) : Except ServeError Unit :=
  if host.phpNts then
    if 1 < flags.threads then .error (.singleInterpreter (bytes "--threads above 1"))
    else if flags.supervise then .error (.singleInterpreter (bytes "--supervise"))
    else .ok ()
  else .ok ()

/-- `main`, for `serve`, up to the engine: the flags of the process and what it runs. -/
def serve (host : Host) (env : Env) (args : List PhpString) :
    Except ServeError (RuntimeFlags × Program × List PhpString) := do
  let p ← plan host args
  let parsed := parseRuntimeFlags (bridge host p.cfg env) (p.legacyArgs host)
  match program parsed.2 with
  | none => .error .usage
  | some run =>
      checkSingleInterpreterFlags host parsed.1
      .ok (parsed.1, run)

/-! ## What the process goes by -/

/-- Everything that is read from the environment of a served process. -/
@[ext]
structure Settings where
  listen : PhpString
  workers : ℕ
  threads : ℕ
  phpIni : Option PhpString
  log : Option PhpString
  fiberBudget : ℤ
  queueDepth : ℤ
  budgetExempt : List PhpString
  maxBodyBytes : ℕ
  maxConnections : ℕ
  headerTimeoutMs : ℕ
  idleTimeoutMs : ℕ
  drainTimeoutMs : ℕ
  watch : Bool
  settleMs : ℕ
  reloadParallel : ℕ

/-- `reload_parallel`: zero is no number of workers. -/
def reloadParallel (env : Env) : ℕ :=
  (((env.get? "IGNIS_WATCH_RELOAD_PARALLEL").bind parseU64).filter (0 < ·)).getD 1

/-- The readers, in Rust and in PHP, each with its own default. -/
def settings (castFloat : PhpString → ℤ) (env : Env) : Settings where
  listen := (env.get? "IGNIS_LISTEN").getD (bytes "127.0.0.1:8080")
  workers := max (envU64 env "IGNIS_WORKERS" 1) 1
  threads := max (envU64 env "IGNIS_THREADS" 1) 1
  phpIni := env.get? "IGNIS_PHP_INI"
  log := env.get? "RUST_LOG"
  fiberBudget := integer castFloat env "IGNIS_FIBER_BUDGET" 0 0
  queueDepth := integer castFloat env "IGNIS_QUEUE_DEPTH" 0 0
  budgetExempt := commaList env "IGNIS_BUDGET_EXEMPT" []
  maxBodyBytes := envU64 env "IGNIS_MAX_BODY_BYTES" (8 * 1024 * 1024)
  maxConnections := envU64 env "IGNIS_MAX_CONNECTIONS" 8192
  headerTimeoutMs := envU64 env "IGNIS_HEADER_TIMEOUT_MS" 10000
  idleTimeoutMs := envU64 env "IGNIS_IDLE_TIMEOUT_MS" 60000
  drainTimeoutMs := envU64 env "IGNIS_DRAIN_TIMEOUT_MS" 10000
  watch := flag env "IGNIS_WATCH" false
  settleMs := envU64 env "IGNIS_WATCH_SETTLE_MS" 300
  reloadParallel := reloadParallel env

end Ignis.Config
