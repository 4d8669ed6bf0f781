import Mathlib.Data.List.DropRight
import Ignis.Lib.Fallible
import Ignis.Server.Config

/-!
# Which value counts

A setting has the value of the environment if the variable is there at all, then that of the file,
then the default of `serve`, and for what `serve` does not offer that of its reader.
`settings_bridge` says this of everything that is read, with what a reader makes of a text it
cannot read; the numbers of the file pass through their texts unharmed but for the bound of PHP's
integers.  The list of exempt paths passes through a text that has no escape, and
`exempt_faithful_iff` says which lists survive it.

On the command line the flags come first, in any order and number, the last of a kind counting
(`takeFlags_iff`).  `serve` puts the entry where a flag may stand, and a build with one interpreter
takes no second thread; `serve_runs_iff` says when the entry is run.
-/

namespace Ignis.Config

open Classic (explode trim isBlank explode_eq_splitOn explode_of_notMem explode_append of_mem_explode)

/-! ## Numbers as text -/

lemma ne_of_isDigit {b c : UInt8} (hb : isDigit b = true) (hc : isDigit c = false) : b ≠ c := by
  rintro rfl
  rw [hb] at hc
  cases hc

lemma all_isDigit_bytes_repr (n : ℕ) : (bytes n.repr).all isDigit = true :=
  List.all_eq_true.mpr fun _ hb => isDigit_of_mem_bytes_repr hb

/-- A number is not written with a sign. -/
lemma head_bytes_repr {n : ℕ} {b : UInt8} (hb : isDigit b = false) :
    (bytes n.repr).head? ≠ some b := by
  intro hhead
  exact ne_of_isDigit (isDigit_of_mem_bytes_repr (List.mem_of_head? hhead)) hb rfl

lemma parseU64_number (n : UInt64) : parseU64 (number n) = some n.toNat := by
  have hplus : (number n).head? ≠ some 43 := head_bytes_repr (by decide)
  have hvalue : digitsValue (number n) = n.toNat := digitsValue_bytes_repr n.toNat
  have hlt : digitsValue (number n) < 2 ^ 64 := hvalue ▸ n.toNat_lt
  have hdigits : (number n).all isDigit = true := all_isDigit_bytes_repr n.toNat
  simp only [parseU64, if_neg hplus]
  rw [if_pos ⟨bytes_repr_ne_nil n.toNat, hdigits, hlt⟩, hvalue]

lemma dropWhile_of_none {p : UInt8 → Bool} {v : PhpString} (h : ∀ b ∈ v, p b = false) :
    v.dropWhile p = v := by
  cases v with
  | nil => rfl
  | cons b v => rw [List.dropWhile_cons_of_neg (by simp [h b])]

lemma stripSpace_of_none {v : PhpString} (h : ∀ b ∈ v, isSpace b = false) : stripSpace v = v := by
  rw [stripSpace, dropWhile_of_none h,
    dropWhile_of_none fun b hb => h b (List.mem_reverse.mp hb), List.reverse_reverse]

lemma isSpace_of_isDigit {b : UInt8} (h : isDigit b = true) : isSpace b = false := by
  simp only [isDigit, Bool.and_eq_true, decide_eq_true_eq, UInt8.le_iff_toNat_le] at h
  simp only [isSpace, Bool.or_eq_false_iff, decide_eq_false_iff_not, Bool.and_eq_false_iff,
    UInt8.le_iff_toNat_le]
  refine ⟨?_, .inr ?_⟩
  · rintro rfl
    exact absurd h.1 (by decide)
  · have h48 : (48 : UInt8).toNat = 48 := rfl
    have h13 : (13 : UInt8).toNat = 13 := rfl
    omega

lemma toInt_number (castFloat : PhpString → ℤ) (n : UInt64) :
    toInt castFloat (number n) = some (min (n.toNat : ℤ) zendLongMax) := by
  have hstrip : stripSpace (number n) = number n :=
    stripSpace_of_none fun b hb => isSpace_of_isDigit (isDigit_of_mem_bytes_repr hb)
  have hplus : (number n).head? ≠ some 43 := head_bytes_repr (by decide)
  have hminus : (number n).head? ≠ some 45 := head_bytes_repr (by decide)
  have hunsigned : unsigned (number n) = number n := by
    rw [unsigned, if_neg (not_or.mpr ⟨hplus, hminus⟩)]
  have hdigits : (number n).all isDigit = true := all_isDigit_bytes_repr n.toNat
  have hvalue : digitsValue (number n) = n.toNat := digitsValue_bytes_repr n.toNat
  simp only [toInt, hstrip, hunsigned]
  rw [if_pos ⟨bytes_repr_ne_nil n.toNat, hdigits⟩, if_neg hminus, hvalue]

/-! ## The environment first -/

/-- What is offered first under a name. -/
def first (name : String) : List (String × Option PhpString) → Option PhpString
  | [] => none
  | (name', value) :: rest => if name' = name then value.or (first name rest) else first name rest

lemma get?_offer (env : Env) (name : String) (row : String × Option PhpString) :
    (offer env row).get? name = (env.get? name).or (if row.1 = name then row.2 else none) := by
  obtain ⟨name', value⟩ := row
  cases value with
  | none => simp [offer]
  | some v =>
      simp only [offer, defaultEnv]
      by_cases hname : name' = name
      · subst hname
        by_cases hhas : env.has name' = true
        · obtain ⟨w, hw⟩ := OrdMap.has_iff.mp hhas
          simp [hhas, hw]
        · have hnone : env.get? name' = none := by
            cases hw : env.get? name' with
            | none => rfl
            | some w => exact absurd (OrdMap.has_iff.mpr ⟨w, hw⟩) hhas
          simp [hhas, hnone]
      · by_cases hhas : env.has name' = true
        · simp [hhas, hname]
        · simp [hhas, hname, OrdMap.get?_set, Ne.symm hname]

/-- **The environment comes before what is offered, and an earlier offer before a later one.** -/
lemma get?_bridge (host : Host) (cfg : Config) (env : Env) (name : String) :
    (bridge host cfg env).get? name = (env.get? name).or (first name (rows host cfg)) := by
  unfold bridge
  generalize rows host cfg = offers
  induction offers generalizing env with
  | nil => simp [first]
  | cons row offers ih =>
      rw [List.foldl_cons, ih, get?_offer, first]
      by_cases hname : row.1 = name
      · simp [hname, Option.or_assoc]
      · simp [hname]

/-- A `usize` or a `u64`: a text that is none counts as `fallback`, which is the reader's. -/
def chosenU64 (env : Env) (name : String) (fallback : ℕ) (file : Option UInt64) : ℕ :=
  match env.get? name with
  | some v => (parseU64 v).getD fallback
  | none => (file.map UInt64.toNat).getD fallback

/-- A bound of the scheduler. -/
def chosenInt (castFloat : PhpString → ℤ) (env : Env) (name : String) (file : UInt64) : ℤ :=
  match env.get? name with
  | some v => ((toInt castFloat v).map (max 0)).getD 0
  | none => min (file.toNat : ℤ) zendLongMax

/-- What a served process goes by, as the documentation of `ignis.toml` has it. -/
def effective (castFloat : PhpString → ℤ) (host : Host) (env : Env) (cfg : Config) : Settings where
  listen := (env.get? "IGNIS_LISTEN").getD (cfg.listen.getD (bytes "127.0.0.1:8080"))
  workers := max (chosenU64 env "IGNIS_WORKERS" 1 (cfg.workers.getD host.defaultWorkers)) 1
  threads := max (chosenU64 env "IGNIS_THREADS" 1 (cfg.threads.getD host.defaultThreads)) 1
  phpIni := (env.get? "IGNIS_PHP_INI").or cfg.phpIni
  log := (env.get? "RUST_LOG").or cfg.log
  fiberBudget := chosenInt castFloat env "IGNIS_FIBER_BUDGET" (cfg.budget.fibers.getD 1024)
  queueDepth := chosenInt castFloat env "IGNIS_QUEUE_DEPTH" (cfg.budget.queue.getD 4096)
  budgetExempt :=
    match env.get? "IGNIS_BUDGET_EXEMPT" with
    | some v => commaItems v
    | none => (cfg.exempt.getD [bytes "/_ignis/"]).flatMap commaItems
  maxBodyBytes := chosenU64 env "IGNIS_MAX_BODY_BYTES" (8 * 1024 * 1024) cfg.limits.maxBodyBytes
  maxConnections := chosenU64 env "IGNIS_MAX_CONNECTIONS" 8192 cfg.limits.maxConnections
  headerTimeoutMs := chosenU64 env "IGNIS_HEADER_TIMEOUT_MS" 10000 cfg.limits.headerTimeoutMs
  idleTimeoutMs := chosenU64 env "IGNIS_IDLE_TIMEOUT_MS" 60000 cfg.limits.idleTimeoutMs
  drainTimeoutMs := chosenU64 env "IGNIS_DRAIN_TIMEOUT_MS" 10000 cfg.limits.drainTimeoutMs
  watch :=
    match env.get? "IGNIS_WATCH" with
    | some v => truthy v
    | none => cfg.watch.enabled == some true
  settleMs := chosenU64 env "IGNIS_WATCH_SETTLE_MS" 300 cfg.watch.settleMs
  reloadParallel :=
    match env.get? "IGNIS_WATCH_RELOAD_PARALLEL" with
    | some v => max ((parseU64 v).getD 1) 1
    | none => max ((cfg.watch.reloadParallel.map UInt64.toNat).getD 1) 1

section Settings

variable {castFloat : PhpString → ℤ} {host : Host} {cfg : Config} {env : Env} {name : String}

lemma envU64_bridge {fallback : ℕ} {file : Option UInt64}
    (h : first name (rows host cfg) = file.map number) :
    envU64 (bridge host cfg env) name fallback = chosenU64 env name fallback file := by
  rw [envU64, get?_bridge, h, chosenU64]
  cases env.get? name with
  | some v => simp
  | none => cases file <;> simp [parseU64_number]

lemma integer_bridge {file : UInt64} (h : first name (rows host cfg) = some (number file)) :
    integer castFloat (bridge host cfg env) name 0 0 = chosenInt castFloat env name file := by
  rw [integer, get?_bridge, h, chosenInt]
  cases env.get? name with
  | some v => cases hv : toInt castFloat v <;> simp [hv]
  | none =>
      simp only [Option.none_or, Option.bind_some, toInt_number]
      omega

lemma filter_pos_getD (n : Option ℕ) : (n.filter (0 < ·)).getD 1 = max (n.getD 1) 1 := by
  cases n with
  | none => rfl
  | some n =>
      by_cases hn : 0 < n
      · rw [Option.filter_some_pos (by simpa using hn)]
        exact (max_eq_left hn).symm
      · rw [Option.filter_some_neg (by simpa using hn)]
        simp only [Option.getD_none, Option.getD_some]
        omega

/-! ## The exempt paths -/

lemma commaItems_append (s v : PhpString) :
    commaItems (s ++ 44 :: v) = commaItems s ++ commaItems v := by
  simp only [commaItems, explode_eq_splitOn, List.splitOn_append_cons_self, List.map_append,
    List.filter_append]

/-- The list is read item by item. -/
lemma commaItems_intercalate (items : List PhpString) :
    commaItems (List.intercalate [44] items) = items.flatMap commaItems := by
  induction items with
  | nil => rfl
  | cons item items ih =>
      cases items with
      | nil => simp
      | cons next items =>
          rw [List.intercalate_cons_cons, List.append_assoc, List.singleton_append,
            commaItems_append, ih]
          exact List.flatMap_cons.symm

lemma commaList_of_some {v : PhpString} (h : env.get? name = some v) :
    commaList env name [] = commaItems v := by
  rw [commaList, h]
  cases v <;> rfl

lemma commaList_bridge :
    commaList (bridge host cfg env) "IGNIS_BUDGET_EXEMPT" []
      = (effective castFloat host env cfg).budgetExempt := by
  have hfirst : first "IGNIS_BUDGET_EXEMPT" (rows host cfg)
      = some (List.intercalate [44] (cfg.exempt.getD [bytes "/_ignis/"])) := by
    cases hexempt : cfg.exempt <;> simp [first, rows, hexempt]
  simp only [effective]
  cases henv : env.get? "IGNIS_BUDGET_EXEMPT" with
  | some v => exact commaList_of_some (by rw [get?_bridge, henv]; rfl)
  | none =>
      have hget : (bridge host cfg env).get? "IGNIS_BUDGET_EXEMPT"
          = some (List.intercalate [44] (cfg.exempt.getD [bytes "/_ignis/"])) := by
        rw [get?_bridge, henv, hfirst]
        rfl
      exact (commaList_of_some hget).trans (commaItems_intercalate _)

/-! ## The whole -/

lemma reloadParallel_bridge :
    reloadParallel (bridge host cfg env) = (effective castFloat host env cfg).reloadParallel := by
  have hfirst : first "IGNIS_WATCH_RELOAD_PARALLEL" (rows host cfg)
      = cfg.watch.reloadParallel.map number := by
    simp [first, rows]
  rw [reloadParallel, get?_bridge, hfirst, filter_pos_getD]
  simp only [effective]
  cases env.get? "IGNIS_WATCH_RELOAD_PARALLEL" with
  | some v => simp
  | none => cases cfg.watch.reloadParallel <;> simp [parseU64_number]

lemma watch_bridge :
    flag (bridge host cfg env) "IGNIS_WATCH" false
      = (effective castFloat host env cfg).watch := by
  have hfirst : first "IGNIS_WATCH" (rows host cfg)
      = if cfg.watch.enabled = some true then some (bytes "1") else none := by
    simp [first, rows]
  rw [flag, get?_bridge, hfirst]
  simp only [effective]
  cases env.get? "IGNIS_WATCH" with
  | some v => rfl
  | none =>
      by_cases henabled : cfg.watch.enabled = some true
      · simp only [henabled, if_true]
        decide
      · simp [henabled]

/-- **The environment, then the file, then the defaults.**  For every environment and every file,
what the process goes by once `serve` has taken the file over is `effective`. -/
theorem settings_bridge (castFloat : PhpString → ℤ) (host : Host) (cfg : Config) (env : Env) :
    settings castFloat (bridge host cfg env) = effective castFloat host env cfg := by
  have hor (n : Option UInt64) (m : UInt64) :
      (n.map number).or (some (number m)) = some (number (n.getD m)) := by
    cases n <;> rfl
  have hworkers : first "IGNIS_WORKERS" (rows host cfg)
      = some (number (cfg.workers.getD host.defaultWorkers)) := by
    rw [← hor]
    simp [first, rows]
  have hthreads : first "IGNIS_THREADS" (rows host cfg)
      = some (number (cfg.threads.getD host.defaultThreads)) := by
    rw [← hor]
    simp [first, rows]
  have hfibers : first "IGNIS_FIBER_BUDGET" (rows host cfg)
      = some (number (cfg.budget.fibers.getD 1024)) := by
    have hproduct : number 1024 = bytes "1024" := by decide
    rw [← hor, hproduct]
    simp [first, rows]
  have hqueue : first "IGNIS_QUEUE_DEPTH" (rows host cfg)
      = some (number (cfg.budget.queue.getD 4096)) := by
    have hproduct : number 4096 = bytes "4096" := by decide
    rw [← hor, hproduct]
    simp [first, rows]
  apply Settings.ext
  case listen =>
    simp only [settings, effective, get?_bridge]
    cases env.get? "IGNIS_LISTEN" <;> cases hlisten : cfg.listen <;> simp [first, rows, hlisten]
  case workers =>
    have hread : envU64 (bridge host cfg env) "IGNIS_WORKERS" 1
        = chosenU64 env "IGNIS_WORKERS" 1 (some (cfg.workers.getD host.defaultWorkers)) :=
      envU64_bridge hworkers
    exact congrArg (max · 1) hread
  case threads =>
    have hread : envU64 (bridge host cfg env) "IGNIS_THREADS" 1
        = chosenU64 env "IGNIS_THREADS" 1 (some (cfg.threads.getD host.defaultThreads)) :=
      envU64_bridge hthreads
    exact congrArg (max · 1) hread
  case phpIni =>
    simp [settings, effective, get?_bridge, first, rows]
  case log =>
    simp [settings, effective, get?_bridge, first, rows]
  case fiberBudget => exact integer_bridge hfibers
  case queueDepth => exact integer_bridge hqueue
  case budgetExempt => exact commaList_bridge
  case watch => exact watch_bridge
  case reloadParallel => exact reloadParallel_bridge
  all_goals exact envU64_bridge (by simp [first, rows])

end Settings

/-- An item that is read as it is written. -/
def Clean (item : PhpString) : Prop := 44 ∉ item ∧ trim item = item ∧ truthy item = true

lemma dropWhile_of_prefix {p : UInt8 → Bool} {u s : PhpString} (h : u <+: s.dropWhile p) :
    u.dropWhile p = u := by
  cases u with
  | nil => rfl
  | cons b u =>
      obtain ⟨v, hv⟩ := h
      have hb : p b = false := by
        have hhead := List.head?_dropWhile_not p s
        simpa [← hv] using hhead
      rw [List.dropWhile_cons_of_neg (by simp [hb])]

lemma trim_eq (s : PhpString) : trim s = (s.dropWhile isBlank).rdropWhile isBlank := rfl

lemma trim_trim (s : PhpString) : trim (trim s) = trim s := by
  rw [trim_eq (trim s), trim_eq s, dropWhile_of_prefix (List.rdropWhile_prefix _ _),
    List.rdropWhile_idempotent]

lemma mem_of_mem_trim {s : PhpString} {b : UInt8} (h : b ∈ trim s) : b ∈ s :=
  (List.dropWhile_suffix _).subset ((List.rdropWhile_prefix _ _).subset h)

lemma clean_of_mem {item s : PhpString} (h : item ∈ commaItems s) : Clean item := by
  obtain ⟨hmem, htruthy⟩ := List.mem_filter.mp h
  obtain ⟨part, hpart, rfl⟩ := List.mem_map.mp hmem
  exact ⟨fun hsep => (of_mem_explode hpart).1 (mem_of_mem_trim hsep), trim_trim part, htruthy⟩

lemma commaItems_of_clean {item : PhpString} (h : Clean item) : commaItems item = [item] := by
  obtain ⟨hsep, htrim, htruthy⟩ := h
  rw [commaItems, explode_of_notMem hsep, List.map_singleton, htrim,
    List.filter_cons_of_pos htruthy,
    List.filter_nil]

/-- **The list of exempt paths survives exactly if every path does.** -/
theorem exempt_faithful_iff (castFloat : PhpString → ℤ) (host : Host) (cfg : Config) (env : Env)
    (items : List PhpString) (henv : env.get? "IGNIS_BUDGET_EXEMPT" = none)
    (hfile : cfg.exempt = some items) :
    (settings castFloat (bridge host cfg env)).budgetExempt = items ↔
      ∀ item ∈ items, Clean item := by
  have hread :
      (settings castFloat (bridge host cfg env)).budgetExempt = items.flatMap commaItems := by
    rw [settings_bridge]
    simp only [effective, henv, hfile, Option.getD_some]
  rw [hread]
  constructor
  · intro heq item hitem
    rw [← heq] at hitem
    obtain ⟨s, -, hs⟩ := List.mem_flatMap.mp hitem
    exact clean_of_mem hs
  · intro hclean
    clear hfile hread
    induction items with
    | nil => rfl
    | cons item items ih =>
        rw [List.flatMap_cons, commaItems_of_clean (hclean item List.mem_cons_self),
          ih fun i hi => hclean i (List.mem_cons_of_mem item hi), List.singleton_append]

theorem exempt_faithful_iff_spaces :
    (settings (fun _ => 0) (bridge ⟨false, 8, fun _ => true, fun _ => .ok {}⟩
        { exempt := some [bytes "/a ", bytes "/b"] } ∅)).budgetExempt = [bytes "/a ", bytes "/b"]
      ↔ ∀ item ∈ [bytes "/a ", bytes "/b"], Clean item :=
  exempt_faithful_iff _ _ _ _ _ rfl rfl

/-! ## The command line -/

/-- A flag as it may be written. -/
inductive Flag where
  | workers (value : PhpString)
  | threads (value : PhpString)
  | supervise
  deriving DecidableEq, Repr

def Flag.render : Flag → List PhpString
  | .workers value => [bytes "--workers", value]
  | .threads value => [bytes "--threads", value]
  | .supervise => [bytes "--supervise"]

def Flag.apply (flags : RuntimeFlags) : Flag → RuntimeFlags
  | .workers value => { flags with workers := (parseU64 value).getD 1 }
  | .threads value => { flags with threads := (parseU64 value).getD 1 }
  | .supervise => { flags with supervise := true }

/-- What is no flag, or one without its value. -/
def Stops (args : List PhpString) : Prop :=
  args.head? ≠ some (bytes "--supervise") ∧
    (1 < args.length →
      args.head? ≠ some (bytes "--workers") ∧ args.head? ≠ some (bytes "--threads"))

lemma takeFlags_render (flags : RuntimeFlags) (f : Flag) (args : List PhpString) :
    takeFlags flags (f.render ++ args) = takeFlags (f.apply flags) args := by
  have hworkers : bytes "--supervise" ≠ bytes "--workers" := by decide
  have hthreads : bytes "--supervise" ≠ bytes "--threads" := by decide
  have hboth : bytes "--threads" ≠ bytes "--workers" := by decide
  cases f with
  | workers value =>
      simp only [Flag.render, List.cons_append, List.nil_append, takeFlags, if_true, Flag.apply]
  | threads value =>
      simp only [Flag.render, List.cons_append, List.nil_append, takeFlags, if_neg hboth, if_true,
        Flag.apply]
  | supervise =>
      cases args with
      | nil => simp only [Flag.render, List.append_nil, takeFlags, if_true, Flag.apply]
      | cons arg args =>
          simp only [Flag.render, List.cons_append, List.nil_append, takeFlags, if_neg hworkers,
            if_neg hthreads, if_true, Flag.apply]

lemma takeFlags_of_stops (flags : RuntimeFlags) {args : List PhpString} (h : Stops args) :
    takeFlags flags args = (flags, args) := by
  obtain ⟨hsupervise, hvalued⟩ := h
  cases args with
  | nil => rfl
  | cons arg args =>
      have hnot : arg ≠ bytes "--supervise" := fun heq => hsupervise (by rw [heq]; rfl)
      cases args with
      | nil => rw [takeFlags, if_neg hnot]
      | cons value args =>
          obtain ⟨hworkers, hthreads⟩ := hvalued (by simp)
          have hnot₁ : arg ≠ bytes "--workers" := fun heq => hworkers (by rw [heq]; rfl)
          have hnot₂ : arg ≠ bytes "--threads" := fun heq => hthreads (by rw [heq]; rfl)
          rw [takeFlags, if_neg hnot₁, if_neg hnot₂, if_neg hnot]

/-- A command line is flags and what follows them. -/
lemma exists_flags (args : List PhpString) :
    ∃ (fs : List Flag) (rest : List PhpString),
      args = fs.flatMap Flag.render ++ rest ∧ Stops rest := by
  induction hlength : args.length using Nat.strongRecOn generalizing args with
  | _ n ih =>
      subst hlength
      by_cases hstops : Stops args
      · exact ⟨[], args, rfl, hstops⟩
      have hstart : ∃ f rest, args = Flag.render f ++ rest := by
        cases args with
        | nil => exact absurd ⟨by simp, by simp⟩ hstops
        | cons arg args =>
            by_cases hsupervise : arg = bytes "--supervise"
            · exact ⟨.supervise, args, by rw [hsupervise]; rfl⟩
            cases args with
            | nil =>
                refine absurd ⟨?_, by simp⟩ hstops
                simpa using hsupervise
            | cons value args =>
                by_cases hworkers : arg = bytes "--workers"
                · exact ⟨.workers value, args, by rw [hworkers]; rfl⟩
                by_cases hthreads : arg = bytes "--threads"
                · exact ⟨.threads value, args, by rw [hthreads]; rfl⟩
                refine absurd ⟨?_, fun _ => ⟨?_, ?_⟩⟩ hstops
                · simpa using hsupervise
                · simpa using hworkers
                · simpa using hthreads
      obtain ⟨f, rest, rfl⟩ := hstart
      have hshorter : rest.length < (f.render ++ rest).length := by
        cases f <;> simp only [Flag.render, List.length_append, List.length_cons,
          List.length_nil] <;> omega
      obtain ⟨fs, rest', rfl, hrest⟩ := ih rest.length hshorter rest rfl
      exact ⟨f :: fs, rest', by rw [List.flatMap_cons, List.append_assoc], hrest⟩

lemma takeFlags_flags (flags : RuntimeFlags) (fs : List Flag) {rest : List PhpString}
    (h : Stops rest) :
    takeFlags flags (fs.flatMap Flag.render ++ rest) = (fs.foldl Flag.apply flags, rest) := by
  induction fs generalizing flags with
  | nil => exact takeFlags_of_stops flags h
  | cons f fs ih =>
      rw [List.flatMap_cons, List.append_assoc, takeFlags_render, ih]
      rfl

/-- **The flags of a command line are those before the first argument that is none.**  There is one
way to read it, and the last flag of a kind counts. -/
theorem takeFlags_iff (flags flags' : RuntimeFlags) (args rest : List PhpString) :
    takeFlags flags args = (flags', rest) ↔
      ∃ fs : List Flag, args = fs.flatMap Flag.render ++ rest ∧ Stops rest ∧
        flags' = fs.foldl Flag.apply flags := by
  constructor
  · intro h
    obtain ⟨fs, rest', rfl, hrest⟩ := exists_flags args
    rw [takeFlags_flags flags fs hrest] at h
    obtain ⟨rfl, rfl⟩ := Prod.mk.inj h
    exact ⟨fs, rfl, hrest, rfl⟩
  · rintro ⟨fs, rfl, hrest, rfl⟩
    exact takeFlags_flags flags fs hrest

/-! ## `serve` -/

/-- The entry is taken for something else. -/
def Plan.Mistaken (p : Plan) : Prop :=
  p.entry = bytes "--supervise" ∨ p.entry = bytes "--" ∨ p.rest ≠ [] ∧
    (p.entry = bytes "--workers" ∨ p.entry = bytes "--threads" ∨ p.entry = bytes "-r")

lemma program_eq_script_iff {args rest : List PhpString} {entry : PhpString} :
    program args = some (.script entry, rest) ↔
      args = entry :: rest ∧ entry ≠ bytes "--" ∧ (rest ≠ [] → entry ≠ bytes "-r") := by
  cases args with
  | nil => simp [program]
  | cons arg args =>
      cases args with
      | nil =>
          simp only [program]
          split_ifs with hstdin
          · constructor
            · intro h
              cases h
            · rintro ⟨h, hne, -⟩
              obtain ⟨rfl, -⟩ := List.cons.inj h
              exact absurd hstdin hne
          · constructor
            · intro h
              obtain ⟨hscript, rfl⟩ := Prod.mk.inj (Option.some.inj h)
              obtain rfl := Program.script.inj hscript
              exact ⟨rfl, hstdin, fun h => absurd rfl h⟩
            · rintro ⟨h, -, -⟩
              obtain ⟨rfl, rfl⟩ := List.cons.inj h
              rfl
      | cons value args =>
          simp only [program]
          split_ifs with hinline hstdin
          · constructor
            · intro h
              cases h
            · rintro ⟨h, -, hne⟩
              obtain ⟨rfl, rfl⟩ := List.cons.inj h
              exact absurd hinline (hne (by simp))
          · constructor
            · intro h
              cases h
            · rintro ⟨h, hne, -⟩
              obtain ⟨rfl, -⟩ := List.cons.inj h
              exact absurd hstdin hne
          · constructor
            · intro h
              obtain ⟨hscript, rfl⟩ := Prod.mk.inj (Option.some.inj h)
              obtain rfl := Program.script.inj hscript
              exact ⟨rfl, hstdin, fun _ => hinline⟩
            · rintro ⟨h, -, -⟩
              obtain ⟨rfl, rfl⟩ := List.cons.inj h
              rfl

lemma stops_of_not_mistaken {p : Plan} (h : ¬ p.Mistaken) : Stops (p.entry :: p.rest) := by
  refine ⟨fun heq => h (.inl (Option.some.inj heq)), fun hlength => ?_⟩
  have hrest : p.rest ≠ [] := by
    rintro hnil
    simp [hnil] at hlength
  exact ⟨fun heq => h (.inr (.inr ⟨hrest, .inl (Option.some.inj heq)⟩)),
    fun heq => h (.inr (.inr ⟨hrest, .inr (.inl (Option.some.inj heq))⟩))⟩

/-- The flag that `serve` may put in front is taken off again. -/
lemma takeFlags_legacyArgs (host : Host) (p : Plan) (flags : RuntimeFlags)
    (hflags : flags.supervise = false) :
    takeFlags flags (p.legacyArgs host) = takeFlags
      { flags with supervise := p.cfg.supervise.getD host.supervisesThreadsByDefault }
      (p.entry :: p.rest) := by
  unfold Plan.legacyArgs
  cases hsupervise : p.cfg.supervise.getD host.supervisesThreadsByDefault with
  | true => exact takeFlags_render flags .supervise (p.entry :: p.rest)
  | false =>
      obtain ⟨workers, threads, supervise⟩ := flags
      obtain rfl : supervise = false := hflags
      rfl

lemma isFile_of_plan {host : Host} {args : List PhpString} {p : Plan}
    (h : plan host args = .ok p) : host.isFile p.entry = true := by
  unfold plan at h
  cases hload : loadConfig host (configPath args).1 with
  | error e =>
      rw [hload] at h
      cases h
  | ok cfg =>
      rw [hload] at h
      change planOf host cfg (configPath args).2 = .ok p at h
      unfold planOf at h
      split at h
      · cases h
      · split_ifs at h with hfile
        obtain rfl := Except.ok.inj h
        exact hfile

/-- The flags of the settings. -/
def Plan.flags (castFloat : PhpString → ℤ) (host : Host) (env : Env) (p : Plan) : RuntimeFlags where
  workers := (effective castFloat host env p.cfg).workers
  threads := (effective castFloat host env p.cfg).threads
  supervise := p.cfg.supervise.getD host.supervisesThreadsByDefault

lemma parseRuntimeFlags_of_not_mistaken (castFloat : PhpString → ℤ) (host : Host) (env : Env)
    {p : Plan} (h : ¬ p.Mistaken) :
    parseRuntimeFlags (bridge host p.cfg env) (p.legacyArgs host)
      = (p.flags castFloat host env, p.entry :: p.rest) := by
  have hsettings := settings_bridge castFloat host p.cfg env
  simp only [parseRuntimeFlags, takeFlags_legacyArgs host p ⟨_, _, false⟩ rfl,
    takeFlags_of_stops _ (stops_of_not_mistaken h), Plan.flags, ← hsettings]
  rfl

/-- Where the entry is taken for something else, it is not what is left to run. -/
lemma program_of_mistaken (host : Host) (env : Env) {p : Plan} (h : p.Mistaken) :
    program (parseRuntimeFlags (bridge host p.cfg env) (p.legacyArgs host)).2
      ≠ some (.script p.entry, p.rest) := by
  intro hrun
  simp only [parseRuntimeFlags, takeFlags_legacyArgs host p ⟨_, _, false⟩ rfl] at hrun
  obtain ⟨hleft, hstdin, hinline⟩ := program_eq_script_iff.mp hrun
  obtain ⟨fs, -, hstops, -⟩ := (takeFlags_iff _ _ _ _).mp rfl
  rw [hleft] at hstops
  rcases h with heq | heq | ⟨hrest, heq | heq | heq⟩
  · exact hstops.1 (by rw [heq]; rfl)
  · exact hstdin heq
  · exact (hstops.2 (by simpa using List.length_pos_of_ne_nil hrest)).1 (by rw [heq]; rfl)
  · exact (hstops.2 (by simpa using List.length_pos_of_ne_nil hrest)).2 (by rw [heq]; rfl)
  · exact hinline hrest heq

/-- The build allows the flags. -/
def Host.allows (host : Host) (flags : RuntimeFlags) : Prop :=
  host.phpNts = true → flags.threads ≤ 1 ∧ flags.supervise = false

lemma check_ok_iff {host : Host} {flags : RuntimeFlags} :
    checkSingleInterpreterFlags host flags = .ok () ↔ host.allows flags := by
  unfold checkSingleInterpreterFlags Host.allows
  split_ifs with hnts hthreads hsupervise
  · simp [hnts, Nat.not_le.mpr hthreads]
  · simp [hnts, hsupervise]
  · simp [Nat.not_lt.mp hthreads, hsupervise]
  · simp [hnts]

lemma check_of_not_allows {host : Host} {flags : RuntimeFlags} (h : ¬ host.allows flags) :
    checkSingleInterpreterFlags host flags = .error (.singleInterpreter
      (if 1 < flags.threads then bytes "--threads above 1" else bytes "--supervise")) := by
  have hnts : host.phpNts = true := by
    by_contra hzts
    exact h fun hphp => absurd hphp hzts
  rw [checkSingleInterpreterFlags, if_pos hnts]
  by_cases hthreads : 1 < flags.threads
  · rw [if_pos hthreads, if_pos hthreads]
  · have hsupervise : flags.supervise = true := by
      by_contra hfalse
      exact h fun _ => ⟨Nat.not_lt.mp hthreads, Bool.eq_false_iff.mpr hfalse⟩
    rw [if_neg hthreads, if_pos hsupervise, if_neg hthreads]

lemma serve_of_program {host : Host} {args : List PhpString} {p : Plan} {env : Env}
    {run : Program × List PhpString} (h : plan host args = .ok p)
    (hrun : program (parseRuntimeFlags (bridge host p.cfg env) (p.legacyArgs host)).2 = some run) :
    serve host env args = (checkSingleInterpreterFlags host
        (parseRuntimeFlags (bridge host p.cfg env) (p.legacyArgs host)).1).map fun _ =>
      ((parseRuntimeFlags (bridge host p.cfg env) (p.legacyArgs host)).1, run) := by
  unfold serve
  rw [h]
  simp only [bind, Except.bind, hrun]
  rfl

/-- What runs is what is left of the command line. -/
lemma program_of_serve {host : Host} {args : List PhpString} {p : Plan} {env : Env}
    {flags : RuntimeFlags} {run : Program × List PhpString} (h : plan host args = .ok p)
    (hserve : serve host env args = .ok (flags, run)) :
    program (parseRuntimeFlags (bridge host p.cfg env) (p.legacyArgs host)).2 = some run := by
  cases hprogram : program
      (parseRuntimeFlags (bridge host p.cfg env) (p.legacyArgs host)).2 with
  | none =>
      unfold serve at hserve
      rw [h] at hserve
      simp only [bind, Except.bind, hprogram] at hserve
      cases hserve
  | some run' =>
      rw [serve_of_program h hprogram] at hserve
      obtain ⟨_, -, hsame⟩ := Fallible.of_map_eq_ok hserve
      rw [(Prod.mk.inj hsame).2]

lemma serve_of_not_mistaken (castFloat : PhpString → ℤ) {host : Host} {args : List PhpString}
    {p : Plan} (h : plan host args = .ok p) (env : Env) (hnot : ¬ p.Mistaken) :
    serve host env args
      = (checkSingleInterpreterFlags host (p.flags castFloat host env)).map fun _ =>
          (p.flags castFloat host env, .script p.entry, p.rest) := by
  have hparse := parseRuntimeFlags_of_not_mistaken castFloat host env hnot
  have hprogram : program (p.entry :: p.rest) = some (.script p.entry, p.rest) :=
    program_eq_script_iff.mpr ⟨rfl, fun heq => hnot (.inr (.inl heq)),
      fun hrest heq => hnot (.inr (.inr ⟨hrest, .inr (.inr heq)⟩))⟩
  rw [serve_of_program h (by rw [hparse]; exact hprogram), hparse]

/-- **`serve` runs its entry, unless that looks like a flag or the build refuses the settings.**
The file `serve` has found and checked is the script of the process, with the arguments that came
after it and the flags of the settings, exactly if it is not named like something the older command
line takes for itself and the build has the threads; where it has not, the process says so. -/
theorem serve_runs_iff (castFloat : PhpString → ℤ) {host : Host} {args : List PhpString} {p : Plan}
    (h : plan host args = .ok p) (env : Env) :
    host.isFile p.entry = true ∧
      (∀ flags, serve host env args = .ok (flags, .script p.entry, p.rest) ↔
        ¬ p.Mistaken ∧ flags = p.flags castFloat host env ∧
          host.allows (p.flags castFloat host env)) ∧
      (¬ p.Mistaken → ¬ host.allows (p.flags castFloat host env) →
        serve host env args = .error (.singleInterpreter
          (if 1 < (p.flags castFloat host env).threads then bytes "--threads above 1"
            else bytes "--supervise"))) := by
  refine ⟨isFile_of_plan h, fun flags => ?_, fun hnot hrefused => ?_⟩
  · by_cases hmistaken : p.Mistaken
    · exact iff_of_false
        (fun hserve => program_of_mistaken host env hmistaken (program_of_serve h hserve))
        fun hrun => hrun.1 hmistaken
    · rw [serve_of_not_mistaken castFloat h env hmistaken]
      by_cases hallows : host.allows (p.flags castFloat host env)
      · rw [check_ok_iff.mpr hallows]
        simp [Except.map, hallows, hmistaken, eq_comm]
      · rw [check_of_not_allows hallows]
        simp [Except.map, hallows]
  · rw [serve_of_not_mistaken castFloat h env hnot, check_of_not_allows hrefused]
    rfl

/-- A machine with eight cores, an `app.php`, and a file that says little. -/
def smallHost : Host where
  phpNts := false
  cores := 8
  isFile path := path = bytes "app.php" || path = bytes "ignis.toml"
  load _ := .ok { threads := some 2, exempt := some [bytes "/healthz"] }

theorem serve_runs_iff_smallHost :
    ∃ p, plan smallHost [bytes "app.php", bytes "--threads", bytes "5"] = .ok p ∧
      smallHost.isFile p.entry = true ∧
      (∀ flags, serve smallHost ∅ [bytes "app.php", bytes "--threads", bytes "5"]
          = .ok (flags, .script p.entry, p.rest) ↔
        ¬ p.Mistaken ∧ flags = p.flags (fun _ => 0) smallHost ∅ ∧
          smallHost.allows (p.flags (fun _ => 0) smallHost ∅)) ∧
      (¬ p.Mistaken → ¬ smallHost.allows (p.flags (fun _ => 0) smallHost ∅) →
        serve smallHost ∅ [bytes "app.php", bytes "--threads", bytes "5"]
          = .error (.singleInterpreter
            (if 1 < (p.flags (fun _ => 0) smallHost ∅).threads then bytes "--threads above 1"
              else bytes "--supervise"))) :=
  ⟨⟨{ threads := some 2, exempt := some [bytes "/healthz"] }, bytes "app.php",
    [bytes "--threads", bytes "5"]⟩, rfl, serve_runs_iff (fun _ => 0) rfl ∅⟩

/-- The same machine, with a PHP that is not thread-safe, does not take the file's two threads. -/
example : serve { smallHost with phpNts := true } ∅ [bytes "app.php"]
    = .error (.singleInterpreter (bytes "--threads above 1")) := by decide

end Ignis.Config
