import Ignis.Lib.StepSystem
import Ignis.Classic.Request

/-!
# The superglobals of a classic script

A request reaches a classic script in one of two ways.  `Classic\serve()` runs `Runner::handle()` in
a fiber whose superglobals `Loop::enterRequest` has just made of the request.  `Classic\listen()`
hands the request to `Runner::accept()` on {main}, and there nothing makes them: both ways go on to
`enterSuperglobals`, which puts what a web server adds over the `$_SERVER` it finds and merges
`$_REQUEST` out of the `$_GET`, `$_POST` and `$_COOKIE` it finds.

So {main} keeps the three arrays that it was last given by other code, and in `$_SERVER` each key
has the value of the last request for which `server()` wrote it (`globals_of_past`).  A script that
`accept()` returns sees its own request exactly where that is what the request would have brought
(`accept_prepares_iff`).
-/

namespace Ignis

namespace Classic

/-! ## Definitions -/

/-- `$_SERVER`, `$_GET`, `$_POST`, `$_COOKIE`, `$_REQUEST` and `php://input`. -/
structure Globals where
  server : PhpArray
  get : PhpArray
  post : PhpArray
  cookie : PhpArray
  request : PhpArray
  input : PhpString

/-- `array_merge`: a name overwrites, an `int` is numbered anew. -/
def arrayMerge (arrays : List PhpArray) : PhpArray :=
  ((arrays.flatMap fun a => a.entries).foldl
    (fun (m : PhpArray × ℕ) e =>
      match e.1 with
      | .str name => (m.1.set (.str name) e.2, m.2)
      | .int _ => (m.1.set (.int m.2) e.2, m.2 + 1)) (∅, 0)).1

/-- `ignis_set_superglobals` in `Loop::enterRequest`. -/
def enterRequest (sg : Superglobals) (g : Globals) : Globals :=
  { g with server := sg.server, get := sg.get, post := sg.post, cookie := sg.cookie }

def enterSuperglobals (cfg : Config) (r : IgnisRequest) (s : Script) (g : Globals) : Globals :=
  { g with
    server := (server cfg r s).union g.server
    request := arrayMerge [g.get, g.post, g.cookie]
    input := r.body }

/-- What the script of `Runner::handle()` starts with. -/
def handled (cfg : Config) (sg : Superglobals) (r : IgnisRequest) (s : Script) (g : Globals) :
    Globals :=
  enterSuperglobals cfg r s (enterRequest sg g)

abbrev Raw := OrdMap ArrayKey Zval

/-- `requestFrom`. -/
def requestFrom (raw : Raw) : Except Throwable IgnisRequest :=
  validateRaw raw "Ignis\\Classic\\Runner: malformed raw request"
    "Ignis\\Classic\\Runner: malformed raw request headers"

/-- {main}: its superglobals, the requests that were handed over, and those that `accept` answered
itself, with the status.  Beside them what is to be remembered: the superglobals as other code last
wrote them, and the requests whose scripts `accept` has returned since, the last one first. -/
structure Main where
  globals : Globals
  inbox : List (ℕ × Raw)
  answered : List (ℕ × ℕ)
  written : Globals
  past : List (IgnisRequest × Script)

def Main.start (g : Globals) : Main := ⟨g, [], [], g, []⟩

/-- How a call of `accept` goes on. -/
inductive Accepted where
  | script (r : IgnisRequest) (s : Script)
  | throws (e : Throwable)
  /-- The inbox is empty: `runUntil` drives the loop. -/
  | waits

/-- The loop of `Runner::accept()`. -/
def acceptFrom (cfg : Config) (m : Main) : List (ℕ × Raw) → Main × Accepted
  | [] => ({ m with inbox := [] }, .waits)
  | (id, raw) :: inbox =>
      match requestFrom raw with
      | .error e => ({ m with inbox := inbox }, .throws e)
      | .ok r =>
          match resolve cfg (path r) with
          | none => acceptFrom cfg { m with answered := m.answered ++ [(id, 404)] } inbox
          | some s =>
              if s.isPhp then
                ({ m with
                    inbox := inbox
                    globals := enterSuperglobals cfg r s m.globals
                    past := (r, s) :: m.past }, .script r s)
              else acceptFrom cfg { m with answered := m.answered ++ [(id, 200)] } inbox

def accept (cfg : Config) (m : Main) : Main × Accepted := acceptFrom cfg m m.inbox

inductive Event where
  /-- `Runner::queue`: the loop hands a request over. -/
  | queue (id : ℕ) (raw : Raw)
  /-- `accept` returns, or throws. -/
  | accept
  /-- Code on {main} writes the superglobals. -/
  | write (g : Globals)

def step (cfg : Config) (m : Main) : Event → Option Main
  | .queue id raw => some { m with inbox := m.inbox ++ [(id, raw)] }
  | .accept =>
      match accept cfg m with
      | (_, .waits) => none
      | (m', _) => some m'
  | .write g => some { m with globals := g, written := g, past := [] }

/-- The keys of `$_SERVER` that a request decides about. -/
def requestDerived : ArrayKey → Bool
  | .int _ => false
  | .str name =>
      name == bytes "REQUEST_METHOD" || name == bytes "REQUEST_URI" ||
        name == bytes "QUERY_STRING" || (bytes "HTTP_").isPrefixOf name ||
        (bytes "CONTENT_").isPrefixOf name || name == bytes "PATH_INFO" ||
        name == bytes "PATH_TRANSLATED" || name == bytes "PHP_AUTH_USER" ||
        name == bytes "PHP_AUTH_PW" || name == bytes "AUTH_TYPE" || name == bytes "REMOTE_USER"

/-- Two scripts see the same request. -/
structure SameRequest (g g' : Globals) : Prop where
  get : g.get = g'.get
  post : g.post = g'.post
  cookie : g.cookie = g'.cookie
  request : g.request = g'.request
  server : ∀ k, requestDerived k = true → g.server.get? k = g'.server.get? k

variable (cfg : Config) (parsers : Parsers) (time : ℤ) (microtime : ℚ)

/-- A script that `accept` returns sees what it would in `handle`. -/
def Prepared (m : Main) : Event → Prop
  | .accept => ∀ r s, (accept cfg m).2 = .script r s →
      SameRequest (accept cfg m).1.globals
        (handled cfg (superglobals parsers time microtime r) r s m.globals)
  | _ => True

/-- What is left of the past under a key of `$_SERVER`. -/
def leftover (m : Main) (k : ArrayKey) : Option Value :=
  (m.past.findSome? fun e => (server cfg e.1 e.2).get? k).or (m.written.server.get? k)

/-- The condition: whenever `accept` returns a script, the arrays that were last written on {main}
are the request's, and so is what is left in `$_SERVER` where `server` writes nothing over it. -/
def UpToDate (m : Main) : Event → Prop
  | .accept => ∀ r s, (accept cfg m).2 = .script r s →
      let own := superglobals parsers time microtime r
      m.written.get = own.get ∧ m.written.post = own.post ∧ m.written.cookie = own.cookie ∧
        ∀ k, requestDerived k = true → (server cfg r s).get? k = none →
          leftover cfg m k = own.server.get? k
  | _ => True

/-! ## One request -/

/-- What `accept` does: it answers requests itself, and returns the first script. -/
lemma acceptFrom_spec (m : Main) (inbox : List (ℕ × Raw)) :
    ∃ answered rest, (∃ r s, (acceptFrom cfg m inbox).2 = .script r s ∧
        (acceptFrom cfg m inbox).1 = ⟨enterSuperglobals cfg r s m.globals, rest, answered,
          m.written, (r, s) :: m.past⟩) ∨
      (∀ r s, (acceptFrom cfg m inbox).2 ≠ .script r s) ∧
        (acceptFrom cfg m inbox).1 = ⟨m.globals, rest, answered, m.written, m.past⟩ := by
  induction inbox generalizing m with
  | nil => exact ⟨_, _, Or.inr ⟨nofun, rfl⟩⟩
  | cons e inbox ih =>
      obtain ⟨id, raw⟩ := e
      simp only [acceptFrom]
      cases requestFrom raw with
      | error e => exact ⟨_, _, Or.inr ⟨nofun, rfl⟩⟩
      | ok r =>
          simp only
          cases resolve cfg (path r) with
          | none => exact ih { m with answered := m.answered ++ [(id, 404)] }
          | some s =>
              simp only
              split_ifs
              · exact ⟨_, _, Or.inl ⟨r, s, rfl, rfl⟩⟩
              · exact ih { m with answered := m.answered ++ [(id, 200)] }

lemma accept_script {m : Main} {r : IgnisRequest} {s : Script}
    (h : (accept cfg m).2 = .script r s) :
    (accept cfg m).1.globals = enterSuperglobals cfg r s m.globals := by
  obtain ⟨answered, rest, ⟨r', s', hscript, hmain⟩ | ⟨hnone, -⟩⟩ := acceptFrom_spec cfg m m.inbox
  · cases hscript.symm.trans h
    exact congrArg Main.globals hmain
  · exact absurd h (hnone r s)

/-- Both ways end in `enterSuperglobals`, so they differ by what it finds. -/
lemma sameRequest_iff (sg : Superglobals) (g : Globals) (r : IgnisRequest) (s : Script) :
    SameRequest (enterSuperglobals cfg r s g) (handled cfg sg r s g) ↔
      g.get = sg.get ∧ g.post = sg.post ∧ g.cookie = sg.cookie ∧
        ∀ k, requestDerived k = true → (server cfg r s).get? k = none →
          g.server.get? k = sg.server.get? k := by
  constructor
  · intro h
    refine ⟨h.get, h.post, h.cookie, fun k hk hnone => ?_⟩
    have hserver := h.server k hk
    simp only [handled, enterSuperglobals, enterRequest, OrdMap.get?_union, hnone,
      Option.none_or] at hserver
    exact hserver
  · rintro ⟨hget, hpost, hcookie, hserver⟩
    refine ⟨hget, hpost, hcookie, ?_, fun k hk => ?_⟩
    · simp only [handled, enterSuperglobals, enterRequest, hget, hpost, hcookie]
    · simp only [handled, enterSuperglobals, enterRequest, OrdMap.get?_union]
      cases hown : (server cfg r s).get? k with
      | none => exact hserver k hk hown
      | some v => rfl

/-! ## Runs -/

/-- The superglobals of {main} by its past. -/
structure Main.Kept (m : Main) : Prop where
  get : m.globals.get = m.written.get
  post : m.globals.post = m.written.post
  cookie : m.globals.cookie = m.written.cookie
  server : ∀ k, m.globals.server.get? k = leftover cfg m k

lemma kept_start (g : Globals) : (Main.start g).Kept cfg :=
  ⟨rfl, rfl, rfl, fun _ => rfl⟩

lemma kept_step {m m' : Main} {event : Event} (h : m.Kept cfg)
    (hstep : step cfg m event = some m') :
    m'.Kept cfg := by
  cases event with
  | queue id raw =>
      cases hstep
      exact ⟨h.get, h.post, h.cookie, h.server⟩
  | write g =>
      cases hstep
      exact ⟨rfl, rfl, rfl, fun _ => rfl⟩
  | accept =>
      have hmain : m' = (accept cfg m).1 := by
        simp only [step] at hstep
        split at hstep
        next => cases hstep
        next heq =>
          cases hstep
          rw [heq]
      rw [hmain, accept]
      obtain ⟨answered, rest, ⟨r, s, -, haccept⟩ | ⟨-, haccept⟩⟩ := acceptFrom_spec cfg m m.inbox
      · rw [haccept]
        refine ⟨h.get, h.post, h.cookie, fun k => ?_⟩
        -- what `server` writes comes before what was there, and so it does in the past
        have hleft := h.server k
        simp only [leftover] at hleft
        simp only [enterSuperglobals, OrdMap.get?_union, leftover, List.findSome?_cons, hleft]
        cases (server cfg r s).get? k <;> rfl
      · rw [haccept]
        exact ⟨h.get, h.post, h.cookie, h.server⟩

/-- In every state of a run the superglobals of {main} are those of its past. -/
theorem globals_of_past {g : Globals} {events : List Event} {m : Main}
    (h : StepSystem.runFrom (step cfg) (Main.start g) events = some m) : m.Kept cfg :=
  StepSystem.invariant_of_run (step cfg) (fun _ _ _ hm hstep => kept_step cfg hm hstep)
    (kept_start cfg g) h

lemma prepared_iff {m : Main} (h : m.Kept cfg) (event : Event) :
    Prepared cfg parsers time microtime m event ↔ UpToDate cfg parsers time microtime m event := by
  cases event with
  | accept =>
      refine forall₃_congr fun r s haccept => ?_
      rw [accept_script cfg haccept, sameRequest_iff, h.get, h.post, h.cookie]
      simp only [h.server]
  | _ => exact Iff.rfl

/-- In a run every script that `accept` returns sees the request that `handle` would show it exactly
when, each time, the past has left on {main} what the request would have brought. -/
theorem accept_prepares_iff (g : Globals) (events : List Event) :
    StepSystem.Along (step cfg) (Prepared cfg parsers time microtime) (Main.start g) events ↔
      StepSystem.Along (step cfg) (UpToDate cfg parsers time microtime) (Main.start g) events :=
  StepSystem.along_congr_of_invariant (step cfg) (fun _ _ _ hm hstep => kept_step cfg hm hstep)
    (fun _ event hm => prepared_iff cfg parsers time microtime hm event) (kept_start cfg g)

/-- A docroot with an `index.php`. -/
def blog : Config :=
  ⟨bytes "/srv", some (bytes "index.php"), ∅, ∅, fun f => f == bytes "/srv/index.php",
    fun f => f == bytes "/srv"⟩

def nothing : Globals := ⟨∅, ∅, ∅, ∅, ∅, []⟩

/-- A request with credentials, and one without. -/
def visits : List Event :=
  [.queue 1 (requestToZval ⟨bytes "GET", bytes "/",
      [(bytes "authorization", bytes "Basic YWxpY2U6eA==")], []⟩), .accept,
    .queue 2 (requestToZval ⟨bytes "GET", bytes "/", [], []⟩), .accept]

/-- The script of the second request is told that it comes from the user of the first, and no
request method at all. -/
theorem credentials_outlive_request :
    (∃ m, StepSystem.runFrom (step blog) (Main.start nothing) visits = some m ∧
        m.globals.server.get? (.str (bytes "PHP_AUTH_USER")) = some (.string (bytes "alice")) ∧
        m.globals.server.get? (.str (bytes "REQUEST_METHOD")) = none) ∧
      ¬ ∀ cfg parsers time microtime g events,
        StepSystem.Along (step cfg) (Prepared cfg parsers time microtime) (Main.start g)
          events := by
  refine ⟨⟨_, rfl, rfl, rfl⟩, fun h => ?_⟩
  have halong := h blog ⟨fun _ => ∅, fun _ _ => none⟩ 0 0 nothing visits
  have hsecond := (((halong.2 _ rfl).2 _ rfl).2 _ rfl).1 _ _ rfl
  have huser := hsecond.server (.str (bytes "PHP_AUTH_USER")) (by decide)
  exact absurd (congrArg Option.isSome huser) (by decide +kernel)

end Classic

end Ignis
