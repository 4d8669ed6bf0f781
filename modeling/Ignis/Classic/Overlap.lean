import Mathlib.Logic.Function.Basic
import Ignis.Lib.StepSystem
import Ignis.Classic.Sapi

/-!
# Overlapping requests of a docroot

`Classic\serve()` runs `Runner::handle()` in a fiber for each request.  The flag of `finish_request`
belongs to the fiber; the buffers, the headers, the status, `$_REQUEST` and the session belong to
the thread, and a request that goes on after a suspension goes on with whatever the others have made
of them.

Each handle is followed by a `Sapi` of its own, on which the same operations run and nothing else
does: `own` is what the script wrote and set.  `serve_apart` shows that the answers are those of
`own`, and that a script reads its own `$_REQUEST`, in every run in which each script finds the
thread as it left it.
-/

namespace Ignis

namespace Classic

namespace Serve

open StepSystem

/-! ## Definitions -/

/-- A request for `handle`: whether `resolve` finds a file, the merged `$_REQUEST`, and the session
id in its cookie. -/
structure Visit where
  id : ℕ
  found : Bool
  request : PhpArray
  cookie : PhpString

/-- What a script does to the thread between two suspensions. -/
inductive Op where
  | echo (s : PhpString)
  | obStart (cleanable flushable removable : Bool)
  | obClean
  | obEndClean
  | obEndFlush
  | obFlush
  | header (line : PhpString) (replace : Bool) (code : ℕ)
  | headerRemove (name : Option PhpString)
  | httpResponseCode (code : ℕ)
  | writeRequest (a : PhpArray)
  /-- Any function of the session extension. -/
  | session (f : Session → Session)

/-- Without the adapter's sessions `Runner` does not look at the extension, and it is not
followed. -/
def Op.run (cfg : Settings) (op : Op) (s : Sapi) : Sapi :=
  match op with
  | .echo text => { s with buffers := Classic.echo text s.buffers }
  | .obStart cleanable flushable removable =>
      { s with buffers := ⟨[], cleanable, flushable, removable⟩ :: s.buffers }
  | .obClean => { s with buffers := Classic.obClean s.buffers }
  | .obEndClean => { s with buffers := Classic.obEndClean s.buffers }
  | .obEndFlush => { s with buffers := Classic.obEndFlush s.buffers }
  | .obFlush => { s with buffers := Classic.obFlush s.buffers }
  | .header line replace code =>
      { s with headers := Classic.header line replace code s.headers }
  | .headerRemove name => { s with headers := Classic.headerRemove name s.headers }
  | .httpResponseCode code => { s with headers := Classic.httpResponseCode code s.headers }
  | .writeRequest a => { s with request := a }
  | .session f => if cfg.sessions then { s with session := f s.session } else s

/-- An exception that the script does not catch: its text, file and line. -/
structure Uncaught where
  text : PhpString
  file : PhpString
  line : ℕ

/-- `handle` up to the script. -/
def enter (cfg : Settings) (v : Visit) (s : Sapi) : Sapi × Option PhpString :=
  sessionBegin cfg v.cookie { reset cfg s with request := v.request }

/-- `handle` after the script: what it leaves, and the response. -/
def leave (cfg : Settings) (cookie : Option PhpString) (uncaught : Option Uncaught) (s : Sapi) :
    Sapi × Response :=
  let s :=
    match uncaught with
    | none => s
    | some e =>
        { s with
          headers := httpResponseCode 500 s.headers
          buffers := echo (bytes "\nFatal error: Uncaught " ++ e.text ++ bytes "\n  thrown in " ++
            e.file ++ bytes " on line " ++ bytes (toString e.line) ++ bytes "\n") s.buffers }
  let (s, r) := response cfg (sessionEnd cfg cookie s)
  ({ s with buffers := obClean s.buffers }, r)

def notFound : Response :=
  { body := bytes "404 Not Found\n"
    status := 404
    headers := (∅ : OrdMap ArrayKey (List PhpString)).set (.str (bytes "content-type"))
      [bytes "text/plain; charset=utf-8"] }

/-- A handle under way: its `SENT` and the id that `sessionBegin` gave; the thread as it was when
the script suspended last.  Beside them its own `Sapi`, and whether the script has called
`finish_request`. -/
structure Handle where
  visit : Visit
  cookie : Option PhpString
  sent : Option ℕ
  left : Sapi
  own : Sapi
  finished : Bool

/-- What was answered to a request, by `handle` or by `finish_request`, and what the script's own
`Sapi` comes to. -/
structure Answer where
  id : ℕ
  given : Option Response
  own : Option Response

structure World where
  sapi : Sapi
  handles : ℕ → Option Handle
  current : Option ℕ
  answers : List Answer
  /-- What scripts read in `$_REQUEST`, and what their own held. -/
  reads : List (PhpArray × PhpArray)

def noSession : Session := ⟨false, [], none⟩

/-- A thread on which nothing has run. -/
def fresh : Sapi := ⟨[], ⟨[], 200, none⟩, ∅, noSession⟩

/-- A thread that serves no request yet: no session has been opened on it. -/
def World.start (buffers : List Buffer) (headers : HeaderTable) (request : PhpArray) : World :=
  ⟨⟨buffers, headers, request, noSession⟩, fun _ => none, none, [], []⟩

inductive Event where
  /-- `handle` begins in a fiber. -/
  | begin (fiber : ℕ) (v : Visit)
  | op (op : Op)
  | readRequest
  | finishRequest
  | suspend
  | resume (fiber : ℕ)
  /-- The script returns, throws `Finished`, or throws something else. -/
  | finish (uncaught : Option Uncaught)

/-- The handle that runs. -/
def World.running (w : World) : Option (ℕ × Handle) :=
  w.current.bind fun f => (w.handles f).map fun h => (f, h)

def World.setHandle (w : World) (f : ℕ) (h : Option Handle) : World :=
  { w with handles := Function.update w.handles f h }

def World.answer (w : World) (a : Answer) : World := { w with answers := w.answers ++ [a] }

def step (cfg : Settings) (w : World) : Event → Option World
  | .begin f v =>
      match w.current, w.handles f with
      | none, none =>
          if v.found then
            let (s, cookie) := enter cfg v w.sapi
            some ({ w with sapi := s, current := some f }.setHandle f
              (some ⟨v, cookie, none, s, (enter cfg v fresh).1, false⟩))
          else some (w.answer ⟨v.id, some notFound, some notFound⟩)
      | _, _ => none
  | .op op =>
      w.running.map fun (f, h) =>
        { w with sapi := op.run cfg w.sapi }.setHandle f (some { h with own := op.run cfg h.own })
  | .readRequest =>
      w.running.map fun (_, h) =>
        { w with reads := w.reads ++ [(w.sapi.request, h.own.request)] }
  | .finishRequest =>
      w.running.map fun (f, h) =>
        -- `finish_request` answers once; the second call returns false and does nothing
        let (s, given) :=
          match h.sent with
          | some _ => (w.sapi, none)
          | none => ((response cfg w.sapi).1, some (response cfg w.sapi).2)
        let (own, owed) :=
          if h.finished then (h.own, none)
          else ((response cfg h.own).1, some (response cfg h.own).2)
        ({ w with sapi := s }.answer ⟨h.visit.id, given, owed⟩).setHandle f
          (some { h with sent := some h.visit.id, own := own, finished := true })
  | .suspend =>
      w.running.map fun (f, h) =>
        { w with current := none }.setHandle f (some { h with left := w.sapi })
  | .resume f =>
      match w.current, w.handles f with
      | none, some _ => some { w with current := some f }
      | _, _ => none
  | .finish uncaught =>
      w.running.map fun (f, h) =>
        let (s, r) := leave cfg h.cookie uncaught w.sapi
        let (_, owed) := leave cfg h.cookie uncaught h.own
        ({ w with sapi := s, current := none }.answer ⟨h.visit.id,
          if h.sent.isNone then some r else none,
          if h.finished then none else some owed⟩).setHandle f none

/-- Every answer is the script's own, and so is every `$_REQUEST` that was read. -/
structure World.Apart (w : World) : Prop where
  answers : ∀ a ∈ w.answers, a.given = a.own
  reads : ∀ r ∈ w.reads, r.1 = r.2

/-- The condition.  A handle begins on a thread that can be reset and has no open session; and a
script that goes on finds the thread as it left it. -/
def Undisturbed (w : World) : Event → Prop
  | .begin _ v => v.found = true → Resettable w.sapi.buffers ∧ w.sapi.session.active = false
  | .resume f => ∀ h, w.handles f = some h → w.sapi = h.left
  | _ => True

/-! ## One handle -/

lemma session_reset (cfg : Settings) (s : Sapi) : (reset cfg s).session = s.session := rfl

/-- A handle that begins on a thread that can be reset begins as on one on which nothing has run. -/
lemma enter_eq {cfg : Settings} {s : Sapi} (v : Visit) (hbuffers : Resettable s.buffers)
    (hactive : s.session.active = false) (hsession : cfg.sessions = false → s.session = noSession) :
    enter cfg v s = enter cfg v fresh := by
  have hfresh : Resettable fresh.buffers := trivial
  simp only [enter, reset_eq hbuffers, reset_eq hfresh, sessionBegin]
  cases hcfg : cfg.sessions with
  | true => simp [hactive, fresh, noSession]
  | false => simp [hsession hcfg, fresh]

/-- Without the adapter's sessions nothing opens one. -/
lemma session_run {cfg : Settings} (hcfg : cfg.sessions = false) (op : Op) (s : Sapi) :
    (op.run cfg s).session = s.session := by
  cases op with
  | session f => simp [Op.run, hcfg]
  | _ => rfl

lemma session_enter {cfg : Settings} (hcfg : cfg.sessions = false) (v : Visit) (s : Sapi) :
    (enter cfg v s).1.session = s.session := by
  simp [enter, sessionBegin, hcfg, session_reset]

lemma session_leave {cfg : Settings} {cookie : Option PhpString} {uncaught : Option Uncaught}
    {s : Sapi} (h : s.session = noSession) :
    (leave cfg cookie uncaught s).1.session = noSession := by
  have hend : ∀ t : Sapi, t.session = noSession →
      (sessionEnd cfg cookie t).session = noSession := by
    intro t ht
    simp only [sessionEnd]
    split
    · exact ht
    · simp [ht, noSession]
  simp only [leave, response]
  refine hend _ ?_
  cases uncaught <;> exact h

/-! ## Runs -/

structure World.Inv (cfg : Settings) (w : World) : Prop where
  /-- The script that runs has its own `Sapi` before it. -/
  running : ∀ f h, w.current = some f → w.handles f = some h → h.own = w.sapi
  /-- One that does not has left it. -/
  suspended : ∀ f h, w.current ≠ some f → w.handles f = some h → h.own = h.left
  sent : ∀ f h, w.handles f = some h → h.sent.isNone = !h.finished
  session : cfg.sessions = false → w.sapi.session = noSession
  apart : w.Apart

lemma inv_start (cfg : Settings) (buffers : List Buffer) (headers : HeaderTable)
    (request : PhpArray) : (World.start buffers headers request).Inv cfg where
  running f h hcurrent := by cases hcurrent
  suspended f h _ hhandle := by cases hhandle
  sent f h hhandle := by cases hhandle
  session _ := rfl
  apart := ⟨by simp [World.start], by simp [World.start]⟩

lemma running_eq_some {w : World} {f : ℕ} {h : Handle} :
    w.running = some (f, h) ↔ w.current = some f ∧ w.handles f = some h := by
  simp only [World.running, Option.bind_eq_some_iff, Option.map_eq_some_iff, Prod.mk.injEq]
  constructor
  · rintro ⟨g, hg, h', hh', rfl, rfl⟩
    exact ⟨hg, hh'⟩
  · rintro ⟨hf, hh⟩
    exact ⟨f, hf, h, hh, rfl, rfl⟩

lemma World.Apart.answer {w : World} (h : w.Apart) {a : Answer} (ha : a.given = a.own) :
    (w.answer a).Apart := by
  refine ⟨fun b hb => ?_, h.reads⟩
  rcases List.mem_append.1 hb with hb | hb
  · exact h.answers b hb
  · rw [List.mem_singleton.1 hb]
    exact ha

/-- What is kept of answers and reads is neither on the thread nor in a handle. -/
lemma World.Apart.put {w w' : World} (h : w.Apart) (hanswers : w'.answers = w.answers)
    (hreads : w'.reads = w.reads) : w'.Apart :=
  ⟨hanswers ▸ h.answers, hreads ▸ h.reads⟩

/-- A step changes one handle; the others are suspended, and stay as they are. -/
lemma World.Inv.of_update {cfg : Settings} {w w' : World} {f : ℕ} {h' : Option Handle}
    (hinv : w.Inv cfg) (hothers : ∀ g, g ≠ f → w.current ≠ some g)
    (hhandles : w'.handles = Function.update w.handles f h')
    (hnext : ∀ g, w'.current = some g → g = f)
    (hrunning : w'.current = some f → ∀ k, h' = some k → k.own = w'.sapi)
    (hsuspended : w'.current ≠ some f → ∀ k, h' = some k → k.own = k.left)
    (hsent : ∀ k, h' = some k → k.sent.isNone = !k.finished)
    (hsession : cfg.sessions = false → w'.sapi.session = noSession) (hapart : w'.Apart) :
    w'.Inv cfg := by
  have hself : w'.handles f = h' := by rw [hhandles, Function.update_self]
  have hother : ∀ g, g ≠ f → w'.handles g = w.handles g := by
    intro g hg
    rw [hhandles, Function.update_of_ne hg]
  refine ⟨?_, ?_, ?_, hsession, hapart⟩
  · intro g k hcurrent hk
    obtain rfl := hnext g hcurrent
    exact hrunning hcurrent k (hself ▸ hk)
  · intro g k hcurrent hk
    by_cases hg : g = f
    · subst hg
      exact hsuspended hcurrent k (hself ▸ hk)
    · exact hinv.suspended g k (hothers g hg) (hother g hg ▸ hk)
  · intro g k hk
    by_cases hg : g = f
    · subst hg
      exact hsent k (hself ▸ hk)
    · exact hinv.sent g k (hother g hg ▸ hk)

/-- The handle is still there after the step. -/
lemma World.Inv.of_change {cfg : Settings} {w w' : World} {f : ℕ} {k : Handle}
    (hinv : w.Inv cfg) (hothers : ∀ g, g ≠ f → w.current ≠ some g)
    (hhandles : w'.handles = Function.update w.handles f (some k))
    (hnext : ∀ g, w'.current = some g → g = f)
    (hrunning : w'.current = some f → k.own = w'.sapi)
    (hsuspended : w'.current ≠ some f → k.own = k.left) (hsent : k.sent.isNone = !k.finished)
    (hsession : cfg.sessions = false → w'.sapi.session = noSession) (hapart : w'.Apart) :
    w'.Inv cfg := by
  refine hinv.of_update hothers hhandles hnext ?_ ?_ ?_ hsession hapart
  · rintro hcurrent _ ⟨⟩
    exact hrunning hcurrent
  · rintro hcurrent _ ⟨⟩
    exact hsuspended hcurrent
  · rintro _ ⟨⟩
    exact hsent

section
variable {cfg : Settings} {w w' : World}

lemma inv_begin {f : ℕ} {v : Visit} (hinv : w.Inv cfg) (hok : Undisturbed w (.begin f v))
    (hstep : step cfg w (.begin f v) = some w') : w'.Inv cfg := by
  simp only [step] at hstep
  split at hstep
  case h_2 => cases hstep
  case h_1 hcurrent hfree =>
    split_ifs at hstep with hfound
    · obtain rfl := Option.some.inj hstep
      obtain ⟨hbuffers, hactive⟩ := hok hfound
      have henter := enter_eq v hbuffers hactive hinv.session
      refine hinv.of_change (f := f) (by simp [hcurrent]) rfl ?_ ?_ ?_ rfl ?_
        (hinv.apart.put rfl rfl)
      · rintro g hg
        exact (Option.some.inj hg).symm
      · intro _
        exact congrArg Prod.fst henter.symm
      · intro hne
        exact absurd rfl hne
      · intro hcfg
        exact (session_enter hcfg v w.sapi).trans (hinv.session hcfg)
    · obtain rfl := Option.some.inj hstep
      exact ⟨hinv.running, hinv.suspended, hinv.sent, hinv.session, hinv.apart.answer rfl⟩

/-- What the script that runs does is a change of the thread and of its handle. -/
lemma running_cases {act : ℕ × Handle → World} (h : w.running.map act = some w') :
    ∃ f k, w.current = some f ∧ w.handles f = some k ∧ w' = act (f, k) := by
  obtain ⟨⟨f, k⟩, hrunning, rfl⟩ := Option.map_eq_some_iff.1 h
  obtain ⟨hcurrent, hk⟩ := running_eq_some.1 hrunning
  exact ⟨f, k, hcurrent, hk, rfl⟩

lemma current_unique {f : ℕ} (h : w.current = some f) : ∀ g, w.current = some g → g = f :=
  fun _ hg => Option.some.inj (hg.symm.trans h)

/-- While a script runs, the others are suspended. -/
lemma ne_of_current {f : ℕ} (h : w.current = some f) : ∀ g, g ≠ f → w.current ≠ some g := by
  intro g hg hcurrent
  exact hg (Option.some.inj (hcurrent.symm.trans h))

/-- An operation of the script does the same to the thread and to its own `Sapi`. -/
lemma inv_op {op : Op} (hinv : w.Inv cfg) (hstep : step cfg w (.op op) = some w') : w'.Inv cfg := by
  obtain ⟨f, h, hcurrent, hhandle, rfl⟩ := running_cases hstep
  have hown := hinv.running f h hcurrent hhandle
  refine hinv.of_change (ne_of_current hcurrent) rfl (current_unique hcurrent) ?_ ?_
    (hinv.sent f h hhandle) ?_ (hinv.apart.put rfl rfl)
  · intro _
    exact congrArg (op.run cfg) hown
  · intro hne
    exact absurd hcurrent hne
  · intro hcfg
    exact (session_run hcfg op w.sapi).trans (hinv.session hcfg)

lemma inv_readRequest (hinv : w.Inv cfg) (hstep : step cfg w .readRequest = some w') :
    w'.Inv cfg := by
  obtain ⟨f, h, hcurrent, hhandle, rfl⟩ := running_cases hstep
  have hown := hinv.running f h hcurrent hhandle
  refine ⟨hinv.running, hinv.suspended, hinv.sent, hinv.session, hinv.apart.answers, ?_⟩
  intro r hr
  rcases List.mem_append.1 hr with hr | hr
  · exact hinv.apart.reads r hr
  · obtain rfl := List.mem_singleton.1 hr
    exact congrArg Sapi.request hown.symm

/-- The flag belongs to the fiber, so that `finish_request` answers exactly when it should. -/
lemma inv_finishRequest (hinv : w.Inv cfg) (hstep : step cfg w .finishRequest = some w') :
    w'.Inv cfg := by
  obtain ⟨f, h, hcurrent, hhandle, rfl⟩ := running_cases hstep
  have hown := hinv.running f h hcurrent hhandle
  have hsent := hinv.sent f h hhandle
  have hnext := current_unique hcurrent
  cases hfinished : h.finished with
  | true =>
      obtain ⟨id, hid⟩ : ∃ id, h.sent = some id := by
        rw [hfinished] at hsent
        exact Option.isSome_iff_exists.1 (by simpa using hsent)
      simp only [hid, hfinished, if_true]
      refine hinv.of_change (ne_of_current hcurrent) rfl hnext ?_ ?_ rfl hinv.session ?_
      · intro _
        exact hown
      · intro hne
        exact absurd hcurrent hne
      · exact ((hinv.apart.put rfl rfl).answer rfl).put rfl rfl
  | false =>
      have hnone : h.sent = none := by
        simpa [hfinished] using hsent
      simp only [hnone, hfinished, Bool.false_eq_true, if_false, hown]
      refine hinv.of_change (ne_of_current hcurrent) rfl hnext ?_ ?_ rfl hinv.session ?_
      · intro _
        rfl
      · intro hne
        exact absurd hcurrent hne
      · exact ((hinv.apart.put rfl rfl).answer rfl).put rfl rfl

lemma inv_suspend (hinv : w.Inv cfg) (hstep : step cfg w .suspend = some w') : w'.Inv cfg := by
  obtain ⟨f, h, hcurrent, hhandle, rfl⟩ := running_cases hstep
  have hown := hinv.running f h hcurrent hhandle
  refine hinv.of_change (ne_of_current hcurrent) rfl ?_ ?_ ?_ (hinv.sent f h hhandle)
    hinv.session (hinv.apart.put rfl rfl)
  · rintro g ⟨⟩
  · rintro ⟨⟩
  · intro _
    exact hown

/-- A script that finds the thread as it left it finds its own. -/
lemma inv_resume {f : ℕ} (hinv : w.Inv cfg) (hok : Undisturbed w (.resume f))
    (hstep : step cfg w (.resume f) = some w') : w'.Inv cfg := by
  simp only [step] at hstep
  split at hstep
  case h_2 => cases hstep
  case h_1 h hcurrent hhandle =>
    obtain rfl := Option.some.inj hstep
    refine ⟨?_, ?_, hinv.sent, hinv.session, hinv.apart.answers, hinv.apart.reads⟩
    · intro g k hg hk
      obtain rfl := Option.some.inj hg
      exact (hinv.suspended f k (by simp [hcurrent]) hk).trans (hok k hk).symm
    · intro g k _ hk
      exact hinv.suspended g k (by simp [hcurrent]) hk

lemma inv_finish {uncaught : Option Uncaught} (hinv : w.Inv cfg)
    (hstep : step cfg w (.finish uncaught) = some w') : w'.Inv cfg := by
  obtain ⟨f, h, hcurrent, hhandle, rfl⟩ := running_cases hstep
  have hown := hinv.running f h hcurrent hhandle
  have hsent := hinv.sent f h hhandle
  dsimp only
  refine hinv.of_update (ne_of_current hcurrent) rfl ?_ ?_ ?_ ?_ ?_ ?_
  · rintro g ⟨⟩
  · rintro ⟨⟩
  · rintro - k ⟨⟩
  · rintro k ⟨⟩
  · intro hcfg
    exact session_leave (hinv.session hcfg)
  · refine (World.Apart.answer (hinv.apart.put rfl rfl) ?_).put rfl rfl
    cases hfinished : h.finished with
    | true => simp [hsent, hfinished]
    | false => simp [hsent, hfinished, hown]

end

/-- **The step lemma.**  In a step that meets the condition the scripts stay apart. -/
lemma inv_step {cfg : Settings} {w w' : World} {e : Event} (hinv : w.Inv cfg)
    (hok : Undisturbed w e) (hstep : step cfg w e = some w') : w'.Inv cfg := by
  cases e with
  | begin f v => exact inv_begin hinv hok hstep
  | op op => exact inv_op hinv hstep
  | readRequest => exact inv_readRequest hinv hstep
  | finishRequest => exact inv_finishRequest hinv hstep
  | suspend => exact inv_suspend hinv hstep
  | resume f => exact inv_resume hinv hok hstep
  | finish uncaught => exact inv_finish hinv hstep

/-- Requests that overlap are kept apart in a run in which no script finds the thread changed: each
is answered with what its own script wrote and set, by `handle` unless its script called
`finish_request`, and reads its own `$_REQUEST`. -/
theorem serve_apart (cfg : Settings) {buffers : List Buffer} {headers : HeaderTable}
    {request : PhpArray} {w : World} {es : List Event}
    (hok : Along (step cfg) Undisturbed (World.start buffers headers request) es)
    (hrun : runFrom (step cfg) (World.start buffers headers request) es = some w) : w.Apart := by
  have hinv : w.Inv cfg :=
    invariant_of_step (step cfg) (fun _ _ _ hinv hok hstep => inv_step hinv hok hstep)
      (inv_start cfg buffers headers request) hok hrun
  exact hinv.apart

/-! ## Two requests -/

/-- No `X-Powered-By`, and no session extension. -/
def plain : Settings := ⟨none, bytes "text/html; charset=UTF-8", false, fun _ => []⟩

def first : Visit := ⟨1, true, ∅, []⟩

def second : Visit := ⟨2, true, ∅, []⟩

/-- The first script is suspended before it writes; the second one runs from its beginning to its
end meanwhile. -/
def early : List Event :=
  [.begin 0 first, .suspend, .begin 1 second, .op (.echo (bytes "b")), .finish none,
    .resume 0, .op (.echo (bytes "a")), .finish none]

/-- The same, with the first script suspended after it has written. -/
def late : List Event :=
  [.begin 0 first, .op (.echo (bytes "a")), .suspend, .begin 1 second, .finish none,
    .resume 0, .finish none]

/-- The bodies that were given, and those of the scripts' own. -/
def World.bodies (w : World) : List (Option PhpString × Option PhpString) :=
  w.answers.map fun a => (a.given.map Response.body, a.own.map Response.body)

theorem serve_apart_early :
    ∃ w, runFrom (step plain) (World.start [] ⟨[], 200, none⟩ ∅) early = some w ∧ w.Apart ∧
      w.bodies = [(some (bytes "b"), some (bytes "b")), (some (bytes "a"), some (bytes "a"))] := by
  have hok : Along (step plain) Undisturbed (World.start [] ⟨[], 200, none⟩ ∅) early := by
    refine ⟨fun _ => ⟨trivial, rfl⟩, fun s hs => ?_⟩
    obtain rfl := Option.some.inj hs
    refine ⟨trivial, fun s hs => ?_⟩
    obtain rfl := Option.some.inj hs
    refine ⟨fun _ => ⟨rfl, rfl⟩, fun s hs => ?_⟩
    obtain rfl := Option.some.inj hs
    refine ⟨trivial, fun s hs => ?_⟩
    obtain rfl := Option.some.inj hs
    refine ⟨trivial, fun s hs => ?_⟩
    obtain rfl := Option.some.inj hs
    refine ⟨fun h hh => ?_, fun s hs => ?_⟩
    · obtain rfl := Option.some.inj hh
      rfl
    refine ⟨trivial, fun s hs => ⟨trivial, fun s hs => trivial⟩⟩
  obtain ⟨w, hw⟩ : ∃ w, runFrom (step plain) (World.start [] ⟨[], 200, none⟩ ∅) early = some w :=
    Option.isSome_iff_exists.1 (by decide +kernel)
  refine ⟨w, hw, serve_apart plain hok hw, ?_⟩
  have hbodies : (runFrom (step plain) (World.start [] ⟨[], 200, none⟩ ∅) early).map World.bodies =
      some [(some (bytes "b"), some (bytes "b")), (some (bytes "a"), some (bytes "a"))] := by
    decide +kernel
  simpa [hw] using hbodies

/-- `reset` of the second request wipes what the first script had written. -/
theorem output_lost_to_overlap :
    ∃ w, runFrom (step plain) (World.start [] ⟨[], 200, none⟩ ∅) late = some w ∧ ¬ w.Apart := by
  have hbodies : (runFrom (step plain) (World.start [] ⟨[], 200, none⟩ ∅) late).map World.bodies =
      some [(some [], some []), (some [], some (bytes "a"))] := by
    decide +kernel
  obtain ⟨w, hw, hb⟩ := Option.map_eq_some_iff.1 hbodies
  refine ⟨w, hw, fun hapart => ?_⟩
  have hequal : ∀ b ∈ w.bodies, b.1 = b.2 := by
    intro b hmem
    obtain ⟨a, ha, rfl⟩ := List.mem_map.1 hmem
    exact congrArg (Option.map Response.body) (hapart.answers a ha)
  rw [hb] at hequal
  exact absurd (hequal (some [], some (bytes "a")) (by simp)) (by decide)

end Serve

end Classic

end Ignis
