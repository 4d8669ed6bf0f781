import Ignis.Lib.StepSystem

/-!
# Programs that call a shared object

A shared object has methods, and a call of a method is a sequence of accesses to the shared state
`σ`; `Object.next` says which comes next.  A program `Prog` calls methods, asks the outside world,
and does with the results whatever it likes.  `System.step` runs one program against an environment
that may change the shared state between any two accesses, within the calls as well as between them,
and that answers the questions as the shared state allows.

`wp p Q` is what has to hold of the shared state for every run of `p` that finishes to finish in
`Q`, whatever the environment does meanwhile; `wp_sound` is that statement about runs.  The rules
reduce it to one invariant for each call: what the environment keeps and each access of the call
keeps.
-/

universe u

namespace Caller

variable {σ κ μ ρ θ ε ι : Type*} {α β : Type u}

/-- A shared object: where a call of a method starts, which access it makes next, what it has
returned. -/
structure Object (σ κ μ ρ : Type*) where
  start : μ → κ
  next : σ → κ → Option (σ × κ)
  result : κ → Option ρ

/-- A program over methods `μ` that return `ρ` and questions `θ` that are answered by an `ε`. -/
inductive Prog (μ ρ θ ε α : Type*) where
  | done (a : α)
  | call (m : μ) (k : ρ → Prog μ ρ θ ε α)
  | ask (q : θ) (k : ε → Prog μ ρ θ ε α)

def Prog.bind : Prog μ ρ θ ε α → (α → Prog μ ρ θ ε β) → Prog μ ρ θ ε β
  | .done a, f => f a
  | .call m k, f => .call m fun r => (k r).bind f
  | .ask q k, f => .ask q fun e => (k e).bind f

instance : Monad (Prog μ ρ θ ε) where
  pure := .done
  bind := .bind

lemma Prog.call_congr {m : μ} {k k' : ρ → Prog μ ρ θ ε α} (h : ∀ r, k r = k' r) :
    Prog.call m k = .call m k' := by
  rw [funext h]

lemma Prog.ask_congr {q : θ} {k k' : ε → Prog μ ρ θ ε α} (h : ∀ e, k e = k' e) :
    Prog.ask q k = .ask q k' := by
  rw [funext h]

lemma Prog.bind_assoc {γ : Type u} (p : Prog μ ρ θ ε α) (f : α → Prog μ ρ θ ε β)
    (g : β → Prog μ ρ θ ε γ) : p >>= f >>= g = p >>= fun a => f a >>= g := by
  induction p with
  | done a => rfl
  | call m k ih => exact Prog.call_congr ih
  | ask q k ih => exact Prog.ask_congr ih

/-- The program with the results of its calls given in advance: what it comes to, and the calls it
made. -/
def Prog.replay : Prog μ ρ θ ε α → List ρ → Option (α × List (μ × ρ))
  | .done a, [] => some (a, [])
  | .call m k, r :: rs => ((k r).replay rs).map fun (a, log) => (a, (m, r) :: log)
  | _, _ => none

/-- Where the program stands: between two calls, or in one. -/
inductive Thread (κ μ ρ θ ε α : Type*) where
  | running (p : Prog μ ρ θ ε α)
  | calling (c : κ) (k : ρ → Prog μ ρ θ ε α)

/-- An object, what the others may do to it, and how a question may be answered in a given state. -/
structure System (σ κ μ ρ θ ε ι : Type*) extends Object σ κ μ ρ where
  env : σ → ι → Option σ
  replies : σ → θ → ε → Bool

inductive Action (ε ι : Type*) where
  | env (i : ι)
  | own
  | reply (e : ε)
  deriving DecidableEq

structure Config (σ κ μ ρ θ ε α : Type*) where
  shared : σ
  thread : Thread κ μ ρ θ ε α

variable (S : System σ κ μ ρ θ ε ι)

def System.step (x : Config σ κ μ ρ θ ε α) : Action ε ι → Option (Config σ κ μ ρ θ ε α)
  | .env i => (S.env x.shared i).map fun s => { x with shared := s }
  | .own =>
      match x.thread with
      | .running (.call m k) => some { x with thread := .calling (S.start m) k }
      | .calling c k =>
          match S.result c with
          | some r => some { x with thread := .running (k r) }
          | none => (S.next x.shared c).map fun (s, c') => ⟨s, .calling c' k⟩
      | .running _ => none
  | .reply e =>
      match x.thread with
      | .running (.ask q k) =>
          if S.replies x.shared q e then some { x with thread := .running (k e) } else none
      | _ => none

/-! ## What happens meanwhile -/

/-- The environment alone. -/
inductive System.Drift : σ → σ → Prop where
  | refl (s) : Drift s s
  | env {s t t' i} : Drift s t → S.env t i = some t' → Drift s t'

/-- A call and the environment, in any interleaving. -/
inductive System.CallRun : σ → κ → σ → κ → Prop where
  | refl (s c) : CallRun s c s c
  | env {s c t d t' i} : CallRun s c t d → S.env t i = some t' → CallRun s c t' d
  | own {s c t d t' d'} : CallRun s c t d → S.next t d = some (t', d') → CallRun s c t' d'

variable {S}

lemma System.Drift.head {s s' t : σ} {i : ι} (h : S.env s i = some s') (ht : S.Drift s' t) :
    S.Drift s t := by
  induction ht with
  | refl => exact .env (.refl s) h
  | env _ ht' ih => exact .env ih ht'

lemma System.CallRun.headEnv {s s' t : σ} {c d : κ} {i : ι} (h : S.env s i = some s')
    (ht : S.CallRun s' c t d) : S.CallRun s c t d := by
  induction ht with
  | refl => exact .env (.refl s c) h
  | env _ ht' ih => exact .env ih ht'
  | own _ ht' ih => exact .own ih ht'

lemma System.CallRun.headOwn {s s' t : σ} {c c' d : κ} (h : S.next s c = some (s', c'))
    (ht : S.CallRun s' c' t d) : S.CallRun s c t d := by
  induction ht with
  | refl => exact .own (.refl s c) h
  | env _ ht' ih => exact .env ih ht'
  | own _ ht' ih => exact .own ih ht'

/-! ## Weakest preconditions -/

variable (S)

/-- What has to hold for every finished run of the program to end in `Q`. -/
def System.wp : Prog μ ρ θ ε α → (α → σ → Prop) → σ → Prop
  | .done a, Q, s => ∀ t, S.Drift s t → Q a t
  | .call m k, Q, s =>
      ∀ t c r, S.CallRun s (S.start m) t c → S.result c = some r → System.wp (k r) Q t
  | .ask q k, Q, s => ∀ t e, S.Drift s t → S.replies t q e = true → System.wp (k e) Q t

variable {S}

/-- A precondition allows for the environment. -/
lemma System.wp_env {p : Prog μ ρ θ ε α} {Q : α → σ → Prop} {s s' : σ} {i : ι} (hp : S.wp p Q s)
    (h : S.env s i = some s') : S.wp p Q s' := by
  cases p with
  | done a => exact fun t ht => hp t (ht.head h)
  | call m k => exact fun t c r ht hr => hp t c r (ht.headEnv h) hr
  | ask q k => exact fun t e ht he => hp t e (ht.head h) he

/-- The rule for sequences. -/
lemma System.wp_bind {p : Prog μ ρ θ ε α} {f : α → Prog μ ρ θ ε β} {Q : β → σ → Prop} {s : σ}
    (hp : S.wp p (fun a t => S.wp (f a) Q t) s) : S.wp (p >>= f) Q s := by
  induction p generalizing s with
  | done a => exact hp s (.refl s)
  | call m k ih => exact fun t c r ht hr => ih r (hp t c r ht hr)
  | ask q k ih => exact fun t e ht he => ih e (hp t e ht he)

/-- The rule for a finished program: `Q` has to be kept by the environment. -/
lemma System.wp_done {a : α} {Q : α → σ → Prop} {s : σ}
    (henv : ∀ t i t', Q a t → S.env t i = some t' → Q a t') (hs : Q a s) :
    S.wp (.done a : Prog μ ρ θ ε α) Q s := by
  intro t ht
  induction ht with
  | refl => exact hs
  | env _ h ih => exact henv _ _ _ ih h

lemma System.wp_trivial (p : Prog μ ρ θ ε α) {Q : α → σ → Prop} (hQ : ∀ a t, Q a t) (s : σ) :
    S.wp p Q s := by
  induction p generalizing s with
  | done a => exact fun t _ => hQ a t
  | call m k ih => exact fun t _ r _ _ => ih r t
  | ask q k ih => exact fun t e _ _ => ih e t

/-- The rule for a call: an invariant that the environment and every access of the call keep. -/
lemma System.wp_call {m : μ} {k : ρ → Prog μ ρ θ ε α} {Q : α → σ → Prop} {s : σ}
    (J : σ → κ → Prop) (hs : J s (S.start m))
    (henv : ∀ t c i t', J t c → S.env t i = some t' → J t' c)
    (hown : ∀ t c t' c', J t c → S.next t c = some (t', c') → J t' c')
    (hret : ∀ t c r, J t c → S.result c = some r → S.wp (k r) Q t) : S.wp (.call m k) Q s := by
  intro t c r ht hr
  suffices hJ : J t c from hret t c r hJ hr
  clear hr
  induction ht with
  | refl => exact hs
  | env _ h ih => exact henv _ _ _ _ ih h
  | own _ h ih => exact hown _ _ _ _ ih h

/-- The rule for a question. -/
lemma System.wp_ask {q : θ} {k : ε → Prog μ ρ θ ε α} {Q : α → σ → Prop} {s : σ} (J : σ → Prop)
    (hs : J s)
    (henv : ∀ t i t', J t → S.env t i = some t' → J t')
    (hreply : ∀ t e, J t → S.replies t q e = true → S.wp (k e) Q t) : S.wp (.ask q k) Q s := by
  intro t e ht he
  suffices hJ : J t from hreply t e hJ he
  clear he
  induction ht with
  | refl => exact hs
  | env _ h ih => exact henv _ _ _ ih h

/-! ## Soundness -/

/-- The precondition of what is left to run. -/
def System.Meets (S : System σ κ μ ρ θ ε ι) (Q : α → σ → Prop) (x : Config σ κ μ ρ θ ε α) : Prop :=
  match x.thread with
  | .running p => S.wp p Q x.shared
  | .calling c k =>
      ∀ t d r, S.CallRun x.shared c t d → S.result d = some r → S.wp (k r) Q t

/-- A property of what is left to run that goes along with every step of the program and of the
environment. -/
structure System.Closed (S : System σ κ μ ρ θ ε ι) (W : Prog μ ρ θ ε α → σ → Prop) : Prop where
  env : ∀ {p s s' i}, W p s → S.env s i = some s' → W p s'
  call : ∀ {m k s t c r}, W (.call m k) s → S.CallRun s (S.start m) t c → S.result c = some r →
    W (k r) t
  ask : ∀ {q k s e}, W (.ask q k) s → S.replies s q e = true → W (k e) s

/-- The property of what is left to run, in a call as well as between two. -/
def System.Left (S : System σ κ μ ρ θ ε ι) (W : Prog μ ρ θ ε α → σ → Prop)
    (x : Config σ κ μ ρ θ ε α) : Prop :=
  match x.thread with
  | .running p => W p x.shared
  | .calling c k => ∀ t d r, S.CallRun x.shared c t d → S.result d = some r → W (k r) t

lemma System.Closed.step {W : Prog μ ρ θ ε α → σ → Prop} (hW : S.Closed W)
    {x x' : Config σ κ μ ρ θ ε α} {a : Action ε ι} (hx : S.Left W x)
    (h : S.step x a = some x') : S.Left W x' := by
  obtain ⟨s, thread⟩ := x
  cases a with
  | env i =>
      simp only [System.step, Option.map_eq_some_iff] at h
      obtain ⟨s', hs', rfl⟩ := h
      cases thread with
      | running p => exact hW.env hx hs'
      | calling c k => exact fun t d r ht hr => hx t d r (ht.headEnv hs') hr
  | own =>
      cases thread with
      | running p =>
          cases p with
          | done a => simp [System.step] at h
          | ask q k => simp [System.step] at h
          | call m k =>
              simp only [System.step, Option.some.injEq] at h
              subst h
              exact fun t d r ht hr => hW.call hx ht hr
      | calling c k =>
          simp only [System.step] at h
          split at h
          · rename_i r hr
            simp only [Option.some.injEq] at h
            subst h
            exact hx s c r (.refl s c) hr
          · simp only [Option.map_eq_some_iff] at h
            obtain ⟨⟨s', c'⟩, hs', rfl⟩ := h
            exact fun t d r ht hr => hx t d r (ht.headOwn hs') hr
  | reply e =>
      cases thread with
      | calling c k => simp [System.step] at h
      | running p =>
          cases p with
          | done a => simp [System.step] at h
          | call m k => simp [System.step] at h
          | ask q k =>
              simp only [System.step] at h
              split at h
              · rename_i he
                cases h
                exact hW.ask hx he
              · cases h

lemma System.closed_wp (S : System σ κ μ ρ θ ε ι) (Q : α → σ → Prop) :
    S.Closed fun p => S.wp p Q where
  env := System.wp_env
  call := fun h ht hr => h _ _ _ ht hr
  ask := fun h he => h _ _ (.refl _) he

lemma System.meets_step {Q : α → σ → Prop} {x x' : Config σ κ μ ρ θ ε α} {a : Action ε ι}
    (hx : S.Meets Q x) (h : S.step x a = some x') : S.Meets Q x' :=
  (S.closed_wp Q).step hx h

/-- **Soundness.**  From a state that meets the precondition, every run in which the program
finishes ends in `Q`. -/
theorem System.wp_sound {p : Prog μ ρ θ ε α} {Q : α → σ → Prop} {s t : σ} {a : α}
    {as : List (Action ε ι)} (hp : S.wp p Q s)
    (hrun : StepSystem.runFrom S.step ⟨s, .running p⟩ as = some ⟨t, .running (.done a)⟩) :
    Q a t := by
  have hstart : S.Meets Q ⟨s, .running p⟩ := hp
  have hmeets : S.Meets Q ⟨t, .running (.done a)⟩ :=
    StepSystem.invariant_of_run S.step (fun _ _ _ => System.meets_step) hstart hrun
  exact hmeets t (.refl t)

/-! ## What is made of a result -/

/-- The program left to run, with `f` applied to what it comes to. -/
def Thread.map (f : α → β) : Thread κ μ ρ θ ε α → Thread κ μ ρ θ ε β
  | .running p => .running (p >>= fun a => .done (f a))
  | .calling c k => .calling c fun r => k r >>= fun a => .done (f a)

def Config.map (f : α → β) (x : Config σ κ μ ρ θ ε α) : Config σ κ μ ρ θ ε β where
  shared := x.shared
  thread := x.thread.map f

lemma System.step_map (f : α → β) (x : Config σ κ μ ρ θ ε α) (a : Action ε ι) :
    S.step (x.map f) a = (S.step x a).map (Config.map f) := by
  obtain ⟨s, thread⟩ := x
  cases a with
  | env i => cases h : S.env s i <;> simp [System.step, Config.map, h]
  | own =>
      cases thread with
      | running p => cases p <;> rfl
      | calling c k =>
          simp only [System.step, Config.map, Thread.map]
          cases hr : S.result c with
          | some r => rfl
          | none => cases hn : S.next s c <;> rfl
  | reply e =>
      cases thread with
      | calling c k => rfl
      | running p =>
          cases p with
          | done a => rfl
          | call m k => rfl
          | ask q k =>
              by_cases he : S.replies s q e = true
              · simp [System.step, Config.map, Thread.map, Bind.bind, Prog.bind, he]
              · simp [System.step, Config.map, Thread.map, Bind.bind, Prog.bind, he]

/-- The runs of a program whose result is discarded or rearranged are those of the program. -/
lemma System.runFrom_map {f : α → β} {p : Prog μ ρ θ ε α} {s t : σ} {b : β}
    {as : List (Action ε ι)}
    (h : StepSystem.runFrom S.step ⟨s, .running (p >>= fun a => .done (f a))⟩ as =
      some ⟨t, .running (.done b)⟩) :
    ∃ a, f a = b ∧ StepSystem.runFrom S.step ⟨s, .running p⟩ as = some ⟨t, .running (.done a)⟩ := by
  have hmap : ∀ (as : List (Action ε ι)) (x : Config σ κ μ ρ θ ε α),
      StepSystem.runFrom S.step (x.map f) as =
        (StepSystem.runFrom S.step x as).map (Config.map f) := by
    intro as
    induction as with
    | nil => exact fun x => rfl
    | cons a as ih =>
        intro x
        simp only [StepSystem.runFrom, System.step_map]
        cases S.step x a with
        | none => rfl
        | some y => exact ih y
  have hrun := (hmap as ⟨s, .running p⟩).symm.trans h
  obtain ⟨⟨u, thread⟩, hu, hend⟩ := Option.map_eq_some_iff.mp hrun
  obtain ⟨rfl, hthread⟩ := Config.mk.inj hend
  cases thread with
  | calling c k => cases hthread
  | running q =>
      cases q with
      | done a =>
          obtain rfl := Prog.done.inj (Thread.running.inj hthread)
          exact ⟨a, rfl, hu⟩
      | call m k => cases Thread.running.inj hthread
      | ask q k => cases Thread.running.inj hthread

/-! ## Progress -/

/-- A call whose accesses never block and come to an end returns, if only its own thread moves. -/
theorem System.returns_of_rank {F : κ → Prop} (rank : κ → ℕ)
    (hnext : ∀ s c, F c → S.result c = none →
      ∃ s' c', S.next s c = some (s', c') ∧ F c' ∧ rank c' < rank c)
    (s : σ) (c : κ) (k : ρ → Prog μ ρ θ ε α) (hc : F c) :
    ∃ n t r, StepSystem.runFrom S.step ⟨s, .calling c k⟩ (List.replicate n .own)
      = some ⟨t, .running (k r)⟩ := by
  induction hr : rank c using Nat.strongRecOn generalizing s c with
  | _ n ih =>
      subst hr
      cases hres : S.result c with
      | some r =>
          refine ⟨1, s, r, ?_⟩
          simp [StepSystem.runFrom, System.step, hres]
      | none =>
          obtain ⟨s', c', hs', hc', hlt⟩ := hnext s c hc hres
          obtain ⟨n, t, r, hrun⟩ := ih (rank c') hlt s' c' hc' rfl
          refine ⟨n + 1, t, r, ?_⟩
          simpa [List.replicate_succ, StepSystem.runFrom, System.step, hres, hs'] using hrun

/-! ## Programs that get their answers -/

/-- The same as `wp` with the demand that every question of the program can be answered in the end,
if only the environment is left to move. -/
def System.twp (S : System σ κ μ ρ θ ε ι) : Prog μ ρ θ ε α → (α → σ → Prop) → σ → Prop
  | .done a, Q, s => ∀ t, S.Drift s t → Q a t
  | .call m k, Q, s =>
      ∀ t c r, S.CallRun s (S.start m) t c → S.result c = some r → System.twp S (k r) Q t
  | .ask q k, Q, s =>
      (∀ t, S.Drift s t → ∃ u e, S.Drift t u ∧ S.replies u q e = true) ∧
        ∀ t e, S.Drift s t → S.replies t q e = true → System.twp S (k e) Q t

lemma System.twp_env {p : Prog μ ρ θ ε α} {Q : α → σ → Prop} {s s' : σ} {i : ι}
    (hp : S.twp p Q s) (h : S.env s i = some s') : S.twp p Q s' := by
  cases p with
  | done a => exact fun t ht => hp t (ht.head h)
  | call m k => exact fun t c r ht hr => hp t c r (ht.headEnv h) hr
  | ask q k => exact ⟨fun t ht => hp.1 t (ht.head h), fun t e ht he => hp.2 t e (ht.head h) he⟩

lemma System.twp_drift {p : Prog μ ρ θ ε α} {Q : α → σ → Prop} {s t : σ} (hp : S.twp p Q s)
    (h : S.Drift s t) : S.twp p Q t := by
  induction h with
  | refl => exact hp
  | env _ h ih => exact System.twp_env ih h

lemma System.twp_bind {p : Prog μ ρ θ ε α} {f : α → Prog μ ρ θ ε β} {Q : β → σ → Prop} {s : σ}
    (hp : S.twp p (fun a t => S.twp (f a) Q t) s) : S.twp (p >>= f) Q s := by
  induction p generalizing s with
  | done a => exact hp s (.refl s)
  | call m k ih => exact fun t c r ht hr => ih r (hp t c r ht hr)
  | ask q k ih => exact ⟨hp.1, fun t e ht he => ih e (hp.2 t e ht he)⟩

lemma System.closed_twp (S : System σ κ μ ρ θ ε ι) (Q : α → σ → Prop) :
    S.Closed fun p => S.twp p Q where
  env := System.twp_env
  call := fun h ht hr => h _ _ _ ht hr
  ask := fun h he => h.2 _ _ (.refl _) he

/-- The steps the environment has to take are steps of the system. -/
lemma System.runFrom_drift {s t : σ} (h : S.Drift s t) (thread : Thread κ μ ρ θ ε α) :
    ∃ as, StepSystem.runFrom S.step ⟨s, thread⟩ as = some ⟨t, thread⟩ := by
  induction h with
  | refl => exact ⟨[], rfl⟩
  | @env t t' i _ ht' ih =>
      obtain ⟨as, has⟩ := ih
      refine ⟨as ++ [.env i], StepSystem.runFrom_append S.step has ?_⟩
      simp [StepSystem.runFrom, System.step, ht']

/-- **A program that gets its answers can finish**, if the calls come back: from wherever it
stands. -/
theorem System.finishes {Q : α → σ → Prop}
    (hcalls : ∀ s c (k : ρ → Prog μ ρ θ ε α), ∃ as t r,
      StepSystem.runFrom S.step ⟨s, .calling c k⟩ as = some ⟨t, .running (k r)⟩)
    {x : Config σ κ μ ρ θ ε α} (hx : S.Left (fun p => S.twp p Q) x) :
    ∃ as t a, StepSystem.runFrom S.step x as = some ⟨t, .running (.done a)⟩ ∧ Q a t := by
  have hrunning : ∀ (p : Prog μ ρ θ ε α) s, S.twp p Q s → ∃ as t a,
      StepSystem.runFrom S.step ⟨s, .running p⟩ as = some ⟨t, .running (.done a)⟩ ∧ Q a t := by
    intro p
    induction p with
    | done a => exact fun s hp => ⟨[], s, a, rfl, hp s (.refl s)⟩
    | call m k ih =>
        intro s hp
        obtain ⟨as, t, r, hrun⟩ := hcalls s (S.start m) k
        have hleft : S.Left (fun p => S.twp p Q) ⟨s, .calling (S.start m) k⟩ := hp
        have ht := StepSystem.invariant_of_run S.step
          (fun _ _ _ => (S.closed_twp Q).step) hleft hrun
        obtain ⟨bs, u, a, hrest, hu⟩ := ih r t ht
        refine ⟨.own :: (as ++ bs), u, a, ?_, hu⟩
        exact (StepSystem.runFrom_cons S.step).mpr
          ⟨_, rfl, StepSystem.runFrom_append S.step hrun hrest⟩
    | ask q k ih =>
        intro s hp
        obtain ⟨u, e, hdrift, he⟩ := hp.1 s (.refl s)
        obtain ⟨as, has⟩ := System.runFrom_drift hdrift (.running (.ask q k) : Thread κ μ ρ θ ε α)
        obtain ⟨bs, v, a, hrest, hv⟩ := ih e u (hp.2 u e hdrift he)
        refine ⟨as ++ .reply e :: bs, v, a, StepSystem.runFrom_append S.step has ?_, hv⟩
        refine (StepSystem.runFrom_cons S.step).mpr ⟨⟨u, .running (k e)⟩, ?_, hrest⟩
        simp [System.step, he]
  obtain ⟨s, thread⟩ := x
  cases thread with
  | running p => exact hrunning p s hx
  | calling c k =>
      obtain ⟨as, t, r, hrun⟩ := hcalls s c k
      have ht := StepSystem.invariant_of_run S.step (fun _ _ _ => (S.closed_twp Q).step) hx hrun
      obtain ⟨bs, u, a, hrest, hu⟩ := hrunning (k r) t ht
      exact ⟨as ++ bs, u, a, StepSystem.runFrom_append S.step hrun hrest, hu⟩

/-! ## Calls that are one access -/

/-- A system whose methods do their work in a single access. -/
def atomicSystem (f : σ → μ → σ × ρ) (env : σ → ι → Option σ) (replies : σ → θ → ε → Bool) :
    System σ (μ ⊕ ρ) μ ρ θ ε ι where
  start := .inl
  next
    | s, .inl m => some ((f s m).1, .inr (f s m).2)
    | _, .inr _ => none
  result := Sum.getRight?
  env := env
  replies := replies

section Atomic

variable {f : σ → μ → σ × ρ} {env : σ → ι → Option σ} {replies : σ → θ → ε → Bool}

lemma atomicSystem_callRun {s t : σ} {m : μ} {c : μ ⊕ ρ}
    (h : (atomicSystem f env replies).CallRun s (.inl m) t c) :
    (c = .inl m ∧ (atomicSystem f env replies).Drift s t) ∨
      ∃ u, (atomicSystem f env replies).Drift s u ∧ c = .inr (f u m).2 ∧
        (atomicSystem f env replies).Drift (f u m).1 t := by
  induction h with
  | refl => exact .inl ⟨rfl, .refl _⟩
  | env _ henv ih =>
      rcases ih with ⟨hd, hdrift⟩ | ⟨u, hu, hd, hdrift⟩
      · exact .inl ⟨hd, hdrift.env henv⟩
      · exact .inr ⟨u, hu, hd, hdrift.env henv⟩
  | @own t d t' d' _ hnext ih =>
      rcases ih with ⟨rfl, hdrift⟩ | ⟨u, -, rfl, -⟩
      · obtain ⟨rfl, rfl⟩ := Prod.mk.inj (Option.some.inj hnext)
        exact .inr ⟨t, hdrift, rfl, .refl _⟩
      · cases hnext

/-- The rule for such a call. -/
lemma twp_atomic {m : μ} {k : ρ → Prog μ ρ θ ε α} {Q : α → σ → Prop} {s : σ}
    (h : ∀ t, (atomicSystem f env replies).Drift s t →
      (atomicSystem f env replies).twp (k (f t m).2) Q (f t m).1) :
    (atomicSystem f env replies).twp (.call m k) Q s := by
  intro t c r ht hr
  rcases atomicSystem_callRun ht with ⟨rfl, -⟩ | ⟨u, hu, rfl, hdrift⟩
  · cases hr
  · obtain rfl := Option.some.inj hr
    exact System.twp_drift (h u hu) hdrift

/-- Such a call comes back. -/
lemma atomicSystem_returns (s : σ) (c : μ ⊕ ρ) (k : ρ → Prog μ ρ θ ε α) :
    ∃ as t r, StepSystem.runFrom (atomicSystem f env replies).step ⟨s, .calling c k⟩ as
      = some ⟨t, .running (k r)⟩ := by
  cases c with
  | inl m => exact ⟨[.own, .own], (f s m).1, (f s m).2, rfl⟩
  | inr r => exact ⟨[.own], s, r, rfl⟩

/-- The shared state changes by the work of a call or by the environment. -/
lemma atomicSystem_shared {x x' : Config σ (μ ⊕ ρ) μ ρ θ ε α} {a : Action ε ι}
    (h : (atomicSystem f env replies).step x a = some x') :
    x'.shared = x.shared ∨ (∃ i, env x.shared i = some x'.shared) ∨
      ∃ m, x'.shared = (f x.shared m).1 := by
  obtain ⟨s, thread⟩ := x
  cases a with
  | env i =>
      obtain ⟨s', hs', rfl⟩ := Option.map_eq_some_iff.mp h
      exact .inr (.inl ⟨i, hs'⟩)
  | own =>
      cases thread with
      | running p =>
          cases p with
          | done a => cases h
          | ask q k => cases h
          | call m k =>
              obtain rfl := Option.some.inj h
              exact .inl rfl
      | calling c k =>
          cases c with
          | inl m =>
              obtain rfl := Option.some.inj h
              exact .inr (.inr ⟨m, rfl⟩)
          | inr r =>
              obtain rfl := Option.some.inj h
              exact .inl rfl
  | reply e =>
      cases thread with
      | calling c k => cases h
      | running p =>
          cases p with
          | done a => cases h
          | call m k => cases h
          | ask q k =>
              simp only [System.step] at h
              split_ifs at h
              obtain rfl := Option.some.inj h
              exact .inl rfl

end Atomic

end Caller
