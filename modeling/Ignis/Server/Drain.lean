import Ignis.Server.DeadThread

/-!
# What the drain has counted

`drain` returns when one pass over the registry finds nothing owed.  The pass takes time: it reads
one reactor after another, and the reactors do not stop.  Nor does it see a reactor that is not in
the registry, and a thread that reloads leaves the registry before it has finished its requests.

`State.counted` is what the drain takes for granted: the reactors it has read as long as the sum is
zero, and after the pass all of them.  `Waits` is what the rest of the process would have to do for
the drain to be right, and `drained_owes_nothing` is the result for every run in which it does that.
-/

namespace Ignis

namespace Reactor

/-- A map with no keys, which is what `pending_requests` counts, is empty. -/
lemma answers_empty_of_card {answers : Finmap fun _ : ℕ => Answer} (h : answers.keys.card = 0) :
    answers = ∅ := by
  refine Finmap.ext_lookup fun id => ?_
  rw [Finmap.lookup_empty, Finmap.lookup_eq_none, ← Finmap.mem_keys, Finset.card_eq_zero.mp h]
  exact Finset.notMem_empty id

/-- An empty map stays empty under every step but the insertion of a delivery. -/
lemma answers_empty_step {r r' : State} {a : Action} (hempty : r.answers = ∅)
    (ha : ∀ k c, a = .advance k → r.calls[k]? = some c → c.inserts = false)
    (h : step r a = some r') : r'.answers = ∅ := by
  rcases step_cases h with ⟨m, rfl, rfl⟩ | ⟨k, c, e, c', rfl, hk, hn, rfl⟩
    | ⟨k, c, c', rfl, hk, ht, rfl⟩ | ⟨b, d, rfl, hb, hd, rfl⟩ | ⟨id, rfl, rfl⟩ | ⟨rfl, rfl⟩
  · exact hempty
  · exact answers_empty_advance hempty (ha k c rfl hk) hn
  · exact hempty
  · exact hempty
  · exact hempty
  · exact hempty

end Reactor

namespace Process

/-- The drain takes it that the reactor of thread `i` owes nothing: it has been read, and the sum is
still zero, or a pass has ended with zero. -/
def State.counted (s : State) (i : ℕ) : Bool :=
  match s.drain with
  | .summing rest 0 => i ∈ s.registry ∧ i ∉ rest
  | .summed 0 | .returned 0 => true
  | _ => false

/-- The drain is waited for: when a pass has found nothing, no thread outside the registry owes an
answer, and no delivery enters a request into a reactor that has been counted. -/
def Waits (s : State) : Action → Prop
  | .drainUnlock => s.drain = .summing [] 0 → ∀ i, i ∉ s.registry → (s.reactors i).answers = ∅
  | .reactor i (.advance k) =>
      s.counted i = true → ∀ c, (s.reactors i).calls[k]? = some c → c.inserts = false
  | _ => True

/-- The steps of the drain itself. -/
def Action.drains : Action → Bool
  | .drainStart | .drainLock | .drainRead | .drainUnlock | .drainDecide _ => true
  | _ => false

lemma drain_of_not_drains {supervised : Bool} {s s' : State} {a : Action} (ha : a.drains = false)
    (h : step supervised s a = some s') : s'.drain = s.drain := by
  cases effect_of_step h with
  | drainStart | drainLock | drainRead | drainUnlock | drainReturn | drainAgain => cases ha
  | _ => rfl

/-- What has been counted is really empty. -/
def Counted (s : State) : Prop :=
  ∀ i, s.counted i = true → (s.reactors i).answers = ∅

/-- A step of the process that does not touch the drain.  The registry changes only while the drain
does not hold its lock, and then `counted` does not depend on it. -/
lemma Counted.congr {s s' : State} (h : Counted s) (hdrain : s'.drain = s.drain)
    (hreg : s'.registry = s.registry ∨ s.drain.locked = false)
    (hreactors : ∀ i, s.counted i = true → (s.reactors i).answers = ∅ →
      (s'.reactors i).answers = ∅) : Counted s' := by
  intro i hi
  have hcounted : s.counted i = true := by
    rcases hreg with hreg | hlocked
    · simpa [State.counted, hdrain, hreg] using hi
    · simp only [State.counted, hdrain] at hi ⊢
      cases hd : s.drain with
      | summing rest pending => simp [hd, Drain.locked] at hlocked
      | summed pending | returned pending =>
          rw [hd] at hi
          cases pending with
          | zero => rfl
          | succ n => cases hi
      | idle | waiting =>
          rw [hd] at hi
          cases hi
  exact hreactors i hcounted (h i hcounted)

/-- One reactor takes a step, and does not enter a request if it has been counted. -/
lemma Counted.setReactor {s : State} (h : Counted s) {i : ℕ} {r : Reactor.State}
    (hr : s.counted i = true → (s.reactors i).answers = ∅ → r.answers = ∅) :
    Counted (s.setReactor i r) := by
  refine h.congr rfl (Or.inl rfl) fun j hj hempty => ?_
  by_cases hij : j = i
  · subst hij
    simpa [State.setReactor] using hr hj hempty
  · simpa [State.setReactor, Function.update_of_ne hij] using hempty

/-- Until the drain starts, nothing is asked of anybody. -/
lemma along_waits_of_idle {supervised : Bool} {s : State} {as : List Action}
    (hs : s.drain = .idle) (has : ∀ a ∈ as, a.drains = false) :
    StepSystem.Along (step supervised) Waits s as := by
  induction as generalizing s with
  | nil => trivial
  | cons a as ih =>
      have ha := has a List.mem_cons_self
      refine ⟨?_, fun t ht => ih ((drain_of_not_drains ha ht).trans hs) fun b hb =>
        has b (List.mem_cons_of_mem a hb)⟩
      cases a with
      | reactor i b =>
          cases b with
          | advance k => exact fun hcounted => by simp [hs, State.counted] at hcounted
          | _ => trivial
      | drainUnlock => cases ha
      | _ => trivial

/-- The drain on its own changes nothing but itself. -/
lemma reactors_of_drains {supervised : Bool} {s s' : State} {a : Action} (ha : a.drains = true)
    (h : step supervised s a = some s') :
    s'.reactors = s.reactors ∧ s'.registry = s.registry := by
  cases effect_of_step h with
  | drainStart | drainLock | drainRead | drainUnlock | drainReturn | drainAgain => exact ⟨rfl, rfl⟩
  | _ => cases ha

/-- A drain that is alone in the process is waited for if no thread outside the registry owes an
answer. -/
lemma along_waits_of_drains {supervised : Bool} {s : State} {as : List Action}
    (hs : ∀ i, i ∉ s.registry → (s.reactors i).answers = ∅) (has : ∀ a ∈ as, a.drains = true) :
    StepSystem.Along (step supervised) Waits s as := by
  induction as generalizing s with
  | nil => trivial
  | cons a as ih =>
      have ha := has a List.mem_cons_self
      refine ⟨?_, fun t ht => ?_⟩
      · cases a with
        | drainUnlock => exact fun _ => hs
        | reactor i b => cases ha
        | _ => trivial
      · obtain ⟨hreactors, hreg⟩ := reactors_of_drains ha ht
        exact ih (by rw [hreactors, hreg]; exact hs) fun b hb => has b (List.mem_cons_of_mem a hb)

theorem counted_step {supervised : Bool} {s s' : State} {a : Action} (hs : Counted s)
    (ha : Waits s a) (h : step supervised s a = some s') : Counted s' := by
  cases effect_of_step h with
  | run | scriptEnd | finish | turnedAway | picked | abandon =>
      exact hs.congr rfl (Or.inl rfl) fun _ _ hempty => hempty
  | serve hj hlock => exact hs.congr rfl (Or.inr hlock) fun _ _ hempty => hempty
  | leaveDispatch hlock => exact hs.congr rfl (Or.inr hlock) fun _ _ hempty => hempty
  | unregister hj hmain hlock => exact hs.congr rfl (Or.inr hlock) fun _ _ hempty => hempty
  | @failPending j r hj hr =>
      have hcleared : Counted (s.setReactor j r) :=
        hs.setReactor fun _ _ => (callFailPending_spec hr).1
      exact hcleared.congr rfl (Or.inl rfl) fun _ _ hempty => hempty
  | @deliver k task r htask hr =>
      -- the call begins here and inserts later
      have htasks : Counted { s with tasks := s.tasks.eraseIdx k } :=
        hs.congr rfl (Or.inl rfl) fun _ _ hempty => hempty
      exact htasks.setReactor fun _ hempty => Reactor.answers_empty_step hempty (by simp) hr
  | reactor hb hr =>
      refine hs.setReactor fun hi hempty => Reactor.answers_empty_step hempty ?_ hr
      rintro k c rfl hk
      exact ha hi c hk
  | drainStart | drainAgain => exact fun i hi => by cases hi
  | drainLock =>
      -- nothing has been read yet
      exact fun i hi => by simp [State.counted] at hi
  | @drainRead j rest pending hdrain =>
      intro i hi
      -- a sum that stays zero was zero before, and the map just read is empty
      cases hsum : pending + (s.reactors j).answers.keys.card with
      | succ n => simp [State.counted, hsum] at hi
      | zero =>
          obtain ⟨rfl, hcard⟩ := Nat.add_eq_zero_iff.mp hsum
          by_cases hij : i = j
          · subst hij
            exact Reactor.answers_empty_of_card hcard
          · have hread : i ∈ s.registry ∧ i ∉ rest := by simpa [State.counted, hcard] using hi
            exact hs i (by simp [State.counted, hdrain, hij, hread.1, hread.2])
  | @drainUnlock pending hdrain =>
      intro i hi
      cases pending with
      | succ n => cases hi
      | zero =>
          by_cases hreg : i ∈ s.registry
          · exact hs i (by simp [State.counted, hdrain, hreg])
          · exact ha hdrain i hreg
  | @drainReturn pending timedOut hdrain =>
      intro i hi
      cases pending with
      | zero => exact hs i (by simp [State.counted, hdrain])
      | succ n => cases hi

/-- **A drain that is waited for abandons nothing.**  In every run, with any number of threads,
reloads, crashes and deliveries, in which no thread outside the registry owes an answer when a pass
has found nothing, and no delivery slips in behind the pass: when the drain has returned with
nothing pending, no reactor of the process owes an answer. -/
theorem drained_owes_nothing (supervised : Bool) (spinUs : ℕ) (as : List Action) (s : State)
    (hrun : StepSystem.runFrom (step supervised) (init spinUs) as = some s)
    (hwaits : StepSystem.Along (step supervised) Waits (init spinUs) as)
    (hreturned : s.drain = .returned 0) (i : ℕ) : (s.reactors i).answers = ∅ := by
  have hcounted : Counted s :=
    StepSystem.invariant_of_step (step supervised) (fun _ _ _ => counted_step)
      (fun _ _ => rfl) hwaits hrun
  exact hcounted i (by simp [State.counted, hreturned])

/-- One request from its arrival to its answer. -/
def answeredRequest : List Action :=
  [.run 1, .serve 1, .request (fun _ => 0) .whole someRequest, .deliver 0,
    .reactor 1 (.advance 0), .reactor 1 (.advance 0),
    .reactor 1 (.call (.respond 1 ⟨200, [], []⟩)), .reactor 1 (.advance 1), .reactor 1 (.advance 1)]

/-- A drain of one pass over one reactor. -/
def onePass : List Action :=
  [.drainStart, .drainLock, .drainRead, .drainUnlock, .drainDecide false]

/-- A thread answers its request, and then the drain returns. -/
theorem drained_owes_nothing_after_answer :
    ∃ s, StepSystem.runFrom (step false) (init 0) (answeredRequest ++ onePass) = some s ∧
      s.drain = .returned 0 ∧ ∀ i, (s.reactors i).answers = ∅ := by
  have hbefore : StepSystem.Along (step false) Waits (init 0) answeredRequest :=
    along_waits_of_idle rfl (by decide)
  have hafter : ∀ t, StepSystem.runFrom (step false) (init 0) answeredRequest = some t →
      StepSystem.Along (step false) Waits t onePass := by
    rintro t ⟨rfl⟩
    refine along_waits_of_drains (fun i hi => ?_) (by decide)
    -- thread 1 is registered, and nothing has happened to the others
    match i with
    | 0 => rfl
    | 1 => exact absurd (List.mem_singleton_self 1) hi
    | n + 2 => rfl
  refine ⟨_, rfl, rfl, ?_⟩
  exact drained_owes_nothing false 0 (answeredRequest ++ onePass) _ rfl
    (StepSystem.along_append _ hbefore hafter) rfl

/-- A thread reloads: it leaves the registry with a request still to be answered, and the drain
returns at once.  And a request that has picked its thread is delivered between the drain's reading
of that thread's reactor and its return. -/
theorem drain_abandons_an_answer :
    (∃ s, StepSystem.runFrom (step false) (init 0)
        [.run 1, .serve 1, .request (fun _ => 0) .whole someRequest, .deliver 0,
          .reactor 1 (.advance 0), .reactor 1 (.advance 0), .leaveDispatch 1, .drainStart,
          .drainLock, .drainUnlock, .drainDecide false] = some s ∧
      s.drain = .returned 0 ∧ (s.reactors 1).answers.lookup 1 = some .whole) ∧
    ∃ s, StepSystem.runFrom (step false) (init 0)
        [.run 1, .serve 1, .request (fun _ => 0) .whole someRequest, .drainStart, .drainLock,
          .drainRead, .deliver 0, .reactor 1 (.advance 0), .reactor 1 (.advance 0),
          .drainUnlock, .drainDecide false] = some s ∧
      s.drain = .returned 0 ∧ (s.reactors 1).answers.lookup 1 = some .whole :=
  ⟨⟨_, rfl, rfl, rfl⟩, _, rfl, rfl, rfl⟩

end Process

end Ignis
