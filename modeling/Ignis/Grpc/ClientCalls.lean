import Ignis.Grpc.ClientStreams

/-!
# What holds of every call

A call is `Sound`: what the server has sent is what the generator has yielded, what was read for
nobody, what is in hand and what is still queued, and the generator, the future and the entry in the
table fit together.  The table lists exactly the calls whose streams are open, each under a number
of its own.

A step of one call is seen by the others only through the table and `NEXT_STREAM`; `Inv.change` says
what such a step has to respect, and `inv_step` goes through the steps.  `turn_of_step` is what a
step does to one call, and `invariant_of_calls` what a run keeps.
-/

namespace Ignis

namespace ClientStreams

open StepSystem

/-! ## One call -/

/-- The handle of a call, from when it is given out. -/
def Entry.number : Entry → Option ℕ
  | .none | .accepted => Option.none
  | .numbered id | .listed id | .forgotten id => some id

/-- A message that has been read and not been handed over. -/
def Client.inHand (c : Client) : List PhpString :=
  match c.future with
  | some (.completed outcome) => outcome.message
  | _ => []

/-- The generator waits for `ignis_grpc_call`, or was cancelled there. -/
def Client.Opening (c : Client) : Prop :=
  c.generator = .opening ∨ c.generator = .threw .cancelled

/-- The generator waits for this `ignis_grpc_recv`, or was cancelled there. -/
def Client.Receiving (c : Client) (handle : ℕ) : Prop :=
  c.generator = .receiving handle ∨ c.generator = .threw .cancelled

/-- The outcome is what the server has ended the call with, and all it has sent before is read. -/
inductive Over (st : Stream) : Outcome → Prop where
  | ok (hqueue : st.queue = []) (hclosed : st.closed = some .ok) : Over st (.blob none)
  | status {e : Status} (hqueue : st.queue = []) (hclosed : st.closed = some (.status e)) :
      Over st (.failed (failed (bytes "recv") e))

/-- What a completion of this call says. -/
inductive Answers (c : Client) : Outcome → Prop where
  | refused {r : Refusal} (hopening : c.Opening) (hentry : c.entry = .none) :
      Answers c (.failed r.text)
  | opened {id : ℕ} (hopening : c.Opening) (hentry : c.entry = .listed id) :
      Answers c (.json (streamJson id))
  | message {handle : ℕ} {m : PhpString} (hreceiving : c.Receiving handle)
      (hentry : c.entry = .listed handle) : Answers c (.blob (some m))
  | ended {handle : ℕ} {outcome : Outcome} (hreceiving : c.Receiving handle)
      (hentry : c.entry = .forgotten handle) (hover : Over c.stream outcome) : Answers c outcome

/-- Where the future of this call may stand. -/
def Client.Pending (i : ℕ) (c : Client) : Future → Prop
  | .calling => c.Opening ∧ c.entry = .none
  | .accepted => c.Opening ∧ c.entry = .accepted
  | .numbered id => c.Opening ∧ c.entry = .numbered id
  | .looking handle => c.Receiving handle ∧ c.entry = .listed handle
  | .reading handle call => c.Receiving handle ∧ c.entry = .listed handle ∧ call = i
  | .forgetting handle outcome =>
      c.Receiving handle ∧ c.entry = .listed handle ∧ Over c.stream outcome
  | .completed outcome => Answers c outcome

/-- Where the generator may stand while it waits for nothing. -/
inductive Rests (c : Client) : Generator → Prop where
  | yielding {handle : ℕ} (hentry : c.entry = .listed handle) : Rests c (.yielding handle)
  | returned {handle : ℕ} (hentry : c.entry = .forgotten handle)
      (hover : Over c.stream (.blob none)) : Rests c .returned
  | refused {r : Refusal} (hentry : c.entry = .none) : Rests c (.threw (resultError r.text))
  | status {handle : ℕ} {m : PhpString} (hentry : c.entry = .forgotten handle)
      (hover : Over c.stream (.failed m)) : Rests c (.threw (resultError m))
  | cancelled : Rests c (.threw .cancelled)

/-- What holds of the `i`th call. -/
structure Sound (i : ℕ) (c : Client) : Prop where
  conserved : c.stream.sent = c.yielded ++ c.lost ++ c.inHand ++ c.stream.queue
  lost : c.lost ≠ [] → c.generator = .threw .cancelled
  fresh : c.entry = .none → c.stream.sent = [] ∧ c.stream.closed = none
  reported : c.stream.reported = true →
    (∃ handle outcome, c.future = some (.forgetting handle outcome))
      ∨ ∃ handle, c.entry = .forgotten handle
  pending : ∀ f, c.future = some f → c.Pending i f
  rests : c.future = none → Rests c c.generator

/-- What holds of the table. -/
structure Inv (s : State) : Prop where
  sound : ∀ i c, s.clients[i]? = some c → Sound i c
  listed : ∀ handle i, s.streams.get? handle = some i ↔
    ∃ c, s.clients[i]? = some c ∧ c.entry = .listed handle
  distinct : ∀ (i j : ℕ) (c d : Client) id, s.clients[i]? = some c → s.clients[j]? = some d →
    c.entry.number = some id → d.entry.number = some id → i = j
  next : s.nextStream = s.clients.countP (fun c => c.entry.number.isSome) + 1
  below : ∀ (i : ℕ) (c : Client) id, s.clients[i]? = some c → c.entry.number = some id →
    id < s.nextStream

lemma inv_init : Inv init where
  sound := by simp [init]
  listed := by simp [init]
  distinct := by simp [init]
  next := rfl
  below := by simp [init]

lemma sound_start (i : ℕ) : Sound i .start where
  conserved := rfl
  lost := fun h => absurd rfl h
  fresh := fun _ => ⟨rfl, rfl⟩
  reported := by simp [Client.start]
  pending := fun f hf => by
    obtain rfl := Option.some.inj hf
    exact ⟨.inl rfl, rfl⟩
  rests := by simp [Client.start]

section

variable {s t : State} {i : ℕ} {c d : Client}

/-- A step of one call.  It leaves the entries of the others, and gives out no number but the
next. -/
lemma Inv.change (h : Inv s) (hc : s.clients[i]? = some c) (hd : Sound i d)
    (hclients : t.clients = s.clients.set i d)
    (hlisted : ∀ handle j, t.streams.get? handle = some j ↔
      j = i ∧ d.entry = .listed handle ∨ j ≠ i ∧ s.streams.get? handle = some j)
    (hnumber : d.entry.number = c.entry.number ∧ t.nextStream = s.nextStream
      ∨ c.entry.number = none ∧ d.entry.number = some s.nextStream
        ∧ t.nextStream = s.nextStream + 1) : Inv t := by
  have hlt := (List.getElem?_eq_some_iff.mp hc).1
  have hself : t.clients[i]? = some d := by rw [hclients, List.getElem?_set_self hlt]
  have hother : ∀ {j : ℕ}, j ≠ i → t.clients[j]? = s.clients[j]? := fun hj => by
    rw [hclients, List.getElem?_set_ne (Ne.symm hj)]
  -- a number is an old one, or this call's new one
  have hold : ∀ {j : ℕ} {x : Client} {id : ℕ}, t.clients[j]? = some x →
      x.entry.number = some id →
      (∃ y, s.clients[j]? = some y ∧ y.entry.number = some id ∧ t.nextStream = s.nextStream)
        ∨ t.nextStream = s.nextStream + 1 ∧ (j = i ∧ id = s.nextStream
          ∨ j ≠ i ∧ ∃ y, s.clients[j]? = some y ∧ y.entry.number = some id) := by
    intro j x id hx hid
    by_cases hj : j = i
    · subst hj
      obtain rfl := Option.some.inj (hself.symm.trans hx)
      rcases hnumber with ⟨hsame, hnext⟩ | ⟨-, hnew, hnext⟩
      · exact .inl ⟨c, hc, hsame ▸ hid, hnext⟩
      · exact .inr ⟨hnext, .inl ⟨rfl, Option.some.inj (hid.symm.trans hnew)⟩⟩
    · rw [hother hj] at hx
      rcases hnumber with ⟨-, hnext⟩ | ⟨-, -, hnext⟩
      · exact .inl ⟨x, hx, hid, hnext⟩
      · exact .inr ⟨hnext, .inr ⟨hj, x, hx, hid⟩⟩
  refine
    { sound := fun j x hx => ?_
      listed := fun handle j => ?_
      distinct := fun j k x y id hx hy hxid hyid => ?_
      next := ?_
      below := fun j x id hx hid => ?_ }
  · by_cases hj : j = i
    · subst hj
      exact Option.some.inj (hself.symm.trans hx) ▸ hd
    · exact h.sound j x (hother hj ▸ hx)
  · rw [hlisted]
    by_cases hj : j = i
    · subst hj
      simp [hself]
    · simp only [hj, false_and, ne_eq, not_false_eq_true, true_and, false_or, hother hj]
      exact h.listed handle j
  · rcases hold hx hxid with ⟨x', hx', hxid', hsame⟩ | ⟨hnext, hx'⟩
    · rcases hold hy hyid with ⟨y', hy', hyid', -⟩ | ⟨hnext, -⟩
      · exact h.distinct j k x' y' id hx' hy' hxid' hyid'
      · omega
    · rcases hold hy hyid with ⟨-, -, -, hsame⟩ | ⟨-, hy'⟩
      · omega
      · rcases hx' with ⟨rfl, rfl⟩ | ⟨hj, x', hx', hxid'⟩
        · rcases hy' with ⟨rfl, -⟩ | ⟨-, y', hy', hyid'⟩
          · rfl
          · exact absurd (h.below k y' _ hy' hyid') (Nat.lt_irrefl _)
        · rcases hy' with ⟨rfl, rfl⟩ | ⟨-, y', hy', hyid'⟩
          · exact absurd (h.below j x' _ hx' hxid') (Nat.lt_irrefl _)
          · exact h.distinct j k x' y' id hx' hy' hxid' hyid'
  · have hcount := Places.countP_set (fun c => c.entry.number.isSome) d hc
    have hnext := h.next
    rw [hclients]
    rcases hnumber with ⟨hsame, hnew⟩ | ⟨hnone, hsome, hnew⟩
    · rw [hsame] at hcount
      omega
    · simp only [hnone, hsome, Option.isSome_none, Option.isSome_some, Bool.toNat_true,
        Bool.toNat_false] at hcount
      omega
  · rcases hold hx hid with ⟨y, hy, hyid, hsame⟩ | ⟨hnext, ⟨-, rfl⟩ | ⟨-, y, hy, hyid⟩⟩
    · exact hsame ▸ h.below j y id hy hyid
    · omega
    · have := h.below j y id hy hyid
      omega

/-- A step of one call that does not touch the table. -/
lemma Inv.keeps (h : Inv s) (hc : s.clients[i]? = some c) (hd : Sound i d)
    (hclients : t.clients = s.clients.set i d) (hstreams : t.streams = s.streams)
    (hlisted : ∀ id, d.entry = .listed id ↔ c.entry = .listed id)
    (hnumber : d.entry.number = c.entry.number ∧ t.nextStream = s.nextStream
      ∨ c.entry.number = none ∧ d.entry.number = some s.nextStream
        ∧ t.nextStream = s.nextStream + 1) : Inv t := by
  refine h.change hc hd hclients (fun handle j => ?_) hnumber
  rw [hstreams]
  by_cases hj : j = i
  · subst hj
    simp only [true_and, ne_eq, not_true_eq_false, false_and, or_false, hlisted]
    refine (h.listed handle j).trans ⟨?_, fun he => ⟨c, hc, he⟩⟩
    rintro ⟨x, hx, he⟩
    exact Option.some.inj (hx.symm.trans hc) ▸ he
  · simp [hj]

lemma Inv.put (h : Inv s) (hc : s.clients[i]? = some c) (hentry : d.entry = c.entry)
    (hd : Sound i d) : Inv (s.put i d) :=
  h.keeps hc hd rfl rfl (fun _ => by rw [hentry]) (.inl ⟨congrArg Entry.number hentry, rfl⟩)

/-- Nobody else is listed under the number of a call. -/
lemma Inv.not_listed (h : Inv s) (hc : s.clients[i]? = some c) {id : ℕ}
    (hentry : c.entry.number = some id) {j : ℕ} (hj : j ≠ i) : s.streams.get? id ≠ some j := by
  intro hget
  obtain ⟨x, hx, hlisted⟩ := (h.listed id j).mp hget
  exact hj (h.distinct j i x c id hx hc (by rw [hlisted]; rfl) hentry)

/-- While the server may send, nobody has read the end. -/
lemma not_over_of_open {st : Stream} {outcome : Outcome} (hopen : st.closed = none) :
    ¬ Over st outcome := by
  rintro (⟨-, hclosed⟩ | ⟨-, hclosed⟩) <;> simp [hopen] at hclosed

/-- The server does something while the call is open. -/
lemma Sound.hears {st : Stream} (h : Sound i c) (hentry : c.entry ≠ .none)
    (hopen : c.stream.closed = none) (hreported : st.reported = c.stream.reported)
    (hsent : ∃ new, st.sent = c.stream.sent ++ new ∧ st.queue = c.stream.queue ++ new) :
    Sound i { c with stream := st } where
  conserved := by
    obtain ⟨new, hsent, hqueue⟩ := hsent
    show st.sent = c.yielded ++ c.lost ++ c.inHand ++ st.queue
    rw [hsent, hqueue, h.conserved, List.append_assoc]
  lost := h.lost
  fresh := fun hnone => absurd hnone hentry
  reported := fun hrep => h.reported (hreported ▸ hrep)
  pending := fun f hf => by
    have hpending := h.pending f hf
    cases f with
    | forgetting handle outcome => exact absurd hpending.2.2 (not_over_of_open hopen)
    | completed outcome =>
        cases hpending with
        | refused hopening hnone => exact absurd hnone hentry
        | opened hopening hlisted => exact .opened hopening hlisted
        | message hreceiving hlisted => exact .message hreceiving hlisted
        | ended _ _ hover => exact absurd hover (not_over_of_open hopen)
    | calling | accepted | numbered | looking | reading => exact hpending
  rests := fun hf => by
    have hrests := h.rests hf
    revert hrests
    generalize c.generator = g
    rintro (hlisted | ⟨-, hover⟩ | hnone | ⟨-, hover⟩ | _)
    · exact .yielding hlisted
    · exact absurd hover (not_over_of_open hopen)
    · exact absurd hnone hentry
    · exact absurd hover (not_over_of_open hopen)
    · exact .cancelled

/-- The future of a call takes a step that is neither a reading nor the last. -/
lemma Sound.moves {f : Future} {e : Entry} (h : Sound i c)
    (hinHand : c.inHand = []) (hmessage : ∀ outcome, f = .completed outcome → outcome.message = [])
    (hfresh : e = .none → c.entry = .none)
    (hreported : c.stream.reported = true →
      (∃ handle outcome, f = .forgetting handle outcome) ∨ ∃ handle, e = .forgotten handle)
    (hpending : ({ c with future := some f, entry := e } : Client).Pending i f) :
    Sound i { c with future := some f, entry := e } where
  conserved := by
    have hnew : ({ c with future := some f, entry := e } : Client).inHand = [] := by
      cases f with
      | completed outcome => exact hmessage outcome rfl
      | calling | accepted | numbered | looking | reading | forgetting => rfl
    rw [hnew, ← hinHand]
    exact h.conserved
  lost := h.lost
  fresh := fun he => h.fresh (hfresh he)
  reported := fun hrep => (hreported hrep).imp_left fun ⟨handle, outcome, hf⟩ =>
    ⟨handle, outcome, congrArg some hf⟩
  pending := fun f' hf' => by
    obtain rfl := Option.some.inj hf'
    exact hpending
  rests := fun hnone => absurd hnone (by simp)

lemma inHand_of_future {f : Future} (hf : c.future = some f)
    (hnot : ∀ outcome, f ≠ .completed outcome) : c.inHand = [] := by
  unfold Client.inHand
  rw [hf]
  cases f with
  | completed outcome => exact absurd rfl (hnot outcome)
  | calling | accepted | numbered | looking | reading | forgetting => rfl

/-- An end that has been reported is known to be over. -/
lemma Sound.unreported (h : Sound i c) {f : Future} {handle : ℕ} (hf : c.future = some f)
    (hnot : ∀ handle outcome, f ≠ .forgetting handle outcome) (hentry : c.entry = .listed handle) :
    c.stream.reported = false := by
  by_contra hrep
  rcases h.reported (by simpa using hrep) with ⟨_, _, hforget⟩ | ⟨_, hforgotten⟩
  · exact hnot _ _ (Option.some.inj (hf.symm.trans hforget))
  · simp [hentry] at hforgotten

/-- What `message` says, and what is left. -/
lemma message_cases {st st' : Stream} {r : Except Status (Option PhpString)}
    (h : st.message = some (r, st')) (hreported : st.reported = false) :
    (∃ m, r = .ok (some m) ∧ st' = { st with queue := st'.queue } ∧ st.queue = m :: st'.queue)
      ∨ st.queue = [] ∧ st'.queue = [] ∧ st'.sent = st.sent
        ∧ (r = .ok none ∧ st'.closed = some .ok ∧ st'.reported = false
          ∨ ∃ e, r = .error e ∧ st'.closed = some (.status e)) := by
  unfold Stream.message at h
  split at h
  · next m queue hqueue =>
      obtain ⟨rfl, rfl⟩ := Prod.mk.inj (Option.some.inj h)
      exact .inl ⟨m, rfl, rfl, hqueue⟩
  · next e hqueue hclosed =>
      obtain ⟨rfl, rfl⟩ := Prod.mk.inj (Option.some.inj h)
      refine .inr ⟨hqueue, hqueue, rfl, .inr ⟨e, ?_, hclosed⟩⟩
      simp [hreported]
  · next hqueue hclosed =>
      obtain ⟨rfl, rfl⟩ := Prod.mk.inj (Option.some.inj h)
      exact .inr ⟨hqueue, hqueue, rfl, .inl ⟨rfl, hclosed, hreported⟩⟩
  · cases h

/-- `recv` reads its own call's stream. -/
lemma Sound.reads {handle : ℕ} {r : Except Status (Option PhpString)} {st : Stream}
    (h : Sound i c) (hf : c.future = some (.reading handle i))
    (hr : c.stream.message = some (r, st)) :
    Sound i { c with stream := st, future := some (afterRead handle r) } := by
  obtain ⟨hreceiving, hentry, -⟩ : c.Receiving handle ∧ c.entry = .listed handle ∧ i = i :=
    h.pending _ hf
  have hfalse := h.unreported hf (by simp) hentry
  have hconserved := h.conserved
  rw [inHand_of_future hf (by simp), List.append_nil] at hconserved
  have hfresh : c.entry = .none → False := fun he => by simp [hentry] at he
  rcases message_cases hr hfalse with ⟨m, rfl, hst, hqueue⟩ | ⟨hqueue, hqueue', hsent, hend⟩
  · have hsent : st.sent = c.stream.sent := by rw [hst]
    have hrep : st.reported = false := by rw [hst, ← hfalse]
    exact
      { conserved := by
          show st.sent = c.yielded ++ c.lost ++ [m] ++ st.queue
          rw [hsent, hconserved, hqueue]
          simp
        lost := h.lost
        fresh := fun he => (hfresh he).elim
        reported := fun htrue => by simp [hrep] at htrue
        pending := fun f hf' => by
          obtain rfl := Option.some.inj hf'
          exact .message hreceiving hentry
        rests := fun hnone => absurd hnone (by simp) }
  · -- the end is read: the entry goes next
    obtain ⟨outcome, hafter, hover⟩ : ∃ outcome,
        afterRead handle r = .forgetting handle outcome ∧ Over st outcome := by
      rcases hend with ⟨rfl, hclosed, -⟩ | ⟨e, rfl, hclosed⟩
      · exact ⟨_, rfl, .ok hqueue' hclosed⟩
      · exact ⟨_, rfl, .status hqueue' hclosed⟩
    exact
      { conserved := by
          rw [hafter]
          show st.sent = c.yielded ++ c.lost ++ [] ++ st.queue
          simp only [hsent, hconserved, hqueue, hqueue', List.append_nil]
        lost := h.lost
        fresh := fun he => (hfresh he).elim
        reported := fun _ => .inl ⟨handle, outcome, congrArg some hafter⟩
        pending := fun f hf' => by
          obtain rfl := Option.some.inj hf'
          rw [hafter]
          exact ⟨hreceiving, hentry, hover⟩
        rests := fun hnone => absurd hnone (by simp) }

lemma eq_nil_of_not_cancelled (h : Sound i c) (hg : c.generator ≠ .threw .cancelled) :
    c.lost = [] := by
  by_contra hne
  exact hg (h.lost hne)

/-- A completion nobody waits for. -/
lemma Sound.drops {outcome : Outcome} (h : Sound i c) (hf : c.future = some (.completed outcome))
    (hg : c.generator = .threw .cancelled) : Sound i (c.resume outcome) := by
  have hresume : c.resume outcome
      = { c with future := none, lost := c.lost ++ outcome.message } := by
    unfold Client.resume
    rw [hg]
  rw [hresume]
  exact
    { conserved := by
        have hconserved := h.conserved
        have hinHand : c.inHand = outcome.message := by rw [Client.inHand, hf]
        rw [hinHand] at hconserved
        show c.stream.sent = c.yielded ++ (c.lost ++ outcome.message) ++ [] ++ c.stream.queue
        simpa using hconserved
      lost := fun _ => hg
      fresh := h.fresh
      reported := fun hrep => (h.reported hrep).imp_left fun ⟨_, _, hforget⟩ => by
        simp [hf] at hforget
      pending := fun f hf' => by simp at hf'
      rests := fun _ => by
        show Rests _ c.generator
        rw [hg]
        exact .cancelled }

/-- The end of a wait: what was in hand has been yielded. -/
lemma Sound.rested {outcome : Outcome} {g : Generator} {new : List PhpString} (h : Sound i c)
    (hf : c.future = some (.completed outcome)) (hg : c.generator ≠ .threw .cancelled)
    (hnew : new = outcome.message)
    (hrests : Rests { c with generator := g, future := none, yielded := c.yielded ++ new } g) :
    Sound i { c with generator := g, future := none, yielded := c.yielded ++ new } where
  conserved := by
    have hconserved := h.conserved
    have hinHand : c.inHand = outcome.message := by rw [Client.inHand, hf]
    rw [hinHand, eq_nil_of_not_cancelled h hg] at hconserved
    show c.stream.sent = c.yielded ++ new ++ c.lost ++ [] ++ c.stream.queue
    rw [hnew, eq_nil_of_not_cancelled h hg]
    simpa using hconserved
  lost := fun hne => absurd (eq_nil_of_not_cancelled h hg) hne
  fresh := h.fresh
  reported := fun hrep => (h.reported hrep).imp_left fun ⟨_, _, hforget⟩ => by
    simp [hf] at hforget
  pending := fun f hf' => by simp at hf'
  rests := fun _ => hrests

/-- The completion reaches the generator. -/
lemma Sound.completes {outcome : Outcome} (h : Sound i c)
    (hf : c.future = some (.completed outcome))
    (hint : ∀ id, c.entry = .listed id → id ≤ zendLongMax) : Sound i (c.resume outcome) := by
  by_cases hcancelled : c.generator = .threw .cancelled
  · exact h.drops hf hcancelled
  have hrested : ∀ {g : Generator}, outcome.message = [] →
      Rests { c with generator := g, future := none } g →
      Sound i { c with generator := g, future := none } := by
    intro g hmessage hrests
    have hrested := h.rested hf hcancelled hmessage.symm (g := g)
      (by simpa using hrests)
    simpa using hrested
  have hanswers : Answers c outcome := h.pending _ hf
  cases hanswers with
  | @refused r hopening hentry =>
      have hg : c.generator = .opening := hopening.resolve_right hcancelled
      have hresume : c.resume (.failed r.text)
          = { c with generator := .threw (resultError r.text), future := none } := by
        simp [Client.resume, hg, Outcome.payload]
      rw [hresume]
      exact hrested rfl (.refused hentry)
  | @opened id hopening hentry =>
      have hg : c.generator = .opening := hopening.resolve_right hcancelled
      have hresume : c.resume (.json (streamJson id))
          = { c with generator := .receiving id, future := some (.looking id) } := by
        simp [Client.resume, hg, Outcome.payload, streamIdFromJson_streamJson (hint id hentry)]
      rw [hresume]
      have hlost := eq_nil_of_not_cancelled h hcancelled
      exact
        { conserved := by
            have hconserved := h.conserved
            have hinHand : c.inHand = [] := by
              rw [Client.inHand, hf]
              rfl
            rw [hinHand] at hconserved
            exact hconserved
          lost := fun hne => absurd hlost hne
          fresh := h.fresh
          reported := fun hrep => by
            have := h.unreported hf (by simp) hentry
            simp [this] at hrep
          pending := fun f hf' => by
            obtain rfl := Option.some.inj hf'
            exact ⟨.inl rfl, hentry⟩
          rests := fun hnone => absurd hnone (by simp) }
  | @message handle m hreceiving hentry =>
      have hg : c.generator = .receiving handle := hreceiving.resolve_right hcancelled
      have hresume : c.resume (.blob (some m)) = { c with
          generator := .yielding handle
          future := none
          yielded := c.yielded ++ [m] } := by
        simp [Client.resume, hg, Outcome.payload]
      rw [hresume]
      exact h.rested hf hcancelled rfl (.yielding hentry)
  | @ended handle outcome hreceiving hentry hover =>
      have hg : c.generator = .receiving handle := hreceiving.resolve_right hcancelled
      cases hover with
      | ok hqueue hclosed =>
          have hresume : c.resume (.blob none)
              = { c with generator := .returned, future := none } := by
            simp [Client.resume, hg, Outcome.payload]
          rw [hresume]
          exact hrested rfl (.returned hentry (.ok hqueue hclosed))
      | @status e hqueue hclosed =>
          have hresume : c.resume (.failed (failed (bytes "recv") e)) = { c with
              generator := .threw (resultError (failed (bytes "recv") e)), future := none } := by
            simp [Client.resume, hg, Outcome.payload]
          rw [hresume]
          exact hrested rfl (.status hentry (.status hqueue hclosed))

/-- Whoever has a future pending waits for it, or was cancelled while it did. -/
lemma waits_of_pending {f : Future} (h : c.Pending i f) :
    c.Opening ∨ ∃ handle, c.Receiving handle := by
  cases f with
  | calling | accepted | numbered => exact .inl h.1
  | looking | reading | forgetting => exact .inr ⟨_, h.1⟩
  | completed outcome =>
      cases h with
      | refused hopening | opened hopening => exact .inl hopening
      | message hreceiving | ended hreceiving => exact .inr ⟨_, hreceiving⟩

/-- Between two messages nothing is pending, and the handle is listed. -/
lemma Sound.of_yielding {stream : ℕ} (h : Sound i c) (hg : c.generator = .yielding stream) :
    c.future = none ∧ c.entry = .listed stream := by
  have hnone : c.future = none := by
    by_contra hsome
    obtain ⟨f, hf⟩ := Option.ne_none_iff_exists'.mp hsome
    rcases waits_of_pending (h.pending f hf) with hopening | ⟨handle, hreceiving⟩
    · simp [Client.Opening, hg] at hopening
    · simp [Client.Receiving, hg] at hreceiving
  have hrests := h.rests hnone
  rw [hg] at hrests
  cases hrests with
  | yielding hentry => exact ⟨hnone, hentry⟩

lemma Sound.asks {stream : ℕ} (h : Sound i c) (hg : c.generator = .yielding stream) :
    Sound i { c with generator := .receiving stream, future := some (.looking stream) } := by
  obtain ⟨hnone, hentry⟩ := h.of_yielding hg
  exact
    { conserved := by
        have hconserved := h.conserved
        rw [Client.inHand, hnone] at hconserved
        exact hconserved
      lost := fun hne => by simp [h.lost hne] at hg
      fresh := h.fresh
      reported := fun hrep => by
        rcases h.reported hrep with ⟨_, _, hforget⟩ | ⟨_, hforgotten⟩
        · simp [hnone] at hforget
        · simp [hentry] at hforgotten
      pending := fun f hf => by
        obtain rfl := Option.some.inj hf
        exact ⟨.inl rfl, hentry⟩
      rests := fun hnone => absurd hnone (by simp) }

lemma Sound.cancels (h : Sound i c) : Sound i { c with generator := .threw .cancelled } where
  conserved := h.conserved
  lost := fun _ => rfl
  fresh := h.fresh
  reported := h.reported
  pending := fun f hf => by
    have hpending := h.pending f hf
    cases f with
    | calling | accepted | numbered | looking | reading | forgetting =>
        exact ⟨.inr rfl, hpending.2⟩
    | completed outcome =>
        cases hpending with
        | refused _ hentry => exact .refused (.inr rfl) hentry
        | opened _ hentry => exact .opened (.inr rfl) hentry
        | message _ hentry => exact .message (.inr rfl) hentry
        | ended _ hentry hover => exact .ended (.inr rfl) hentry hover
  rests := fun _ => .cancelled

/-- An end that has been reported is read. -/
lemma Sound.unreported_of (h : Sound i c) {f : Future} (hf : c.future = some f)
    (hnot : ∀ handle outcome, f ≠ .forgetting handle outcome)
    (hentry : ∀ handle, c.entry ≠ .forgotten handle) {P : Prop}
    (hrep : c.stream.reported = true) : P := by
  rcases h.reported hrep with ⟨_, _, hforget⟩ | ⟨_, hforgotten⟩
  · exact absurd (Option.some.inj (hf.symm.trans hforget)) (hnot _ _)
  · exact absurd hforgotten (hentry _)

end

/-- The completion reaches the generator; the stream and its entry stay as they are. -/
lemma resume_entry (c : Client) (outcome : Outcome) :
    (c.resume outcome).entry = c.entry ∧ (c.resume outcome).stream = c.stream := by
  unfold Client.resume
  split
  case h_4 => split <;> exact ⟨rfl, rfl⟩
  all_goals exact ⟨rfl, rfl⟩

/-- **A step keeps the invariant**, as long as there are fewer calls than ints. -/
lemma inv_step {s t : State} {a : Action} (h : Inv s) (hlen : t.clients.length < 2 ^ 63)
    (hstep : step s a = some t) : Inv t := by
  cases effect_of_step hstep with
  | opens =>
      have hmem : ∀ {j : ℕ} {x : Client}, (s.clients ++ [Client.start])[j]? = some x →
          j = s.clients.length ∧ x = .start ∨ s.clients[j]? = some x :=
        Places.getElem?_concat_cases
      have hkeep : ∀ {j : ℕ} {x : Client}, s.clients[j]? = some x →
          (s.clients ++ [Client.start])[j]? = some x := fun hx => by
        rw [List.getElem?_append_left (List.getElem?_eq_some_iff.mp hx).1]
        exact hx
      exact
        { sound := fun j x hx => by
            rcases hmem hx with ⟨-, rfl⟩ | hx
            · exact sound_start j
            · exact h.sound j x hx
          listed := fun handle j => (h.listed handle j).trans
            ⟨fun ⟨x, hx, hlisted⟩ => ⟨x, hkeep hx, hlisted⟩, fun ⟨x, hx, hlisted⟩ => by
              rcases hmem hx with ⟨-, rfl⟩ | hx
              · simp [Client.start] at hlisted
              · exact ⟨x, hx, hlisted⟩⟩
          distinct := fun j k x y id hx hy hxid hyid => by
            rcases hmem hx with ⟨-, rfl⟩ | hx
            · simp [Client.start, Entry.number] at hxid
            · rcases hmem hy with ⟨-, rfl⟩ | hy
              · simp [Client.start, Entry.number] at hyid
              · exact h.distinct j k x y id hx hy hxid hyid
          next := by
            show s.nextStream = (s.clients ++ [Client.start]).countP _ + 1
            rw [h.next]
            simp [List.countP_append, Client.start, Entry.number]
          below := fun j x id hx hid => by
            rcases hmem hx with ⟨-, rfl⟩ | hx
            · simp [Client.start, Entry.number] at hid
            · exact h.below j x id hx hid }
  | @refuses i r c hc hf =>
      have hsound := h.sound i c hc
      obtain ⟨hopening, hentry⟩ : c.Opening ∧ c.entry = .none := hsound.pending _ hf
      refine h.put hc rfl (hsound.moves (inHand_of_future hf (by simp)) ?_ id
        (hsound.unreported_of hf (by simp) (by simp [hentry])) (.refused hopening hentry))
      rintro _ ⟨⟩
      rfl
  | @accepts i c hc hf =>
      have hsound := h.sound i c hc
      obtain ⟨hopening, hentry⟩ : c.Opening ∧ c.entry = .none := hsound.pending _ hf
      have hd : Sound i { c with future := some .accepted, entry := .accepted } :=
        hsound.moves (inHand_of_future hf (by simp)) (by simp) (by simp)
          (hsound.unreported_of hf (by simp) (by simp [hentry])) ⟨hopening, rfl⟩
      exact h.keeps hc hd rfl rfl (by simp [hentry]) (.inl ⟨by simp [hentry, Entry.number], rfl⟩)
  | @sends i m c hc he hopen =>
      exact h.put hc rfl ((h.sound i c hc).hears he hopen rfl ⟨[m], rfl, rfl⟩)
  | @closes i how c hc he hopen =>
      exact h.put hc rfl ((h.sound i c hc).hears he hopen rfl ⟨[], by simp, by simp⟩)
  | @numbers i c hc hf =>
      have hsound := h.sound i c hc
      obtain ⟨hopening, hentry⟩ : c.Opening ∧ c.entry = .accepted := hsound.pending _ hf
      have hd : Sound i
          { c with future := some (.numbered s.nextStream), entry := .numbered s.nextStream } :=
        hsound.moves (inHand_of_future hf (by simp)) (by simp) (by simp)
          (hsound.unreported_of hf (by simp) (by simp [hentry])) ⟨hopening, rfl⟩
      have hwrap : (s.nextStream + 1) % 2 ^ 64 = s.nextStream + 1 := by
        have hcount := List.countP_le_length (l := s.clients) (p := fun c => c.entry.number.isSome)
        have hnext := h.next
        rw [List.length_set] at hlen
        exact Nat.mod_eq_of_lt (by omega)
      exact h.keeps hc hd rfl rfl (by simp [hentry])
        (.inr ⟨by simp [hentry, Entry.number], rfl, hwrap⟩)
  | @lists i id c hc hf =>
      have hsound := h.sound i c hc
      obtain ⟨hopening, hentry⟩ : c.Opening ∧ c.entry = .numbered id := hsound.pending _ hf
      have hd : Sound i
          { c with
            future := some (.completed (.json (streamJson id))), entry := c.entry.list } := by
        refine hsound.moves (inHand_of_future hf (by simp)) ?_ (by simp [hentry, Entry.list])
          (hsound.unreported_of hf (by simp) (by simp [hentry]))
          (.opened hopening (by simp [hentry, Entry.list]))
        rintro _ ⟨⟩
        rfl
      refine h.change hc hd rfl (fun handle j => ?_)
        (.inl ⟨by simp [hentry, Entry.list, Entry.number], rfl⟩)
      have hothers := fun hj => h.not_listed hc (by rw [hentry]; rfl : c.entry.number = some id)
        (j := j) hj
      have hself : ∀ handle, s.streams.get? handle ≠ some i := fun handle hget => by
        obtain ⟨x, hx, hlisted⟩ := (h.listed handle i).mp hget
        obtain rfl := Option.some.inj (hx.symm.trans hc)
        simp [hentry] at hlisted
      rw [OrdMap.get?_set]
      by_cases hhandle : handle = id
      · subst hhandle
        by_cases hj : j = i
        · simp [hj, hentry, Entry.list]
        · simp [hj, Ne.symm hj, hothers hj]
      · by_cases hj : j = i
        · subst hj
          simp [hhandle, Ne.symm hhandle, hentry, Entry.list, hself]
        · simp [hhandle, hj]
  | @finds i handle call c hc hf hcall =>
      have hsound := h.sound i c hc
      obtain ⟨hreceiving, hentry⟩ : c.Receiving handle ∧ c.entry = .listed handle :=
        hsound.pending _ hf
      have hcall' : call = i := by
        by_contra hne
        exact h.not_listed hc (by rw [hentry]; rfl) hne hcall
      exact h.put hc rfl (hsound.moves (inHand_of_future hf (by simp)) (by simp) id
        (hsound.unreported_of hf (by simp) (by simp [hentry])) ⟨hreceiving, hentry, hcall'⟩)
  | @misses i handle c hc hf hcall =>
      -- the handle is listed until this very call has read its end
      obtain ⟨-, hentry⟩ : c.Receiving handle ∧ c.entry = .listed handle :=
        (h.sound i c hc).pending _ hf
      simp [(h.listed handle i).mpr ⟨c, hc, hentry⟩] at hcall
  | @reads i handle call c source reader r stream hc hf hsource hr hreader =>
      obtain ⟨-, -, rfl⟩ : c.Receiving handle ∧ c.entry = .listed handle ∧ call = i :=
        (h.sound i c hc).pending _ hf
      obtain rfl := Option.some.inj (hc.symm.trans hsource)
      have hlt := (List.getElem?_eq_some_iff.mp hc).1
      obtain rfl : { c with stream := stream } = reader := by
        simpa [State.put, List.getElem?_set_self hlt] using hreader
      have hput := h.put (d := { c with stream := stream, future := some (afterRead handle r) })
        hc rfl ((h.sound call c hc).reads hf hr)
      simpa [State.put] using hput
  | @forgets i handle outcome c hc hf =>
      have hsound := h.sound i c hc
      obtain ⟨hreceiving, hentry, hover⟩ :
          c.Receiving handle ∧ c.entry = .listed handle ∧ Over c.stream outcome :=
        hsound.pending _ hf
      have hforget : c.entry.forget = .forgotten handle := by simp [hentry, Entry.forget]
      have hd : Sound i
          { c with future := some (.completed outcome), entry := c.entry.forget } := by
        refine hsound.moves (inHand_of_future hf (by simp)) ?_ (by simp [hforget])
          (fun _ => .inr ⟨handle, hforget⟩) (.ended hreceiving hforget hover)
        rintro _ ⟨⟩
        cases hover <;> rfl
      refine h.change hc hd rfl (fun handle' j => ?_)
        (.inl ⟨by show c.entry.forget.number = _; rw [hforget, hentry]; rfl, rfl⟩)
      have hothers := fun hj => h.not_listed hc (by rw [hentry]; rfl : c.entry.number = some handle)
        (j := j) hj
      have hself : s.streams.get? handle' = some i → handle' = handle := fun hget => by
        obtain ⟨x, hx, hlisted⟩ := (h.listed handle' i).mp hget
        obtain rfl := Option.some.inj (hx.symm.trans hc)
        simpa [hentry, eq_comm] using hlisted
      rw [OrdMap.get?_unset]
      by_cases hhandle : handle' = handle
      · subst hhandle
        by_cases hj : j = i
        · simp [hj, hforget]
        · simp [hj, hothers hj]
      · by_cases hj : j = i
        · subst hj
          simp only [hforget, hhandle, if_false, reduceCtorEq, and_false, ne_eq, not_true_eq_false,
            false_and, or_false, iff_false]
          exact fun hget => hhandle (hself hget)
        · simp [hhandle, hj]
  | @completes i outcome c hc hf =>
      refine h.put hc (resume_entry c outcome).1 ((h.sound i c hc).completes hf fun id hentry => ?_)
      have hbelow := h.below i c id hc (by rw [hentry]; rfl)
      have hcount := List.countP_le_length (l := s.clients) (p := fun c => c.entry.number.isSome)
      have hnext := h.next
      rw [show (s.put i (c.resume outcome)).clients = s.clients.set i (c.resume outcome) from rfl,
        List.length_set] at hlen
      rw [zendLongMax]
      omega
  | @asks i stream c hc hg =>
      exact h.put hc rfl ((h.sound i c hc).asks hg)
  | @cancels i c hc hg => exact h.put hc rfl (h.sound i c hc).cancels

/-- A call is never forgotten. -/
lemma length_le_of_step {s t : State} {a : Action} (hstep : step s a = some t) :
    s.clients.length ≤ t.clients.length := by
  cases effect_of_step hstep <;> simp [State.put]

lemma inv_runFrom {s t : State} {as : List Action} (h : Inv s)
    (hrun : runFrom step s as = some t) (hlen : t.clients.length < 2 ^ 63) : Inv t := by
  have hkeep := invariant_of_run step (I := fun s => s.clients.length < 2 ^ 63 → Inv s)
    (fun _ _ _ h hstep hlen =>
      inv_step (h (Nat.lt_of_le_of_lt (length_le_of_step hstep) hlen)) hlen hstep)
    (fun _ => h) hrun
  exact hkeep hlen

/-- What holds of a run is kept by its own steps, in states where the invariant does. -/
lemma invariant_of_calls {P : State → Prop} {s t : State} {as : List Action} (h : Inv s)
    (hstep : ∀ u a u', Inv u → a ∈ as → P u → step u a = some u' → P u') (hs : P s)
    (hrun : runFrom step s as = some t) (hlen : t.clients.length < 2 ^ 63) : P t := by
  have hmem : Along step (fun _ a => a ∈ as) s as := along_of_forall step (fun _ ha => ha) s
  have hkeep := invariant_of_step step
    (I := fun u => u.clients.length < 2 ^ 63 → Inv u ∧ P u)
    (fun u a u' hu ha hau hlen => by
      obtain ⟨hinv, hP⟩ := hu (Nat.lt_of_le_of_lt (length_le_of_step hau) hlen)
      exact ⟨inv_step hinv hlen hau, hstep u a u' hinv ha hP hau⟩)
    (fun _ => ⟨h, hs⟩) hmem hrun
  exact (hkeep hlen).2

/-! ## What a step does to one call -/

/-- What becomes of the `i`th call.  Nobody reads the stream of another, and a handle that is looked
up is there. -/
inductive Turn (i : ℕ) (a : Action) (c : Client) : Client → Prop where
  /-- The step is another's. -/
  | rests : Turn i a c c
  | refuses {r : Refusal} (ha : a = .refuses i r) (hf : c.future = some .calling) :
      Turn i a c { c with future := some (.completed (.failed r.text)) }
  | accepts (hf : c.future = some .calling) :
      Turn i a c { c with future := some .accepted, entry := .accepted }
  | hears {st : Stream} (hopen : c.stream.closed = none) : Turn i a c { c with stream := st }
  | numbers {id : ℕ} (hf : c.future = some .accepted) :
      Turn i a c { c with future := some (.numbered id), entry := .numbered id }
  | lists {id : ℕ} (hf : c.future = some (.numbered id)) : Turn i a c { c with
      future := some (.completed (.json (streamJson id))), entry := c.entry.list }
  | finds {handle : ℕ} (hf : c.future = some (.looking handle)) :
      Turn i a c { c with future := some (.reading handle i) }
  | reads {handle : ℕ} {r : Except Status (Option PhpString)} {st : Stream}
      (hf : c.future = some (.reading handle i)) :
      Turn i a c { c with stream := st, future := some (afterRead handle r) }
  | forgets {handle : ℕ} {outcome : Outcome} (hf : c.future = some (.forgetting handle outcome)) :
      Turn i a c { c with future := some (.completed outcome), entry := c.entry.forget }
  | completes {outcome : Outcome} (hf : c.future = some (.completed outcome)) :
      Turn i a c (c.resume outcome)
  | asks {stream : ℕ} (hg : c.generator = .yielding stream) :
      Turn i a c { c with generator := .receiving stream, future := some (.looking stream) }
  | cancels : Turn i a c { c with generator := .threw .cancelled }

lemma turn_of_step {s t : State} {a : Action} {i : ℕ} {c : Client} (h : Inv s)
    (hc : s.clients[i]? = some c) (hstep : step s a = some t) :
    ∃ d, t.clients[i]? = some d ∧ Turn i a c d := by
  have hlt := (List.getElem?_eq_some_iff.mp hc).1
  -- a step of the `j`th call, which may be this one
  have hset : ∀ {j : ℕ} {d e : Client}, s.clients[j]? = some d → (j = i → d = c → Turn i a c e) →
      ∃ d, (s.clients.set j e)[i]? = some d ∧ Turn i a c d := by
    intro j d e hd hturn
    by_cases hj : j = i
    · subst hj
      exact ⟨e, List.getElem?_set_self hlt, hturn rfl (Option.some.inj (hd.symm.trans hc))⟩
    · exact ⟨c, (List.getElem?_set_ne hj).trans hc, .rests⟩
  cases effect_of_step hstep with
  | opens => exact ⟨c, (List.getElem?_append_left hlt).trans hc, .rests⟩
  | refuses hd hf => exact hset hd fun hj hdc => by subst hj hdc; exact .refuses rfl hf
  | accepts hd hf => exact hset hd fun _ hdc => by subst hdc; exact .accepts hf
  | sends hd _ hopen | closes hd _ hopen =>
      exact hset hd fun _ hdc => by subst hdc; exact .hears hopen
  | numbers hd hf => exact hset hd fun _ hdc => by subst hdc; exact .numbers hf
  | lists hd hf => exact hset hd fun _ hdc => by subst hdc; exact .lists hf
  | @finds j handle call d hd hf hcall =>
      refine hset hd fun hj hdc => ?_
      subst hj hdc
      obtain ⟨-, hentry⟩ : d.Receiving handle ∧ d.entry = .listed handle :=
        (h.sound j d hd).pending _ hf
      obtain rfl := Option.some.inj (hcall.symm.trans ((h.listed handle j).mpr ⟨d, hd, hentry⟩))
      exact .finds hf
  | @misses j handle d hd hf hcall =>
      obtain ⟨-, hentry⟩ : d.Receiving handle ∧ d.entry = .listed handle :=
        (h.sound j d hd).pending _ hf
      simp [(h.listed handle j).mpr ⟨d, hd, hentry⟩] at hcall
  | @reads j handle call d source reader r stream hd hf hsource hr hreader =>
      obtain ⟨-, -, rfl⟩ : d.Receiving handle ∧ d.entry = .listed handle ∧ call = j :=
        (h.sound j d hd).pending _ hf
      obtain rfl := Option.some.inj (hd.symm.trans hsource)
      have hltj := (List.getElem?_eq_some_iff.mp hd).1
      obtain rfl : { d with stream := stream } = reader := by
        simpa [State.put, List.getElem?_set_self hltj] using hreader
      have hturn := hset (e := { d with stream := stream, future := some (afterRead handle r) }) hd
        fun hj hdc => by subst hj hdc; exact .reads hf
      simpa [State.put] using hturn
  | forgets hd hf => exact hset hd fun _ hdc => by subst hdc; exact .forgets hf
  | completes hd hf => exact hset hd fun _ hdc => by subst hdc; exact .completes hf
  | asks hd hg => exact hset hd fun _ hdc => by subst hdc; exact .asks hg
  | cancels hd => exact hset hd fun _ hdc => by subst hdc; exact .cancels

/-- A call in the next state is a new one, or has taken its turn. -/
lemma start_or_turn {s t : State} {a : Action} {i : ℕ} {d : Client} (h : Inv s)
    (hd : t.clients[i]? = some d) (hstep : step s a = some t) :
    d = .start ∨ ∃ c, s.clients[i]? = some c ∧ Turn i a c d := by
  cases hc : s.clients[i]? with
  | some c =>
      obtain ⟨d', hd', hturn⟩ := turn_of_step h hc hstep
      obtain rfl := Option.some.inj (hd'.symm.trans hd)
      exact .inr ⟨c, rfl, hturn⟩
  | none =>
      have hge : s.clients.length ≤ i := List.getElem?_eq_none_iff.mp hc
      have hlt := (List.getElem?_eq_some_iff.mp hd).1
      cases effect_of_step hstep with
      | opens =>
          rcases Places.getElem?_concat_cases hd with ⟨-, hstart⟩ | hd
          · exact .inl hstart
          · simp [hc] at hd
      | _ =>
          simp only [State.put, List.length_set] at hlt
          omega

end ClientStreams

end Ignis
