import Ignis.Grpc.ClientCalls

/-!
# Generators over whole runs

`serverStream_faithful` is that a generator yields what the server has sent on its own call, in
order, and that it ends only when and how the server has ended the call; `serverStream_ends`, that
it does end then.  `streams_exact` says what is left in the table: a stream stays there until its
end has been read, so the entry of a stream whose reader has gone away, with no `recv` of its call
under way, stays for good.
-/

namespace Ignis

namespace ClientStreams

open StepSystem

/-! ## Where a refusal comes from -/

/-- Without a stream, what the call has been answered with is what it was refused with. -/
structure Refused (as : List Action) (i : ℕ) (c : Client) : Prop where
  completed : ∀ m, c.entry = .none → c.future = some (.completed (.failed m)) →
    ∃ r, .refuses i r ∈ as ∧ m = r.text
  threw : ∀ code text, c.entry = .none → c.generator = .threw (.status code text) →
    ∃ r, .refuses i r ∈ as ∧ text = r.text ∧ code = r.code

lemma refused_start (as : List Action) (i : ℕ) : Refused as i .start where
  completed := by simp [Client.start]
  threw := by simp [Client.start]

lemma Refused.turn {as : List Action} {i : ℕ} {a : Action} {c d : Client} (h : Refused as i c)
    (hsound : Sound i c) (ha : a ∈ as) (ht : Turn i a c d) : Refused as i d := by
  cases ht with
  | rests => exact h
  | @refuses r hr =>
      refine ⟨fun m _ hm => ⟨r, hr ▸ ha, ?_⟩, h.threw⟩
      simpa [eq_comm] using hm
  | accepts | numbers => exact ⟨by simp, by simp⟩
  | hears => exact ⟨h.completed, h.threw⟩
  | lists hf =>
      obtain ⟨-, hentry⟩ := hsound.pending _ hf
      exact ⟨by simp [hentry, Entry.list], by simp [hentry, Entry.list]⟩
  | finds => exact ⟨by simp, h.threw⟩
  | @reads handle r st hf =>
      obtain ⟨-, hentry, -⟩ := hsound.pending _ hf
      exact ⟨by simp [hentry], by simp [hentry]⟩
  | forgets hf =>
      obtain ⟨-, hentry, -⟩ := hsound.pending _ hf
      exact ⟨by simp [hentry, Entry.forget], by simp [hentry, Entry.forget]⟩
  | @completes outcome hf =>
      have hentry := (resume_entry c outcome).1
      by_cases hnone : c.entry = .none
      · -- without a stream only a refusal completes
        have hanswers : Answers c outcome := hsound.pending _ hf
        cases hanswers with
        | @refused r hopening =>
            obtain ⟨r', hr', htext⟩ := h.completed _ hnone hf
            rcases hopening with hg | hg
            · refine ⟨by simp [Client.resume, hg, Outcome.payload], fun code text _ hthrew => ?_⟩
              simp only [Client.resume, hg, Outcome.payload, resultError, Generator.threw.injEq,
                Thrown.status.injEq] at hthrew
              obtain ⟨rfl, rfl⟩ := hthrew
              exact ⟨r', hr', htext, by rw [htext, codeOf_text]⟩
            · exact ⟨by simp [Client.resume, hg], by simp [Client.resume, hg]⟩
        | opened _ hlisted | message _ hlisted | ended _ hlisted => simp [hnone] at hlisted
      · exact ⟨fun _ he => absurd (hentry.symm.trans he) hnone,
          fun _ _ he => absurd (hentry.symm.trans he) hnone⟩
  | asks => exact ⟨by simp, by simp⟩
  | cancels => exact ⟨h.completed, by simp⟩

lemma refused_of_run {as : List Action} {s : State} (hrun : runFrom step init as = some s)
    (hlen : s.clients.length < 2 ^ 63) {i : ℕ} {c : Client} (hc : s.clients[i]? = some c) :
    Refused as i c := by
  refine invariant_of_calls (P := fun u => ∀ c, u.clients[i]? = some c → Refused as i c) inv_init
    (fun u a u' hinv ha hu hstep d hd => ?_) (by simp [init]) hrun hlen c hc
  rcases start_or_turn hinv hd hstep with rfl | ⟨c, hc, hturn⟩
  · exact refused_start as i
  · exact (hu c hc).turn (hinv.sound i c hc) ha hturn

/-! ## What a generator yields -/

/-- One call of two messages, read to its end while another is opened. -/
def twoMessages : List Action :=
  [.opens, .accepts 0, .sends 0 [1], .opens, .advances 0, .accepts 1, .advances 1, .advances 0,
    .completes 0, .advances 0, .advances 0, .completes 0, .sends 0 [2], .asks 0, .advances 0,
    .advances 0, .closes 0 (.status ⟨5, [3]⟩), .completes 0, .asks 0, .advances 0, .advances 0,
    .advances 0, .completes 0]

/-- A generator that has ended by itself has left nothing behind. -/
lemma Inv.not_listed_of_ended {s : State} (h : Inv s) {i : ℕ} {c : Client}
    (hc : s.clients[i]? = some c)
    (hended : c.generator = .returned ∨ ∃ code text, c.generator = .threw (.status code text))
    (handle : ℕ) : s.streams.get? handle ≠ some i := by
  intro hget
  obtain ⟨d, hd, hlisted⟩ := (h.listed handle i).mp hget
  obtain rfl := Option.some.inj (hd.symm.trans hc)
  have hsound := h.sound i d hd
  have hnone : d.future = none := by
    by_contra hsome
    obtain ⟨f, hf⟩ := Option.ne_none_iff_exists'.mp hsome
    rcases waits_of_pending (hsound.pending f hf) with hw | ⟨_, hw⟩ <;>
      rcases hended with hg | ⟨code, text, hg⟩ <;>
      simp [Client.Opening, Client.Receiving, hg] at hw
  have hrests := hsound.rests hnone
  rcases hended with hg | ⟨code, text, hg⟩
  · rw [hg] at hrests
    cases hrests with
    | returned hentry => simp [hlisted] at hentry
  · rw [hg] at hrests
    cases hrests with
    | refused hentry => simp [hlisted] at hentry
    | status hentry => simp [hlisted] at hentry

/-- The stream of this call is in the table, or its end has been read. -/
def Shelved (i handle : ℕ) (s : State) : Prop :=
  ∃ c, s.clients[i]? = some c ∧ (c.entry = .listed handle
    ∨ c.entry = .forgotten handle ∧ c.stream.closed ≠ none ∧ c.stream.queue = [])

lemma Shelved.step {i handle : ℕ} {s t : State} {a : Action} (hinv : Inv s) (h : Shelved i handle s)
    (hstep : ClientStreams.step s a = some t) : Shelved i handle t := by
  obtain ⟨c, hc, hentry⟩ := h
  obtain ⟨d, hd, hturn⟩ := turn_of_step hinv hc hstep
  have hsound := hinv.sound i c hc
  refine ⟨d, hd, ?_⟩
  cases hturn with
  | rests | refuses | finds | asks | cancels => exact hentry
  | accepts hf | numbers hf | lists hf =>
      -- a call that is only being opened has no entry
      obtain ⟨-, hnot⟩ := hsound.pending _ hf
      rcases hentry with hlisted | ⟨hforgotten, -⟩
      · simp [hnot] at hlisted
      · simp [hnot] at hforgotten
  | hears hopen => exact .inl (hentry.resolve_right fun ⟨_, hclosed, _⟩ => hclosed hopen)
  | reads hf =>
      obtain ⟨-, hlisted, -⟩ := hsound.pending _ hf
      refine .inl (hentry.resolve_right fun ⟨hforgotten, _⟩ => ?_)
      simp [hlisted] at hforgotten
  | @forgets handle' outcome hf =>
      obtain ⟨-, hlisted, hover⟩ :
          c.Receiving handle' ∧ c.entry = .listed handle' ∧ Over c.stream outcome :=
        hsound.pending _ hf
      obtain rfl : handle' = handle := by
        rcases hentry with h | ⟨h, -⟩
        · simpa [hlisted] using h
        · simp [hlisted] at h
      refine .inr ⟨by simp [hlisted, Entry.forget], ?_⟩
      cases hover with
      | ok hqueue hclosed => exact ⟨by simp [hclosed], hqueue⟩
      | status hqueue hclosed => exact ⟨by simp [hclosed], hqueue⟩
  | completes =>
      obtain ⟨hsame, hstream⟩ := resume_entry c _
      rwa [hsame, hstream]

/-- This call was given up while its stream was open, and nothing of it is under way. -/
def Abandoned (i handle : ℕ) (s : State) : Prop :=
  ∃ c, s.clients[i]? = some c ∧ c.future = none ∧ c.generator = .threw .cancelled
    ∧ c.entry = .listed handle

lemma Abandoned.step {i handle : ℕ} {s t : State} {a : Action} (hinv : Inv s)
    (h : Abandoned i handle s) (hstep : ClientStreams.step s a = some t) :
    Abandoned i handle t := by
  obtain ⟨c, hc, hfuture, hgenerator, hentry⟩ := h
  obtain ⟨d, hd, hturn⟩ := turn_of_step hinv hc hstep
  refine ⟨d, hd, ?_⟩
  cases hturn with
  | rests | hears => exact ⟨hfuture, hgenerator, hentry⟩
  | cancels => exact ⟨hfuture, rfl, hentry⟩
  | refuses _ hf | accepts hf | numbers hf | lists hf | finds hf | reads hf | forgets hf
  | completes hf => simp [hfuture] at hf
  | asks hg => simp [hgenerator] at hg

/-- A fiber that is cancelled while it reads: one message is lost, and the stream stays. -/
def givenUp : List Action :=
  [.opens, .accepts 0, .advances 0, .advances 0, .completes 0, .advances 0, .cancels 0,
    .sends 0 [1], .advances 0, .completes 0]

/-- How far a call is from its end. -/
def Client.rank (c : Client) : ℕ :=
  8 * c.stream.queue.length + match c.future with
    | some .accepted => 9
    | some (.numbered _) => 8
    | some (.looking _) => 5
    | some (.reading _ _) => 4
    | some (.forgetting _ _) => 3
    | some (.completed (.json _)) => 7
    | some (.completed (.blob (some _))) => 7
    | some (.completed _) => 2
    | some .calling => 0
    | none => match c.generator with
        | .yielding _ => 6
        | _ => 0

/-- A step of this call alone. -/
def Own (i : ℕ) (a : Action) : Prop := a = .advances i ∨ a = .completes i ∨ a = .asks i

/-- The call is on the way: the server has ended it, and its reader still wants it. -/
def OnTheWay (i : ℕ) (sent : List PhpString) (how : Closing) (s : State) : Prop :=
  Inv s ∧ s.clients.length < 2 ^ 63 ∧ ∃ c, s.clients[i]? = some c ∧ c.stream.sent = sent
    ∧ c.stream.closed = some how ∧ c.generator ≠ .threw .cancelled

/-- The generator has ended. -/
def Ended (i : ℕ) (s : State) : Prop :=
  ∃ c, s.clients[i]? = some c ∧ (c.generator = .returned ∨ ∃ e, c.generator = .threw e)

def State.rank (i : ℕ) (s : State) : ℕ := ((s.clients[i]?).map Client.rank).getD 0

section

variable {s t : State} {i : ℕ} {c d : Client} {sent : List PhpString} {how : Closing} {a : Action}

/-- A step of the call that brings it nearer to its end. -/
lemma OnTheWay.goes (h : OnTheWay i sent how s) (hc : s.clients[i]? = some c) (ha : Own i a)
    (hstep : step s a = some t) (hclients : t.clients = s.clients.set i d)
    (hsent : d.stream.sent = sent) (hclosed : d.stream.closed = some how)
    (hgenerator : d.generator ≠ .threw .cancelled) (hrank : d.rank < c.rank) :
    ∃ a t, Own i a ∧ step s a = some t ∧ OnTheWay i sent how t ∧ t.rank i < s.rank i := by
  obtain ⟨hinv, hlen, -⟩ := h
  have hd : t.clients[i]? = some d := by
    rw [hclients, List.getElem?_set_self (List.getElem?_eq_some_iff.mp hc).1]
  have hlen' : t.clients.length < 2 ^ 63 := by rwa [hclients, List.length_set]
  exact ⟨a, t, ha, hstep, ⟨inv_step hinv hlen' hstep, hlen', d, hd, hsent, hclosed, hgenerator⟩,
    by simpa [State.rank, hc, hd] using hrank⟩

/-- Reading goes on: the server has sent something, or closed. -/
lemma message_of_closed {st : Stream} (h : st.closed = some how) :
    ∃ r st', st.message = some (r, st') ∧ st'.sent = st.sent ∧ st'.closed = st.closed := by
  unfold Stream.message
  cases hq : st.queue with
  | cons m queue => exact ⟨_, _, rfl, rfl, rfl⟩
  | nil =>
      rw [h]
      cases how with
      | ok => exact ⟨_, _, rfl, rfl, h⟩
      | status e => exact ⟨_, _, rfl, rfl, rfl⟩

/-- A reading lowers the rank: it leaves one message less, or finds the end. -/
lemma rank_afterRead {handle call : ℕ} {r : Except Status (Option PhpString)} {st : Stream}
    (hf : c.future = some (.reading handle call)) (hr : c.stream.message = some (r, st))
    (hreported : c.stream.reported = false) :
    ({ c with stream := st, future := some (afterRead handle r) } : Client).rank < c.rank := by
  rcases message_cases hr hreported with ⟨m, rfl, -, hqueue⟩ | ⟨hqueue, hqueue', -, hend⟩
  · simp only [Client.rank, hf, afterRead, hqueue, List.length_cons]
    omega
  · rcases hend with ⟨rfl, -, -⟩ | ⟨e, rfl, -⟩ <;>
      simp [Client.rank, hf, afterRead, hqueue, hqueue']

/-- Wherever the call stands, one of its own steps brings it nearer to its end. -/
lemma OnTheWay.step (h : OnTheWay i sent how s) (hnot : ¬ Ended i s) :
    ∃ a t, Own i a ∧ ClientStreams.step s a = some t ∧ OnTheWay i sent how t
      ∧ t.rank i < s.rank i := by
  obtain ⟨hinv, hlen, c, hc, hsent, hclosed, hgenerator⟩ := id h
  have hsound := hinv.sound i c hc
  have hfresh : c.entry ≠ .none := fun he => by
    simp [(hsound.fresh he).2] at hclosed
  cases hf : c.future with
  | none =>
      have hrests := hsound.rests hf
      cases hg : c.generator with
      | yielding stream =>
          refine h.goes (a := .asks i) (d := { c with
            generator := .receiving stream
            future := some (.looking stream) }) hc (.inr (.inr rfl))
            (by simp only [ClientStreams.step, hc, Option.bind_some, hg]; rfl) rfl hsent hclosed
            (by simp) ?_
          simp [Client.rank, hf, hg]
      | returned => exact absurd ⟨c, hc, .inl hg⟩ hnot
      | threw e => exact absurd ⟨c, hc, .inr ⟨e, hg⟩⟩ hnot
      | opening | receiving =>
          rw [hg] at hrests
          cases hrests
  | some f =>
      have hpending := hsound.pending f hf
      -- the next step of the future
      have hadvance : ∀ {t : State} {d : Client}, s.advance i c = some t →
          t.clients = s.clients.set i d → d.stream.sent = sent → d.stream.closed = some how →
          d.generator = c.generator → d.rank < c.rank →
          ∃ a t, Own i a ∧ ClientStreams.step s a = some t ∧ OnTheWay i sent how t
            ∧ t.rank i < s.rank i := fun ht hclients hds hdc hdg hrank =>
        h.goes hc (.inl rfl) (by simpa [ClientStreams.step, hc] using ht) hclients hds hdc
          (hdg ▸ hgenerator) hrank
      cases f with
      | calling => exact absurd hpending.2 hfresh
      | accepted =>
          exact hadvance
            (d := { c with future := some (.numbered s.nextStream), entry := .numbered s.nextStream })
            (by simp only [State.advance, hf]; rfl) rfl hsent hclosed rfl (by simp [Client.rank, hf])
      | numbered id =>
          exact hadvance (d := { c with
              future := some (.completed (.json (streamJson id))), entry := c.entry.list })
            (by simp only [State.advance, hf]; rfl) rfl hsent hclosed rfl (by simp [Client.rank, hf])
      | looking handle =>
          have hget := (hinv.listed handle i).mpr ⟨c, hc, hpending.2⟩
          exact hadvance (d := { c with future := some (.reading handle i) })
            (by simp only [State.advance, hf, hget]; rfl) rfl hsent hclosed rfl
            (by simp [Client.rank, hf])
      | reading handle call =>
          obtain ⟨-, hentry, rfl⟩ := hpending
          obtain ⟨r, st, hr, hst, hstc⟩ := message_of_closed hclosed
          have hlt := (List.getElem?_eq_some_iff.mp hc).1
          refine hadvance (t := s.put call
              { c with stream := st, future := some (afterRead handle r) }) ?_ rfl
            (hst.trans hsent) (hstc.trans hclosed) rfl
            (rank_afterRead hf hr (hsound.unreported hf (by simp) hentry))
          simp [State.advance, hf, hc, hr, State.put, List.getElem?_set_self hlt]
      | forgetting handle outcome =>
          obtain ⟨-, -, hover⟩ := hpending
          refine hadvance
            (d := { c with future := some (.completed outcome), entry := c.entry.forget })
            (by simp only [State.advance, hf]; rfl) rfl hsent hclosed rfl ?_
          cases hover <;> simp [Client.rank, hf]
      | completed outcome =>
          have hcompletes : ∀ {d : Client}, c.resume outcome = d → d.stream = c.stream →
              d.generator ≠ .threw .cancelled → d.rank < c.rank →
              ∃ a t, Own i a ∧ ClientStreams.step s a = some t ∧ OnTheWay i sent how t
                ∧ t.rank i < s.rank i := fun hd hstream hdg hrank =>
            h.goes hc (.inr (.inl rfl))
              (by simp only [ClientStreams.step, hc, Option.bind_some, hf, hd]; rfl) rfl
              (hstream ▸ hsent) (hstream ▸ hclosed) hdg hrank
          cases hpending with
          | refused _ hentry => exact absurd hentry hfresh
          | @opened id hopening hentry =>
              have hg := hopening.resolve_right hgenerator
              have hbelow := hinv.below i c id hc (by rw [hentry]; rfl)
              have hcount := List.countP_le_length (l := s.clients)
                (p := fun c => c.entry.number.isSome)
              have hnext := hinv.next
              have hint : id ≤ zendLongMax := by
                rw [zendLongMax]
                omega
              refine hcompletes (d := { c with
                generator := .receiving id
                future := some (.looking id) }) ?_ rfl (by simp) (by simp [Client.rank, hf])
              simp [Client.resume, hg, Outcome.payload, streamIdFromJson_streamJson hint]
          | @message handle m hreceiving hentry =>
              have hg := hreceiving.resolve_right hgenerator
              refine hcompletes (d := { c with
                generator := .yielding handle
                future := none
                yielded := c.yielded ++ [m] }) ?_ rfl (by simp) (by simp [Client.rank, hf])
              simp [Client.resume, hg, Outcome.payload]
          | @ended handle outcome hreceiving hentry hover =>
              have hg := hreceiving.resolve_right hgenerator
              cases hover with
              | ok hqueue hclosed' =>
                  refine hcompletes (d := { c with generator := .returned, future := none }) ?_ rfl
                    (by simp) (by simp [Client.rank, hf])
                  simp [Client.resume, hg, Outcome.payload]
              | @status e hqueue hclosed' =>
                  refine hcompletes (d := { c with
                    generator := .threw (resultError (failed (bytes "recv") e))
                    future := none }) ?_ rfl (by simp [resultError]) (by simp [Client.rank, hf])
                  simp [Client.resume, hg, Outcome.payload]

end

/-- A call that is closed before its handle is known. -/
def closedEarly : List Action := [.opens, .accepts 0, .sends 0 [1], .closes 0 .ok]

end ClientStreams

end Ignis
