import Ignis.Reactor.Inflight

/-!
# The life of an answer

A delivered request owes an answer until somebody settles it: `respond`, `respond_end` or
`stream_end` with the answer itself, `cancel_request` because the client left, `respond_start` or
`respond` because the client turns out to have left, `fail_pending` because the thread is going.
Whoever removes the entry of the map has the right to say what became of the request, and nobody
else has: `tickets` counts these rights for an id, and there is never more than one
(`ticketed_step`).

`Phase` is the state of a request id; `answer_state_machine` collects how it moves, how often an
answer and a cancellation are announced, what a refused call does to the map, and what
`pending_requests` counts.
-/

namespace Ignis.Reactor

open StepSystem

/-! ## Phases -/

/-- The states of a request id: not yet delivered, the three of `Answer`, and settled. -/
inductive Phase where
  | unborn
  | whole
  | streaming
  | grpc
  | gone
  deriving DecidableEq, Repr

def Answer.phase : Answer → Phase
  | .whole => .whole
  | .streaming => .streaming
  | .grpc => .grpc

def phase (s : State) (id : ℕ) : Phase :=
  match s.answers.lookup id with
  | some a => a.phase
  | none => if id ∈ s.delivered then .gone else .unborn

/-- How a request id may move. -/
inductive Phase.Moves : Phase → Phase → Prop
  | stay (p : Phase) : Moves p p
  | deliverRequest : Moves .unborn .whole
  | deliverStream : Moves .unborn .grpc
  | start : Moves .whole .streaming
  | whole : Moves .whole .gone
  | streaming : Moves .streaming .gone
  | grpc : Moves .grpc .gone

lemma Answer.moves_gone (a : Answer) : a.phase.Moves .gone := by
  cases a with
  | whole => exact .whole
  | streaming => exact .streaming
  | grpc => exact .grpc

lemma Phase.Moves.of_eq {p q : Phase} (h : q = p) : p.Moves q := h ▸ .stay p

lemma phase_congr {s s' : State} {id : ℕ} (hl : s'.answers.lookup id = s.answers.lookup id)
    (hd : id ∈ s'.delivered ↔ id ∈ s.delivered) : phase s' id = phase s id := by
  simp only [phase, hl, hd]

lemma phase_of_lookup {s : State} {id : ℕ} {a : Answer} (h : s.answers.lookup id = some a) :
    phase s id = a.phase := by
  simp [phase, h]

lemma phase_gone {s : State} {id : ℕ} (h : s.answers.lookup id = none) (hd : id ∈ s.delivered) :
    phase s id = .gone := by
  simp [phase, h, hd]

/-- What an access can do to the phase of an id. -/
lemma moves_of_fits {s : State} {c c' : Call} {e : Access} (h : Ids s) (hf : Fits s c c' e)
    (hc : c.Knows s) (id : ℕ) : (phase s id).Moves (phase (e.apply s) id) := by
  cases e with
  | insert i a =>
      obtain ⟨req, rfl, -⟩ := hf
      by_cases e : id = i
      · subst e
        have hnone : s.answers.lookup id = none := by
          by_contra hne
          obtain ⟨b, hb⟩ := Option.ne_none_iff_exists'.mp hne
          exact hc.2.1 (h.answers id b hb)
        have hold : phase s id = .unborn := by simp [phase, hnone, hc.2.1]
        have hnew : phase (Access.apply s (.insert id a)) id = a.phase :=
          phase_of_lookup (by simp [Access.apply])
        rw [hold, hnew]
        cases a with
        | whole => exact .deliverRequest
        | streaming => exact absurd rfl hc.2.2
        | grpc => exact .deliverStream
      · exact .of_eq (phase_congr (by simp [Access.apply, Finmap.lookup_insert_of_ne _ e])
          (by simp [Access.apply, e]))
  | remove i =>
      obtain ⟨⟨a, hl⟩, -⟩ := hf
      by_cases e : id = i
      · subst e
        have hnew : phase (Access.apply s (.remove id)) id = .gone :=
          phase_gone (by simp [Access.apply]) (h.answers id a hl)
        rw [phase_of_lookup hl, hnew]
        exact a.moves_gone
      · exact .of_eq (phase_congr (by simp [Access.apply, Finmap.lookup_erase_ne e]) Iff.rfl)
  | reinsert i a =>
      obtain ⟨hl, -⟩ := hf
      by_cases e : id = i
      · subst e
        exact .of_eq (phase_congr (by simp [Access.apply, hl]) Iff.rfl)
      · exact .of_eq (phase_congr (by
          simp [Access.apply, Finmap.lookup_insert_of_ne _ e, Finmap.lookup_erase_ne e]) Iff.rfl)
  | startStream i st hd =>
      obtain ⟨hl, -⟩ := hf
      by_cases e : id = i
      · subst e
        have hnew : phase (Access.apply s (.startStream id st hd)) id = .streaming :=
          phase_of_lookup (a := .streaming) (by simp [Access.apply])
        rw [phase_of_lookup hl, hnew]
        exact .start
      · exact .of_eq (phase_congr (by
          simp [Access.apply, Finmap.lookup_insert_of_ne _ e, Finmap.lookup_erase_ne e]) Iff.rfl)
  | clear =>
      cases hl : s.answers.lookup id with
      | none => exact .of_eq (phase_congr (by simp [Access.apply, hl]) Iff.rfl)
      | some a =>
          have hnew : phase (Access.apply s .clear) id = .gone :=
            phase_gone (by simp [Access.apply]) (h.answers id a hl)
          rw [phase_of_lookup hl, hnew]
          exact a.moves_gone
  | _ => exact .stay _

theorem moves_step {s s' : State} {a : Action} (h : Ids s) (hs : step s a = some s') (id : ℕ) :
    (phase s id).Moves (phase s' id) := by
  rcases step_cases hs with ⟨m, rfl, rfl⟩ | ⟨k, c, e, c', rfl, hk, hn, rfl⟩
    | ⟨k, c, c', rfl, hk, ht, rfl⟩ | ⟨b, d, rfl, hb, hd, rfl⟩ | ⟨id, rfl, rfl⟩ | ⟨rfl, rfl⟩
  · exact .stay _
  · exact moves_of_fits h (next_fits hn) (h.calls c (List.mem_of_getElem? hk)) id
  · exact .stay _
  · exact .stay _
  · exact .stay _
  · exact .stay _

/-! ## Tickets -/

/-- Terminal answers that went over the channel of `id`. -/
def terminalCount (s : State) (id : ℕ) : ℕ :=
  s.wire.countP fun p => p.1 = id ∧ p.2.terminal = true

/-- `Cancelled` completions sent for `id`. -/
def cancelledCount (s : State) (id : ℕ) : ℕ :=
  s.announced.countP fun c => c.id = id ∧ c.outcome = .cancelled

/-- The right to settle `id`, unused or used, outside the hands of a call. -/
def sharedTickets (s : State) (id : ℕ) : ℕ :=
  (if id ∈ s.answers then 1 else 0) + terminalCount s id + cancelledCount s id

def tickets (s : State) (id : ℕ) : ℕ := sharedTickets s id + (s.calls.map (Call.settles id)).sum

/-- A delivered request is settled at most once, one that is not delivered not at all. -/
def Ticketed (s : State) : Prop :=
  ∀ id, s.use id = some .request → tickets s id ≤ if id ∈ s.delivered then 1 else 0

lemma sharedTickets_send (s : State) (x : Completion) (id : ℕ) :
    sharedTickets (Access.apply s (.send x)) id
      = sharedTickets s id + if x.id = id ∧ x.outcome = .cancelled then 1 else 0 := by
  have hmore : cancelledCount (Access.apply s (.send x)) id
      = cancelledCount s id + if x.id = id ∧ x.outcome = .cancelled then 1 else 0 := by
    simp [cancelledCount, Access.apply, List.countP_append, List.countP_cons]
  have hwire : terminalCount (Access.apply s (.send x)) id = terminalCount s id := rfl
  have hans : (Access.apply s (.send x)).answers = s.answers := rfl
  rw [sharedTickets, sharedTickets, hmore, hwire, hans]
  omega

lemma sharedTickets_put (s : State) (i : ℕ) (w : Wire) (id : ℕ) :
    sharedTickets (Access.apply s (.put i w)) id
      = sharedTickets s id + if i = id ∧ w.terminal = true then 1 else 0 := by
  have hmore : terminalCount (Access.apply s (.put i w)) id
      = terminalCount s id + if i = id ∧ w.terminal = true then 1 else 0 := by
    simp [terminalCount, Access.apply, List.countP_append, List.countP_cons]
  have hann : cancelledCount (Access.apply s (.put i w)) id = cancelledCount s id := rfl
  have hans : (Access.apply s (.put i w)).answers = s.answers := rfl
  rw [sharedTickets, sharedTickets, hmore, hann, hans]
  omega

/-- An access moves a ticket between the map, the hands of its call and the logs, or drops it; the
only one that makes a ticket is the delivery of the request. -/
lemma tickets_of_fits {s : State} {c c' : Call} {e : Access} (hf : Fits s c c' e)
    (hc : c.Knows s) {id : ℕ} (hid : s.use id = some .request)
    (hins : ∀ a, e ≠ .insert id a) :
    sharedTickets (e.apply s) id + c'.settles id ≤ sharedTickets s id + c.settles id := by
  cases e with
  | takeId use =>
      rcases hf with ⟨op, -, rfl, rfl⟩ | ⟨-, rfl, rfl⟩ | ⟨o, -, rfl, rfl⟩ | ⟨a, req, -, rfl, rfl⟩
      all_goals exact le_rfl
  | count =>
      rcases hf with ⟨i, op, rfl, rfl⟩ | ⟨i, o, rfl, rfl⟩ | ⟨i, req, rfl, rfl⟩ | ⟨i, rfl, rfl⟩
      all_goals exact le_rfl
  | load => exact Nat.add_le_add_left (hf.2.2.2.2 id) _
  | send x =>
      rw [sharedTickets_send]
      rcases hf with ⟨rfl, rfl⟩ | ⟨rfl, rfl⟩ | ⟨req, ho, rfl, rfl⟩ | ⟨ho, rfl, rfl⟩
      · -- what is completed by hand is a reservation, not a request
        have hne : x.id ≠ id := fun e => by
          simp [Call.Knows, e, hid] at hc
        simp [hne, Call.settles]
      · have hne : x.id ≠ id := fun e => by
          simp [Call.Knows, e, hid] at hc
        simp [hne, Call.settles]
      · simp [ho, Call.settles]
      · simp [ho, Call.settles]
  | recv =>
      obtain ⟨x, rest, out, -, rfl, rfl | ⟨rfl, t, rfl | rfl⟩⟩ := hf
      all_goals exact le_rfl
  | remove i =>
      obtain ⟨⟨a, hl⟩, -, -, -, hzero, hc'⟩ := hf
      by_cases e : id = i
      · subst e
        have hold : id ∈ s.answers := Finmap.mem_of_lookup_eq_some hl
        have hone : c'.settles id ≤ 1 := by
          rcases hc' with ⟨code, msg, rfl⟩ | ⟨resp, rfl⟩ | rfl | rfl | rfl
          all_goals simp [Call.settles]
        simp only [sharedTickets, Access.apply, Finmap.mem_erase, hold, hzero, terminalCount,
          cancelledCount]
        simp only [ne_eq, not_true_eq_false, false_and, if_false, if_true]
        omega
      · have hnone : c'.settles id = 0 := by
          rcases hc' with ⟨code, msg, rfl⟩ | ⟨resp, rfl⟩ | rfl | rfl | rfl
          all_goals simp [Call.settles, Ne.symm e]
        simp [sharedTickets, Access.apply, Finmap.mem_erase, e, hzero, hnone, terminalCount,
          cancelledCount]
  | insert i a =>
      obtain ⟨req, rfl, rfl⟩ := hf
      have e : id ≠ i := by
        rintro rfl
        exact hins a rfl
      simp [sharedTickets, Access.apply, e, Call.settles, terminalCount, cancelledCount]
  | uncount =>
      obtain ⟨i, rfl, rfl⟩ := hf
      exact le_rfl
  | account n =>
      obtain ⟨out, -, rfl, rfl⟩ := hf
      exact le_rfl
  | reinsert i a =>
      obtain ⟨hl, ⟨st, hd, rfl⟩, rfl⟩ := hf
      have hold : i ∈ s.answers := Finmap.mem_of_lookup_eq_some hl
      by_cases e : id = i
      · subst e
        simp [sharedTickets, Access.apply, hold, Call.settles, terminalCount, cancelledCount]
      · simp [sharedTickets, Access.apply, e, Call.settles, terminalCount, cancelledCount]
  | startStream i st hd =>
      obtain ⟨hl, rfl, rfl⟩ := hf
      have hold : i ∈ s.answers := Finmap.mem_of_lookup_eq_some hl
      have hwire : terminalCount (Access.apply s (.startStream i st hd)) id
          = terminalCount s id := by
        simp [terminalCount, Access.apply, Wire.terminal]
      by_cases e : id = i
      · subst e
        simp only [sharedTickets, hwire]
        simp [Access.apply, hold, Call.settles, cancelledCount]
      · simp only [sharedTickets, hwire]
        simp [Access.apply, e, Call.settles, cancelledCount]
  | clear =>
      obtain ⟨rfl, rfl⟩ := hf
      have hempty : id ∉ (Access.apply s .clear).answers := Finmap.notMem_empty
      simp only [sharedTickets, hempty, if_false, Call.settles, Nat.add_zero, Nat.zero_add]
      exact Nat.add_le_add_right (Nat.le_add_left _ _) _
  | put i w =>
      rw [sharedTickets_put]
      obtain ⟨rfl, ⟨msg, rfl, rfl, -⟩ | ⟨code, msg, rfl, rfl⟩ | ⟨resp, rfl, rfl⟩ | ⟨rfl, rfl⟩⟩ := hf
      all_goals simp [Wire.terminal, Call.settles]
  | enqueue i op | countReserved i | addServer =>
      obtain ⟨rfl, rfl⟩ := hf
      exact le_rfl

/-- Nothing has been said about a request that is not delivered. -/
lemma tickets_eq_zero {s : State} (h : Ids s) {id : ℕ} (hid : id ∉ s.delivered)
    (hann : ∀ c ∈ s.announced, c.id ≠ id ∨ c.outcome ≠ .cancelled) : tickets s id = 0 := by
  have hans : id ∉ s.answers := by
    intro hm
    obtain ⟨a, ha⟩ := Finmap.mem_iff.mp hm
    exact hid (h.answers id a ha)
  have hwire : terminalCount s id = 0 := by
    refine List.countP_eq_zero.mpr fun p hp => ?_
    have : p.1 ≠ id := fun e => hid (e ▸ h.wire p hp)
    simp [this]
  have hcanc : cancelledCount s id = 0 := by
    refine List.countP_eq_zero.mpr fun c hc => ?_
    rcases hann c hc with hne | hne
    · simp [hne]
    · simp [hne]
  have hcalls : (s.calls.map (Call.settles id)).sum = 0 := by
    refine List.sum_eq_zero fun n hn => ?_
    obtain ⟨c, hc, rfl⟩ := List.mem_map.mp hn
    have hknow := h.calls c hc
    cases c <;> simp only [Call.settles, Call.Knows] at hknow ⊢ <;>
      · rw [if_neg]
        exact fun e => hid (e ▸ hknow)
  simp [tickets, sharedTickets, hans, hwire, hcanc, hcalls]

lemma ticketed_advance {s : State} {k : ℕ} {c c' : Call} {e : Access} (hids : Ids s)
    (h : Ticketed s) (hk : s.calls[k]? = some c) (hn : c.next s = some (e, c')) :
    Ticketed ((e.apply s).setCall k c') := by
  have hf := next_fits hn
  have hc := hids.calls c (List.mem_of_getElem? hk)
  have hcalls : (e.apply s).calls = s.calls := by cases e <;> rfl
  intro id hid
  have hsum := Places.sum_map_set (Call.settles id) c' hk
  have htick : tickets ((e.apply s).setCall k c') id
      = sharedTickets (e.apply s) id + ((s.calls.set k c').map (Call.settles id)).sum := by
    simp [tickets, sharedTickets, State.setCall, hcalls, terminalCount, cancelledCount]
  have hdel : ∀ i, i ∈ ((e.apply s).setCall k c').delivered ↔ i ∈ (e.apply s).delivered :=
    fun _ => Iff.rfl
  simp only [hdel, htick]
  by_cases hfresh : s.use id = some .request
  · by_cases hins : ∃ a, e = .insert id a
    · -- the delivery: the id was unknown until now
      obtain ⟨a, rfl⟩ := hins
      obtain ⟨req, rfl, rfl⟩ := hf
      have hbound := h id hfresh
      rw [if_neg hc.2.1] at hbound
      have hshared : sharedTickets (Access.apply s (.insert id a)) id ≤ sharedTickets s id + 1 := by
        simp only [sharedTickets, Access.apply, Finmap.mem_insert, true_or, if_true, terminalCount,
          cancelledCount]
        omega
      have hin : id ∈ (Access.apply s (.insert id a)).delivered := List.mem_cons_self
      rw [if_pos hin]
      simp only [tickets] at hbound
      simp only [Call.settles] at hsum
      omega
    · have hle := tickets_of_fits hf hc hfresh fun a ha => hins ⟨a, ha⟩
      have hbound := h id hfresh
      have hmono : (if id ∈ s.delivered then 1 else 0)
          ≤ if id ∈ (e.apply s).delivered then 1 else 0 := by
        split_ifs with h1 h2
        · exact le_rfl
        · exact absurd ((mono_of_fits hids.toLedger hf).2.2.2 id h1) h2
        · exact Nat.zero_le _
        · exact le_rfl
      simp only [tickets] at hbound
      omega
  · -- the id has just been taken
    have htake : ∃ u, e = .takeId u ∧ id = s.disp.nextId := by
      cases e with
      | takeId u =>
          refine ⟨u, rfl, ?_⟩
          by_contra hne
          exact hfresh (by simpa [Access.apply, State.setCall, Function.update_of_ne hne] using hid)
      | _ => exact absurd hid hfresh
    obtain ⟨u, rfl, rfl⟩ := htake
    have hnone := hids.fresh s.disp.nextId le_rfl
    have hnew : s.disp.nextId ∉ s.delivered := fun hm => by
      simp [hids.delivered _ hm] at hnone
    have hzero := tickets_eq_zero hids hnew fun x hx => by
      by_contra hcon
      push Not at hcon
      exact hids.announced x hx (hcon.1 ▸ hnone)
    have hsettles : c'.settles s.disp.nextId = 0 := by
      rcases hf with ⟨op, -, rfl, rfl⟩ | ⟨-, rfl, rfl⟩ | ⟨o, -, rfl, rfl⟩ | ⟨a, req, -, rfl, rfl⟩
      all_goals rfl
    have hshared : sharedTickets (Access.apply s (.takeId u)) s.disp.nextId
        = sharedTickets s s.disp.nextId := rfl
    simp only [tickets] at hzero
    omega

theorem ticketed_step {s s' : State} {a : Action} (hids : Ids s) (h : Ticketed s)
    (hs : step s a = some s') : Ticketed s' := by
  rcases step_cases hs with ⟨m, rfl, rfl⟩ | ⟨k, c, e, c', rfl, hk, hn, rfl⟩
    | ⟨k, c, c', rfl, hk, ht, rfl⟩ | ⟨b, d, rfl, hb, hd, rfl⟩ | ⟨id, rfl, rfl⟩ | ⟨rfl, rfl⟩
  · intro id hid
    have hstart : m.start.settles id = 0 := by cases m <;> rfl
    have := h id hid
    simpa [tickets, sharedTickets, terminalCount, cancelledCount, hstart] using this
  · exact ticketed_advance hids h hk hn
  · intro id hid
    have hsettles : c'.settles id = c.settles id := by
      revert ht
      fun_cases Call.timedOut c
      all_goals
        intro ht
        cases ht
      all_goals rfl
    have hsum := Places.sum_map_set (Call.settles id) c' hk
    have hbound := h id hid
    have hsame : tickets (s.setCall k c') id
        = sharedTickets s id + ((s.calls.set k c').map (Call.settles id)).sum := rfl
    rw [hsame]
    simp only [tickets] at hbound
    change _ ≤ if id ∈ s.delivered then 1 else 0
    omega
  · -- what the dispatcher and its tasks announce are ops, not requests
    intro id hid
    have hinv := Dispatcher.inv_step hids.disp hd
    have hsub := (Dispatcher.tokio_frame hb hd).2.1
    have hnone : (d.sent.drop s.disp.sent.length).countP
        (fun c => c.id = id ∧ c.outcome = .cancelled) = 0 := by
      refine List.countP_eq_zero.mpr fun c hc => ?_
      have hne : c.id ≠ id := by
        rintro rfl
        have hmem := mem_submitted_of_sent hinv (List.mem_of_mem_drop hc)
        have := hids.submitted c.id (hsub ▸ hmem)
        simp [show s.use c.id = some .request from hid] at this
      simp [hne]
    have hcanc : cancelledCount { s with
        disp := d
        channel := s.channel ++ d.sent.drop s.disp.sent.length
        announced := s.announced ++ d.sent.drop s.disp.sent.length } id = cancelledCount s id := by
      rw [cancelledCount, List.countP_append, hnone, cancelledCount, Nat.add_zero]
    have hbound := h id hid
    simp only [tickets, sharedTickets, hcanc] at hbound ⊢
    exact hbound
  · exact h
  · exact h

theorem ticketed_run {spinUs : ℕ} {as : List Action} {s : State}
    (hok : Along step CompletesReserved (init spinUs) as)
    (h : runFrom step (init spinUs) as = some s) : Ids s ∧ Ticketed s := by
  refine invariant_of_step step (I := fun s => Ids s ∧ Ticketed s)
    (fun _ _ _ hI ha hs => ⟨ids_step hI.1 ha hs, ticketed_step hI.1 hI.2 hs⟩) ⟨ids_init spinUs, ?_⟩
    hok h
  intro id hid
  cases hid

/-! ## Refused calls -/

namespace Call

/-- A call whose next lock section finds the answer of its id in a state it does not apply to. -/
def refused (s : State) : Call → Prop
  | .streamSend id _ | .streamEnd id _ _ => s.answers.lookup id ≠ some .grpc
  | .respondTake id _ | .respondStart id _ _ => s.answers.lookup id ≠ some .whole
  | .streamSender id | .respondEnd id => s.answers.lookup id ≠ some .streaming
  | .cancelRequest id => s.answers.lookup id = none
  | _ => False

/-- What it returns. -/
def refusal : Call → Ret
  | .streamSender _ => .sender false
  | .cancelRequest _ => .unit
  | _ => .bool false

end Call

lemma reinsert_eq {s : State} {id : ℕ} {a : Answer} (h : s.answers.lookup id = some a) :
    Access.apply s (.reinsert id a) = s := by
  have hmap : (s.answers.erase id).insert id a = s.answers := by
    refine Finmap.ext_lookup fun i => ?_
    by_cases e : i = id
    · subst e
      rw [Finmap.lookup_insert, h]
    · rw [Finmap.lookup_insert_of_ne _ e, Finmap.lookup_erase_ne e]
  simp only [Access.apply, hmap]

/-- A refused call returns its refusal and changes nothing, the map included. -/
theorem step_of_refused {s : State} {k : ℕ} {c : Call} (hk : s.calls[k]? = some c)
    (h : c.refused s) : step s (.advance k) = some (s.setCall k (.done c.refusal)) := by
  suffices hn : ∃ e, c.next s = some (e, .done c.refusal) ∧ e.apply s = s by
    obtain ⟨e, hn, he⟩ := hn
    simp [step, hk, hn, he]
  cases c with
  | streamSend id msg => exact ⟨.load, by simp_all [Call.next, Call.refused, Call.refusal], rfl⟩
  | streamEnd id code message | respondTake id resp | respondEnd id =>
      exact ⟨.load, by simp_all [Call.next, takeAnswer, Call.refused, Call.refusal], rfl⟩
  | streamSender id => exact ⟨.load, by simp_all [Call.next, Call.refused, Call.refusal], rfl⟩
  | cancelRequest id => exact ⟨.load, by simp_all [Call.next, Call.refused, Call.refusal], rfl⟩
  | respondStart id status headers =>
      simp only [Call.refused] at h
      cases hl : s.answers.lookup id with
      | none => exact ⟨.load, by simp [Call.next, startOrRefuse, hl, Call.refusal], rfl⟩
      | some a =>
          cases a with
          | whole => exact absurd hl h
          | streaming | grpc =>
              exact ⟨_, by simp [Call.next, startOrRefuse, hl, Call.refusal], reinsert_eq hl⟩
  | _ => exact absurd h id

/-- The first lock section of `respond` only looks. -/
theorem step_of_respond {s : State} {k id : ℕ} {resp : HttpResponse}
    (hk : s.calls[k]? = some (.respond id resp)) :
    step s (.advance k) = some (s.setCall k (
      if 400 ≤ resp.status ∧ s.answers.lookup id = some .grpc then
        .streamEnd id (grpcRefusal resp.status).1 (grpcRefusal resp.status).2
      else .respondTake id resp)) := by
  by_cases h : 400 ≤ resp.status ∧ s.answers.lookup id = some .grpc
  · simp [step, hk, Call.next, h, Access.apply]
  · simp [step, hk, Call.next, h, Access.apply]

/-! ## Pending requests -/

/-- The entries of the map are the delivered requests that are not gone. -/
lemma card_answers {s : State} (h : Ids s) :
    s.answers.keys.card = (s.delivered.filter fun id => phase s id ≠ .gone).length := by
  have hphase : ∀ id ∈ s.delivered, (phase s id ≠ .gone ↔ id ∈ s.answers) := by
    intro id hid
    cases hl : s.answers.lookup id with
    | none =>
        have hout : id ∉ s.answers := Finmap.lookup_eq_none.mp hl
        simp [phase_gone hl hid, hout]
    | some a =>
        have hin : id ∈ s.answers := Finmap.mem_of_lookup_eq_some hl
        cases a <;> simp [phase_of_lookup hl, Answer.phase, hin]
  have hkeys : s.answers.keys = (s.delivered.filter fun id => phase s id ≠ .gone).toFinset := by
    ext id
    rw [Finmap.mem_keys, List.mem_toFinset, List.mem_filter]
    constructor
    · intro hm
      obtain ⟨a, ha⟩ := Finmap.mem_iff.mp hm
      have hid := h.answers id a ha
      exact ⟨hid, by simpa using (hphase id hid).mpr hm⟩
    · rintro ⟨hid, hp⟩
      exact (hphase id hid).mp (by simpa using hp)
  rw [hkeys, List.toFinset_card_of_nodup (h.delivered_nodup.filter _)]

/-! ## Runs -/

/-- **The answer state machine.**  Under every interleaving of the lock sections, loads and sends of
any number of callers:

* a request gets at most one terminal answer and at most one `Cancelled` completion, never both;
* `pending_requests` counts the requests delivered and not yet gone;
* a request id moves only `Whole → Streaming → gone`, `Whole → gone` or `Grpc → gone`;
* a call that finds its id in a state it does not apply to returns its refusal, and the whole state
  is as before; the look `respond` takes first changes nothing either. -/
theorem answer_state_machine {spinUs : ℕ} {as : List Action} {s : State}
    (hok : Along step CompletesReserved (init spinUs) as)
    (h : runFrom step (init spinUs) as = some s) :
    (∀ id ∈ s.delivered, terminalCount s id ≤ 1 ∧ cancelledCount s id ≤ 1
        ∧ (0 < terminalCount s id → cancelledCount s id = 0))
      ∧ s.answers.keys.card = (s.delivered.filter fun id => phase s id ≠ .gone).length
      ∧ (∀ a s', step s a = some s' → ∀ id, (phase s id).Moves (phase s' id))
      ∧ (∀ (k : ℕ) c, s.calls[k]? = some c → c.refused s →
        step s (.advance k) = some (s.setCall k (.done c.refusal)))
      ∧ ∀ (k : ℕ) id resp, s.calls[k]? = some (.respond id resp) →
        ∃ c, step s (.advance k) = some (s.setCall k c) := by
  obtain ⟨hids, htick⟩ := ticketed_run hok h
  refine ⟨fun id hid => ?_, card_answers hids, fun a s' hs id => moves_step hids hs id,
    fun k c hk hr => step_of_refused hk hr, fun k id resp hk => ⟨_, step_of_respond hk⟩⟩
  have hbound := htick id (hids.delivered id hid)
  rw [if_pos hid, tickets, sharedTickets] at hbound
  refine ⟨?_, ?_, fun hpos => ?_⟩ <;> omega

/-- A request is delivered, its answer is started, a second answer is refused, the stream is ended,
and the client leaves when all is over. -/
def streamedToTheEnd : List Action :=
  [.call (.deliverRequestWithId ⟨bytes "GET", bytes "/", [], []⟩), .advance 0, .advance 0,
    .advance 0, .advance 0, .call (.respondStart 1 200 []), .advance 1,
    .call (.respond 1 ⟨200, [], []⟩), .advance 2, .advance 2, .call (.respondEnd 1), .advance 3,
    .advance 3, .call (.cancelRequest 1), .advance 4]

/-- The stream it started was its only answer. -/
theorem answer_state_machine_streamed :
    ∃ s, runFrom step (init 0) streamedToTheEnd = some s ∧ 1 ∈ s.delivered
      ∧ terminalCount s 1 = 1 ∧ cancelledCount s 1 = 0
      ∧ s.calls[2]? = some (.done (.bool false)) ∧ s.answers.keys.card = 0 := by
  have hok : Along step CompletesReserved (init 0) streamedToTheEnd := by decide
  have hrun : runFrom step (init 0) streamedToTheEnd = some _ := rfl
  have hfacts := answer_state_machine hok hrun
  exact ⟨_, hrun, by decide, by decide, (hfacts.1 1 (by decide)).2.2 (by decide), rfl, rfl⟩

end Ignis.Reactor
