import Ignis.Reactor.Calls
import Ignis.Reactor.ExactlyOnce

/-!
# Who holds which id

Every id comes from `next_id`, so it is used for one thing: an op, a reservation or a request
(`State.use`).  Between taking an id and publishing it (sending the op, entering the request) one
call holds it, and nobody else knows it.  `Ids` collects this; the accounting of the counter and
the life of an answer both rest on it.
-/

namespace Ignis

namespace Dispatcher

/-- An op arrives under an id that was taken and not yet submitted. -/
lemma inv_enqueue {d : State} (h : Inv d) {id : ℕ} (hlt : id < d.nextId) (hid : id ∉ d.submitted)
    (op : Op) : Inv (d.enqueue id op) := by
  have unspawned : d.tasks id = .unspawned := by
    by_contra hne
    exact hid (h.spawned_submitted _ hne)
  refine { h with
    conserved := ?_, submitted_lt := ?_, inbox_unspawned := ?_, spawned_submitted := ?_,
    inbox_nodup := ?_ }
  · intro i
    have hc := h.conserved i
    simp only [State.enqueue, sentCount, owed, List.map_append, List.map_cons, List.map_nil,
      List.count_append, List.count_cons, List.count_nil, beq_iff_eq, List.mem_append,
      List.mem_singleton] at hc ⊢
    by_cases e : id = i
    · subst e
      simp only [hid, if_false] at hc
      simp only [if_true, or_true]
      omega
    · simp only [e, Ne.symm e, if_false, or_false]
      omega
  · intro i hi
    rcases List.mem_append.mp hi with hi | hi
    · exact h.submitted_lt i hi
    · exact List.mem_singleton.mp hi ▸ hlt
  · intro p hp
    rcases List.mem_append.mp hp with hp | hp
    · exact ⟨(h.inbox_unspawned p hp).1, List.mem_append_left _ (h.inbox_unspawned p hp).2⟩
    · rw [List.mem_singleton.mp hp]
      exact ⟨unspawned, by simp [State.enqueue]⟩
  · exact fun i hi => List.mem_append_left _ (h.spawned_submitted i hi)
  · have hnot : id ∉ d.inbox.map Prod.fst := by
      intro hm
      obtain ⟨p, hp, he⟩ := List.mem_map.mp hm
      exact hid (he ▸ (h.inbox_unspawned p hp).2)
    simp only [State.enqueue, List.map_append, List.map_cons, List.map_nil]
    exact List.Nodup.append h.inbox_nodup (by simp) (by simpa using hnot)

/-- The dispatcher and its tasks take no ids and submit nothing; a step of theirs sends at most one
completion. -/
lemma tokio_frame {d d' : State} {a : Action} (ha : a.isTokio = true) (hs : step d a = some d') :
    d'.nextId = d.nextId ∧ d'.submitted = d.submitted
      ∧ (d'.sent = d.sent ∨ ∃ c, d'.sent = d.sent ++ [c]) := by
  cases a with
  | submit op => simp [Action.isTokio] at ha
  | reserve => simp [Action.isTokio] at ha
  | dispatch =>
      cases dispatches_of_dispatch hs with
      | @receive id op rest hpc hin =>
          cases op with
          | sleep us => cases us <;> simp [receive, send, spawnCancellable]
          | watch fd write => simp [receive, spawnCancellable]
          | custom => simp [receive]
          | cancelWatch target =>
              simp only [receive]
              split <;> simp
      | announce | ack => simp [send]
      | _ => simp
  | wake id o => rcases wake_cases hs with ⟨on, ht, rfl⟩ | ⟨ht, rfl⟩ <;> simp
  | proceed id =>
      cases proceeds_of_proceed hs with
      | announce ht => simp [send]
      | _ => simp
  | stop id =>
      obtain ⟨-, -, rfl⟩ := stop_cases hs
      simp

end Dispatcher

namespace Reactor

/-! ## What a call has in its hands -/

namespace Call

/-- The id a call has taken and not yet published. -/
def holds : Call → Option ℕ
  | .submitCount id _ | .submitSend id _ | .deliverInsert id _ _ => some id
  | _ => none

/-- An op or an event that is counted and whose completion nobody but this call will send. -/
def unsent : Call → ℕ
  | .submitSend _ _ | .submitDrop _ | .complete _ _ | .injectSend _ _ | .deliverSend _ _
  | .cancelSend _ => 1
  | _ => 0

/-- Completions a `poll` has received and not yet subtracted. -/
def drained : Call → ℕ
  | .pollDrain out | .pollAccount out => out.length
  | _ => 0

/-- Whether a call has removed the answer of `id` and still has to say so. -/
def settles (id : ℕ) : Call → ℕ
  | .streamEnded i _ _ | .respondSend i _ | .respondEnded i | .cancelCount i | .cancelSend i =>
      if i = id then 1 else 0
  | _ => 0

/-- What a call relies on about the id it works with. -/
def Knows (s : State) : Call → Prop
  | .submitCount id _ | .submitSend id _ => s.use id = some .op ∧ id ∉ s.disp.submitted
  | .reserveCount id | .complete id _ | .injectCount id _ | .injectSend id _ =>
      s.use id = some .reserved
  | .deliverInsert id answer _ =>
      s.use id = some .request ∧ id ∉ s.delivered ∧ answer ≠ .streaming
  | .deliver answer _ => answer ≠ .streaming
  | .deliverCount id _ | .deliverSend id _ => id ∈ s.delivered
  | .streamEnded id _ _ | .respondSend id _ | .respondEnded id | .cancelCount id
  | .cancelSend id => id ∈ s.delivered
  | _ => True

end Call

/-! ## What an access says about the call that makes it -/

/-- The calls `c` that make a given access in state `s`, and where they stand afterwards. -/
def Fits (s : State) (c c' : Call) : Access → Prop
  | .load => c'.holds = none ∧ (∀ s', c'.Knows s') ∧ c'.unsent = c.unsent
      ∧ c'.drained = c.drained ∧ ∀ id, c'.settles id ≤ c.settles id
  | .takeId use =>
      (∃ op, use = .op ∧ c = .submit op ∧ c' = .submitCount s.disp.nextId op)
      ∨ (use = .reserved ∧ c = .reserveOp ∧ c' = .reserveCount s.disp.nextId)
      ∨ (∃ o, use = .reserved ∧ c = .inject o ∧ c' = .injectCount s.disp.nextId o)
      ∨ ∃ a req, use = .request ∧ c = .deliver a req ∧ c' = .deliverInsert s.disp.nextId a req
  | .count =>
      (∃ id op, c = .submitCount id op ∧ c' = .submitSend id op)
      ∨ (∃ id o, c = .injectCount id o ∧ c' = .injectSend id o)
      ∨ (∃ id req, c = .deliverCount id req ∧ c' = .deliverSend id req)
      ∨ ∃ id, c = .cancelCount id ∧ c' = .cancelSend id
  | .countReserved id => c = .reserveCount id ∧ c' = .done (.id id)
  | .uncount => ∃ id, c = .submitDrop id ∧ c' = .done (.id id)
  | .account n => ∃ out, n = out.length ∧ c = .pollAccount out ∧ c' = .done (.batch out)
  | .enqueue id op => c = .submitSend id op ∧ c' = .done (.id id)
  | .send x =>
      (c = .complete x.id x.outcome ∧ c' = .done .unit)
      ∨ (c = .injectSend x.id x.outcome ∧ c' = .done (.id x.id))
      ∨ (∃ req, x.outcome = .request req ∧ c = .deliverSend x.id req ∧ c' = .done (.id x.id))
      ∨ (x.outcome = .cancelled ∧ c = .cancelSend x.id ∧ c' = .done .unit)
  | .recv => ∃ x rest out, s.channel = x :: rest ∧ c' = .pollDrain (out ++ [x])
      ∧ (c = .pollDrain out ∨ (out = [] ∧ ∃ t, c = .pollSpin t ∨ c = .pollRecv t))
  | .insert id answer => ∃ req, c = .deliverInsert id answer req ∧ c' = .deliverCount id req
  | .remove id => (∃ a, s.answers.lookup id = some a) ∧ c.holds = none ∧ c.unsent = 0
      ∧ c.drained = 0 ∧ (∀ i, c.settles i = 0)
      ∧ ((∃ code msg, c' = .streamEnded id code msg) ∨ (∃ resp, c' = .respondSend id resp)
        ∨ c' = .respondEnded id ∨ c' = .cancelCount id ∨ c' = .done (.bool false))
  | .reinsert id answer => s.answers.lookup id = some answer
      ∧ (∃ status headers, c = .respondStart id status headers) ∧ c' = .done (.bool false)
  | .startStream id status headers => s.answers.lookup id = some .whole
      ∧ c = .respondStart id status headers ∧ c' = .done (.bool true)
  | .clear => c = .failPending ∧ c' = .done (.count s.answers.keys.card)
  | .put id w => c' = .done (.bool true)
      ∧ ((∃ msg, w = .message msg ∧ c = .streamSend id msg ∧ s.answers.lookup id = some .grpc)
        ∨ (∃ code msg, w = .status code msg ∧ c = .streamEnded id code msg)
        ∨ (∃ resp, w = .response resp ∧ c = .respondSend id resp)
        ∨ (w = .bodyEnd ∧ c = .respondEnded id))
  | .addServer => c = .serverStarted ∧ c' = .done .unit

/-- `take_answer` removes what the caller expected, and nothing else. -/
lemma takeAnswer_fits {s : State} {c k c' : Call} {e : Access} {id : ℕ} {a : Answer}
    (hc : c.holds = none ∧ c.unsent = 0 ∧ c.drained = 0 ∧ ∀ i, c.settles i = 0)
    (hk : (∃ code msg, k = .streamEnded id code msg) ∨ (∃ resp, k = .respondSend id resp)
      ∨ k = .respondEnded id)
    (h : takeAnswer s id a k = (e, c')) : Fits s c c' e := by
  unfold takeAnswer at h
  split at h
  · rename_i hl
    obtain ⟨rfl, rfl⟩ := Prod.mk.inj h
    refine ⟨⟨a, hl⟩, hc.1, hc.2.1, hc.2.2.1, hc.2.2.2, ?_⟩
    rcases hk with hk | hk | hk
    · exact Or.inl hk
    · exact Or.inr (Or.inl hk)
    · exact Or.inr (Or.inr (Or.inl hk))
  · obtain ⟨rfl, rfl⟩ := Prod.mk.inj h
    exact ⟨rfl, fun _ => trivial, hc.2.1.symm, hc.2.2.1.symm, fun i => Nat.zero_le _⟩

lemma startOrRefuse_fits {s : State} {c' : Call} {e : Access} {id status : ℕ}
    {headers : List (PhpString × PhpString)}
    (h : startOrRefuse s id status headers = (e, c')) :
    Fits s (.respondStart id status headers) c' e := by
  unfold startOrRefuse at h
  split at h
  · rename_i hl
    split at h
    · obtain ⟨rfl, rfl⟩ := Prod.mk.inj h
      exact ⟨⟨_, hl⟩, rfl, rfl, rfl, fun _ => rfl, by simp⟩
    · obtain ⟨rfl, rfl⟩ := Prod.mk.inj h
      exact ⟨hl, rfl, rfl⟩
  · rename_i other _ hl
    obtain ⟨rfl, rfl⟩ := Prod.mk.inj h
    exact ⟨hl, ⟨status, headers, rfl⟩, rfl⟩
  · obtain ⟨rfl, rfl⟩ := Prod.mk.inj h
    exact ⟨rfl, fun _ => trivial, rfl, rfl, fun _ => le_rfl⟩

lemma receive_fits {s : State} {c c' : Call} {e : Access} {out : List Completion}
    {otherwise : Option (Access × Call)}
    (hc : c = .pollDrain out ∨ (out = [] ∧ ∃ t, c = .pollSpin t ∨ c = .pollRecv t))
    (hother : otherwise = some (e, c') → Fits s c c' e)
    (h : receive s out otherwise = some (e, c')) : Fits s c c' e := by
  unfold receive at h
  split at h
  · rename_i x rest hch
    obtain ⟨rfl, rfl⟩ := Prod.mk.inj (Option.some.inj h)
    exact ⟨x, rest, out, hch, rfl, hc⟩
  · exact hother h

/-- **What a call does next.** -/
theorem next_fits {s : State} {c c' : Call} {e : Access} (h : c.next s = some (e, c')) :
    Fits s c c' e := by
  cases c with
  | streamEnd id code message =>
      exact takeAnswer_fits ⟨rfl, rfl, rfl, fun _ => rfl⟩ (by simp) (Option.some.inj h)
  | respondTake id resp =>
      exact takeAnswer_fits ⟨rfl, rfl, rfl, fun _ => rfl⟩ (by simp) (Option.some.inj h)
  | respondEnd id =>
      exact takeAnswer_fits ⟨rfl, rfl, rfl, fun _ => rfl⟩ (by simp) (Option.some.inj h)
  | respondStart id status headers => exact startOrRefuse_fits (Option.some.inj h)
  | pollSpin timeout =>
      refine receive_fits (Or.inr ⟨rfl, timeout, Or.inl rfl⟩) (fun h => ?_) h
      obtain ⟨rfl, rfl⟩ := Prod.mk.inj (Option.some.inj h)
      exact ⟨rfl, fun _ => trivial, rfl, rfl, fun _ => le_rfl⟩
  | pollRecv timeout =>
      exact receive_fits (Or.inr ⟨rfl, timeout, Or.inr rfl⟩) (fun h => by cases h) h
  | pollDrain out =>
      refine receive_fits (Or.inl rfl) (fun h => ?_) h
      obtain ⟨rfl, rfl⟩ := Prod.mk.inj (Option.some.inj h)
      exact ⟨rfl, fun _ => trivial, rfl, rfl, fun _ => le_rfl⟩
  | cancelRequest id =>
      simp only [Call.next] at h
      split at h
      · rename_i hl
        obtain ⟨rfl, rfl⟩ := Prod.mk.inj (Option.some.inj h)
        exact ⟨Option.isSome_iff_exists.mp hl, rfl, rfl, rfl, fun _ => rfl, by simp⟩
      · obtain ⟨rfl, rfl⟩ := Prod.mk.inj (Option.some.inj h)
        exact ⟨rfl, fun _ => trivial, rfl, rfl, fun _ => le_rfl⟩
  | done ret => cases h
  | _ =>
      simp only [Call.next] at h
      try split at h
      all_goals
        obtain ⟨rfl, rfl⟩ := Prod.mk.inj (Option.some.inj h)
        simp_all [Fits, Call.holds, Call.Knows, Call.unsent, Call.drained, Call.settles]

/-! ## The invariant -/

/-- Every id is used for one thing. -/
structure Ledger (s : State) : Prop where
  disp : Dispatcher.Inv s.disp
  fresh : ∀ id, s.disp.nextId ≤ id → s.use id = none
  submitted : ∀ id ∈ s.disp.submitted, s.use id = some .op
  submitted_nodup : s.disp.submitted.Nodup
  reserved : ∀ id ∈ s.reserved, s.use id = some .reserved
  delivered : ∀ id ∈ s.delivered, s.use id = some .request
  delivered_nodup : s.delivered.Nodup
  answers : ∀ id a, s.answers.lookup id = some a → id ∈ s.delivered
  announced : ∀ c ∈ s.announced, s.use c.id ≠ none
  wire : ∀ p ∈ s.wire, p.1 ∈ s.delivered

/-- And by the time an id is in two hands it is published. -/
structure Ids (s : State) : Prop extends Ledger s where
  calls : ∀ c ∈ s.calls, c.Knows s
  held_once : ∀ (k k' : ℕ) (c c' : Call) (id : ℕ), s.calls[k]? = some c → s.calls[k']? = some c' →
    c.holds = some id → c'.holds = some id → k = k'

theorem ids_init (spinUs : ℕ) : Ids (init spinUs) where
  disp := Dispatcher.inv_init
  fresh := fun _ _ => rfl
  submitted := by simp [init, Dispatcher.init]
  submitted_nodup := by simp [init, Dispatcher.init]
  reserved := by simp [init]
  delivered := by simp [init]
  delivered_nodup := by simp [init]
  answers := by simp [init]
  announced := by simp [init]
  wire := by simp [init]
  calls := by simp [init]
  held_once := by simp [init]

lemma Ledger.lt_of_use {s : State} (h : Ledger s) {id : ℕ} {u : Use} (hu : s.use id = some u) :
    id < s.disp.nextId := by
  by_contra hge
  rw [h.fresh id (Nat.le_of_not_lt hge)] at hu
  cases hu

/-- What a call relies on survives whatever the others do, as long as nobody publishes the id it
holds. -/
lemma Call.Knows.mono {s s' : State} {c : Call} (h : c.Knows s)
    (huse : ∀ id u, s.use id = some u → s'.use id = some u)
    (hsub : ∀ id, c.holds = some id → id ∉ s.disp.submitted → id ∉ s'.disp.submitted)
    (hdel : ∀ id, c.holds = some id → id ∉ s.delivered → id ∉ s'.delivered)
    (hgrow : ∀ id ∈ s.delivered, id ∈ s'.delivered) : c.Knows s' := by
  cases c <;> simp_all [Call.Knows, Call.holds]

/-- A call that makes an access keeps the id it held, or has just taken one. -/
lemma holds_of_fits {s : State} {c c' : Call} {e : Access} (h : Fits s c c' e) {id : ℕ}
    (hid : c'.holds = some id) :
    c.holds = some id ∨ (id = s.disp.nextId ∧ ∃ u, e = .takeId u) := by
  cases e with
  | takeId use =>
      rcases h with ⟨op, -, rfl, rfl⟩ | ⟨-, rfl, rfl⟩ | ⟨o, -, rfl, rfl⟩ | ⟨a, req, -, rfl, rfl⟩
      all_goals simp_all [Call.holds]
  | count =>
      rcases h with ⟨i, op, rfl, rfl⟩ | ⟨i, o, rfl, rfl⟩ | ⟨i, req, rfl, rfl⟩ | ⟨i, rfl, rfl⟩
      all_goals simp_all [Call.holds]
  | load => simp [h.1] at hid
  | send x =>
      rcases h with ⟨-, rfl⟩ | ⟨-, rfl⟩ | ⟨req, -, -, rfl⟩ | ⟨-, -, rfl⟩
      all_goals simp [Call.holds] at hid
  | recv =>
      obtain ⟨x, rest, out, -, rfl, -⟩ := h
      simp [Call.holds] at hid
  | remove i =>
      obtain ⟨-, -, -, -, -, ⟨code, msg, rfl⟩ | ⟨resp, rfl⟩ | rfl | rfl | rfl⟩ := h
      all_goals simp [Call.holds] at hid
  | insert i a =>
      obtain ⟨req, rfl, rfl⟩ := h
      simp [Call.holds] at hid
  | uncount =>
      obtain ⟨i, rfl, rfl⟩ := h
      simp [Call.holds] at hid
  | account n =>
      obtain ⟨out, -, rfl, rfl⟩ := h
      simp [Call.holds] at hid
  | reinsert i a =>
      obtain ⟨-, -, rfl⟩ := h
      simp [Call.holds] at hid
  | startStream i st hd =>
      obtain ⟨-, -, rfl⟩ := h
      simp [Call.holds] at hid
  | put i w =>
      obtain ⟨rfl, -⟩ := h
      simp [Call.holds] at hid
  | enqueue i op | countReserved i | clear | addServer =>
      obtain ⟨-, rfl⟩ := h
      simp [Call.holds] at hid

/-- An access publishes only the id its call holds, and takes only the next one. -/
lemma mono_of_fits {s : State} {c c' : Call} {e : Access} (h : Ledger s) (hf : Fits s c c' e) :
    (∀ id u, s.use id = some u → (e.apply s).use id = some u)
      ∧ (∀ id, id ∉ s.disp.submitted → c.holds ≠ some id → id ∉ (e.apply s).disp.submitted)
      ∧ (∀ id, id ∉ s.delivered → c.holds ≠ some id → id ∉ (e.apply s).delivered)
      ∧ ∀ id ∈ s.delivered, id ∈ (e.apply s).delivered := by
  cases e with
  | takeId use =>
      refine ⟨fun id u hu => ?_, fun id hid _ => hid, fun id hid _ => hid, fun id hid => hid⟩
      have hne : id ≠ s.disp.nextId := (h.lt_of_use hu).ne
      simpa [Access.apply, Function.update_of_ne hne] using hu
  | enqueue i op =>
      obtain ⟨rfl, -⟩ := hf
      refine ⟨fun _ _ hu => hu, fun id hid hne => ?_, fun id hid _ => hid, fun id hid => hid⟩
      have hne' : ¬ id = i := fun e => hne (by simp [Call.holds, e])
      simp [Access.apply, Dispatcher.State.enqueue, hid, hne']
  | insert i a =>
      obtain ⟨req, rfl, -⟩ := hf
      refine ⟨fun _ _ hu => hu, fun id hid _ => hid, fun id hid hne => ?_, fun id hid => ?_⟩
      · have hne' : ¬ id = i := fun e => hne (by simp [Call.holds, e])
        simp [Access.apply, hid, hne']
      · exact List.mem_cons_of_mem _ hid
  | _ => exact ⟨fun _ _ hu => hu, fun _ hid _ => hid, fun _ hid _ => hid, fun _ hid => hid⟩

/-- The call itself: what it relies on next. -/
lemma knows_of_fits {s : State} {c c' : Call} {e : Access} (h : Ledger s) (hf : Fits s c c' e)
    (hc : c.Knows s) : c'.Knows (e.apply s) := by
  have hnext := h.fresh s.disp.nextId le_rfl
  cases e with
  | takeId use =>
      rcases hf with ⟨op, rfl, rfl, rfl⟩ | ⟨rfl, rfl, rfl⟩ | ⟨o, rfl, rfl, rfl⟩
        | ⟨a, req, rfl, rfl, rfl⟩
      · refine ⟨by simp [Access.apply], fun hm => ?_⟩
        simp [h.submitted _ hm] at hnext
      · simp [Call.Knows, Access.apply]
      · simp [Call.Knows, Access.apply]
      · refine ⟨by simp [Access.apply], fun hm => ?_, hc⟩
        simp [h.delivered _ hm] at hnext
  | count =>
      rcases hf with ⟨i, op, rfl, rfl⟩ | ⟨i, o, rfl, rfl⟩ | ⟨i, req, rfl, rfl⟩ | ⟨i, rfl, rfl⟩
      all_goals exact hc
  | load => exact hf.2.1 _
  | send x =>
      rcases hf with ⟨-, rfl⟩ | ⟨-, rfl⟩ | ⟨req, -, -, rfl⟩ | ⟨-, -, rfl⟩
      all_goals trivial
  | recv =>
      obtain ⟨x, rest, out, -, rfl, -⟩ := hf
      trivial
  | remove i =>
      obtain ⟨⟨a, hl⟩, -, -, -, -, ⟨code, msg, rfl⟩ | ⟨resp, rfl⟩ | rfl | rfl | rfl⟩ := hf
      case inr.inr.inr.inr => trivial
      all_goals exact h.answers i a hl
  | insert i a =>
      obtain ⟨req, rfl, rfl⟩ := hf
      exact List.mem_cons_self
  | uncount =>
      obtain ⟨i, rfl, rfl⟩ := hf
      trivial
  | account n =>
      obtain ⟨out, -, rfl, rfl⟩ := hf
      trivial
  | reinsert i a | startStream i st hd =>
      obtain ⟨-, -, rfl⟩ := hf
      trivial
  | put i w =>
      obtain ⟨rfl, -⟩ := hf
      trivial
  | enqueue i op | countReserved i | clear | addServer =>
      obtain ⟨-, rfl⟩ := hf
      trivial

/-- An access keeps the books. -/
lemma ledger_of_fits {s : State} {c c' : Call} {e : Access} (h : Ledger s) (hf : Fits s c c' e)
    (hc : c.Knows s) : Ledger (e.apply s) := by
  cases e with
  | takeId use =>
      have hkeep := (mono_of_fits h hf).1
      refine ⟨Dispatcher.inv_reserve h.disp, ?_, fun id hid => hkeep _ _ (h.submitted id hid),
        h.submitted_nodup, fun id hid => hkeep _ _ (h.reserved id hid),
        fun id hid => hkeep _ _ (h.delivered id hid), h.delivered_nodup, h.answers, ?_, h.wire⟩
      · intro id hid
        have hlt : s.disp.nextId < id := hid
        simpa [Access.apply, Function.update_of_ne hlt.ne'] using h.fresh id hlt.le
      · intro x hx hnone
        obtain ⟨u, hu⟩ := Option.ne_none_iff_exists'.mp (h.announced x hx)
        have := hkeep _ _ hu
        rw [show (Access.apply s (.takeId use)).use x.id = none from hnone] at this
        cases this
  | enqueue i op =>
      obtain ⟨rfl, -⟩ := hf
      have hlt := h.lt_of_use hc.1
      refine { h with
        disp := Dispatcher.inv_enqueue h.disp hlt hc.2 op, submitted := ?_, submitted_nodup := ?_ }
      · intro id hid
        rcases List.mem_append.mp hid with hid | hid
        · exact h.submitted id hid
        · exact List.mem_singleton.mp hid ▸ hc.1
      · exact List.Nodup.append h.submitted_nodup (by simp) (by simpa using hc.2)
  | insert i a =>
      obtain ⟨req, rfl, -⟩ := hf
      refine { h with
        delivered := ?_, delivered_nodup := List.nodup_cons.mpr ⟨hc.2.1, h.delivered_nodup⟩,
        answers := ?_, wire := fun p hp => List.mem_cons_of_mem _ (h.wire p hp) }
      · intro id hid
        rcases List.mem_cons.mp hid with rfl | hid
        · exact hc.1
        · exact h.delivered id hid
      · intro id b hl
        by_cases e : id = i
        · exact List.mem_cons.mpr (Or.inl e)
        · simp only [Access.apply, Finmap.lookup_insert_of_ne _ e] at hl
          exact List.mem_cons_of_mem _ (h.answers id b hl)
  | countReserved i =>
      obtain ⟨rfl, -⟩ := hf
      refine { h with reserved := ?_ }
      intro id hid
      rcases List.mem_cons.mp hid with rfl | hid
      · exact hc
      · exact h.reserved id hid
  | send x =>
      refine { h with announced := ?_ }
      intro y hy
      rcases List.mem_append.mp hy with hy | hy
      · exact h.announced y hy
      · rw [List.mem_singleton.mp hy]
        rcases hf with ⟨rfl, -⟩ | ⟨rfl, -⟩ | ⟨req, -, rfl, -⟩ | ⟨-, rfl, -⟩
        · simp [Access.apply, show s.use x.id = some .reserved from hc]
        · simp [Access.apply, show s.use x.id = some .reserved from hc]
        · simp [Access.apply, h.delivered _ hc]
        · simp [Access.apply, h.delivered _ hc]
  | remove i =>
      refine { h with answers := ?_ }
      intro id b hl
      by_cases e : id = i
      · subst e
        simp [Access.apply] at hl
      · simp only [Access.apply, Finmap.lookup_erase_ne e] at hl
        exact h.answers id b hl
  | reinsert i a =>
      obtain ⟨hl, -, -⟩ := hf
      refine { h with answers := ?_ }
      intro id b hb
      by_cases e : id = i
      · exact e ▸ h.answers i a hl
      · simp only [Access.apply, Finmap.lookup_insert_of_ne _ e, Finmap.lookup_erase_ne e] at hb
        exact h.answers id b hb
  | startStream i st hd =>
      obtain ⟨hl, -, -⟩ := hf
      refine { h with answers := ?_, wire := ?_ }
      · intro id b hb
        by_cases e : id = i
        · exact e ▸ h.answers i _ hl
        · simp only [Access.apply, Finmap.lookup_insert_of_ne _ e, Finmap.lookup_erase_ne e] at hb
          exact h.answers id b hb
      · intro p hp
        rcases List.mem_append.mp hp with hp | hp
        · exact h.wire p hp
        · exact List.mem_singleton.mp hp ▸ h.answers i _ hl
  | clear =>
      refine { h with answers := ?_ }
      intro id b hl
      simp [Access.apply] at hl
  | put i w =>
      refine { h with wire := ?_ }
      intro p hp
      rcases List.mem_append.mp hp with hp | hp
      · exact h.wire p hp
      · rw [List.mem_singleton.mp hp]
        obtain ⟨-, ⟨msg, -, -, hl⟩ | ⟨code, msg, -, rfl⟩ | ⟨resp, -, rfl⟩ | ⟨-, rfl⟩⟩ := hf
        · exact h.answers i _ hl
        all_goals exact hc
  | _ => exact { h with }

/-- The calls keep what they rely on. -/
lemma ids_setCall {s s' : State} {k : ℕ} {c c' : Call} (h : Ids s) (hk : s.calls[k]? = some c)
    (hledger : Ledger s') (hcalls : s'.calls = s.calls) (hc' : c'.Knows s')
    (huse : ∀ id u, s.use id = some u → s'.use id = some u)
    (hsub : ∀ id, id ∉ s.disp.submitted → c.holds ≠ some id → id ∉ s'.disp.submitted)
    (hdel : ∀ id, id ∉ s.delivered → c.holds ≠ some id → id ∉ s'.delivered)
    (hgrow : ∀ id ∈ s.delivered, id ∈ s'.delivered)
    (hholds : ∀ id, c'.holds = some id → c.holds = some id ∨ id = s.disp.nextId) :
    Ids (s'.setCall k c') := by
  -- the entry of the list at `j` is `c'` or the one that was there
  have at_ : ∀ j d, (s'.setCall k c').calls[j]? = some d →
      (j = k ∧ d = c') ∨ (j ≠ k ∧ s.calls[j]? = some d) := by
    intro j d hd
    simp only [State.setCall, hcalls, List.getElem?_set] at hd
    split_ifs at hd with e hlt
    · exact Or.inl ⟨e.symm, (Option.some.inj hd).symm⟩
    · exact Or.inr ⟨fun e' => e e'.symm, hd⟩
  have knows : ∀ j d, j ≠ k → s.calls[j]? = some d → d.Knows s' := by
    intro j d hj hd
    have other : ∀ id, d.holds = some id → c.holds ≠ some id :=
      fun id hid hc => hj (h.held_once j k d c id hd hk hid hc)
    exact (h.calls d (List.mem_of_getElem? hd)).mono huse
      (fun id hid hn => hsub id hn (other id hid)) (fun id hid hn => hdel id hn (other id hid))
      hgrow
  have fresh : ∀ (j : ℕ) (d : Call) (id : ℕ), s.calls[j]? = some d → d.holds = some id →
      id ≠ s.disp.nextId := by
    intro j d id hd hid e
    have hknow := h.calls d (List.mem_of_getElem? hd)
    have hnone := h.fresh id e.ge
    cases d <;> simp [Call.holds, Call.Knows] at hid hknow <;> simp_all
  refine { hledger with calls := ?_, held_once := ?_ }
  · intro d hd
    obtain ⟨j, hj⟩ := List.mem_iff_getElem?.mp hd
    rcases at_ j d hj with ⟨-, rfl⟩ | ⟨hne, hj⟩
    · cases d <;> exact hc'
    · have := knows j d hne hj
      cases d <;> exact this
  · intro j j' d d' id hj hj' hd hd'
    rcases at_ j d hj with ⟨rfl, rfl⟩ | ⟨hne, old⟩
    · rcases at_ j' d' hj' with ⟨rfl, -⟩ | ⟨hne', old'⟩
      · rfl
      · rcases hholds id hd with hc | hn
        · exact h.held_once _ _ _ _ id hk old' hc hd'
        · exact absurd hn (fresh _ _ _ old' hd')
    · rcases at_ j' d' hj' with ⟨rfl, rfl⟩ | ⟨hne', old'⟩
      · rcases hholds id hd' with hc | hn
        · exact h.held_once _ _ _ _ id old hk hd hc
        · exact absurd hn (fresh _ _ _ old hd)
      · exact h.held_once _ _ _ _ id old old' hd hd'

/-- A call makes its next access. -/
lemma ids_advance {s : State} {k : ℕ} {c c' : Call} {e : Access} (h : Ids s)
    (hk : s.calls[k]? = some c) (hn : c.next s = some (e, c')) :
    Ids ((e.apply s).setCall k c') := by
  have hf := next_fits hn
  have hc := h.calls c (List.mem_of_getElem? hk)
  obtain ⟨huse, hsub, hdel, hgrow⟩ := mono_of_fits h.toLedger hf
  refine ids_setCall h hk (ledger_of_fits h.toLedger hf hc) (by cases e <;> rfl)
    (knows_of_fits h.toLedger hf hc) huse hsub hdel hgrow fun id hid => ?_
  rcases holds_of_fits hf hid with hid | ⟨hid, -⟩
  · exact Or.inl hid
  · exact Or.inr hid

/-! ## Steps and runs -/

/-- The contract of `complete`: it is called for an id `reserve_op` returned, once. -/
def CompletesReserved (s : State) : Action → Prop
  | .call (.complete id _) => id ∈ s.reserved
  | _ => True

instance (s : State) : ∀ a, Decidable (CompletesReserved s a)
  | .call (.complete id _) => inferInstanceAs (Decidable (id ∈ s.reserved))
  | .call (.submit _) | .call .reserveOp | .call (.inject _) | .call (.deliverRequestWithId _)
  | .call (.deliverStreamRequest _) | .call (.streamSend _ _) | .call (.streamEnd _ _ _)
  | .call (.cancelRequest _) | .call (.respond _ _) | .call (.respondStart _ _ _)
  | .call (.streamSender _) | .call (.respondEnd _) | .call .failPending | .call .pendingRequests
  | .call .serverStarted | .call (.poll _)
  | .advance _ | .timeout _ | .tokio _ | .hangUp _ | .shutDown => isTrue trivial

lemma Method.mem_of_mem_gives {m : Method} {reserved : List ℕ} {id : ℕ}
    (h : id ∈ m.gives reserved) : id ∈ reserved := by
  cases m with
  | complete i o => exact List.mem_of_mem_erase h
  | _ => exact h

/-- A call begins. -/
lemma ids_call {s : State} (h : Ids s) (m : Method) (hm : CompletesReserved s (.call m)) :
    Ids { s with calls := s.calls ++ [m.start], reserved := m.gives s.reserved } := by
  have hholds : m.start.holds = none := by cases m <;> rfl
  refine { h with
    reserved := fun id hid => h.reserved id (Method.mem_of_mem_gives hid), calls := ?_,
    held_once := ?_ }
  · intro c hc
    rcases List.mem_append.mp hc with hc | hc
    · have := h.calls c hc
      cases c <;> exact this
    · rw [List.mem_singleton.mp hc]
      cases m with
      | complete id o => exact h.reserved id hm
      | deliverRequestWithId req | deliverStreamRequest req => simp [Method.start, Call.Knows]
      | _ => trivial
  · have at_ : ∀ (j : ℕ) (d : Call) (id : ℕ), (s.calls ++ [m.start])[j]? = some d →
        d.holds = some id → s.calls[j]? = some d := by
      intro j d id hd hid
      rw [List.getElem?_append] at hd
      split_ifs at hd
      · exact hd
      · rw [List.mem_singleton.mp (List.mem_of_getElem? hd), hholds] at hid
        cases hid
    intro j j' d d' id hj hj' hd hd'
    exact h.held_once j j' d d' id (at_ j d id hj hd) (at_ j' d' id hj' hd') hd hd'

/-- Time passes for a `poll`. -/
lemma ids_timeout {s : State} {k : ℕ} {c c' : Call} (h : Ids s) (hk : s.calls[k]? = some c)
    (ht : c.timedOut = some c') : Ids (s.setCall k c') := by
  have hc' : c'.holds = none ∧ c'.Knows s := by
    revert ht
    fun_cases Call.timedOut c
    all_goals
      intro ht
      cases ht
    all_goals exact ⟨rfl, trivial⟩
  refine ids_setCall h hk h.toLedger rfl hc'.2 (fun _ _ hu => hu) (fun _ hn _ => hn)
    (fun _ hn _ => hn) (fun _ hm => hm) fun id hid => ?_
  rw [hc'.1] at hid
  cases hid

/-- What the dispatcher or a task sends goes out under a submitted id. -/
lemma mem_submitted_of_sent {d : Dispatcher.State} (h : Dispatcher.Inv d) {c : Completion}
    (hc : c ∈ d.sent) : c.id ∈ d.submitted := by
  have hcount : 0 < Dispatcher.sentCount d c.id :=
    List.count_pos_iff.mpr (List.mem_map_of_mem hc)
  have hcons := h.conserved c.id
  by_contra hn
  rw [if_neg hn] at hcons
  omega

lemma ids_tokio {s : State} {a : Dispatcher.Action} {d : Dispatcher.State} (h : Ids s)
    (ha : a.isTokio = true) (hd : Dispatcher.step s.disp a = some d) :
    Ids { s with
      disp := d
      channel := s.channel ++ d.sent.drop s.disp.sent.length
      announced := s.announced ++ d.sent.drop s.disp.sent.length } := by
  obtain ⟨hnext, hsub, -⟩ := Dispatcher.tokio_frame ha hd
  have hinv := Dispatcher.inv_step h.disp hd
  refine { h with
    disp := hinv, fresh := ?_, submitted := ?_, submitted_nodup := ?_, announced := ?_,
    calls := ?_ }
  · exact fun id hid => h.fresh id (hnext ▸ hid)
  · exact fun id hid => h.submitted id (hsub ▸ hid)
  · exact hsub ▸ h.submitted_nodup
  · intro c hc
    rcases List.mem_append.mp hc with hc | hc
    · exact h.announced c hc
    · have hmem := mem_submitted_of_sent hinv (List.mem_of_mem_drop hc)
      simp [h.submitted c.id (hsub ▸ hmem)]
  · intro c hc
    refine (h.calls c hc).mono (fun _ _ hu => hu) (fun id _ hn => ?_) (fun _ _ hn => hn)
      fun _ hm => hm
    exact fun hm => hn (hsub ▸ hm)

/-- **What a step can be.** -/
theorem step_cases {s s' : State} {a : Action} (h : step s a = some s') :
    (∃ m, a = .call m ∧ s' = { s with
        calls := s.calls ++ [m.start], reserved := m.gives s.reserved })
      ∨ (∃ k c e c', a = .advance k ∧ s.calls[k]? = some c ∧ c.next s = some (e, c')
        ∧ s' = (e.apply s).setCall k c')
      ∨ (∃ k c c', a = .timeout k ∧ s.calls[k]? = some c ∧ c.timedOut = some c'
        ∧ s' = s.setCall k c')
      ∨ (∃ b d, a = .tokio b ∧ b.isTokio = true ∧ Dispatcher.step s.disp b = some d
        ∧ s' = { s with
            disp := d
            channel := s.channel ++ d.sent.drop s.disp.sent.length
            announced := s.announced ++ d.sent.drop s.disp.sent.length })
      ∨ (∃ id, a = .hangUp id ∧ s' = { s with hungUp := Function.update s.hungUp id true })
      ∨ (a = .shutDown ∧ s' = { s with gone := true }) := by
  cases a with
  | call m => exact Or.inl ⟨m, rfl, (Option.some.inj h).symm⟩
  | advance k =>
      simp only [step, Option.bind_eq_bind, Option.bind_eq_some_iff, Option.some.injEq] at h
      obtain ⟨c, hk, ⟨e, c'⟩, hn, rfl⟩ := h
      exact Or.inr (Or.inl ⟨k, c, e, c', rfl, hk, hn, rfl⟩)
  | timeout k =>
      simp only [step, Option.bind_eq_bind, Option.bind_eq_some_iff, Option.some.injEq] at h
      obtain ⟨c, hk, c', ht, rfl⟩ := h
      exact Or.inr (Or.inr (Or.inl ⟨k, c, c', rfl, hk, ht, rfl⟩))
  | tokio b =>
      simp only [step] at h
      split_ifs at h with hb
      simp only [Option.bind_eq_bind, Option.bind_eq_some_iff, Option.some.injEq] at h
      obtain ⟨d, hd, rfl⟩ := h
      exact Or.inr (Or.inr (Or.inr (Or.inl ⟨b, d, rfl, hb.1, hd, rfl⟩)))
  | hangUp id =>
      exact Or.inr (Or.inr (Or.inr (Or.inr (Or.inl ⟨id, rfl, (Option.some.inj h).symm⟩))))
  | shutDown =>
      exact Or.inr (Or.inr (Or.inr (Or.inr (Or.inr ⟨rfl, (Option.some.inj h).symm⟩))))

theorem ids_step {s s' : State} {a : Action} (h : Ids s) (ha : CompletesReserved s a)
    (hs : step s a = some s') : Ids s' := by
  have keep : ∀ {t : State}, (∀ id u, s.use id = some u → t.use id = some u) →
      t.disp.submitted = s.disp.submitted → t.delivered = s.delivered →
      ∀ c ∈ s.calls, c.Knows t := by
    intro t huse hsub hdel c hc
    refine (h.calls c hc).mono huse (fun id _ hn => hsub ▸ hn) (fun id _ hn => hdel ▸ hn)
      fun id hm => hdel ▸ hm
  rcases step_cases hs with ⟨m, rfl, rfl⟩ | ⟨k, c, e, c', rfl, hk, hn, rfl⟩
    | ⟨k, c, c', rfl, hk, ht, rfl⟩ | ⟨b, d, rfl, hb, hd, rfl⟩ | ⟨id, rfl, rfl⟩ | ⟨rfl, rfl⟩
  · exact ids_call h m ha
  · exact ids_advance h hk hn
  · exact ids_timeout h hk ht
  · exact ids_tokio h hb hd
  · exact { h with calls := keep (fun _ _ hu => hu) rfl rfl }
  · exact { h with calls := keep (fun _ _ hu => hu) rfl rfl }

end Reactor

end Ignis
