import Ignis.Lib.Caller
import Ignis.Lib.Places
import Ignis.Reactor.CallIds

/-!
# The owner of a request

A request id has one owner, the fiber that handles it: nobody else answers it.  What everybody else
can do to it is little.  The client may leave (`hangUp` drops its end of the channel, and
`cancel_request` takes the entry of the map), and that is all: `leaves_env` says so for every step
of the machine that is not the owner's.

`system id R` runs a program of the owner against all the others, with `Ignis.Lib.Caller`.  The
specs at the end say what the methods of the owner return and what they leave behind, however the
accesses of a call are interleaved with the steps of the others.
-/

namespace Ignis.Reactor

open Caller

/-! ## Everybody else -/

/-- A call that does not answer `id`, nor enter it into the map, nor empty the map (`fail_pending`
is what the owner's own thread does when its script is over). -/
def Call.foreign (id : ℕ) : Call → Bool
  | .deliverInsert i _ _ | .streamSend i _ | .streamEnd i _ _ | .streamEnded i _ _ | .respond i _
  | .respondTake i _ | .respondSend i _ | .respondStart i _ _ | .respondEnd i | .respondEnded i =>
      i ≠ id
  | .failPending => false
  | _ => true

def Action.foreign (id : ℕ) : Action → Bool
  | .call m => m.start.foreign id
  | _ => true

/-- The steps of everybody but the owner of `id`. -/
def foreignStep (id : ℕ) (s : State) (a : Action) : Option State :=
  if a.foreign id then step s a else none

/-- What the owner asks the outside world: to be woken when an op completes, or to take a chunk into
the bounded queue to the socket (`try_send`).  The flag is ghost: it is the loop that waits, for the
tail of a stream to be taken. -/
inductive Question where
  | awaitOp (tail : Bool)
  | trySend
  deriving DecidableEq, Repr

/-- How that may end: the op completes, or the loop throws one of its two exceptions into the parked
fiber; the chunk fits, the queue is full, or nobody reads it any more. -/
inductive Reply where
  | completed
  | deadlineExceeded
  | cancelled
  | fits
  | full
  | closed
  deriving DecidableEq, Repr

/-- `CancelledException` is thrown for the completion that `cancel_request` sends after it has taken
the entry; a chunk is refused for good only when the client's end is dropped. -/
def replies (id : ℕ) (s : State) : Question → Reply → Bool
  | .awaitOp _, .completed | .awaitOp _, .deadlineExceeded => true
  | .awaitOp _, .cancelled => decide (s.answers.lookup id = none)
  | .trySend, .fits | .trySend, .full => true
  | .trySend, .closed => s.hungUp id
  | _, _ => false

/-- The methods as a shared object.  The owner's own call is not in `State.calls`. -/
def object : Object State Call Method Ret where
  start := Method.start
  next := fun s c => (c.next s).map fun (access, c') => (access.apply s, c')
  result
    | .done ret => some ret
    | _ => none

/-- The owner of `id` and everybody else, with the replies `R` to the owner's questions. -/
def system (id : ℕ) (R : State → Question → Reply → Bool) :
    System State Call Method Ret Question Reply Action where
  toObject := object
  env := foreignStep id
  replies := R

/-! ## What they can do to the id -/

/-- `id` is a request of which everybody else keeps their hands off. -/
structure Owned (id : ℕ) (s : State) : Prop where
  issued : id < s.disp.nextId
  calls : ∀ c ∈ s.calls, c.foreign id = true

/-- The client has left: its end of the channel is dropped, or `cancel_request` has taken the
entry. -/
def State.clientLeft (s : State) (id : ℕ) : Prop :=
  s.hungUp id = true ∨ ⟨id, .cancelled⟩ ∈ s.announced ∨ .cancelCount id ∈ s.calls
    ∨ .cancelSend id ∈ s.calls

/-- What the answer's channel of `id` took. -/
def State.wireOf (s : State) (id : ℕ) : List Wire :=
  (s.wire.filter fun p => p.1 = id).map Prod.snd

/-- What can have happened to `id` between `s` and `t`: nothing, or the client left. -/
structure Leaves (id : ℕ) (s t : State) : Prop where
  answer : t.answers.lookup id = s.answers.lookup id
    ∨ (t.answers.lookup id = none ∧ t.clientLeft id)
  left : s.clientLeft id → t.clientLeft id
  wire : t.wireOf id = s.wireOf id

/-- The accesses that leave an id alone. -/
def Access.spares (id : ℕ) : Access → Bool
  | .insert i _ | .remove i | .reinsert i _ | .startStream i _ _ | .put i _ => i ≠ id
  | .clear => false
  | _ => true

lemma Access.lookup_of_spares {s : State} {e : Access} {id : ℕ} (h : e.spares id = true) :
    (e.apply s).answers.lookup id = s.answers.lookup id := by
  cases e <;> simp only [Access.apply, Access.spares, decide_eq_true_eq] at h ⊢
  case insert => exact Finmap.lookup_insert_of_ne _ (Ne.symm h)
  case remove => exact Finmap.lookup_erase_ne (Ne.symm h)
  case reinsert | startStream =>
    rw [Finmap.lookup_insert_of_ne _ (Ne.symm h), Finmap.lookup_erase_ne (Ne.symm h)]
  case clear => cases h

lemma Access.wireOf_of_spares {s : State} {e : Access} {id : ℕ} (h : e.spares id = true) :
    (e.apply s).wireOf id = s.wireOf id := by
  cases e <;> simp only [Access.spares, decide_eq_true_eq] at h <;>
    simp [State.wireOf, Access.apply, h]

/-- A call that is not the owner's leaves the id alone, unless it is the cancellation that takes its
entry. -/
lemma next_foreign {s : State} {c c' : Call} {e : Access} {id : ℕ} (hid : id < s.disp.nextId)
    (hc : c.foreign id = true) (h : c.next s = some (e, c')) :
    (e.spares id = true ∧ c'.foreign id = true)
      ∨ (c = .cancelRequest id ∧ e = .remove id ∧ c' = .cancelCount id) := by
  cases c with
  | streamEnd i code message | respondTake i resp | respondEnd i =>
      simp only [Call.next, takeAnswer, Option.some.injEq] at h
      split at h <;> cases h <;> simp_all [Access.spares, Call.foreign]
  | respondStart i status headers =>
      simp only [Call.next, startOrRefuse, Option.some.injEq] at h
      split at h
      · split at h <;> cases h <;> simp_all [Access.spares, Call.foreign]
      · cases h
        simp_all [Access.spares, Call.foreign]
      · cases h
        simp [Access.spares, Call.foreign]
  | pollSpin timeout | pollRecv timeout | pollDrain out =>
      simp only [Call.next, receive] at h
      split at h <;> cases h <;> simp [Access.spares, Call.foreign]
  | cancelRequest i =>
      simp only [Call.next] at h
      split at h
      · obtain ⟨rfl, rfl⟩ := Prod.mk.inj (Option.some.inj h)
        by_cases hi : i = id
        · subst hi
          exact Or.inr ⟨rfl, rfl, rfl⟩
        · exact Or.inl ⟨by simp [Access.spares, hi], rfl⟩
      · cases h
        exact Or.inl ⟨rfl, rfl⟩
  | deliver answer req =>
      obtain ⟨rfl, rfl⟩ := Prod.mk.inj (Option.some.inj h)
      exact Or.inl ⟨rfl, by simp [Call.foreign, (Nat.ne_of_lt hid).symm]⟩
  | failPending => cases hc
  | done ret => cases h
  | _ =>
      simp only [Call.next] at h
      try split at h
      all_goals
        obtain ⟨rfl, rfl⟩ := Prod.mk.inj (Option.some.inj h)
        simp_all [Access.spares, Call.foreign]

@[simp] lemma calls_apply (s : State) (e : Access) : (e.apply s).calls = s.calls := by
  cases e <;> rfl

@[simp] lemma hungUp_apply (s : State) (e : Access) : (e.apply s).hungUp = s.hungUp := by
  cases e <;> rfl

lemma nextId_le_apply (s : State) (e : Access) : s.disp.nextId ≤ (e.apply s).disp.nextId := by
  cases e <;> simp [Access.apply, Dispatcher.State.enqueue]

lemma mem_announced_apply {s : State} {x : Completion} (e : Access) (h : x ∈ s.announced) :
    x ∈ (e.apply s).announced := by
  cases e <;> simp [Access.apply, h]

/-- Moving one call on loses no other. -/
lemma mem_set_of_ne {l : List Call} {k : ℕ} {c c' d : Call} (hk : l[k]? = some c) (hd : d ∈ l)
    (hne : d ≠ c) : d ∈ l.set k c' := by
  obtain ⟨j, hj⟩ := List.mem_iff_getElem?.mp hd
  have hjk : k ≠ j := by
    rintro rfl
    exact hne (Option.some.inj (hj.symm.trans hk))
  exact Places.mem_set_of_ne hj hjk

/-- A client that has left does not come back. -/
lemma clientLeft_advance {s : State} {k : ℕ} {c c' : Call} {e : Access} {id : ℕ}
    (hk : s.calls[k]? = some c) (hn : c.next s = some (e, c')) (h : s.clientLeft id) :
    ((e.apply s).setCall k c').clientLeft id := by
  simp only [State.clientLeft, State.setCall, calls_apply, hungUp_apply] at h ⊢
  rcases h with h | h | h | h
  · exact Or.inl h
  · exact Or.inr (Or.inl (mem_announced_apply e h))
  · by_cases hc : .cancelCount id = c
    · subst hc
      obtain ⟨rfl, rfl⟩ := Prod.mk.inj (Option.some.inj hn)
      exact Or.inr (Or.inr (Or.inr (Places.mem_set_self hk _)))
    · exact Or.inr (Or.inr (Or.inl (mem_set_of_ne hk h hc)))
  · by_cases hc : .cancelSend id = c
    · subst hc
      obtain ⟨rfl, rfl⟩ := Prod.mk.inj (Option.some.inj hn)
      exact Or.inr (Or.inl (by simp [Access.apply]))
    · exact Or.inr (Or.inr (Or.inr (mem_set_of_ne hk h hc)))

lemma clientLeft_timeout {s : State} {k : ℕ} {c c' : Call} {id : ℕ} (hk : s.calls[k]? = some c)
    (ht : c.timedOut = some c') (h : s.clientLeft id) : (s.setCall k c').clientLeft id := by
  simp only [State.clientLeft, State.setCall] at h ⊢
  have hcount : .cancelCount id ≠ c := by
    rintro rfl
    simp [Call.timedOut] at ht
  have hsend : .cancelSend id ≠ c := by
    rintro rfl
    simp [Call.timedOut] at ht
  rcases h with h | h | h | h
  · exact Or.inl h
  · exact Or.inr (Or.inl h)
  · exact Or.inr (Or.inr (Or.inl (mem_set_of_ne hk h hcount)))
  · exact Or.inr (Or.inr (Or.inr (mem_set_of_ne hk h hsend)))

/-- **What the others can do to an id.**  Nothing, or its client leaves. -/
theorem leaves_env {id : ℕ} {s s' : State} {a : Action} (ho : Owned id s)
    (h : foreignStep id s a = some s') : Owned id s' ∧ Leaves id s s' := by
  unfold foreignStep at h
  split_ifs at h with ha
  rcases step_cases h with ⟨m, rfl, rfl⟩ | ⟨k, c, e, c', rfl, hk, hn, rfl⟩
    | ⟨k, c, c', rfl, hk, ht, rfl⟩ | ⟨b, d, rfl, hb, hd, rfl⟩ | ⟨i, rfl, rfl⟩ | ⟨rfl, rfl⟩
  · refine ⟨⟨ho.issued, fun c hc => ?_⟩, ⟨Or.inl rfl, fun hl => ?_, rfl⟩⟩
    · rcases List.mem_append.mp hc with hc | hc
      · exact ho.calls c hc
      · rw [List.mem_singleton.mp hc]
        exact ha
    · simp only [State.clientLeft, List.mem_append] at hl ⊢
      tauto
  · have hfor := next_foreign ho.issued (ho.calls c (List.mem_of_getElem? hk)) hn
    have hissued : id < ((e.apply s).setCall k c').disp.nextId :=
      ho.issued.trans_le (nextId_le_apply s e)
    have hcalls : c'.foreign id = true →
        ∀ d ∈ ((e.apply s).setCall k c').calls, d.foreign id = true := by
      intro hc' d hd
      rcases List.mem_or_eq_of_mem_set hd with hd | rfl
      · exact ho.calls d (by simpa using hd)
      · exact hc'
    rcases hfor with ⟨hspares, hc'⟩ | ⟨rfl, rfl, rfl⟩
    · exact ⟨⟨hissued, hcalls hc'⟩, ⟨Or.inl (Access.lookup_of_spares hspares),
        clientLeft_advance hk hn, Access.wireOf_of_spares hspares⟩⟩
    · have hleft : ((Access.apply s (.remove id)).setCall k (.cancelCount id)).clientLeft id :=
        Or.inr (Or.inr (Or.inl (Places.mem_set_self hk _)))
      exact ⟨⟨hissued, hcalls rfl⟩,
        ⟨Or.inr ⟨Finmap.lookup_erase id s.answers, hleft⟩, fun _ => hleft, rfl⟩⟩
  · have hc' : c'.foreign id = true := by
      cases c <;> simp only [Call.timedOut, reduceCtorEq] at ht
      case pollSpin => cases ht; rfl
      case pollRecv t => cases t <;> cases ht; rfl
    refine ⟨⟨ho.issued, fun d hd => ?_⟩, ⟨Or.inl rfl, clientLeft_timeout hk ht, rfl⟩⟩
    rcases List.mem_or_eq_of_mem_set hd with hd | rfl
    · exact ho.calls d hd
    · exact hc'
  · refine ⟨⟨(Dispatcher.tokio_frame hb hd).1 ▸ ho.issued, ho.calls⟩,
      ⟨Or.inl rfl, fun hl => ?_, rfl⟩⟩
    simp only [State.clientLeft, List.mem_append] at hl ⊢
    tauto
  · refine ⟨⟨ho.issued, ho.calls⟩, ⟨Or.inl rfl, fun hl => ?_, rfl⟩⟩
    rcases hl with hl | hl
    · refine Or.inl ?_
      by_cases hi : id = i
      · simp [hi]
      · simpa [hi] using hl
    · exact Or.inr hl
  · exact ⟨⟨ho.issued, ho.calls⟩, ⟨Or.inl rfl, fun hl => hl, rfl⟩⟩

namespace Leaves

variable {id : ℕ} {s t u : State}

lemma refl (id : ℕ) (s : State) : Leaves id s s := ⟨Or.inl rfl, fun h => h, rfl⟩

lemma trans (h : Leaves id s t) (h' : Leaves id t u) : Leaves id s u := by
  refine ⟨?_, fun hl => h'.left (h.left hl), h'.wire.trans h.wire⟩
  rcases h'.answer with hu | hu
  · rcases h.answer with ht | ht
    · exact Or.inl (hu.trans ht)
    · exact Or.inr ⟨hu.trans ht.1, h'.left ht.2⟩
  · exact Or.inr hu

/-- An id that is gone stays gone. -/
lemma gone (h : Leaves id s t) (hs : s.answers.lookup id = none) : t.answers.lookup id = none := by
  rcases h.answer with ht | ht
  · exact ht.trans hs
  · exact ht.1

/-- What is still there is what was there. -/
lemma kept (h : Leaves id s t) {a : Answer} (ht : t.answers.lookup id = some a) :
    s.answers.lookup id = some a := by
  rcases h.answer with hs | hs
  · exact hs ▸ ht
  · rw [hs.1] at ht
    cases ht

end Leaves

/-! ## The owner's calls -/

section Calls

variable {id : ℕ} {R : State → Question → Reply → Bool} {s : State} {α : Type}
  {k : Ret → Prog Method Ret Question Reply α} {Q : α → State → Prop}

/-- The rule for a call of the owner: the invariant of the call has to allow for a client that
leaves, and to be kept by every access the call makes. -/
lemma wp_owned {m : Method} (ho : Owned id s) (J : State → Call → Prop) (hs : J s m.start)
    (henv : ∀ t c t', J t c → Leaves id t t' → J t' c)
    (hown : ∀ t c e c', Owned id t → J t c → c.next t = some (e, c') → J (e.apply t) c')
    (hret : ∀ t ret, Owned id t → J t (.done ret) → (system id R).wp (k ret) Q t) :
    (system id R).wp (.call m k) Q s := by
  refine System.wp_call (fun t c => Owned id t ∧ J t c) ⟨ho, hs⟩ ?_ ?_ ?_
  · rintro t c a t' ⟨hot, hJ⟩ ht'
    obtain ⟨hot', hleaves⟩ := leaves_env hot ht'
    exact ⟨hot', henv t c t' hJ hleaves⟩
  · rintro t c t' c' ⟨hot, hJ⟩ ht'
    obtain ⟨⟨e, d⟩, hn, heq⟩ := Option.map_eq_some_iff.mp ht'
    obtain ⟨rfl, rfl⟩ := Prod.mk.inj heq
    exact ⟨⟨hot.issued.trans_le (nextId_le_apply t e), by simpa using hot.calls⟩,
      hown t c e d hot hJ hn⟩
  · rintro t c r ⟨hot, hJ⟩ hr
    cases c <;> simp only [system, object, Option.some.injEq, reduceCtorEq] at hr
    subst hr
    exact hret t _ hot hJ

/-- The rule for a question of the owner. -/
lemma wp_askOwned {q : Question} {k : Reply → Prog Method Ret Question Reply α} (ho : Owned id s)
    (h : ∀ t e, Owned id t → Leaves id s t → R t q e = true →
      (system id R).wp (k e) Q t) : (system id R).wp (.ask q k) Q s := by
  refine System.wp_ask (fun t => Owned id t ∧ Leaves id s t) ⟨ho, .refl id s⟩ ?_ ?_
  · rintro t i t' ⟨hot, hl⟩ ht'
    obtain ⟨hot', hl'⟩ := leaves_env hot ht'
    exact ⟨hot', hl.trans hl'⟩
  · rintro t e ⟨hot, hl⟩ he
    exact h t e hot hl he

/-- The rule for a program that is over. -/
lemma wp_doneOwned {a : α} (ho : Owned id s)
    (h : ∀ t, Owned id t → Leaves id s t → Q a t) :
    (system id R).wp (.done a : Prog Method Ret Question Reply α) Q s := by
  have hwp : (system id R).wp (.done a : Prog Method Ret Question Reply α)
      (fun _ t => Owned id t ∧ Leaves id s t) s := by
    refine System.wp_done ?_ ⟨ho, .refl id s⟩
    rintro t i t' ⟨hot, hl⟩ ht'
    obtain ⟨hot', hl'⟩ := leaves_env hot ht'
    exact ⟨hot', hl.trans hl'⟩
  exact fun t ht => h t (hwp t ht).1 (hwp t ht).2

/-- The call settled the request with `w`. -/
structure Settles (id : ℕ) (s t : State) (w : Wire) : Prop where
  gone : t.answers.lookup id = none
  left : s.clientLeft id → t.clientLeft id
  wire : t.wireOf id = s.wireOf id ++ [w]

lemma Settles.leaves {t u : State} {w : Wire} (h : Settles id s t w) (hu : Leaves id t u) :
    Settles id s u w :=
  ⟨hu.gone h.gone, fun hl => hu.left (h.left hl), hu.wire.trans h.wire⟩

/-- What a settling call returns: it says `w`, if there is something to be said in the state the
request is in, and returns true; or it is refused, and then a request it could have settled is gone
because its client left. -/
def Answered (id : ℕ) (s t : State) (w : Option Wire) (b : Bool) : Prop :=
  (b = true ∧ ∃ x, w = some x ∧ Settles id s t x)
    ∨ (b = false ∧ Leaves id s t ∧ (w.isSome → t.answers.lookup id = none))

/-- A call that has taken the entry and not yet sent what it has to say. -/
structure Taken (id : ℕ) (s t : State) : Prop where
  gone : t.answers.lookup id = none
  left : s.clientLeft id → t.clientLeft id
  wire : t.wireOf id = s.wireOf id

lemma Taken.leaves {t u : State} (h : Taken id s t) (hu : Leaves id t u) : Taken id s u :=
  ⟨hu.gone h.gone, fun hl => hu.left (h.left hl), hu.wire.trans h.wire⟩

lemma clientLeft_apply {t : State} (e : Access) (h : t.clientLeft id) :
    (e.apply t).clientLeft id := by
  simp only [State.clientLeft, calls_apply, hungUp_apply] at h ⊢
  rcases h with h | h | h
  · exact Or.inl h
  · exact Or.inr (Or.inl (mem_announced_apply e h))
  · exact Or.inr (Or.inr h)

lemma Leaves.take {t : State} (h : Leaves id s t) : Taken id s (Access.apply t (.remove id)) :=
  ⟨Finmap.lookup_erase id t.answers, fun hl => clientLeft_apply _ (h.left hl), h.wire⟩

lemma Taken.put {t : State} (h : Taken id s t) (w : Wire) :
    Settles id s (Access.apply t (.put id w)) w := by
  refine ⟨h.gone, fun hl => clientLeft_apply _ (h.left hl), ?_⟩
  rw [← h.wire]
  simp [State.wireOf, Access.apply]

/-- Nothing to be taken: the call is refused. -/
lemma Leaves.refused {t : State} {w : Option Wire} {a : Answer} (h : Leaves id s t)
    (hw : w.isSome → s.answers.lookup id = some a) (ht : t.answers.lookup id ≠ some a) :
    Answered id s t w false := by
  refine Or.inr ⟨rfl, h, fun hsome => ?_⟩
  rcases h.answer with heq | hnone
  · exact absurd (heq.trans (hw hsome)) ht
  · exact hnone.1

lemma Answered.leaves {t u : State} {w : Option Wire} {b : Bool} (h : Answered id s t w b)
    (hu : Leaves id t u) : Answered id s u w b := by
  rcases h with ⟨rfl, x, rfl, hx⟩ | ⟨rfl, hl, hw⟩
  · exact Or.inl ⟨rfl, x, rfl, hx.leaves hu⟩
  · exact Or.inr ⟨rfl, hl.trans hu, fun h => hu.gone (hw h)⟩

/-! ### `submit` -/

lemma Leaves.spared {t : State} {e : Access} (h : Leaves id s t) (he : e.spares id = true) :
    Leaves id s (e.apply t) :=
  h.trans ⟨Or.inl (Access.lookup_of_spares he), clientLeft_apply e, Access.wireOf_of_spares he⟩

/-- Where a `submit` stands. -/
def submitInv (id : ℕ) (s t : State) : Call → Prop
  | .submit _ => Leaves id s t
  | .submitCount n _ | .submitSend n _ | .submitDrop n => 0 < n ∧ Leaves id s t
  | .done (.id n) => 0 < n ∧ Leaves id s t
  | _ => False

/-- **`submit`** has nothing to do with the request; ids start at one. -/
lemma wp_submit {op : Op} (ho : Owned id s)
    (h : ∀ t n, Owned id t → Leaves id s t → 0 < n → (system id R).wp (k (.id n)) Q t) :
    (system id R).wp (.call (.submit op) k) Q s := by
  refine wp_owned ho (submitInv id s) (.refl id s) ?_ ?_ ?_
  · intro t c t' hJ ht'
    cases c <;> simp only [submitInv] at hJ
    case submit => exact hJ.trans ht'
    case done ret =>
      cases ret <;> simp only at hJ
      exact ⟨hJ.1, hJ.2.trans ht'⟩
    all_goals exact ⟨hJ.1, hJ.2.trans ht'⟩
  · intro t c e c' hot hJ hn
    cases c <;> simp only [submitInv] at hJ
    case submit op =>
      obtain ⟨rfl, rfl⟩ := Prod.mk.inj (Option.some.inj hn)
      exact ⟨Nat.zero_lt_of_lt hot.issued, hJ.spared rfl⟩
    case submitSend n op =>
      simp only [Call.next] at hn
      split at hn <;>
        · obtain ⟨rfl, rfl⟩ := Prod.mk.inj (Option.some.inj hn)
          exact ⟨hJ.1, hJ.2.spared rfl⟩
    case done => cases hn
    all_goals
      obtain ⟨rfl, rfl⟩ := Prod.mk.inj (Option.some.inj hn)
      exact ⟨hJ.1, hJ.2.spared rfl⟩
  · intro t ret hot hJ
    cases ret <;> simp only [submitInv] at hJ
    exact h t _ hot hJ.2 hJ.1

/-! ### `stream_end` and `respond_end` -/

/-- What `stream_end` has to say to a request in a given state. -/
def saysEnd (code : ℤ) (message : PhpString) : Option Answer → Option Wire
  | some .grpc => some (.status code message)
  | _ => none

/-- What `respond_end` has to say. -/
def saysBodyEnd : Option Answer → Option Wire
  | some .streaming => some .bodyEnd
  | _ => none

lemma saysEnd_isSome {code : ℤ} {message : PhpString} {a : Option Answer}
    (h : (saysEnd code message a).isSome) : a = some .grpc := by
  rcases a with _ | _ | _ | _ <;> simp [saysEnd] at h ⊢

lemma saysBodyEnd_isSome {a : Option Answer} (h : (saysBodyEnd a).isSome) :
    a = some .streaming := by
  rcases a with _ | _ | _ | _ <;> simp [saysBodyEnd] at h ⊢

/-- Where a `stream_end` stands. -/
def endInv (id : ℕ) (s : State) (code : ℤ) (message : PhpString) (t : State) : Call → Prop
  | .streamEnd i co me => (i = id ∧ co = code ∧ me = message) ∧ Leaves id s t
  | .streamEnded i co me => (i = id ∧ co = code ∧ me = message) ∧ Taken id s t
      ∧ s.answers.lookup id = some .grpc
  | .done (.bool b) => Answered id s t (saysEnd code message (s.answers.lookup id)) b
  | _ => False

lemma endInv_leaves {code : ℤ} {message : PhpString} {t t' : State} {c : Call}
    (h : endInv id s code message t c) (ht' : Leaves id t t') : endInv id s code message t' c := by
  cases c <;> simp only [endInv] at h
  case streamEnd => exact ⟨h.1, h.2.trans ht'⟩
  case streamEnded => exact ⟨h.1, h.2.1.leaves ht', h.2.2⟩
  case done ret =>
    cases ret <;> simp only at h
    exact Answered.leaves h ht'

lemma endInv_next {code : ℤ} {message : PhpString} {t : State} {c c' : Call} {e : Access}
    (h : endInv id s code message t c) (hn : c.next t = some (e, c')) :
    endInv id s code message (e.apply t) c' := by
  cases c <;> simp only [endInv] at h
  case streamEnd i co me =>
    obtain ⟨⟨rfl, rfl, rfl⟩, hl⟩ := h
    simp only [Call.next, takeAnswer, Option.some.injEq] at hn
    split at hn
    · rename_i hgrpc
      obtain ⟨rfl, rfl⟩ := Prod.mk.inj hn
      exact ⟨⟨rfl, rfl, rfl⟩, hl.take, hl.kept hgrpc⟩
    · rename_i hgrpc
      obtain ⟨rfl, rfl⟩ := Prod.mk.inj hn
      exact hl.refused saysEnd_isSome hgrpc
  case streamEnded i co me =>
    obtain ⟨⟨rfl, rfl, rfl⟩, ht, hgrpc⟩ := h
    obtain ⟨rfl, rfl⟩ := Prod.mk.inj (Option.some.inj hn)
    exact Or.inl ⟨rfl, _, by rw [hgrpc, saysEnd], ht.put _⟩
  case done => cases hn

lemma wp_streamEnd {code : ℤ} {message : PhpString} (ho : Owned id s)
    (h : ∀ t b, Owned id t → Answered id s t (saysEnd code message (s.answers.lookup id)) b →
      (system id R).wp (k (.bool b)) Q t) :
    (system id R).wp (.call (.streamEnd id code message) k) Q s := by
  refine wp_owned ho (endInv id s code message) ⟨⟨rfl, rfl, rfl⟩, .refl id s⟩
    (fun _ _ _ => endInv_leaves) (fun _ _ _ _ _ => endInv_next) fun t ret hot hJ => ?_
  cases ret <;> simp only [endInv] at hJ
  exact h t _ hot hJ

/-- Where a `respond_end` stands. -/
def bodyEndInv (id : ℕ) (s t : State) : Call → Prop
  | .respondEnd i => i = id ∧ Leaves id s t
  | .respondEnded i => i = id ∧ Taken id s t ∧ s.answers.lookup id = some .streaming
  | .done (.bool b) => Answered id s t (saysBodyEnd (s.answers.lookup id)) b
  | _ => False

lemma bodyEndInv_leaves {t t' : State} {c : Call} (h : bodyEndInv id s t c)
    (ht' : Leaves id t t') : bodyEndInv id s t' c := by
  cases c <;> simp only [bodyEndInv] at h
  case respondEnd => exact ⟨h.1, h.2.trans ht'⟩
  case respondEnded => exact ⟨h.1, h.2.1.leaves ht', h.2.2⟩
  case done ret =>
    cases ret <;> simp only at h
    exact Answered.leaves h ht'

lemma bodyEndInv_next {t : State} {c c' : Call} {e : Access} (h : bodyEndInv id s t c)
    (hn : c.next t = some (e, c')) : bodyEndInv id s (e.apply t) c' := by
  cases c <;> simp only [bodyEndInv] at h
  case respondEnd i =>
    obtain ⟨rfl, hl⟩ := h
    simp only [Call.next, takeAnswer, Option.some.injEq] at hn
    split at hn
    · rename_i hstreaming
      obtain ⟨rfl, rfl⟩ := Prod.mk.inj hn
      exact ⟨rfl, hl.take, hl.kept hstreaming⟩
    · rename_i hstreaming
      obtain ⟨rfl, rfl⟩ := Prod.mk.inj hn
      exact hl.refused saysBodyEnd_isSome hstreaming
  case respondEnded i =>
    obtain ⟨rfl, ht, hstreaming⟩ := h
    obtain ⟨rfl, rfl⟩ := Prod.mk.inj (Option.some.inj hn)
    exact Or.inl ⟨rfl, _, by rw [hstreaming, saysBodyEnd], ht.put _⟩
  case done => cases hn

lemma wp_respondEnd (ho : Owned id s)
    (h : ∀ t b, Owned id t → Answered id s t (saysBodyEnd (s.answers.lookup id)) b →
      (system id R).wp (k (.bool b)) Q t) :
    (system id R).wp (.call (.respondEnd id) k) Q s := by
  refine wp_owned ho (bodyEndInv id s) ⟨rfl, .refl id s⟩ (fun _ _ _ => bodyEndInv_leaves)
    (fun _ _ _ _ _ => bodyEndInv_next) fun t ret hot hJ => ?_
  cases ret <;> simp only [bodyEndInv] at hJ
  exact h t _ hot hJ

/-! ### `respond` -/

/-- What `respond` has to say to a request in a given state: a failure status ends a gRPC call. -/
def saysResponse (resp : HttpResponse) : Option Answer → Option Wire
  | some .whole => some (.response resp)
  | some .grpc =>
      if 400 ≤ resp.status then
        some (.status (grpcRefusal resp.status).1 (grpcRefusal resp.status).2)
      else none
  | _ => none

/-- Where a `respond` stands. -/
def respondInv (id : ℕ) (s : State) (resp : HttpResponse) (t : State) : Call → Prop
  | .respond i r => (i = id ∧ r = resp) ∧ Leaves id s t
  | .streamEnd i co me => i = id ∧ (co, me) = grpcRefusal resp.status ∧ 400 ≤ resp.status
      ∧ s.answers.lookup id = some .grpc ∧ Leaves id s t
  | .streamEnded i co me => i = id ∧ (co, me) = grpcRefusal resp.status ∧ 400 ≤ resp.status
      ∧ s.answers.lookup id = some .grpc ∧ Taken id s t
  | .respondTake i r => (i = id ∧ r = resp) ∧ Leaves id s t
      ∧ (400 ≤ resp.status → s.answers.lookup id = some .grpc → t.answers.lookup id = none)
  | .respondSend i r => (i = id ∧ r = resp) ∧ Taken id s t ∧ s.answers.lookup id = some .whole
  | .done (.bool b) => Answered id s t (saysResponse resp (s.answers.lookup id)) b
  | _ => False

lemma respondInv_leaves {resp : HttpResponse} {t t' : State} {c : Call}
    (h : respondInv id s resp t c) (ht' : Leaves id t t') : respondInv id s resp t' c := by
  cases c <;> simp only [respondInv] at h
  case respond => exact ⟨h.1, h.2.trans ht'⟩
  case streamEnd => exact ⟨h.1, h.2.1, h.2.2.1, h.2.2.2.1, h.2.2.2.2.trans ht'⟩
  case streamEnded => exact ⟨h.1, h.2.1, h.2.2.1, h.2.2.2.1, h.2.2.2.2.leaves ht'⟩
  case respondTake => exact ⟨h.1, h.2.1.trans ht', fun h4 hg => ht'.gone (h.2.2 h4 hg)⟩
  case respondSend => exact ⟨h.1, h.2.1.leaves ht', h.2.2⟩
  case done ret =>
    cases ret <;> simp only at h
    exact Answered.leaves h ht'

lemma saysResponse_isSome {resp : HttpResponse} {a : Option Answer}
    (h : (saysResponse resp a).isSome) :
    a = some .whole ∨ (a = some .grpc ∧ 400 ≤ resp.status) := by
  rcases a with _ | _ | _ | _ <;> simp [saysResponse] at h ⊢
  exact h

lemma respondInv_next {resp : HttpResponse} {t : State} {c c' : Call} {e : Access}
    (h : respondInv id s resp t c) (hn : c.next t = some (e, c')) :
    respondInv id s resp (e.apply t) c' := by
  cases c <;> simp only [respondInv] at h
  case respond i r =>
    obtain ⟨⟨rfl, rfl⟩, hl⟩ := h
    simp only [Call.next] at hn
    split_ifs at hn with hgrpc
    · obtain ⟨rfl, rfl⟩ := Prod.mk.inj (Option.some.inj hn)
      exact ⟨rfl, rfl, hgrpc.1, hl.kept hgrpc.2, hl⟩
    · obtain ⟨rfl, rfl⟩ := Prod.mk.inj (Option.some.inj hn)
      refine ⟨⟨rfl, rfl⟩, hl, fun h4 hs => ?_⟩
      rcases hl.answer with heq | hnone
      · exact absurd ⟨h4, heq.trans hs⟩ hgrpc
      · exact hnone.1
  case streamEnd i co me =>
    obtain ⟨rfl, hcode, h4, hs, hl⟩ := h
    simp only [Call.next, takeAnswer, Option.some.injEq] at hn
    split at hn
    · obtain ⟨rfl, rfl⟩ := Prod.mk.inj hn
      exact ⟨rfl, hcode, h4, hs, hl.take⟩
    · rename_i hgrpc
      obtain ⟨rfl, rfl⟩ := Prod.mk.inj hn
      exact hl.refused (fun _ => hs) hgrpc
  case streamEnded i co me =>
    obtain ⟨rfl, hcode, h4, hs, ht⟩ := h
    obtain ⟨rfl, rfl⟩ := Prod.mk.inj (Option.some.inj hn)
    refine Or.inl ⟨rfl, _, ?_, ht.put _⟩
    rw [hs, saysResponse, if_pos h4, ← hcode]
  case respondTake i r =>
    obtain ⟨⟨rfl, rfl⟩, hl, hnone⟩ := h
    simp only [Call.next, takeAnswer, Option.some.injEq] at hn
    split at hn
    · rename_i hwhole
      obtain ⟨rfl, rfl⟩ := Prod.mk.inj hn
      exact ⟨⟨rfl, rfl⟩, hl.take, hl.kept hwhole⟩
    · rename_i hwhole
      obtain ⟨rfl, rfl⟩ := Prod.mk.inj hn
      refine Or.inr ⟨rfl, hl, fun hsome => ?_⟩
      rcases saysResponse_isSome hsome with hs | ⟨hs, h4⟩
      · rcases hl.answer with heq | hgone
        · exact absurd (heq.trans hs) hwhole
        · exact hgone.1
      · exact hnone h4 hs
  case respondSend i r =>
    obtain ⟨⟨rfl, rfl⟩, ht, hs⟩ := h
    simp only [Call.next] at hn
    split_ifs at hn with hhung
    · -- the entry is taken and there is nobody to send to
      obtain ⟨rfl, rfl⟩ := Prod.mk.inj (Option.some.inj hn)
      exact Or.inr ⟨rfl, ⟨Or.inr ⟨ht.gone, Or.inl hhung⟩, ht.left, ht.wire⟩, fun _ => ht.gone⟩
    · obtain ⟨rfl, rfl⟩ := Prod.mk.inj (Option.some.inj hn)
      exact Or.inl ⟨rfl, _, by rw [hs, saysResponse], ht.put _⟩
  case done => cases hn

/-- **`respond`**, whatever the others do meanwhile. -/
lemma wp_respond {resp : HttpResponse} (ho : Owned id s)
    (h : ∀ t b, Owned id t → Answered id s t (saysResponse resp (s.answers.lookup id)) b →
      (system id R).wp (k (.bool b)) Q t) :
    (system id R).wp (.call (.respond id resp) k) Q s := by
  refine wp_owned ho (respondInv id s resp) ⟨⟨rfl, rfl⟩, .refl id s⟩
    (fun _ _ _ => respondInv_leaves) (fun _ _ _ _ _ => respondInv_next) fun t ret hot hJ => ?_
  cases ret <;> simp only [respondInv] at hJ
  exact h t _ hot hJ

/-! ### `respond_start`, `stream_sender` and `stream_send` -/

/-- What `respond_start` leaves behind when it returned true: the headers are out, and the stream is
open unless the client has left since. -/
structure Started (id : ℕ) (s t : State) (w : Wire) : Prop where
  was : s.answers.lookup id = some .whole
  answer : t.answers.lookup id = some .streaming ∨ (t.answers.lookup id = none ∧ t.clientLeft id)
  left : s.clientLeft id → t.clientLeft id
  wire : t.wireOf id = s.wireOf id ++ [w]

lemma Started.leaves {t u : State} {w : Wire} (h : Started id s t w) (hu : Leaves id t u) :
    Started id s u w := by
  refine ⟨h.was, ?_, fun hl => hu.left (h.left hl), hu.wire.trans h.wire⟩
  rcases h.answer with ht | ht
  · rcases hu.answer with heq | hgone
    · exact Or.inl (heq.trans ht)
    · exact Or.inr hgone
  · exact Or.inr ⟨hu.gone ht.1, hu.left ht.2⟩

/-- Where a `respond_start` stands. -/
def startInv (id : ℕ) (s : State) (status : ℕ) (headers : List (PhpString × PhpString))
    (t : State) : Call → Prop
  | .respondStart i st hd => (i = id ∧ st = status ∧ hd = headers) ∧ Leaves id s t
  | .done (.bool true) => Started id s t (.head status headers)
  | .done (.bool false) => Leaves id s t
      ∧ (s.answers.lookup id = some .whole → t.answers.lookup id = none)
  | _ => False

lemma startInv_leaves {status : ℕ} {headers : List (PhpString × PhpString)} {t t' : State}
    {c : Call} (h : startInv id s status headers t c) (ht' : Leaves id t t') :
    startInv id s status headers t' c := by
  cases c <;> simp only [startInv] at h
  case respondStart => exact ⟨h.1, h.2.trans ht'⟩
  case done ret =>
    cases ret with
    | bool b =>
        cases b with
        | true => exact Started.leaves h ht'
        | false => exact ⟨h.1.trans ht', fun hs => ht'.gone (h.2 hs)⟩
    | _ => exact h.elim

lemma startInv_next {status : ℕ} {headers : List (PhpString × PhpString)} {t : State}
    {c c' : Call} {e : Access} (h : startInv id s status headers t c)
    (hn : c.next t = some (e, c')) : startInv id s status headers (e.apply t) c' := by
  cases c <;> simp only [startInv] at h
  case respondStart i st hd =>
    obtain ⟨⟨rfl, rfl, rfl⟩, hl⟩ := h
    simp only [Call.next, startOrRefuse, Option.some.injEq] at hn
    split at hn
    · rename_i hwhole
      split_ifs at hn with hhung
      · obtain ⟨rfl, rfl⟩ := Prod.mk.inj hn
        have htaken := hl.take
        exact ⟨⟨Or.inr ⟨htaken.gone, Or.inl (by simpa using hhung)⟩, htaken.left, htaken.wire⟩,
          fun _ => htaken.gone⟩
      · obtain ⟨rfl, rfl⟩ := Prod.mk.inj hn
        refine ⟨hl.kept hwhole, Or.inl (by simp [Access.apply]),
          fun hs => clientLeft_apply _ (hl.left hs), ?_⟩
        rw [← hl.wire]
        simp [State.wireOf, Access.apply]
    · rename_i other hne hother
      obtain ⟨rfl, rfl⟩ := Prod.mk.inj hn
      have hsame : (Access.apply t (.reinsert i other)).answers.lookup i = t.answers.lookup i := by
        simp [Access.apply, hother]
      have hleaves : Leaves i t (Access.apply t (.reinsert i other)) :=
        ⟨Or.inl hsame, clientLeft_apply _, rfl⟩
      refine ⟨hl.trans hleaves, fun hs => ?_⟩
      rcases hl.answer with heq | hgone
      · exact absurd (hother.symm.trans (heq.trans hs)) (by simpa using hne)
      · exact hsame.trans hgone.1
    · rename_i hnone
      obtain ⟨rfl, rfl⟩ := Prod.mk.inj hn
      exact ⟨hl, fun _ => hnone⟩
  case done => cases hn

/-- **`respond_start`**, whatever the others do meanwhile. -/
lemma wp_respondStart {status : ℕ} {headers : List (PhpString × PhpString)} (ho : Owned id s)
    (htrue : ∀ t, Owned id t → Started id s t (.head status headers) →
      (system id R).wp (k (.bool true)) Q t)
    (hfalse : ∀ t, Owned id t → Leaves id s t →
      (s.answers.lookup id = some .whole → t.answers.lookup id = none) →
      (system id R).wp (k (.bool false)) Q t) :
    (system id R).wp (.call (.respondStart id status headers) k) Q s := by
  refine wp_owned ho (startInv id s status headers) ⟨⟨rfl, rfl, rfl⟩, .refl id s⟩
    (fun _ _ _ => startInv_leaves) (fun _ _ _ _ _ => startInv_next) fun t ret hot hJ => ?_
  cases ret with
  | bool b =>
      cases b with
      | true => exact htrue t hot hJ
      | false => exact hfalse t hot hJ.1 hJ.2
  | _ => exact hJ.elim

/-- Where a `stream_sender` stands. -/
def senderInv (id : ℕ) (s t : State) : Call → Prop
  | .streamSender i => i = id ∧ Leaves id s t
  | .done (.sender isOpen) => Leaves id s t
      ∧ (isOpen = true → s.answers.lookup id = some .streaming)
      ∧ (isOpen = false → t.answers.lookup id ≠ some .streaming)
  | _ => False

lemma wp_streamSender (ho : Owned id s)
    (h : ∀ t isOpen, Owned id t → Leaves id s t →
      (isOpen = true → s.answers.lookup id = some .streaming) →
      (isOpen = false → t.answers.lookup id ≠ some .streaming) →
      (system id R).wp (k (.sender isOpen)) Q t) :
    (system id R).wp (.call (.streamSender id) k) Q s := by
  refine wp_owned ho (senderInv id s) ⟨rfl, .refl id s⟩ ?_ ?_ ?_
  · intro t c t' hJ ht'
    cases c <;> simp only [senderInv] at hJ
    case streamSender => exact ⟨hJ.1, hJ.2.trans ht'⟩
    case done ret =>
      cases ret <;> simp only at hJ
      refine ⟨hJ.1.trans ht', hJ.2.1, fun hopen hstreaming => ?_⟩
      exact hJ.2.2 hopen (ht'.kept hstreaming)
  · intro t c e c' _ hJ hn
    cases c <;> simp only [senderInv] at hJ
    case streamSender i =>
      obtain ⟨rfl, hl⟩ := hJ
      obtain ⟨rfl, rfl⟩ := Prod.mk.inj (Option.some.inj hn)
      exact ⟨hl, fun hopen => hl.kept (of_decide_eq_true hopen),
        fun hopen => of_decide_eq_false hopen⟩
    case done => cases hn
  · intro t ret hot hJ
    cases ret <;> simp only [senderInv] at hJ
    exact h t _ hot hJ.1 hJ.2.1 hJ.2.2

/-- What `stream_send` leaves behind: the request stays as it is, and one that cannot be sent to has
lost its client. -/
structure Sent (id : ℕ) (s t : State) (msg : PhpString) (b : Bool) : Prop where
  answer : t.answers.lookup id = s.answers.lookup id
    ∨ (t.answers.lookup id = none ∧ t.clientLeft id)
  left : s.clientLeft id → t.clientLeft id
  wire : t.wireOf id = s.wireOf id ++ if b then [.message msg] else []
  lost : b = false → s.answers.lookup id = some .grpc → t.clientLeft id

lemma Sent.leaves {t u : State} {msg : PhpString} {b : Bool} (h : Sent id s t msg b)
    (hu : Leaves id t u) : Sent id s u msg b := by
  refine ⟨?_, fun hl => hu.left (h.left hl), hu.wire.trans h.wire,
    fun hb hg => hu.left (h.lost hb hg)⟩
  rcases hu.answer with heq | hgone
  · rcases h.answer with ht | ht
    · exact Or.inl (heq.trans ht)
    · exact Or.inr ⟨heq.trans ht.1, hu.left ht.2⟩
  · exact Or.inr hgone

/-- Where a `stream_send` stands. -/
def sendInv (id : ℕ) (s : State) (msg : PhpString) (t : State) : Call → Prop
  | .streamSend i m => (i = id ∧ m = msg) ∧ Leaves id s t
  | .done (.bool b) => Sent id s t msg b
  | _ => False

lemma wp_streamSend {msg : PhpString} (ho : Owned id s)
    (h : ∀ t b, Owned id t → Sent id s t msg b → (system id R).wp (k (.bool b)) Q t) :
    (system id R).wp (.call (.streamSend id msg) k) Q s := by
  refine wp_owned ho (sendInv id s msg) ⟨⟨rfl, rfl⟩, .refl id s⟩ ?_ ?_ ?_
  · intro t c t' hJ ht'
    cases c <;> simp only [sendInv] at hJ
    case streamSend => exact ⟨hJ.1, hJ.2.trans ht'⟩
    case done ret =>
      cases ret <;> simp only at hJ
      exact Sent.leaves hJ ht'
  · intro t c e c' _ hJ hn
    cases c <;> simp only [sendInv] at hJ
    case streamSend i m =>
      obtain ⟨⟨rfl, rfl⟩, hl⟩ := hJ
      simp only [Call.next] at hn
      split_ifs at hn with hsend
      · obtain ⟨rfl, rfl⟩ := Prod.mk.inj (Option.some.inj hn)
        refine ⟨hl.answer, hl.left, ?_, fun hb => by cases hb⟩
        rw [← hl.wire]
        simp [State.wireOf, Access.apply]
      · obtain ⟨rfl, rfl⟩ := Prod.mk.inj (Option.some.inj hn)
        refine ⟨hl.answer, hl.left, by simp [Access.apply, hl.wire], fun _ hs => ?_⟩
        rcases hl.answer with heq | hgone
        · have hhung : t.hungUp i = true := by
            simpa [heq.trans hs] using hsend
          exact Or.inl hhung
        · exact hgone.2
    case done => cases hn
  · intro t ret hot hJ
    cases ret <;> simp only [sendInv] at hJ
    exact h t _ hot hJ

end Calls

end Ignis.Reactor
