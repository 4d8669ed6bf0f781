import Mathlib.Data.Finset.Basic
import Mathlib.Data.List.Pairwise
import Ignis.Loop.State

/-!
# One batch of completions

`ignis_poll()` takes what the reactor has completed and tells whoever waits for it: a fiber parked
inside a C hook is resumed on the spot, and everything else goes into the array that PHP receives,
under the id of its op.  `dispatchEvents()` then resumes the fibers of `$waiting`.  Both run user
code in the middle, and user code may park, wait, cancel and throw; here it is an arbitrary function
on the tables it can change.

A completion can be lost on the way in four places.  An error for which no fiber is parked goes
nowhere, though a fiber of `$waiting` may wait for it; a second entry under the same id replaces the
first, as the cancellation of a request does; an exception that a resumed fiber leaves behind makes
`ignis_poll()` throw, and PHP never receives the array; and an exception out of `dispatchEvents()`
drops the rest of it.  `completions_reach_iff` says that there is no fifth.
-/

namespace Ignis

namespace Poll

open Loop.State (pollPayload resumesParked)

/-! ## Definitions -/

/-- What user code can change while it runs. -/
structure Tables where
  /-- The keys of `PARKED`. -/
  parked : Finset Id
  /-- The keys of `Loop::$waiting`. -/
  waiting : Finset Id
  /-- The keys of `Loop::$deadlines`. -/
  deadlines : Finset Id
  /-- `EG(exception)` is set. -/
  exception : Bool

/-- One completion of the batch, the age of a cancellation, and what the fiber that it resumes, if
it resumes one, does until it suspends or ends. -/
structure Turn where
  completion : Completion
  ageUs : ℤ
  code : Tables → Tables

structure State where
  tables : Tables
  /-- The array of `ignis_poll()`. -/
  events : OrdMap Id Payload
  /-- Ghost: the ids whose fiber `dispatchEvents()` has resumed. -/
  woken : List Id

/-- What is stored for a completion. -/
def Turn.payload (t : Turn) : Option Payload := pollPayload t.ageUs t.completion.outcome

/-- A fiber parked inside a C hook takes the completion. -/
def Turn.resumes (t : Turn) (s : State) : Bool :=
  resumesParked t.completion.outcome && decide (t.completion.id ∈ s.tables.parked)

/-- User code runs. -/
def State.run (s : State) (code : Tables → Tables) : State := { s with tables := code s.tables }

/-- One turn of the `for` of `zif_ignis_poll`.  A pending exception does not end the loop. -/
def turn (s : State) (t : Turn) : State :=
  if t.resumes s then
    { s with tables.parked := s.tables.parked.erase t.completion.id }.run t.code
  else
    match t.payload with
    | none => s
    | some payload => { s with events := s.events.set t.completion.id payload }

/-- `zif_ignis_poll` after the poll of the reactor. -/
def ignisPoll (tables : Tables) (turns : List Turn) : State :=
  turns.foldl turn ⟨{ tables with exception := false }, ∅, []⟩

/-- What PHP receives: nothing when the call throws. -/
def State.received (s : State) : Option (OrdMap Id Payload) :=
  if s.tables.exception then none else some s.events

/-- `dispatchEvents()` from the test of the deadlines on. -/
def State.dispatchAwaited (s : State) (id : Id) (code : Tables → Tables) : State :=
  if id ∈ s.tables.deadlines then
    -- `cancelRequest()` throws into fibers
    { s with tables.deadlines := s.tables.deadlines.erase id }.run code
  else if id ∈ s.tables.waiting then
    { s with tables.waiting := s.tables.waiting.erase id, woken := s.woken ++ [id] }.run code
  else s

/-- One turn of the `foreach` of `dispatchEvents()`. -/
def State.dispatchEvent (s : State) (id : Id) (payload : Payload) (code : Tables → Tables) :
    State :=
  match payload with
  | .scalar _ => s.dispatchAwaited id code
  | .array a =>
      if id ∈ s.tables.waiting then s.dispatchAwaited id code
      else
        match dispatchUnawaited a with
        | .error _ => { s with tables.exception := true }
        | .ok (.cancel _) => s.run code
        | .ok (.request _) | .ok .ignored => s

/-- An exception leaves the `foreach`. -/
def dispatchTurn (code : Id → Tables → Tables) (s : State) (e : Id × Payload) : State :=
  if s.tables.exception then s else s.dispatchEvent e.1 e.2 (code e.1)

/-- `dispatchEvents()`, with what the code run for each id does. -/
def dispatchEvents (code : Id → Tables → Tables) (s : State) (events : List (Id × Payload)) :
    State :=
  events.foldl (dispatchTurn code) s

/-- Every completion resumes the fiber parked on its id, or PHP receives its own payload under its
id; and then, when the event's turn comes, a fiber that waits for it is resumed. -/
def Reaches (tables : Tables) (turns : List Turn) (code : Id → Tables → Tables)
    (events : List (Id × Payload)) : Prop :=
  ∀ before t after, turns = before ++ t :: after →
    t.resumes (ignisPoll tables before) = true ∨
    (∃ array payload, (ignisPoll tables turns).received = some array ∧ t.payload = some payload ∧
      array.get? t.completion.id = some payload) ∧
    (t.completion.id ∈ (dispatchEvents code (ignisPoll tables turns) events).woken ∨
      ∃ earlier payload later, events = earlier ++ (t.completion.id, payload) :: later ∧
        t.completion.id ∉
          (dispatchEvents code (ignisPoll tables turns) earlier).tables.waiting)

/-! ## The loop's poll -/

/-- A poll in progress as the machine of the loop has it. -/
def ofLoop (s : Loop.State) (events : OrdMap Id Payload) : State where
  tables :=
    { parked := s.pool.parked.keys.toFinset
      waiting := s.pool.waiting.keys.toFinset
      deadlines := s.deadlines.keys.toFinset
      exception := false }
  events := events
  woken := []

/-- A turn here stores what a turn of the loop's machine stores, whatever the resumed fiber goes on
to do. -/
lemma collect_turn (s : Loop.State) (c : Completion) (ageUs : ℤ) (done : List (Completion × ℤ))
    (events : OrdMap Id Payload) (code : Tables → Tables)
    (hresume : s.pool.parked.has c.id = true → s.pool.resumeParked c.id ≠ none) :
    (s.collect c ageUs done events).pc =
      .collecting done (turn (ofLoop s events) ⟨c, ageUs, code⟩).events := by
  have hparked : c.id ∈ s.pool.parked.keys.toFinset ↔ s.pool.parked.has c.id = true := by
    rw [List.mem_toFinset, OrdMap.mem_keys_iff, OrdMap.has_iff]
  unfold Loop.State.collect turn Turn.resumes ofLoop
  by_cases hp : s.pool.parked.has c.id = true
  · cases ho : resumesParked c.outcome with
    | true =>
        obtain ⟨p, hpool⟩ := Option.ne_none_iff_exists'.mp (hresume hp)
        simp [hp, hparked, hpool, Loop.State.withPool, State.run]
    | false => cases hpay : pollPayload ageUs c.outcome <;> simp [Turn.payload, hpay]
  · cases hpay : pollPayload ageUs c.outcome <;> simp [hp, hparked, Turn.payload, hpay]

/-! ## The conditions -/

/-- The completions that no parked fiber takes, in order. -/
def unparked : State → List Turn → List Turn
  | _, [] => []
  | s, t :: ts => if t.resumes s then unparked (turn s t) ts else t :: unparked (turn s t) ts

/-- What the batch and the fibers it resumes must be like for the array to be complete. -/
structure Deliverable (tables : Tables) (turns : List Turn) : Prop where
  /-- Every error finds a fiber parked on it. -/
  noError : ∀ t ∈ unparked (ignisPoll tables []) turns, ∀ message,
    t.completion.outcome ≠ .error message
  /-- Of the completions that are stored, two with the same id have the same payload. -/
  noCollision : (unparked (ignisPoll tables []) turns).Pairwise fun t u =>
    t.completion.id = u.completion.id → t.payload = u.payload
  /-- If anything is stored, the fibers that were resumed leave no exception behind. -/
  noException : unparked (ignisPoll tables []) turns ≠ [] →
    (ignisPoll tables turns).tables.exception = false

/-- When the turn of an event comes that a fiber waits for, no earlier one has thrown, and the id is
not the timer of a deadline. -/
def Undisturbed (code : Id → Tables → Tables) : State → List (Id × Payload) → Prop
  | _, [] => True
  | s, e :: rest =>
      (e.1 ∈ s.tables.waiting → s.tables.exception = false ∧ e.1 ∉ s.tables.deadlines) ∧
        Undisturbed code (dispatchTurn code s e) rest

/-! ## The array -/

lemma payload_eq_none_iff {t : Turn} :
    t.payload = none ↔ ∃ message, t.completion.outcome = .error message := by
  unfold Turn.payload
  cases t.completion.outcome with
  | blob b => cases b <;> simp [pollPayload]
  | _ => simp [pollPayload]

/-- A completion is stored exactly when no parked fiber takes it in its turn. -/
lemma mem_unparked_iff {s : State} {ts : List Turn} {t : Turn} :
    t ∈ unparked s ts ↔
      ∃ before after, ts = before ++ t :: after ∧ t.resumes (before.foldl turn s) = false := by
  induction ts generalizing s with
  | nil => simp [unparked]
  | cons u ts ih =>
      have hcons : (∃ before after, u :: ts = before ++ t :: after ∧
            t.resumes (before.foldl turn s) = false) ↔
          (u = t ∧ t.resumes s = false) ∨ ∃ before after, ts = before ++ t :: after ∧
            t.resumes (before.foldl turn (turn s u)) = false := by
        constructor
        · rintro ⟨before, after, h, hr⟩
          cases before with
          | nil => exact Or.inl ⟨(List.cons.inj h).1, hr⟩
          | cons v before =>
              obtain ⟨rfl, hts⟩ := List.cons.inj h
              exact Or.inr ⟨before, after, hts, hr⟩
        · rintro (⟨rfl, hr⟩ | ⟨before, after, rfl, hr⟩)
          · exact ⟨[], ts, rfl, hr⟩
          · exact ⟨u :: before, after, rfl, hr⟩
      rw [hcons, ← ih, unparked]
      split
      · rename_i hu
        refine ⟨Or.inr, ?_⟩
        rintro (⟨rfl, hr⟩ | h)
        · rw [hu] at hr
          cases hr
        · exact h
      · rename_i hu
        rw [List.mem_cons]
        constructor
        · rintro (rfl | h)
          · exact Or.inl ⟨rfl, by simpa using hu⟩
          · exact Or.inr h
        · rintro (⟨rfl, -⟩ | h)
          · exact Or.inl rfl
          · exact Or.inr h

/-- What a completion that is not taken does to the array. -/
def store (events : OrdMap Id Payload) (t : Turn) : OrdMap Id Payload :=
  match t.payload with
  | none => events
  | some payload => events.set t.completion.id payload

lemma events_foldl_turn (s : State) (ts : List Turn) :
    (ts.foldl turn s).events = (unparked s ts).foldl store s.events := by
  induction ts generalizing s with
  | nil => rfl
  | cons t ts ih =>
      rw [List.foldl_cons, ih, unparked]
      split
      · rename_i ht
        rw [turn, if_pos ht]
        rfl
      · rename_i ht
        have hevents : (turn s t).events = store s.events t := by
          rw [turn, if_neg ht, store]
          cases t.payload <;> rfl
        rw [List.foldl_cons, hevents]

/-- What is under an id is the payload of the last completion stored there. -/
lemma get?_foldl_store {events : OrdMap Id Payload} {ts : List Turn} {id : Id} {payload : Payload}
    (h : (ts.foldl store events).get? id = some payload) :
    events.get? id = some payload ∨ ∃ t ∈ ts, t.completion.id = id ∧ t.payload = some payload := by
  induction ts generalizing events with
  | nil => exact Or.inl h
  | cons t ts ih =>
      rcases ih h with hget | ⟨u, hu, hid⟩
      · unfold store at hget
        cases ht : t.payload with
        | none =>
            rw [ht] at hget
            exact Or.inl hget
        | some q =>
            rw [ht] at hget
            simp only [OrdMap.get?_set] at hget
            split_ifs at hget with hid
            · exact Or.inr ⟨t, List.mem_cons_self, hid.symm, ht.trans hget⟩
            · exact Or.inl hget
      · exact Or.inr ⟨u, List.mem_cons_of_mem t hu, hid⟩

/-- A key that is stored, or was there, is there afterwards. -/
lemma has_foldl_store {events : OrdMap Id Payload} {ts : List Turn} {id : Id}
    (h : events.has id = true ∨ ∃ t ∈ ts, t.completion.id = id ∧ t.payload ≠ none) :
    (ts.foldl store events).has id = true := by
  induction ts generalizing events with
  | nil =>
      rcases h with h | ⟨t, ht, -⟩
      · exact h
      · cases ht
  | cons t ts ih =>
      refine ih ?_
      rcases h with h | ⟨u, hu, hid, hpayload⟩
      · left
        unfold store
        cases t.payload with
        | none => exact h
        | some q => exact OrdMap.has_set.mpr (Or.inr h)
      · rcases List.mem_cons.mp hu with rfl | hu
        · left
          unfold store
          cases hp : u.payload with
          | none => exact absurd hp hpayload
          | some q => exact OrdMap.has_set.mpr (Or.inl hid.symm)
        · exact Or.inr ⟨u, hu, hid, hpayload⟩

/-- The array holds the own payload of everything that was stored exactly when nothing was an error
and nothing was replaced. -/
lemma stored_iff (ts : List Turn) :
    (∀ t ∈ ts, ∃ payload, t.payload = some payload ∧
        (ts.foldl store ∅).get? t.completion.id = some payload) ↔
      (∀ t ∈ ts, ∀ message, t.completion.outcome ≠ .error message) ∧
        ts.Pairwise fun t u => t.completion.id = u.completion.id → t.payload = u.payload := by
  constructor
  · intro h
    refine ⟨fun t ht message herror => ?_, List.pairwise_of_forall_mem_list fun t ht u hu hid => ?_⟩
    · obtain ⟨payload, hp, -⟩ := h t ht
      rw [payload_eq_none_iff.mpr ⟨message, herror⟩] at hp
      cases hp
    · obtain ⟨p, hp, hget⟩ := h t ht
      obtain ⟨q, hq, hget'⟩ := h u hu
      rw [hid, hget'] at hget
      rw [hp, hq, hget]
  · rintro ⟨hne, hpair⟩ t ht
    have hsome : t.payload ≠ none := fun hnone => by
      obtain ⟨message, herror⟩ := payload_eq_none_iff.mp hnone
      exact hne t ht message herror
    have hstored : (ts.foldl store ∅).has t.completion.id = true :=
      has_foldl_store (Or.inr ⟨t, ht, rfl, hsome⟩)
    obtain ⟨q, hq⟩ := OrdMap.has_iff.mp hstored
    rcases get?_foldl_store hq with hempty | ⟨u, hu, hid, hpu⟩
    · cases hempty
    · have hsymm : Std.Symm fun t u : Turn =>
          t.completion.id = u.completion.id → t.payload = u.payload :=
        ⟨fun _ _ hR hid => (hR hid.symm).symm⟩
      have hsame : t.payload = u.payload :=
        hpair.forall_of_forall (fun _ _ _ => rfl) ht hu hid.symm
      exact ⟨q, hsame.trans hpu, hq⟩

/-! ## The waiters -/

/-- What a turn of `dispatchEvents()` can wake, and when. -/
lemma woken_dispatchTurn (code : Id → Tables → Tables) (s : State) (e : Id × Payload) :
    (dispatchTurn code s e).woken =
      if s.tables.exception = false ∧ e.1 ∉ s.tables.deadlines ∧ e.1 ∈ s.tables.waiting then
        s.woken ++ [e.1]
      else s.woken := by
  obtain ⟨id, payload⟩ := e
  have hawaited : (s.dispatchAwaited id (code id)).woken =
      if id ∉ s.tables.deadlines ∧ id ∈ s.tables.waiting then s.woken ++ [id] else s.woken := by
    unfold State.dispatchAwaited
    by_cases hd : id ∈ s.tables.deadlines
    · simp [hd, State.run]
    · by_cases hw : id ∈ s.tables.waiting <;> simp [hd, hw, State.run]
  unfold dispatchTurn
  cases hexception : s.tables.exception with
  | true => simp
  | false =>
      cases payload with
      | scalar v => simpa [State.dispatchEvent] using hawaited
      | array a =>
          by_cases hw : id ∈ s.tables.waiting
          · simpa [State.dispatchEvent, hw] using hawaited
          · simp only [State.dispatchEvent, hw]
            cases hu : dispatchUnawaited a with
            | error e => simp
            | ok u => cases u <;> simp [State.run]

lemma woken_dispatchEvents_subset (code : Id → Tables → Tables) (s : State)
    (events : List (Id × Payload)) : s.woken ⊆ (dispatchEvents code s events).woken := by
  induction events generalizing s with
  | nil => exact List.Subset.refl _
  | cons e events ih =>
      refine List.Subset.trans ?_ (ih (dispatchTurn code s e))
      rw [woken_dispatchTurn]
      split
      · exact List.subset_append_left _ _
      · exact List.Subset.refl _

/-- An id that is in no event is not woken. -/
lemma mem_woken_dispatchEvents {code : Id → Tables → Tables} {s : State}
    {events : List (Id × Payload)} {id : Id} (h : id ∈ (dispatchEvents code s events).woken) :
    id ∈ s.woken ∨ id ∈ events.map Prod.fst := by
  induction events generalizing s with
  | nil => exact Or.inl h
  | cons e events ih =>
      rcases ih h with hwoken | hmem
      · rw [woken_dispatchTurn] at hwoken
        split at hwoken
        · rcases List.mem_append.mp hwoken with hwoken | hwoken
          · exact Or.inl hwoken
          · right
            rw [List.mem_singleton.mp hwoken]
            exact List.mem_cons_self
        · exact Or.inl hwoken
      · exact Or.inr (List.mem_cons_of_mem _ hmem)

/-- **When a waiter is woken.**  An id has one event, and it is woken in that event's turn. -/
lemma mem_woken_iff {code : Id → Tables → Tables} {s : State} {earlier later : List (Id × Payload)}
    {id : Id} {payload : Payload}
    (hnodup : ((earlier ++ (id, payload) :: later).map Prod.fst).Nodup) (hs : id ∉ s.woken) :
    id ∈ (dispatchEvents code s (earlier ++ (id, payload) :: later)).woken ↔
      (dispatchEvents code s earlier).tables.exception = false ∧
        id ∉ (dispatchEvents code s earlier).tables.deadlines ∧
        id ∈ (dispatchEvents code s earlier).tables.waiting := by
  have hsplit : dispatchEvents code s (earlier ++ (id, payload) :: later) =
      dispatchEvents code (dispatchTurn code (dispatchEvents code s earlier) (id, payload)) later :=
    List.foldl_append
  simp only [List.map_append, List.map_cons, List.nodup_append, List.nodup_cons] at hnodup
  have hearlier : id ∉ (dispatchEvents code s earlier).woken := by
    intro hmem
    rcases mem_woken_dispatchEvents hmem with hwoken | hmem
    · exact hs hwoken
    · exact hnodup.2.2 id hmem id List.mem_cons_self rfl
  rw [hsplit]
  constructor
  · intro hmem
    rcases mem_woken_dispatchEvents hmem with hwoken | hmem
    · rw [woken_dispatchTurn] at hwoken
      split at hwoken
      · assumption
      · exact absurd hwoken hearlier
    · exact absurd hmem hnodup.2.1.1
  · intro hcond
    refine woken_dispatchEvents_subset code _ later ?_
    rw [woken_dispatchTurn, if_pos hcond]
    exact List.mem_append_right _ (List.mem_singleton_self id)

lemma undisturbed_iff {code : Id → Tables → Tables} {s : State} {events : List (Id × Payload)} :
    Undisturbed code s events ↔ ∀ earlier id payload later,
      events = earlier ++ (id, payload) :: later →
      id ∈ (dispatchEvents code s earlier).tables.waiting →
      (dispatchEvents code s earlier).tables.exception = false ∧
        id ∉ (dispatchEvents code s earlier).tables.deadlines := by
  induction events generalizing s with
  | nil => simp [Undisturbed]
  | cons e events ih =>
      rw [Undisturbed, ih]
      constructor
      · rintro ⟨hhead, htail⟩ earlier id payload later h
        cases earlier with
        | nil =>
            obtain ⟨rfl, -⟩ := List.cons.inj h
            exact hhead
        | cons d earlier =>
            obtain ⟨rfl, hevents⟩ := List.cons.inj h
            exact htail earlier id payload later hevents
      · intro h
        refine ⟨h [] e.1 e.2 events rfl, fun earlier id payload later hevents => ?_⟩
        exact h (e :: earlier) id payload later (by rw [hevents]; rfl)

/-! ## Every completion reaches somebody -/

lemma woken_ignisPoll (tables : Tables) (turns : List Turn) :
    (ignisPoll tables turns).woken = [] := by
  have hkeep : ∀ s : State, (turns.foldl turn s).woken = s.woken := by
    induction turns with
    | nil => exact fun _ => rfl
    | cons t ts ih =>
        intro s
        rw [List.foldl_cons, ih, turn]
        split
        · rfl
        · cases t.payload <;> rfl
  exact hkeep _

/-- The entry of an id is in one place only. -/
lemma entry_unique {events : List (Id × Payload)} (hnodup : (events.map Prod.fst).Nodup) {id : Id}
    {e₁ e₂ l₁ l₂ : List (Id × Payload)} {p₁ p₂ : Payload} (h₁ : events = e₁ ++ (id, p₁) :: l₁)
    (h₂ : events = e₂ ++ (id, p₂) :: l₂) : e₁ = e₂ := by
  subst h₁
  have hkeys := congrArg (List.map Prod.fst) h₂
  simp only [List.map_append, List.map_cons] at hkeys hnodup
  have hnot₁ : id ∉ e₁.map Prod.fst := fun hmem =>
    (List.nodup_append.mp hnodup).2.2 id hmem id List.mem_cons_self rfl
  have hnot₂ : id ∉ e₂.map Prod.fst := fun hmem =>
    (List.nodup_append.mp (hkeys ▸ hnodup)).2.2 id hmem id List.mem_cons_self rfl
  have hlength : e₁.length = e₂.length := by
    have hindex := congrArg (List.idxOf id) hkeys
    simpa [List.idxOf_append_of_notMem hnot₁, List.idxOf_append_of_notMem hnot₂] using hindex
  exact (List.append_inj h₂ hlength).1

/-- **When every completion of a batch reaches somebody.**  Whatever the batch is and whatever the
code that runs in between does, each completion resumes the fiber parked on it, or PHP receives it
with its own payload and `dispatchEvents()` resumes the fiber that waits for it, exactly when every
error finds a parked fiber, no entry replaces another, nothing that was resumed leaves an exception
behind, and the turn of every awaited event comes. -/
theorem completions_reach_iff (tables : Tables) (turns : List Turn) (code : Id → Tables → Tables)
    (events : List (Id × Payload))
    (hevents : events.Perm (ignisPoll tables turns).events.entries) :
    Reaches tables turns code events ↔
      Deliverable tables turns ∧ Undisturbed code (ignisPoll tables turns) events := by
  have harray : (ignisPoll tables turns).events =
      (unparked (ignisPoll tables []) turns).foldl store ∅ :=
    events_foldl_turn (ignisPoll tables []) turns
  have hnodup : (events.map Prod.fst).Nodup :=
    (hevents.map Prod.fst).nodup_iff.mpr (ignisPoll tables turns).events.nodup
  have hfresh : ∀ id, id ∉ (ignisPoll tables turns).woken := fun id => by simp [woken_ignisPoll]
  constructor
  · intro h
    have hstored : ∀ t ∈ unparked (ignisPoll tables []) turns,
        (ignisPoll tables turns).tables.exception = false ∧
        (∃ payload, t.payload = some payload ∧
          (ignisPoll tables turns).events.get? t.completion.id = some payload) ∧
        (t.completion.id ∈ (dispatchEvents code (ignisPoll tables turns) events).woken ∨
          ∃ earlier payload later, events = earlier ++ (t.completion.id, payload) :: later ∧
            t.completion.id ∉
              (dispatchEvents code (ignisPoll tables turns) earlier).tables.waiting) := by
      intro t ht
      obtain ⟨before, after, hsplit, hresumes⟩ := mem_unparked_iff.mp ht
      rcases h before t after hsplit with hr | ⟨⟨array, payload, hreceived, hp, hget⟩, hwake⟩
      · exact absurd (hresumes.symm.trans hr) (by decide)
      · unfold State.received at hreceived
        split_ifs at hreceived with hexception
        obtain rfl := Option.some.inj hreceived
        exact ⟨by simpa using hexception, ⟨payload, hp, hget⟩, hwake⟩
    have hpayloads := (stored_iff (unparked (ignisPoll tables []) turns)).mp fun t ht =>
      harray ▸ (hstored t ht).2.1
    refine ⟨⟨hpayloads.1, hpayloads.2, fun hne => ?_⟩, undisturbed_iff.mpr ?_⟩
    · obtain ⟨t, ht⟩ := List.exists_mem_of_ne_nil _ hne
      exact (hstored t ht).1
    · intro earlier id payload later hsplit hwaiting
      -- the event comes from a completion
      have hmem : (id, payload) ∈ (ignisPoll tables turns).events.entries :=
        hevents.mem_iff.mp (hsplit ▸ List.mem_append_right _ List.mem_cons_self)
      have hget := OrdMap.mem_entries_iff.mp hmem
      rw [harray] at hget
      rcases get?_foldl_store hget with hempty | ⟨t, ht, rfl, -⟩
      · cases hempty
      · rcases (hstored t ht).2.2 with hwoken | ⟨earlier', payload', later', hsplit', hnot⟩
        · subst hsplit
          obtain ⟨hexception, hdeadlines, -⟩ := (mem_woken_iff hnodup (hfresh _)).mp hwoken
          exact ⟨hexception, hdeadlines⟩
        · rw [entry_unique hnodup hsplit' hsplit] at hnot
          exact absurd hwaiting hnot
  · rintro ⟨hdeliverable, hundisturbed⟩ before t after hsplit
    by_cases hresumes : t.resumes (ignisPoll tables before) = true
    · exact Or.inl hresumes
    · right
      have ht : t ∈ unparked (ignisPoll tables []) turns :=
        mem_unparked_iff.mpr ⟨before, after, hsplit, Bool.eq_false_iff.mpr hresumes⟩
      obtain ⟨payload, hp, hget⟩ :=
        (stored_iff _).mpr ⟨hdeliverable.noError, hdeliverable.noCollision⟩ t ht
      rw [← harray] at hget
      have hexception := hdeliverable.noException (List.ne_nil_of_mem ht)
      refine ⟨⟨_, payload, by simp [State.received, hexception], hp, hget⟩, ?_⟩
      have hmem : (t.completion.id, payload) ∈ events :=
        hevents.mem_iff.mpr (OrdMap.mem_entries_iff.mpr hget)
      obtain ⟨earlier, later, rfl⟩ := List.append_of_mem hmem
      by_cases hwaiting : t.completion.id ∈
          (dispatchEvents code (ignisPoll tables turns) earlier).tables.waiting
      · left
        obtain ⟨hquiet, hdeadlines⟩ :=
          undisturbed_iff.mp hundisturbed earlier t.completion.id payload later rfl hwaiting
        exact (mem_woken_iff hnodup (hfresh _)).mpr ⟨hquiet, hdeadlines, hwaiting⟩
      · exact Or.inr ⟨earlier, payload, later, rfl, hwaiting⟩

/-- A timer resumes the fiber that sleeps in a C hook; the socket another fiber of `$waiting`
watches has become ready, and that fiber is resumed too. -/
theorem completions_reach_sleeper_and_watcher :
    Reaches ⟨{1}, {2}, ∅, false⟩ [⟨⟨1, .slept 0⟩, 0, id⟩, ⟨⟨2, .ready⟩, 0, id⟩] (fun _ => id)
      [(2, .scalar (.long 1))] := by
  have hunparked : unparked (ignisPoll ⟨{1}, {2}, ∅, false⟩ [])
      [⟨⟨1, .slept 0⟩, 0, id⟩, ⟨⟨2, .ready⟩, 0, id⟩] = [⟨⟨2, .ready⟩, 0, id⟩] := rfl
  refine (completions_reach_iff _ _ _ _ (List.Perm.refl _)).mpr ⟨⟨?_, ?_, fun _ => rfl⟩, ?_⟩
  · rw [hunparked]
    intro t ht message
    rw [List.mem_singleton.mp ht]
    exact fun h => by cases h
  · rw [hunparked]
    exact List.pairwise_singleton _ _
  · exact ⟨fun _ => ⟨rfl, by decide⟩, trivial⟩

/-- Three batches that lose a completion: the watch a fiber of `$waiting` waits for fails; a request
and its cancellation come together; and the fiber a timer resumes ends with an exception while a
socket that is awaited has become ready. -/
theorem completions_lost :
    (∃ events : List (Id × Payload),
      events.Perm (ignisPoll ⟨∅, {7}, ∅, false⟩
        [⟨⟨7, .error (bytes "dup(5) failed: EMFILE")⟩, 0, id⟩]).events.entries ∧
      ¬ Reaches ⟨∅, {7}, ∅, false⟩ [⟨⟨7, .error (bytes "dup(5) failed: EMFILE")⟩, 0, id⟩]
        (fun _ => id) events) ∧
    (∃ events : List (Id × Payload),
      events.Perm (ignisPoll ⟨∅, ∅, ∅, false⟩
        [⟨⟨3, .request ⟨bytes "GET", bytes "/", [], []⟩⟩, 0, id⟩,
          ⟨⟨3, .cancelled⟩, 9, id⟩]).events.entries ∧
      ¬ Reaches ⟨∅, ∅, ∅, false⟩
        [⟨⟨3, .request ⟨bytes "GET", bytes "/", [], []⟩⟩, 0, id⟩, ⟨⟨3, .cancelled⟩, 9, id⟩]
        (fun _ => id) events) ∧
    ∃ events : List (Id × Payload),
      events.Perm (ignisPoll ⟨{1}, {2}, ∅, false⟩
        [⟨⟨1, .slept 0⟩, 0, fun tables => { tables with exception := true }⟩,
          ⟨⟨2, .ready⟩, 0, id⟩]).events.entries ∧
      ¬ Reaches ⟨{1}, {2}, ∅, false⟩
        [⟨⟨1, .slept 0⟩, 0, fun tables => { tables with exception := true }⟩,
          ⟨⟨2, .ready⟩, 0, id⟩] (fun _ => id) events := by
  refine ⟨⟨_, List.Perm.refl _, fun h => ?_⟩, ⟨_, List.Perm.refl _, fun h => ?_⟩,
    ⟨_, List.Perm.refl _, fun h => ?_⟩⟩
  · rcases h [] _ [] rfl with hr | ⟨⟨_, _, _, hp, _⟩, -⟩
    · exact absurd hr (by decide)
    · cases hp
  · rcases h [] _ [_] rfl with hr | ⟨⟨_, _, hreceived, hp, hget⟩, -⟩
    · exact absurd hr (by decide)
    · obtain rfl := Option.some.inj hreceived
      obtain rfl := Option.some.inj hp
      -- only the cancellation is tagged
      have hkind := congrArg (Option.map fun payload => match payload with
        | .array a => (a.get? (.str (bytes "kind"))).isSome
        | .scalar _ => false) hget
      exact absurd hkind (by decide)
  · rcases h [_] _ [] rfl with hr | ⟨⟨_, _, hreceived, _, _⟩, -⟩
    · exact absurd hr (by decide)
    · cases hreceived

end Poll

end Ignis
