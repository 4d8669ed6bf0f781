import Ignis.Loop.MainCalls

/-!
# The way of a completion

A completion comes with the batch of a poll; `ignis_poll()` puts it into its array, the array
becomes the events that are dispatched, and `dispatchEvents()` comes to it.  `Goes` says where a
step leaves `{main}` on that way, and from it follows that a completion is carried on until it is
dispatched (`carries_after`), unless a fiber in a C hook takes it or it is an error, and there is no
other of its op (`not_carries_of_loses`).
-/

namespace Ignis

namespace Loop

/-! ## Places -/

/-- The completion of the op is in what is left of the batch, or of its events. -/
def Pc.carries (op : Id) : Pc → Prop
  | .collecting done events => (∃ c ∈ done, c.1.id = op) ∨ events.has op = true
  | .dispatchEvents events | .cancelRequest _ events => ∃ e ∈ events, e.1 = op
  | .script | .turn | .startPending | .resumeReady | .testing | .polling => False

/-- In `ignis_poll()`, or about to call it. -/
def Pc.polls : Pc → Bool
  | .polling | .collecting _ _ => true
  | _ => false

/-- `{main}` has a batch. -/
def Pc.batch : Pc → Bool
  | .collecting _ _ | .dispatchEvents _ | .cancelRequest _ _ => true
  | .script | .turn | .startPending | .resumeReady | .testing | .polling => false

namespace State

/-- `ignis_poll()` puts the completion into its array. -/
def stores (s : State) (c : Completion) (ageUs : ℤ) : Bool :=
  !(resumesParked c.outcome && s.pool.parked.has c.id) && (pollPayload ageUs c.outcome).isSome

/-- The completion goes to a fiber in a C hook, or it is an error; and the op has no other. -/
def loses (s : State) (op : Id) : Action → Bool
  | .advance =>
      match s.pc with
      | .collecting ((c, ageUs) :: done) events =>
          c.id == op && !s.stores c ageUs && !(done.any fun c => c.1.id == op) && !events.has op
      | _ => false
  | _ => false

end State

lemma Pc.not_carries {pc : Pc} (h : pc.batch = false) (op : Id) : ¬ pc.carries op := by
  cases pc <;> simp [Pc.batch] at h <;> exact id

/-- Where a step leaves `{main}` inside the loop. -/
inductive Goes (s : State) (a : Action) (pc : Pc) : Prop
  | stays (hsame : pc = s.pc) (hcompletes : ∀ op, a.completes op = false)
      (hdispatches : s.dispatches a = none) (hloses : ∀ op, s.loses op a = false)
  /-- Between the batches. -/
  | turns (hfrom : s.pc.batch = false) (hto : pc.batch = false)
      (hcompletes : ∀ op, a.completes op = false)
  | polls {done} (ha : a = .poll done) (hpc : s.pc = .polling) (hto : pc = .collecting done ∅)
  | collects {c ageUs done events events'} (ha : a = .advance)
      (hpc : s.pc = .collecting ((c, ageUs) :: done) events) (hto : pc = .collecting done events')
      (hevents : ∀ op, events'.has op = true
        ↔ events.has op = true ∨ (c.id = op ∧ s.stores c ageUs = true))
  | receives {inflight order events es} (ha : a = .dispatch inflight order)
      (hpc : s.pc = .collecting [] events) (hto : pc = .dispatchEvents es)
      (hes : ∀ op, (∃ e ∈ es, e.1 = op) ↔ events.has op = true)
  | dispatches {e rest} (ha : a = .advance) (hpc : s.pc = .dispatchEvents (e :: rest))
      (hto : pc = .dispatchEvents rest ∨ ∃ requestId, pc = .cancelRequest requestId rest)
  | cancels {requestId rest} (ha : a = .advance) (hpc : s.pc = .cancelRequest requestId rest)
      (hto : pc = .cancelRequest requestId rest ∨ pc = .dispatchEvents rest)
  | dispatched (ha : a = .advance) (hpc : s.pc = .dispatchEvents []) (hto : pc = .turn)

lemma collect_pc {s s' : State} {c : Completion} {ageUs : ℤ} {done : List (Completion × ℤ)}
    {events : OrdMap Id Payload} (hpc : s.pc = .collecting ((c, ageUs) :: done) events)
    (hstep : s.advance = some s') (hpc' : s'.pc ≠ .script) :
    ∃ events', s'.pc = .collecting done events' ∧ ∀ op, events'.has op = true
      ↔ events.has op = true ∨ (c.id = op ∧ s.stores c ageUs = true) := by
  simp only [State.advance, hpc, Option.some.injEq] at hstep
  subst hstep
  unfold State.collect State.stores at *
  split_ifs at hpc' ⊢ with hparked
  · cases hp : s.pool.resumeParked c.id with
    | none => simp [hp, State.unwind] at hpc'
    | some p => exact ⟨events, rfl, fun op => by simp [hparked]⟩
  · cases hpay : State.pollPayload ageUs c.outcome with
    | none => exact ⟨events, rfl, fun op => by simp⟩
    | some payload =>
        refine ⟨events.set c.id payload, rfl, fun op => ?_⟩
        have hstored : (!(State.resumesParked c.outcome && s.pool.parked.has c.id)
            && (some payload).isSome) = true := by simp [Bool.eq_false_iff.mpr hparked]
        rw [OrdMap.has_set, hstored, and_iff_left rfl, or_comm, @eq_comm _ op c.id]

lemma dispatchAwaited_pc {s : State} {id : Id} {rest : List (Id × Payload)}
    (hpc : s.pc = .dispatchEvents rest) :
    (s.dispatchAwaited id rest).pc = .script ∨ (s.dispatchAwaited id rest).pc = .dispatchEvents rest
      ∨ ∃ requestId, (s.dispatchAwaited id rest).pc = .cancelRequest requestId rest := by
  unfold State.dispatchAwaited
  cases s.deadlines.get? id with
  | some requestId => exact .inr (.inr ⟨requestId, rfl⟩)
  | none =>
      cases s.pool.waiting.get? id with
      | none => exact .inr (.inl hpc)
      | some w =>
          cases hp : s.pool.resumeOp id with
          | none => exact .inl rfl
          | some p => exact .inr (.inl hpc)

lemma dispatchEvent_pc {s s' : State} {e : Id × Payload} {rest : List (Id × Payload)}
    (hpc : s.pc = .dispatchEvents (e :: rest)) (hstep : s.advance = some s')
    (hpc' : s'.pc ≠ .script) :
    s'.pc = .dispatchEvents rest ∨ ∃ requestId, s'.pc = .cancelRequest requestId rest := by
  obtain ⟨id, payload⟩ := e
  simp only [State.advance, hpc] at hstep
  cases eventStep_of_dispatchEvent hstep with
  | awaited => exact (dispatchAwaited_pc rfl).resolve_left hpc'
  | malformed => exact absurd rfl hpc'
  | ignored => exact .inl rfl
  | cancel => exact .inr ⟨id, rfl⟩
  | request hrequest =>
      simp only [State.dispatchRequest] at hrequest
      split_ifs at hrequest <;>
        · obtain rfl := Option.some.inj hrequest
          exact .inl rfl

lemma cancelNext_pc {s : State} {requestId : Id} {rest : List (Id × Payload)}
    (hpc : s.pc = .cancelRequest requestId rest) :
    (s.cancelNext requestId rest).pc = .cancelRequest requestId rest
      ∨ (s.cancelNext requestId rest).pc = .dispatchEvents rest := by
  unfold State.cancelNext
  cases s.pool.todo with
  | nil => exact .inr rfl
  | cons f todo => exact .inl hpc

/-- The events of the array, in any order. -/
lemma events_of_order {events : OrdMap Id Payload} {order : List Id} {op : Id}
    (horder : ∀ id, id ∈ order ↔ id ∈ events.keys) :
    (∃ e ∈ order.filterMap fun id => (events.get? id).map fun p => (id, p), e.1 = op)
      ↔ events.has op = true := by
  constructor
  · rintro ⟨e, he, rfl⟩
    obtain ⟨id, hid, hmap⟩ := List.mem_filterMap.mp he
    obtain ⟨p, hp, rfl⟩ := Option.map_eq_some_iff.mp hmap
    exact OrdMap.has_iff.mpr ⟨p, hp⟩
  · intro hhas
    obtain ⟨p, hp⟩ := OrdMap.has_iff.mp hhas
    have hmem : op ∈ order := (horder op).mpr (OrdMap.mem_keys_iff.mpr ⟨p, hp⟩)
    exact ⟨(op, p), List.mem_filterMap.mpr ⟨op, hmem, by simp [hp]⟩, rfl⟩

/-- Where `{main}` has no choice. -/
lemma goes_of_advance {s s' : State} (hstep : s.advance = some s') (hpc' : s'.pc ≠ .script) :
    Goes s .advance s'.pc := by
  cases hpc : s.pc with
  | script | turn | testing | polling => simp [State.advance, hpc] at hstep
  | startPending =>
      refine .turns (by simp [hpc, Pc.batch]) ?_ fun _ => rfl
      simp only [State.advance, hpc] at hstep
      cases hbatch : s.pool.startBatch with
      | nil =>
          simp only [hbatch] at hstep
          split_ifs at hstep <;> obtain rfl := Option.some.inj hstep <;> rfl
      | cons e batch =>
          simp only [hbatch] at hstep
          cases hp : s.pool.startNext with
          | none =>
              simp only [hp] at hstep
              obtain rfl := Option.some.inj hstep
              rfl
          | some p =>
              simp only [hp] at hstep
              obtain rfl := Option.some.inj hstep
              rw [startJob_pc, show (s.withPool p).pc = s.pc from rfl, hpc]
              rfl
  | resumeReady =>
      refine .turns (by simp [hpc, Pc.batch]) ?_ fun _ => rfl
      simp only [State.advance, hpc] at hstep
      cases hbatch : s.pool.readyBatch with
      | nil =>
          simp only [hbatch] at hstep
          split_ifs at hstep
          obtain rfl := Option.some.inj hstep
          rfl
      | cons e batch =>
          obtain ⟨f, r⟩ := e
          simp only [hbatch] at hstep
          cases hp : s.pool.resumeNext with
          | none =>
              cases r <;> simp only [hp] at hstep <;> obtain rfl := Option.some.inj hstep <;> rfl
          | some p =>
              cases r with
              | wake =>
                  simp only [hp] at hstep
                  obtain rfl := Option.some.inj hstep
                  simp [State.withPool, hpc, Pc.batch]
              | job j =>
                  simp only [hp] at hstep
                  obtain rfl := Option.some.inj hstep
                  rw [startJob_pc, show (s.withPool p).pc = s.pc from rfl, hpc]
                  rfl
  | collecting done events =>
      cases done with
      | nil => simp [State.advance, hpc] at hstep
      | cons d done =>
          obtain ⟨events', hto, hevents⟩ := collect_pc hpc hstep hpc'
          exact .collects rfl hpc hto hevents
  | dispatchEvents events =>
      cases events with
      | nil =>
          simp only [State.advance, hpc] at hstep
          obtain rfl := Option.some.inj hstep
          exact .dispatched rfl hpc rfl
      | cons e rest => exact .dispatches rfl hpc (dispatchEvent_pc hpc hstep hpc')
  | cancelRequest requestId rest =>
      simp only [State.advance, hpc] at hstep
      obtain rfl := Option.some.inj hstep
      exact .cancels rfl hpc (cancelNext_pc hpc)

/-- **Where `{main}` goes**, as long as it stays in the loop. -/
theorem goes_of_step {s s' : State} {a : Action} (hi : Loop.Inv s) (h : Loop.step s a = some s')
    (hpc' : s'.pc ≠ .script) : Goes s a s'.pc := by
  cases ha : a.ofMain with
  | false =>
      have hsame := (frame_of_step hi h).pc.resolve_left (by simp [ha])
      cases a with
      | run _ | awaitOpFromMain _ | turn _ | takeReady _ | test _ _ | poll _ | dispatch _ _
      | advance => cases ha
      | _ => exact .stays hsame (fun _ => rfl) rfl fun _ => rfl
  | true =>
      cases (mainStep_of_step h ha).2 with
      | run hpc | awaitOpFromMain hpc | goesOn hpc | again hpc | waits hpc =>
          exact .turns (by simp [hpc, Pc.batch]) rfl fun _ => rfl
      | stops | ends | endsPolled => exact absurd rfl hpc'
      | takeReady => exact .stays rfl (fun _ => rfl) rfl fun _ => rfl
      | poll hpc => exact .polls rfl hpc rfl
      | dispatch hpc _ horder => exact .receives rfl hpc rfl fun op => events_of_order horder
      | advance hstep => exact goes_of_advance hstep hpc'

/-- A completion is carried by the poll it came with, and from then on. -/
lemma carries_before {s : State} {a : Action} {pc : Pc} {op : Id} (h : Goes s a pc)
    (hop : pc.carries op) : s.pc.carries op ∨ a.completes op = true := by
  cases h with
  | stays hsame => exact .inl (hsame ▸ hop)
  | turns _ hto => exact absurd hop (Pc.not_carries hto op)
  | polls ha hpc hto =>
      rw [hto] at hop
      rcases hop with ⟨c, hc, hid⟩ | hhas
      · rw [ha]
        exact .inr (List.any_eq_true.mpr ⟨c, hc, by simpa using hid⟩)
      · cases hhas
  | collects ha hpc hto hevents =>
      rw [hto] at hop
      rw [hpc]
      rcases hop with ⟨c, hc, hid⟩ | hhas
      · exact .inl (.inl ⟨c, List.mem_cons_of_mem _ hc, hid⟩)
      · rcases (hevents op).mp hhas with hold | ⟨hid, -⟩
        · exact .inl (.inr hold)
        · exact .inl (.inl ⟨_, List.mem_cons_self, hid⟩)
  | receives ha hpc hto hes =>
      rw [hto] at hop
      rw [hpc]
      exact .inl (.inr ((hes op).mp hop))
  | dispatches ha hpc hto =>
      rw [hpc]
      rcases hto with hto | ⟨requestId, hto⟩ <;>
        · rw [hto] at hop
          obtain ⟨e, he, hid⟩ := hop
          exact .inl ⟨e, List.mem_cons_of_mem _ he, hid⟩
  | cancels ha hpc hto =>
      rw [hpc]
      rcases hto with hto | hto <;>
        · rw [hto] at hop
          exact .inl hop
  | dispatched ha hpc hto => exact absurd hop (Pc.not_carries (by rw [hto]; rfl) op)

/-- It is dispatched, unless it is lost. -/
lemma carries_after {s : State} {a : Action} {pc : Pc} {op : Id} (h : Goes s a pc)
    (hop : s.pc.carries op) (hloses : s.loses op a = false) :
    pc.carries op ∨ ∃ payload, s.dispatches a = some (op, payload) := by
  cases h with
  | stays hsame => exact .inl (hsame ▸ hop)
  | turns hfrom => exact absurd hop (Pc.not_carries hfrom op)
  | polls ha hpc hto => exact absurd hop (Pc.not_carries (by rw [hpc]; rfl) op)
  | @collects c ageUs done events events' ha hpc hto hevents =>
      rw [hto]
      rw [hpc] at hop
      by_cases hrest : (∃ c ∈ done, c.1.id = op) ∨ events.has op = true
      · exact .inl (hrest.imp_right fun hhas => (hevents op).mpr (.inl hhas))
      · obtain ⟨hdone, hhas⟩ := not_or.mp hrest
        have hid : c.id = op := by
          rcases hop with ⟨d, hd, hid⟩ | h
          · rcases List.mem_cons.mp hd with rfl | hd
            · exact hid
            · exact absurd ⟨d, hd, hid⟩ hdone
          · exact absurd h hhas
        have hany : (done.any fun d => d.1.id == op) = false := by
          simpa using fun x y hx he => hdone ⟨(x, y), hx, he⟩
        have hstores : s.stores c ageUs = true := by
          simpa [State.loses, ha, hpc, hid, hany, Bool.eq_false_iff.mpr hhas] using hloses
        exact .inl (.inr ((hevents op).mpr (.inr ⟨hid, hstores⟩)))
  | receives ha hpc hto hes =>
      rw [hpc] at hop
      rw [hto]
      rcases hop with ⟨d, hd, -⟩ | hhas
      · cases hd
      · exact .inl ((hes op).mpr hhas)
  | @dispatches e rest ha hpc hto =>
      rw [hpc] at hop
      obtain ⟨e', he', hid⟩ := hop
      rcases List.mem_cons.mp he' with rfl | he'
      · exact .inr ⟨e'.2, by simp [State.dispatches, ha, hpc, ← hid]⟩
      · rcases hto with hto | ⟨requestId, hto⟩ <;>
          · rw [hto]
            exact .inl ⟨e', he', hid⟩
  | cancels ha hpc hto =>
      rw [hpc] at hop
      rcases hto with hto | hto <;>
        · rw [hto]
          exact .inl hop
  | dispatched ha hpc hto =>
      rw [hpc] at hop
      obtain ⟨e, he, -⟩ := hop
      cases he

/-- What is lost is neither carried nor dispatched. -/
lemma not_carries_of_loses {s : State} {a : Action} {pc : Pc} {op : Id} (h : Goes s a pc)
    (hloses : s.loses op a = true) : ¬ pc.carries op ∧ s.dispatches a = none := by
  cases h with
  | stays _ _ _ hkeeps => simp [hkeeps op] at hloses
  | turns hfrom | polls _ hfrom | receives _ hfrom | dispatches _ hfrom | cancels _ hfrom
  | dispatched _ hfrom =>
      cases a <;> simp [State.loses] at hloses
      split at hloses <;> simp_all [Pc.batch]
  | @collects c ageUs done events events' ha hpc hto hevents =>
      simp only [State.loses, ha, hpc, Bool.and_eq_true, Bool.not_eq_true', beq_iff_eq] at hloses
      obtain ⟨⟨⟨hid, hstores⟩, hdone⟩, hhas⟩ := hloses
      refine ⟨?_, by simp [State.dispatches, ha, hpc]⟩
      rw [hto]
      rintro (⟨d, hd, hid'⟩ | hhas')
      · rw [List.any_eq_false] at hdone
        exact hdone d hd (by simpa using hid')
      · rcases (hevents op).mp hhas' with hold | ⟨-, hs⟩
        · simp [hhas] at hold
        · simp [hstores] at hs

lemma carries_of_loses {s : State} {a : Action} {op : Id} (h : s.loses op a = true) :
    s.pc.carries op := by
  cases a <;> simp only [State.loses, Bool.false_eq_true] at h
  split at h
  · rename_i c ageUs done events hpc
    simp only [Bool.and_eq_true, beq_iff_eq] at h
    rw [hpc]
    exact .inl ⟨_, List.mem_cons_self, h.1.1.1⟩
  · cases h

lemma carries_of_dispatches {s : State} {a : Action} {op : Id} {payload : Payload}
    (h : s.dispatches a = some (op, payload)) : s.pc.carries op := by
  cases a <;> simp only [State.dispatches, reduceCtorEq] at h
  split at h
  · rename_i e rest hpc
    obtain rfl := Option.some.inj h
    rw [hpc]
    exact ⟨_, List.mem_cons_self, rfl⟩
  · cases h

lemma carries_of_completes {s : State} {a : Action} {pc : Pc} {op : Id} (h : Goes s a pc)
    (hop : a.completes op = true) : pc.carries op ∧ s.loses op a = false := by
  cases h with
  | stays _ hcompletes | turns _ _ hcompletes => simp [hcompletes op] at hop
  | polls ha hpc hto =>
      rw [ha] at hop
      obtain ⟨c, hc, hid⟩ := List.any_eq_true.mp hop
      rw [hto, ha]
      exact ⟨.inl ⟨c, hc, by simpa using hid⟩, rfl⟩
  | collects ha | receives ha | dispatches ha | cancels ha | dispatched ha =>
      rw [ha] at hop
      cases hop

end Loop

end Ignis
