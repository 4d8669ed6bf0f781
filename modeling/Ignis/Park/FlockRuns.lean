import Ignis.Park.Flock

/-!
# What a parked lock call amounts to

To the fibers `ignis_park_flock` is `flock`: `Spec` has every fiber wait in the kernel by itself, as
if it were a thread, and every run of the handler is a run of `Spec` with the same locks and the
same results (`flock_refines`).

What the handler is for is what `Spec` leaves out.  As long as a fiber that has to wait is
suspended, whoever holds the lock can have the thread within four steps (`flock_serves`).  Where it
cannot be suspended, or is cancelled while it waits, the thread waits in the kernel, and if the lock
is held on the same thread it does so for good (`flock_deadlock`).

`flock_polls` bounds how often a fiber asks, and how late it may come to know that the lock is free.
-/

namespace Ignis.Flock

open StepSystem
open Park (Site mayPark)

variable {file : ℕ → ℕ}

/-! ## Every fiber a thread -/

/-- What the calls of the fibers mean. -/
structure Spec where
  locks : Table
  asked : ℕ → Option (ℕ × BitVec 32)
  log : List Return

namespace Spec

inductive Action where
  | call (f ofd : ℕ) (op : BitVec 32)
  | change (f : ℕ)
  | attempt (f : ℕ)
  | fail (f errno : ℕ)
  | close (f ofd : ℕ)
  | other (ofd : ℕ) (lock : Option Bool)

def finish (u : Spec) (f ofd : ℕ) (op : BitVec 32) (t : Table) (r : Result) : Spec where
  locks := t
  asked := Function.update u.asked f none
  log := u.log ++ [⟨f, ofd, op, r⟩]

def step (file : ℕ → ℕ) (u : Spec) : Action → Option Spec
  | .call f ofd op =>
      if u.asked f = none then some { u with asked := Function.update u.asked f (some (ofd, op)) }
      else none
  | .change f =>
      match u.asked f with
      | some (ofd, op) =>
          if changes u.locks ofd op then some { u with locks := u.locks.unset ofd } else none
      | none => none
  | .attempt f =>
      match u.asked f with
      | some (ofd, op) =>
          if changes u.locks ofd op then none
          else (sysFlock file u.locks ofd op).map fun (t, r) => u.finish f ofd op t r
      | none => none
  | .fail f errno =>
      match u.asked f with
      | some (ofd, op) => some (u.finish f ofd op u.locks (.error errno))
      | none => none
  | .close f ofd => if u.asked f = none then some { u with locks := u.locks.unset ofd } else none
  | .other ofd none => some { u with locks := u.locks.unset ofd }
  | .other ofd (some exclusive) =>
      if conflicts file u.locks ofd exclusive then none
      else some { u with locks := u.locks.set ofd exclusive }

end Spec

def State.spec (s : State) : Spec := ⟨s.locks, fun f => (s.pc f).asked, s.log⟩

lemma asked_update (pc : ℕ → Pc) (f : ℕ) (p : Pc) :
    (fun g => (Function.update pc f p g).asked)
      = Function.update (fun g => (pc g).asked) f p.asked := by
  funext g
  by_cases hg : g = f
  · subst hg
    simp
  · simp [Function.update_of_ne hg]

lemma spec_goto (s : State) (f : ℕ) (p : Pc) :
    (s.goto f p).spec = { s.spec with asked := Function.update s.spec.asked f p.asked } := by
  simp only [State.spec, State.goto, asked_update]

/-- A fiber that goes on waiting somewhere else. -/
lemma spec_goto_of_asked {s : State} {f : ℕ} {p : Pc} (h : p.asked = (s.pc f).asked) :
    (s.goto f p).spec = s.spec := by
  rw [spec_goto, h]
  have hself : Function.update s.spec.asked f (s.pc f).asked = s.spec.asked :=
    Function.update_eq_self f s.spec.asked
  rw [hself]

lemma spec_finish (s : State) (f ofd : ℕ) (op : BitVec 32) (t : Table) (r : Result) :
    (s.finish f ofd op t r).spec = s.spec.finish f ofd op t r := by
  simp only [State.spec, State.finish, asked_update]
  rfl

lemma asked_of_inside {p : Pc} {c : ℕ × BitVec 32} (h : p.inside = some c) : p.asked = some c := by
  cases p with
  | user | parked => cases h
  | trying | kernel => exact h

lemma asked_ignisParkFlock (s : State) (ofd : ℕ) (op : BitVec 32) (site : Site) :
    (ignisParkFlock s ofd op site).asked = some (ofd, op) := by
  unfold ignisParkFlock
  split_ifs <;> rfl

/-- **A fiber that waits for a lock is a thread that does.** -/
lemma spec_step {s s' : State} {a : Action} (h : Move file s a s') :
    s'.spec = s.spec ∨ ∃ b, Spec.step file s.spec b = some s'.spec := by
  cases h with
  | tick | resume | suspend => exact .inl rfl
  | released ofd => exact .inr ⟨.other ofd none, rfl⟩
  | taken ofd exclusive hfree =>
      refine .inr ⟨.other ofd (some exclusive), ?_⟩
      simp [Spec.step, State.spec, hfree]
  | call f ofd op site hrunning hpc =>
      refine .inr ⟨.call f ofd op, ?_⟩
      have hnone : s.spec.asked f = none := by
        simp [State.spec, hpc, Pc.asked]
      rw [Spec.step, if_pos hnone, spec_goto, asked_ignisParkFlock]
  | change f ofd op hrunning hpc hchanges =>
      refine .inr ⟨.change f, ?_⟩
      have hasked : s.spec.asked f = some (ofd, op) := asked_of_inside hpc
      have hspec : changes s.spec.locks ofd op = true := hchanges
      simp only [Spec.step, hasked, hspec, if_true]
      rfl
  | park f w t hrunning hpc hbusy =>
      refine .inl ?_
      exact spec_goto_of_asked (p := .parked w (s.now + w.waitUs)) (by rw [hpc]; rfl)
  | giveUp f w t hrunning hpc hbusy => exact .inl (spec_goto_of_asked (by rw [hpc]; rfl))
  | finish parks f ofd op t r hrunning hpc hchanges hsys =>
      refine .inr ⟨.attempt f, ?_⟩
      have hasked : s.spec.asked f = some (ofd, op) := asked_of_inside hpc
      have hspec : changes s.spec.locks ofd op = false := hchanges
      have hreply : sysFlock file s.spec.locks ofd op = some (t, r) := hsys
      rw [spec_finish]
      simp [Spec.step, hasked, hspec, hreply]
  | fail errno f ofd op hrunning hpc =>
      refine .inr ⟨.fail f errno, ?_⟩
      have hasked : s.spec.asked f = some (ofd, op) := asked_of_inside hpc
      rw [spec_finish]
      simp only [Spec.step, hasked]
      rfl
  | close f ofd hrunning hpc =>
      refine .inr ⟨.close f ofd, ?_⟩
      have hnone : s.spec.asked f = none := by
        simp [State.spec, hpc, Pc.asked]
      rw [Spec.step, if_pos hnone]
      rfl
  | wake f due w hrunning hpc hdue =>
      exact .inl (spec_goto_of_asked (p := .trying w.next) (by rw [hpc]; rfl))
  | cancel f due w hrunning hpc =>
      exact .inl (spec_goto_of_asked (p := .kernel w.ofd w.op) (by rw [hpc]; rfl))

lemma not_conflicts {t : Table} {ofd o : ℕ} {exclusive held : Bool}
    (hfree : conflicts file t ofd exclusive = false) (ho : t.get? o = some held) (hne : o ≠ ofd)
    (hfile : file o = file ofd) : held = false ∧ exclusive = false := by
  have hmem := OrdMap.mem_entries_iff.mpr ho
  have hfalse := List.any_eq_false.mp hfree _ hmem
  simpa [hne, hfile] using hfalse

lemma Exclusive.set {t : Table} {ofd : ℕ} {exclusive : Bool} (h : Exclusive file t)
    (hfree : conflicts file t ofd exclusive = false) : Exclusive file (t.set ofd exclusive) := by
  intro o held o' held' ho ho' hne hfile
  rw [OrdMap.get?_set] at ho ho'
  by_cases heq : o = ofd
  · obtain rfl := heq
    rw [if_pos rfl] at ho
    rw [if_neg hne.symm] at ho'
    obtain rfl := Option.some.inj ho
    exact (not_conflicts hfree ho' hne.symm hfile.symm).symm
  · rw [if_neg heq] at ho
    by_cases heq' : o' = ofd
    · obtain rfl := heq'
      rw [if_pos rfl] at ho'
      obtain rfl := Option.some.inj ho'
      exact not_conflicts hfree ho heq hfile
    · rw [if_neg heq'] at ho'
      exact h o held o' held' ho ho' hne hfile

lemma Exclusive.unset {t : Table} {ofd : ℕ} (h : Exclusive file t) :
    Exclusive file (t.unset ofd) := by
  intro o held o' held' ho ho' hne hfile
  rw [OrdMap.get?_unset] at ho ho'
  exact h o held o' held' (Option.ite_none_left_eq_some.mp ho).2
    (Option.ite_none_left_eq_some.mp ho').2 hne hfile

lemma Exclusive.sysFlock {t t' : Table} {ofd : ℕ} {op : BitVec 32} {r : Result}
    (h : Exclusive file t) (hsys : sysFlock file t ofd op = some (t', r)) : Exclusive file t' := by
  unfold Flock.sysFlock at hsys
  split at hsys
  · obtain ⟨rfl, -⟩ := Prod.mk.inj (Option.some.inj hsys)
    exact h
  · obtain ⟨rfl, -⟩ := Prod.mk.inj (Option.some.inj hsys)
    exact h.unset
  · split_ifs at hsys with hconflict hnb
    · obtain ⟨rfl, -⟩ := Prod.mk.inj (Option.some.inj hsys)
      exact h
    · obtain ⟨rfl, -⟩ := Prod.mk.inj (Option.some.inj hsys)
      exact h.set (by simpa using hconflict)

lemma Exclusive.move {s s' : State} {a : Action} (h : Exclusive file s.locks)
    (hmove : Move file s a s') : Exclusive file s'.locks := by
  cases hmove with
  | tick | resume | suspend | call | park | giveUp | fail | wake | cancel => exact h
  | released | change | close => exact h.unset
  | taken ofd exclusive hfree => exact h.set hfree
  | finish parks f ofd op t r hrunning hpc hchanges hsys => exact h.sysFlock hsys

/-- **Parking is not seen.**  A run of the thread is a run in which each fiber waits for its locks
like a thread of its own: the same locks are held, the same calls have not returned, and those that
have gave the same results in the same order; an exclusive lock is the only one on its file. -/
theorem flock_refines {as : List Action} {s : State} (h : runFrom (step file) init as = some s) :
    (∃ bs, runFrom (Spec.step file) init.spec bs = some s.spec) ∧ Exclusive file s.locks := by
  refine ⟨refines_of_step (step file) State.spec (fun _ _ _ hstep => spec_step (move_of_step hstep)) h,
    invariant_of_run (step file) (I := fun u => Exclusive file u.locks)
      (fun _ _ _ hu hstep => hu.move (move_of_step hstep)) ?_ h⟩
  intro o held o' held' ho
  cases ho

/-- Fiber 0 has locked a file and is suspended; fiber 1 asks for the same file. -/
def twoSessions : List Action :=
  [.resume 0, .call 10 lockEx Park.parkingSite, .attempt true, .suspend, .resume 1,
    .call 11 lockEx Park.parkingSite, .attempt true]

def oneFile : ℕ → ℕ := fun _ => 0

theorem flock_refines_twoSessions :
    ∃ s, runFrom (step oneFile) init twoSessions = some s ∧ s.log = [⟨0, 10, lockEx, .ok⟩] ∧
      (∃ bs, runFrom (Spec.step oneFile) init.spec bs = some s.spec) ∧
      Exclusive oneFile s.locks := by
  obtain ⟨s, hrun, hlog⟩ : ∃ s, runFrom (step oneFile) init twoSessions = some s ∧
      s.log = [⟨0, 10, lockEx, .ok⟩] := ⟨_, rfl, rfl⟩
  exact ⟨s, hrun, hlog, flock_refines hrun⟩

/-! ## The thread goes on -/

/-- Nothing that makes the thread wait: a call that may wait may park, a sleep suspends the fiber,
and no fiber is cancelled in its wait. -/
def Parks : Action → Prop
  | .call _ op site => blocking op = true → mayPark site "flock" = true
  | .attempt parks => parks = true
  | .cancel _ => False
  | _ => True

/-- A system call is made by the fiber that runs, and does not wait. -/
structure Serving (s : State) : Prop where
  inside : ∀ f, (s.pc f).inside.isSome = true → s.running = some f
  awake : ∀ f w due, s.pc f = .parked w due → s.running ≠ some f
  quick : ∀ f ofd op, s.pc f = .kernel ofd op → blocking op = false

lemma serving_init : Serving init :=
  ⟨fun _ h => (by cases h), fun _ _ _ h => (by cases h), fun _ _ _ h => (by cases h)⟩

/-- The fiber that runs, or is woken, goes to another place. -/
lemma Serving.goto {s s' : State} {f : ℕ} {p : Pc} (h : Serving s)
    (hpc : s'.pc = Function.update s.pc f p) (hrunning : s.running = some f ∨ s.running = none)
    (hinside : p.inside.isSome = true → s'.running = some f)
    (hawake : ∀ w due, p = .parked w due → s'.running = none)
    (hother : s'.running = none ∨ s'.running = some f)
    (hquick : ∀ ofd op, p = .kernel ofd op → blocking op = false) : Serving s' := by
  refine ⟨fun g hg => ?_, fun g w due hg => ?_, fun g ofd op hg => ?_⟩
  all_goals
    rw [hpc] at hg
    by_cases hgf : g = f
  · subst hgf
    rw [Function.update_self] at hg
    exact hinside hg
  · rw [Function.update_of_ne hgf] at hg
    have hg := h.inside g hg
    rcases hrunning with hf | hnone
    · exact absurd (Option.some.inj (hg.symm.trans hf)) hgf
    · rw [hnone] at hg
      cases hg
  · subst hgf
    rw [Function.update_self] at hg
    simp [hawake w due hg]
  · rcases hother with hs | hs <;> rw [hs]
    · exact fun hnone => by cases hnone
    · exact fun hsome => hgf (Option.some.inj hsome).symm
  · subst hgf
    rw [Function.update_self] at hg
    exact hquick ofd op hg
  · rw [Function.update_of_ne hgf] at hg
    exact h.quick g ofd op hg

lemma Serving.move {s s' : State} {a : Action} (h : Serving s) (ha : Parks a)
    (hmove : Move file s a s') : Serving s' := by
  cases hmove with
  | tick | released | taken | change | close => exact ⟨h.inside, h.awake, h.quick⟩
  | resume f hrunning hpc =>
      refine ⟨fun g hg => ?_, fun g w due hg => ?_, h.quick⟩
      · have hg := h.inside g hg
        rw [hrunning] at hg
        cases hg
      · rintro hsome
        obtain rfl := Option.some.inj hsome
        rw [hpc] at hg
        cases hg
  | suspend f hrunning hpc =>
      refine ⟨fun g hg => ?_, fun g w due hg hnone => (by cases hnone), h.quick⟩
      obtain rfl := Option.some.inj (hrunning.symm.trans (h.inside g hg))
      rw [hpc] at hg
      cases hg
  | call f ofd op site hrunning hpc =>
      refine h.goto rfl (.inl hrunning) (fun _ => hrunning) ?_ (.inr hrunning) ?_
      · intro w due hw
        unfold ignisParkFlock at hw
        split_ifs at hw
      · intro ofd' op' hop
        unfold ignisParkFlock at hop
        split_ifs at hop with hmay
        obtain ⟨-, rfl⟩ : ofd = ofd' ∧ op = op' := by simpa using hop
        by_contra hblocking
        simp only [Bool.not_eq_false] at hblocking
        exact hmay (by simp [ha hblocking, hblocking])
  | park f w t hrunning hpc hbusy =>
      exact h.goto rfl (.inl hrunning) (fun hin => (by cases hin)) (fun _ _ _ => rfl) (.inl rfl)
        (fun _ _ hop => (by cases hop))
  | giveUp => cases ha
  | finish parks f ofd op t r hrunning =>
      exact h.goto rfl (.inl hrunning) (fun hin => (by cases hin)) (fun _ _ hw => (by cases hw))
        (.inr hrunning) (fun _ _ hop => (by cases hop))
  | fail errno f ofd op hrunning =>
      exact h.goto rfl (.inl hrunning) (fun hin => (by cases hin)) (fun _ _ hw => (by cases hw))
        (.inr hrunning) (fun _ _ hop => (by cases hop))
  | wake f due w hrunning =>
      exact h.goto rfl (.inr hrunning) (fun _ => rfl) (fun _ _ hw => (by cases hw)) (.inr rfl)
        (fun _ _ hop => (by cases hop))
  | cancel => exact ha.elim

lemma blocking_or_lockNb (op : BitVec 32) : blocking (op ||| lockNb) = false := by
  have hnb : (op ||| lockNb) &&& lockNb = lockNb := by
    ext i hi
    simp only [BitVec.getElem_and, BitVec.getElem_or]
    cases op[i] <;> cases lockNb[i] <;> rfl
  have hne : lockNb ≠ 0#32 := by decide
  simp [blocking, hnb, hne]

/-- A lock that had to be changed has been given up. -/
lemma changes_unset (t : Table) (ofd : ℕ) (op : BitVec 32) :
    changes (t.unset ofd) ofd op = false := by
  unfold changes
  rw [OrdMap.get?_unset, if_pos rfl]
  split
  · next hsome => cases hsome
  · rfl

/-- The system call returns, or the fiber is suspended. -/
lemma leaves_attempt (file : ℕ → ℕ) {s : State} {f ofd : ℕ} {op : BitVec 32} (h : Serving s)
    (hpc : (s.pc f).inside = some (ofd, op)) (hchanges : changes s.locks ofd op = false) :
    ∃ s', step file s (.attempt true) = some s' ∧ (∀ g, g ≠ f → s'.pc g = s.pc g) ∧
      (s'.running = none ∨ s'.running = some f ∧ s'.pc f = .user) := by
  have hrunning : s.running = some f := h.inside f (by rw [hpc]; rfl)
  have hstep : step file s (.attempt true) = attempt file s f true (s.pc f) := by
    simp [step, hrunning, fiberStep, hpc, hchanges]
  rw [hstep]
  cases hf : s.pc f with
  | user | parked => simp [hf, Pc.inside] at hpc
  | kernel ofd' op' =>
      obtain ⟨⟨t, r⟩, hsys⟩ := Option.isSome_iff_exists.mp
        (sysFlock_isSome file s.locks ofd' (h.quick f ofd' op' hf))
      refine ⟨s.finish f ofd' op' t r, by simp [attempt, hsys], fun g hg => ?_, .inr ⟨hrunning, ?_⟩⟩
      · exact Function.update_of_ne hg _ _
      · exact Function.update_self ..
  | trying w =>
      obtain ⟨⟨t, r⟩, hsys⟩ := Option.isSome_iff_exists.mp
        (sysFlock_isSome file s.locks w.ofd (blocking_or_lockNb w.op))
      by_cases hr : r = .wouldBlock
      · subst hr
        refine ⟨{ s.goto f (.parked w (s.now + w.waitUs)) with running := none },
          by simp [attempt, hsys], fun g hg => ?_, .inl rfl⟩
        exact Function.update_of_ne hg _ _
      · refine ⟨s.finish f w.ofd w.op t r, ?_, fun g hg => ?_, .inr ⟨hrunning, ?_⟩⟩
        · cases r with
          | wouldBlock => exact absurd rfl hr
          | ok | error => simp [attempt, hsys]
        · exact Function.update_of_ne hg _ _
        · exact Function.update_self ..

lemma leaves (file : ℕ → ℕ) {s : State} {f ofd : ℕ} {op : BitVec 32} (h : Serving s)
    (hpc : (s.pc f).inside = some (ofd, op)) :
    ∃ bs s', bs.length ≤ 2 ∧ (∀ b ∈ bs, b = .change ∨ b = .attempt true) ∧
      runFrom (step file) s bs = some s' ∧ (∀ g, g ≠ f → s'.pc g = s.pc g) ∧
      (s'.running = none ∨ s'.running = some f ∧ s'.pc f = .user) := by
  cases hchanges : changes s.locks ofd op with
  | false =>
      obtain ⟨s', hstep, hothers, hleft⟩ := leaves_attempt file h hpc hchanges
      exact ⟨[.attempt true], s', by simp, by simp, by simp [runFrom, hstep], hothers, hleft⟩
  | true =>
      have hrunning : s.running = some f := h.inside f (by rw [hpc]; rfl)
      have hchange : step file s .change = some { s with locks := s.locks.unset ofd } := by
        simp [step, hrunning, fiberStep, hpc, hchanges]
      have hserving : Serving { s with locks := s.locks.unset ofd } :=
        ⟨h.inside, h.awake, h.quick⟩
      obtain ⟨s', hstep, hothers, hleft⟩ := leaves_attempt file hserving hpc
        (changes_unset s.locks ofd op)
      exact ⟨[.change, .attempt true], s', by simp, by simp, by simp [runFrom, hchange, hstep],
        hothers, hleft⟩

/-- **Whoever holds a lock gets the thread.**  While every fiber that has to wait is suspended, any
fiber that is in its own code, the holder of whatever lock among them, is at most four steps from
going on: what is left of a system call, the suspension of the fiber that has the thread, and its
own resumption.  The suspension is a step of the fiber that runs: nobody takes the thread away. -/
theorem flock_serves {as : List Action} {s : State} {g : ℕ}
    (h : runFrom (step file) init as = some s)
    (hparks : Along (step file) (fun _ a => Parks a) init as)
    (hg : s.pc g = .user) :
    ∃ bs s', bs.length ≤ 4 ∧
      (∀ b ∈ bs, b = .change ∨ b = .attempt true ∨ b = .suspend ∨ b = .resume g) ∧
      runFrom (step file) s bs = some s' ∧ s'.running = some g ∧ s'.pc g = .user := by
  have hserving : Serving s := invariant_of_step (step file) (I := Serving)
    (fun _ _ _ hu ha hstep => hu.move ha (move_of_step hstep)) serving_init hparks h
  have hresume (u : State) (hnone : u.running = none) (hpc : u.pc g = .user) :
      step file u (.resume g) = some { u with running := some g } := by
    simp [step, hnone, loopStep, hpc]
  have hsuspend (u : State) (f : ℕ) (hsome : u.running = some f) (hpc : u.pc f = .user) :
      step file u .suspend = some { u with running := none } := by
    simp [step, hsome, fiberStep, hpc]
  cases hrunning : s.running with
  | none =>
      exact ⟨[.resume g], { s with running := some g }, by simp, by simp,
        by simp [runFrom, hresume s hrunning hg], rfl, hg⟩
  | some f =>
      by_cases hfg : f = g
      · subst hfg
        exact ⟨[], s, by simp, by simp, rfl, hrunning, hg⟩
      cases hinside : (s.pc f).inside with
      | none =>
          have hpc : s.pc f = .user := by
            cases hf : s.pc f with
            | user => rfl
            | parked w due => exact absurd hrunning (hserving.awake f w due hf)
            | trying | kernel => simp [hf, Pc.inside] at hinside
          refine ⟨[.suspend, .resume g], { s with running := some g }, by simp, by simp, ?_, rfl,
            hg⟩
          simp [runFrom, hsuspend s f hrunning hpc, hresume { s with running := none } rfl hg]
      | some c =>
          obtain ⟨bs, u, hlength, hbs, hrun, hothers, hleft⟩ :=
            leaves file hserving hinside
          have hgu : u.pc g = .user := (hothers g (Ne.symm hfg)).trans hg
          have hkinds : ∀ b ∈ bs, b = .change ∨ b = .attempt true ∨ b = .suspend ∨ b = .resume g :=
            fun b hb => (hbs b hb).imp_right .inl
          rcases hleft with hnone | ⟨hsome, hpc⟩
          · have hlast : runFrom (step file) u [.resume g] = some { u with running := some g } := by
              simp [runFrom, hresume u hnone hgu]
            refine ⟨bs ++ [.resume g], { u with running := some g }, ?_, ?_,
              runFrom_append (step file) hrun hlast, rfl, hgu⟩
            · rw [List.length_append, List.length_singleton]
              omega
            · rintro b hb
              rcases List.mem_append.mp hb with hb | hb
              · exact hkinds b hb
              · exact .inr (.inr (.inr (List.mem_singleton.mp hb)))
          · have hlast : runFrom (step file) u [.suspend, .resume g]
                = some { u with running := some g } := by
              simp [runFrom, hsuspend u f hsome hpc, hresume { u with running := none } rfl hgu]
            refine ⟨bs ++ [.suspend, .resume g], { u with running := some g }, ?_, ?_,
              runFrom_append (step file) hrun hlast, rfl, hgu⟩
            · rw [List.length_append]
              simp only [List.length_cons, List.length_nil]
              omega
            · rintro b hb
              rcases List.mem_append.mp hb with hb | hb
              · exact hkinds b hb
              · exact .inr (.inr (by simpa using hb))

theorem flock_serves_twoSessions :
    ∃ s, runFrom (step oneFile) init twoSessions = some s ∧
      s.pc 1 = .parked ⟨11, lockEx, 200, 0, 0⟩ 200 ∧ ∃ bs s', bs.length ≤ 4 ∧
        (∀ b ∈ bs, b = .change ∨ b = .attempt true ∨ b = .suspend ∨ b = .resume 0) ∧
        runFrom (step oneFile) s bs = some s' ∧ s'.running = some 0 ∧ s'.pc 0 = .user := by
  obtain ⟨s, hrun, hpc, hparked⟩ : ∃ s, runFrom (step oneFile) init twoSessions = some s ∧
      s.pc 0 = .user ∧ s.pc 1 = .parked ⟨11, lockEx, 200, 0, 0⟩ 200 := ⟨_, rfl, rfl, rfl⟩
  have hparks : ∀ a ∈ twoSessions, Parks a := by
    simp [twoSessions, Parks, Park.mayPark, Park.parkingSite]
  exact ⟨s, hrun, hparked, flock_serves hrun (along_of_forall _ hparks init) hpc⟩

/-! ## The thread waits for itself -/

/-- The thread is in `flock(ofd, op)` and does not come back while `o` is locked. -/
structure WaitsFor (file : ℕ → ℕ) (s : State) (f ofd : ℕ) (op : BitVec 32) (o : ℕ) : Prop where
  running : s.running = some f
  pc : s.pc f = .kernel ofd op
  waits : op &&& lockNb = 0
  other : o ≠ ofd ∧ file o = file ofd
  inTheWay : ∃ exclusive held, translate op = some (.lock exclusive) ∧
    s.locks.get? o = some held ∧ (held || exclusive) = true

lemma WaitsFor.sysFlock {s : State} {f ofd o : ℕ} {op : BitVec 32}
    (h : WaitsFor file s f ofd op o) : sysFlock file s.locks ofd op = none := by
  obtain ⟨exclusive, held, hcmd, ho, hway⟩ := h.inTheWay
  have hconflict : conflicts file s.locks ofd exclusive = true := by
    refine List.any_eq_true.mpr ⟨(o, held), OrdMap.mem_entries_iff.mpr ho, ?_⟩
    simp only [h.other.2, hway, Bool.and_true, beq_self_eq_true, bne_iff_ne]
    exact h.other.1
  simp [Flock.sysFlock, hcmd, hconflict, h.waits]

/-- Another process does nothing to the lock, and no signal interrupts the call. -/
def Leaves (o : ℕ) : Action → Prop
  | .other o' _ => o' ≠ o
  | .fail _ => False
  | _ => True

lemma WaitsFor.move {s s' : State} {a : Action} {f ofd o : ℕ} {op : BitVec 32}
    (h : WaitsFor file s f ofd op o) (ha : Leaves o a) (hmove : Move file s a s') :
    WaitsFor file s' f ofd op o ∧ s'.pc = s.pc ∧ s'.log = s.log := by
  obtain ⟨hrunning, hpc, hwaits, hother, exclusive, held, hcmd, ho, hway⟩ := h
  have hself {g : ℕ} (hg : s.running = some g) : g = f :=
    Option.some.inj (hg.symm.trans hrunning)
  cases hmove with
  | tick => exact ⟨⟨hrunning, hpc, hwaits, hother, exclusive, held, hcmd, ho, hway⟩, rfl, rfl⟩
  | released o' =>
      refine ⟨⟨hrunning, hpc, hwaits, hother, exclusive, held, hcmd, ?_, hway⟩, rfl, rfl⟩
      rwa [OrdMap.get?_unset, if_neg (Ne.symm ha)]
  | taken o' =>
      refine ⟨⟨hrunning, hpc, hwaits, hother, exclusive, held, hcmd, ?_, hway⟩, rfl, rfl⟩
      rwa [OrdMap.get?_set, if_neg (Ne.symm ha)]
  | resume g hnone | wake g due w hnone | cancel g due w hnone =>
      rw [hrunning] at hnone
      cases hnone
  | suspend g hg hg' | call g ofd' op' site hg hg' | close g ofd' hg hg' | park g w t hg hg'
  | giveUp g w t hg hg' =>
      obtain rfl := hself hg
      rw [hpc] at hg'
      cases hg'
  | change g ofd' op' hg hin =>
      obtain rfl := hself hg
      obtain ⟨rfl, rfl⟩ : ofd = ofd' ∧ op = op' := by simpa [hpc, Pc.inside] using hin
      refine ⟨⟨hrunning, hpc, hwaits, hother, exclusive, held, hcmd, ?_, hway⟩, rfl, rfl⟩
      rwa [OrdMap.get?_unset, if_neg hother.1]
  | finish parks g ofd' op' t r hg hin hchanges hsys =>
      obtain rfl := hself hg
      obtain ⟨rfl, rfl⟩ : ofd = ofd' ∧ op = op' := by simpa [hpc, Pc.inside] using hin
      have hnone := WaitsFor.sysFlock (s := s)
        ⟨hrunning, hpc, hwaits, hother, exclusive, held, hcmd, ho, hway⟩
      rw [hnone] at hsys
      cases hsys
  | fail => exact ha.elim

/-- **A thread that waits for its own fiber waits for good.**  Once a fiber is in `flock` itself,
for a lock that is held through a descriptor of its own thread, nothing on the thread happens any
more: no fiber goes on and no call returns, for as long as nobody else takes the lock away. -/
theorem flock_deadlock {as : List Action} {s s' : State} {f ofd o : ℕ} {op : BitVec 32}
    (h : WaitsFor file s f ofd op o) (has : ∀ a ∈ as, Leaves o a)
    (hrun : runFrom (step file) s as = some s') :
    WaitsFor file s' f ofd op o ∧ s'.pc = s.pc ∧ s'.log = s.log := by
  have halong : Along (step file) (fun _ a => Leaves o a) s as := along_of_forall (step file) has s
  refine invariant_of_step (step file)
    (I := fun u => WaitsFor file u f ofd op o ∧ u.pc = s.pc ∧ u.log = s.log)
    ?_ ⟨h, rfl, rfl⟩ halong hrun
  rintro u a u' ⟨hu, hpc, hlog⟩ ha hstep
  obtain ⟨hu', hpc', hlog'⟩ := hu.move ha (move_of_step hstep)
  exact ⟨hu', hpc'.trans hpc, hlog'.trans hlog⟩

/-- The second request is cancelled while it waits, and the file stays locked. -/
theorem flock_deadlock_cancelled :
    ∃ s s', runFrom (step oneFile) init (twoSessions ++ [.cancel 1]) = some s ∧
      runFrom (step oneFile) s [.tick, .tick] = some s' ∧
      WaitsFor oneFile s' 1 11 lockEx 10 ∧ s'.pc = s.pc ∧ s'.log = s.log := by
  obtain ⟨s, hrun, hrunning, hpc, hlock⟩ :
      ∃ s, runFrom (step oneFile) init (twoSessions ++ [.cancel 1]) = some s ∧
        s.running = some 1 ∧ s.pc 1 = .kernel 11 lockEx ∧ s.locks.get? 10 = some true :=
    ⟨_, rfl, rfl, rfl, rfl⟩
  have hwaits : WaitsFor oneFile s 1 11 lockEx 10 :=
    ⟨hrunning, hpc, by decide, ⟨by decide, rfl⟩, true, true, by decide, hlock, rfl⟩
  have hlater :
      runFrom (step oneFile) s [.tick, .tick] = some { s with now := s.now + 1 + 1 } := rfl
  exact ⟨s, _, hrun, hlater, flock_deadlock hwaits (by simp [Leaves]) hlater⟩

/-! ## How often a fiber asks -/

/-- The sleep after `n` others. -/
def backoff : ℕ → ℕ
  | 0 => flockRetryFirstUs
  | n + 1 => min (backoff n * 2) flockRetryMaxUs

/-- What the first `n` sleeps take. -/
def sleptUs : ℕ → ℕ
  | 0 => 0
  | n + 1 => sleptUs n + backoff n

lemma backoff_le_max (n : ℕ) : backoff n ≤ flockRetryMaxUs := by
  cases n with
  | zero => decide
  | succ n => exact min_le_right _ _

/-- A sleep is at most as long as all before it, and the first. -/
lemma backoff_le_sleptUs (n : ℕ) : backoff n ≤ sleptUs n + flockRetryFirstUs := by
  induction n with
  | zero => exact le_rfl
  | succ n ih =>
      have hdouble : backoff (n + 1) ≤ backoff n * 2 := min_le_left _ _
      simp only [sleptUs]
      omega

lemma backoff_of_seven_le {n : ℕ} (hn : 7 ≤ n) : backoff n = flockRetryMaxUs := by
  induction n, hn using Nat.le_induction with
  | base => decide
  | succ n hn ih =>
      rw [backoff, ih]
      decide

/-- The first seven sleeps fall short of `n` of the longest kind by 114.6 ms. -/
lemma sleptUs_lower (n : ℕ) : flockRetryMaxUs * n ≤ sleptUs n + 114600 := by
  induction n with
  | zero => exact Nat.zero_le _
  | succ n ih =>
      by_cases hn : 7 ≤ n
      · simp only [sleptUs, backoff_of_seven_le hn]
        simp only [flockRetryMaxUs] at ih ⊢
        omega
      · have hfew : ∀ m < 7, flockRetryMaxUs * (m + 1) ≤ sleptUs (m + 1) + 114600 := by decide
        exact hfew n (by omega)

/-- How a call that waits stands. -/
def Polling (now : ℕ) : Pc → Prop
  | .trying w => w.waitUs = backoff w.slept ∧ w.since + sleptUs w.slept ≤ now
  | .parked w due =>
      w.waitUs = backoff w.slept ∧ w.since + sleptUs (w.slept + 1) ≤ due ∧ due ≤ now + w.waitUs
  | _ => True

lemma Polling.later {now now' : ℕ} {p : Pc} (h : Polling now p) (hle : now ≤ now') :
    Polling now' p := by
  cases p with
  | user | kernel => trivial
  | trying w => exact ⟨h.1, h.2.trans hle⟩
  | parked w due => exact ⟨h.1, h.2.1, h.2.2.trans (by omega)⟩

lemma polling_update {s : State} {now f : ℕ} {p : Pc} (h : ∀ g, Polling now (s.pc g))
    (hp : Polling now p) : ∀ g, Polling now (Function.update s.pc f p g) := by
  intro g
  by_cases hg : g = f
  · subst hg
    rwa [Function.update_self]
  · rw [Function.update_of_ne hg]
    exact h g

lemma polling_move {s s' : State} {a : Action} (h : ∀ g, Polling s.now (s.pc g))
    (hmove : Move file s a s') : ∀ g, Polling s'.now (s'.pc g) := by
  cases hmove with
  | tick => exact fun g => (h g).later (Nat.le_succ _)
  | released | taken | resume | suspend | change | close => exact h
  | call f ofd op site =>
      refine polling_update h ?_
      unfold ignisParkFlock
      split_ifs with hmay
      · exact ⟨rfl, le_rfl⟩
      · trivial
  | park f w t hrunning hpc =>
      have hw := h f
      rw [hpc] at hw
      obtain ⟨hwait, hslept⟩ := hw
      refine polling_update h ⟨hwait, ?_, le_rfl⟩
      simp only [sleptUs, hwait]
      omega
  | giveUp | finish | fail | cancel => exact polling_update h trivial
  | wake f due w hrunning hpc hdue =>
      have hw := h f
      rw [hpc] at hw
      obtain ⟨hwait, hslept, -⟩ := hw
      refine polling_update h ⟨?_, hslept.trans hdue⟩
      simp only [Wait.next, hwait, backoff]

/-- **A lock is asked for about every 20 ms, and sooner at first.**  In the time since its call a
fiber has slept no more than six times and once for each 20 ms.  The sleep it is in ends within
20 ms, and is at most 200 µs longer than all it has waited before. -/
theorem flock_polls {as : List Action} {s : State} {f : ℕ}
    (h : runFrom (step file) init as = some s) :
    (∀ w, s.pc f = .trying w → w.slept ≤ 6 + (s.now - w.since) / flockRetryMaxUs) ∧
      ∀ w due, s.pc f = .parked w due →
        w.slept ≤ 6 + (s.now - w.since) / flockRetryMaxUs ∧ due ≤ s.now + flockRetryMaxUs ∧
          w.waitUs ≤ due - w.waitUs - w.since + flockRetryFirstUs := by
  have hinit : ∀ g, Polling init.now (init.pc g) := fun _ => trivial
  have hpolling : ∀ g, Polling s.now (s.pc g) := invariant_of_run (step file)
    (I := fun u => ∀ g, Polling u.now (u.pc g))
    (fun _ _ _ hu hstep => polling_move hu (move_of_step hstep)) hinit h
  have hcount (w : Wait) (hslept : w.since + sleptUs w.slept ≤ s.now) :
      w.slept ≤ 6 + (s.now - w.since) / flockRetryMaxUs := by
    have hlower := sleptUs_lower w.slept
    simp only [flockRetryMaxUs] at hlower ⊢
    omega
  constructor
  · intro w hw
    have hp := hpolling f
    rw [hw] at hp
    exact hcount w hp.2
  · intro w due hw
    have hp := hpolling f
    rw [hw] at hp
    obtain ⟨hwait, hslept, hdue⟩ := hp
    have hmax := backoff_le_max w.slept
    have hsum := backoff_le_sleptUs w.slept
    simp only [sleptUs] at hslept
    exact ⟨hcount w (by omega), by omega, by omega⟩

theorem flock_polls_twoSessions :
    ∃ s, runFrom (step oneFile) init twoSessions = some s ∧
      ∃ w due, s.pc 1 = .parked w due ∧ w.slept ≤ 6 + (s.now - w.since) / flockRetryMaxUs ∧
        due ≤ s.now + flockRetryMaxUs ∧ w.waitUs ≤ due - w.waitUs - w.since + flockRetryFirstUs := by
  obtain ⟨s, hrun, hparked⟩ : ∃ s, runFrom (step oneFile) init twoSessions = some s ∧
      s.pc 1 = .parked ⟨11, lockEx, 200, 0, 0⟩ 200 := ⟨_, rfl, rfl⟩
  exact ⟨s, hrun, _, _, hparked, (flock_polls hrun).2 _ _ hparked⟩

end Ignis.Flock
