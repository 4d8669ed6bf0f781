import Mathlib.Logic.Function.Basic
import Ignis.Lib.OrdMap
import Ignis.Lib.StepSystem
import Ignis.Park.Blocking

/-!
# A file lock held across a suspension

`flock` waits in the kernel, and epoll does not take a regular file, so a fiber cannot be suspended
on it.  If the lock is held by another fiber of the thread the thread waits for itself.
`ignis_park_flock` therefore asks with `LOCK_NB`, and parks on a timer between one attempt and the
next.

The first part is the kernel's: who holds a lock, what one call does, and that a lock is changed to
the other kind by giving it up first.  The second part is one PHP thread with its fibers: at most
one of them runs, and while it is in a system call nothing else on the thread does.  Other processes
take and release locks on the same files at any time.
-/

namespace Ignis.Flock

open Park (Site mayPark)

/-! ## The kernel -/

def lockSh : BitVec 32 := 1
def lockEx : BitVec 32 := 2
def lockNb : BitVec 32 := 4
def lockUn : BitVec 32 := 8

inductive Cmd where
  | lock (exclusive : Bool)
  | unlock
  deriving DecidableEq, Repr

/-- What an operation asks for; `none` is `EINVAL`. -/
def translate (op : BitVec 32) : Option Cmd :=
  if op &&& ~~~lockNb = lockSh then some (.lock false)
  else if op &&& ~~~lockNb = lockEx then some (.lock true)
  else if op &&& ~~~lockNb = lockUn then some .unlock
  else none

/-- The locks, by open file description, and whether they are exclusive. -/
abbrev Table := OrdMap ℕ Bool

inductive Result where
  | ok
  | wouldBlock
  | error (errno : ℕ)
  deriving DecidableEq, Repr

def einval : ℕ := 22

/-- Another open file description of the same file has a lock that is in the way. -/
def conflicts (file : ℕ → ℕ) (t : Table) (ofd : ℕ) (exclusive : Bool) : Bool :=
  t.entries.any fun (o, held) => o != ofd && file o == file ofd && (held || exclusive)

/-- The lock that is there is of the other kind: it is given up before the new one is asked for. -/
def changes (t : Table) (ofd : ℕ) (op : BitVec 32) : Bool :=
  match translate op, t.get? ofd with
  | some (.lock exclusive), some held => held != exclusive
  | _, _ => false

/-- `flock(2)`; `none` if it does not return now.  Linux ignores an operation with `LOCK_MAND` and
answers 0; here that bit is an unknown one like any other. -/
def sysFlock (file : ℕ → ℕ) (t : Table) (ofd : ℕ) (op : BitVec 32) : Option (Table × Result) :=
  match translate op with
  | none => some (t, .error einval)
  | some .unlock => some (t.unset ofd, .ok)
  | some (.lock exclusive) =>
      if conflicts file t ofd exclusive then
        if op &&& lockNb = 0 then none else some (t, .wouldBlock)
      else some (t.set ofd exclusive, .ok)

/-- An exclusive lock is the only one on its file. -/
def Exclusive (file : ℕ → ℕ) (t : Table) : Prop :=
  ∀ o held o' held', t.get? o = some held → t.get? o' = some held' → o ≠ o' →
    file o = file o' → held = false ∧ held' = false

/-! ## The handler -/

def flockRetryFirstUs : ℕ := 200
def flockRetryMaxUs : ℕ := 20000

/-- The loop of `ignis_park_flock`. -/
structure Wait where
  ofd : ℕ
  op : BitVec 32
  waitUs : ℕ
  /-- Ghost: when the call was made, and how often it has slept. -/
  since : ℕ
  slept : ℕ
  deriving DecidableEq, Repr

/-- The next time round. -/
def Wait.next (w : Wait) : Wait :=
  { w with waitUs := min (w.waitUs * 2) flockRetryMaxUs, slept := w.slept + 1 }

/-- Where a fiber stands. -/
inductive Pc where
  /-- In its own code, or suspended there. -/
  | user
  /-- About to call `flock(fd, op | LOCK_NB)`. -/
  | trying (w : Wait)
  /-- In `park_sleep`. -/
  | parked (w : Wait) (due : ℕ)
  /-- In `flock(fd, op)`, as the caller gave it. -/
  | kernel (ofd : ℕ) (op : BitVec 32)
  deriving DecidableEq, Repr

/-- The call a fiber has not returned from. -/
def Pc.asked : Pc → Option (ℕ × BitVec 32)
  | .user => none
  | .trying w | .parked w _ => some (w.ofd, w.op)
  | .kernel ofd op => some (ofd, op)

/-- The system call a fiber is in. -/
def Pc.inside : Pc → Option (ℕ × BitVec 32)
  | .user | .parked _ _ => none
  | .trying w => some (w.ofd, w.op)
  | .kernel ofd op => some (ofd, op)

/-- What a call has returned. -/
structure Return where
  fiber : ℕ
  ofd : ℕ
  op : BitVec 32
  result : Result
  deriving DecidableEq, Repr

structure State where
  locks : Table
  pc : ℕ → Pc
  /-- The fiber that has the thread; the loop has it if there is none. -/
  running : Option ℕ
  now : ℕ
  log : List Return

def init : State := ⟨∅, fun _ => .user, none, 0, []⟩

def blocking (op : BitVec 32) : Bool := op &&& lockNb = 0 && op &&& lockUn = 0

/-- `ignis_park_flock`, up to its first system call. -/
def ignisParkFlock (s : State) (ofd : ℕ) (op : BitVec 32) (site : Site) : Pc :=
  if mayPark site "flock" && blocking op then .trying ⟨ofd, op, flockRetryFirstUs, s.now, 0⟩
  else .kernel ofd op

def State.goto (s : State) (f : ℕ) (pc : Pc) : State := { s with pc := Function.update s.pc f pc }

/-- The call of a fiber returns. -/
def State.finish (s : State) (f ofd : ℕ) (op : BitVec 32) (t : Table) (r : Result) : State :=
  { s with
    locks := t, pc := Function.update s.pc f .user, log := s.log ++ [⟨f, ofd, op, r⟩] }

/-! ## Steps -/

inductive Action where
  /-- The loop goes on with a fiber. -/
  | resume (f : ℕ)
  /-- The running fiber gives the thread up, in its own code. -/
  | suspend
  | tick
  | call (ofd : ℕ) (op : BitVec 32) (site : Site)
  /-- The kernel gives up the lock that is to be changed. -/
  | change
  /-- The system call returns; `parks` is whether a sleep that follows suspends the fiber. -/
  | attempt (parks : Bool)
  | fail (errno : ℕ)
  /-- The timer of a parked fiber, or an exception thrown into it. -/
  | wake (f : ℕ)
  | cancel (f : ℕ)
  | close (ofd : ℕ)
  /-- Another process takes a lock, or releases one. -/
  | other (ofd : ℕ) (lock : Option Bool)

/-- What `attempt` does to the fiber that is in the call. -/
def attempt (file : ℕ → ℕ) (s : State) (f : ℕ) (parks : Bool) : Pc → Option State
  | .trying w =>
      match sysFlock file s.locks w.ofd (w.op ||| lockNb) with
      | some (_, .wouldBlock) =>
          if parks then some { s.goto f (.parked w (s.now + w.waitUs)) with running := none }
          else some (s.goto f (.kernel w.ofd w.op))
      | some (t, r) => some (s.finish f w.ofd w.op t r)
      | none => none
  | .kernel ofd op => (sysFlock file s.locks ofd op).map fun (t, r) => s.finish f ofd op t r
  | _ => none

def fiberStep (file : ℕ → ℕ) (s : State) (f : ℕ) : Action → Option State
  | .suspend => if s.pc f = .user then some { s with running := none } else none
  | .call ofd op site =>
      if s.pc f = .user then some (s.goto f (ignisParkFlock s ofd op site)) else none
  | .change =>
      match (s.pc f).inside with
      | some (ofd, op) =>
          if changes s.locks ofd op then some { s with locks := s.locks.unset ofd } else none
      | none => none
  | .attempt parks =>
      match (s.pc f).inside with
      | some (ofd, op) =>
          if changes s.locks ofd op then none else attempt file s f parks (s.pc f)
      | none => none
  | .fail errno =>
      match (s.pc f).inside with
      | some (ofd, op) => some (s.finish f ofd op s.locks (.error errno))
      | none => none
  | .close ofd =>
      if s.pc f = .user then some { s with locks := s.locks.unset ofd } else none
  | _ => none

def loopStep (s : State) : Action → Option State
  | .resume f => if s.pc f = .user then some { s with running := some f } else none
  | .wake f =>
      match s.pc f with
      | .parked w due =>
          if due ≤ s.now then some { s.goto f (.trying w.next) with running := some f } else none
      | _ => none
  | .cancel f =>
      match s.pc f with
      | .parked w _ => some { s.goto f (.kernel w.ofd w.op) with running := some f }
      | _ => none
  | _ => none

def step (file : ℕ → ℕ) (s : State) (a : Action) : Option State :=
  match a with
  | .tick => some { s with now := s.now + 1 }
  | .other ofd none => some { s with locks := s.locks.unset ofd }
  | .other ofd (some exclusive) =>
      if conflicts file s.locks ofd exclusive then none
      else some { s with locks := s.locks.set ofd exclusive }
  | a =>
      match s.running with
      | some f => fiberStep file s f a
      | none => loopStep s a

/-! ## What a step does -/

/-- One step, with what it was possible for. -/
inductive Move (file : ℕ → ℕ) (s : State) : Action → State → Prop
  | tick : Move file s .tick { s with now := s.now + 1 }
  | released (ofd : ℕ) : Move file s (.other ofd none) { s with locks := s.locks.unset ofd }
  | taken (ofd : ℕ) (exclusive : Bool) (hfree : conflicts file s.locks ofd exclusive = false) :
      Move file s (.other ofd (some exclusive)) { s with locks := s.locks.set ofd exclusive }
  | resume (f : ℕ) (hrunning : s.running = none) (hpc : s.pc f = .user) :
      Move file s (.resume f) { s with running := some f }
  | suspend (f : ℕ) (hrunning : s.running = some f) (hpc : s.pc f = .user) :
      Move file s .suspend { s with running := none }
  | call (f ofd : ℕ) (op : BitVec 32) (site : Site) (hrunning : s.running = some f)
      (hpc : s.pc f = .user) :
      Move file s (.call ofd op site) (s.goto f (ignisParkFlock s ofd op site))
  | change (f ofd : ℕ) (op : BitVec 32) (hrunning : s.running = some f)
      (hpc : (s.pc f).inside = some (ofd, op)) (hchanges : changes s.locks ofd op = true) :
      Move file s .change { s with locks := s.locks.unset ofd }
  | park (f : ℕ) (w : Wait) (t : Table) (hrunning : s.running = some f) (hpc : s.pc f = .trying w)
      (hbusy : sysFlock file s.locks w.ofd (w.op ||| lockNb) = some (t, .wouldBlock)) :
      Move file s (.attempt true)
        { s.goto f (.parked w (s.now + w.waitUs)) with running := none }
  | giveUp (f : ℕ) (w : Wait) (t : Table) (hrunning : s.running = some f)
      (hpc : s.pc f = .trying w)
      (hbusy : sysFlock file s.locks w.ofd (w.op ||| lockNb) = some (t, .wouldBlock)) :
      Move file s (.attempt false) (s.goto f (.kernel w.ofd w.op))
  | finish (parks : Bool) (f ofd : ℕ) (op : BitVec 32) (t : Table) (r : Result)
      (hrunning : s.running = some f) (hpc : (s.pc f).inside = some (ofd, op))
      (hchanges : changes s.locks ofd op = false)
      (hsys : sysFlock file s.locks ofd op = some (t, r)) :
      Move file s (.attempt parks) (s.finish f ofd op t r)
  | fail (errno f ofd : ℕ) (op : BitVec 32) (hrunning : s.running = some f)
      (hpc : (s.pc f).inside = some (ofd, op)) :
      Move file s (.fail errno) (s.finish f ofd op s.locks (.error errno))
  | close (f ofd : ℕ) (hrunning : s.running = some f) (hpc : s.pc f = .user) :
      Move file s (.close ofd) { s with locks := s.locks.unset ofd }
  | wake (f due : ℕ) (w : Wait) (hrunning : s.running = none) (hpc : s.pc f = .parked w due)
      (hdue : due ≤ s.now) :
      Move file s (.wake f) { s.goto f (.trying w.next) with running := some f }
  | cancel (f due : ℕ) (w : Wait) (hrunning : s.running = none) (hpc : s.pc f = .parked w due) :
      Move file s (.cancel f) { s.goto f (.kernel w.ofd w.op) with running := some f }

lemma translate_or_lockNb (op : BitVec 32) : translate (op ||| lockNb) = translate op := by
  have hmask : (op ||| lockNb) &&& ~~~lockNb = op &&& ~~~lockNb := by
    ext i hi
    simp only [BitVec.getElem_and, BitVec.getElem_or, BitVec.getElem_not]
    cases op[i] <;> cases lockNb[i] <;> rfl
  simp only [translate, hmask]

/-- An answer to a call that does not wait is the answer to the one that would. -/
lemma sysFlock_of_nonblocking {file : ℕ → ℕ} {t t' : Table} {ofd : ℕ} {op : BitVec 32} {r : Result}
    (h : sysFlock file t ofd (op ||| lockNb) = some (t', r)) (hr : r ≠ .wouldBlock) :
    sysFlock file t ofd op = some (t', r) := by
  unfold sysFlock at h ⊢
  rw [translate_or_lockNb] at h
  cases hcmd : translate op with
  | none => simpa [hcmd] using h
  | some cmd =>
      cases cmd with
      | unlock => simpa [hcmd] using h
      | lock exclusive =>
          simp only [hcmd] at h ⊢
          split_ifs at h with hconflict hnb
          · exact absurd (Prod.mk.inj (Option.some.inj h)).2.symm hr
          · rwa [if_neg hconflict]

lemma unlock_of_lock {op : BitVec 32} {exclusive : Bool}
    (h : translate op = some (.lock exclusive)) : op &&& lockUn = 0 := by
  have hmask : op &&& lockUn = op &&& ~~~lockNb &&& lockUn := by
    rw [BitVec.and_assoc]
    rfl
  rw [hmask]
  unfold translate at h
  split_ifs at h with hsh hex hun
  · rw [hsh]
    rfl
  · rw [hex]
    rfl
  · cases h

/-- A call that does not wait returns. -/
lemma sysFlock_isSome (file : ℕ → ℕ) (t : Table) (ofd : ℕ) {op : BitVec 32}
    (hop : blocking op = false) : (sysFlock file t ofd op).isSome := by
  unfold sysFlock
  cases hcmd : translate op with
  | none => rfl
  | some cmd =>
      cases cmd with
      | unlock => rfl
      | lock exclusive =>
          have hnb : op &&& lockNb ≠ 0 := by simpa [blocking, unlock_of_lock hcmd] using hop
          simp only [if_neg hnb]
          split_ifs <;> rfl

lemma loop_move {file : ℕ → ℕ} {s s' : State} {a : Action} (hrunning : s.running = none)
    (h : loopStep s a = some s') : Move file s a s' := by
  unfold loopStep at h
  split at h
  · next f =>
      obtain ⟨hpc, hs⟩ := Option.ite_none_right_eq_some.mp h
      obtain rfl := Option.some.inj hs
      exact .resume f hrunning hpc
  · next f =>
      split at h
      · next w due hpc =>
          obtain ⟨hdue, hs⟩ := Option.ite_none_right_eq_some.mp h
          obtain rfl := Option.some.inj hs
          exact .wake f due w hrunning hpc hdue
      · cases h
  · next f =>
      split at h
      · next w due hpc =>
          obtain rfl := Option.some.inj h
          exact .cancel f due w hrunning hpc
      · cases h
  · cases h

lemma attempt_move {file : ℕ → ℕ} {s s' : State} {f ofd : ℕ} {op : BitVec 32} {parks : Bool}
    (hrunning : s.running = some f) (hpc : (s.pc f).inside = some (ofd, op))
    (hchanges : changes s.locks ofd op = false)
    (h : attempt file s f parks (s.pc f) = some s') : Move file s (.attempt parks) s' := by
  cases hf : s.pc f with
  | user | parked => simp [hf, Pc.inside] at hpc
  | kernel ofd' op' =>
      obtain ⟨rfl, rfl⟩ : ofd' = ofd ∧ op' = op := by simpa [hf, Pc.inside] using hpc
      rw [hf] at h
      obtain ⟨⟨t, r⟩, hsys, rfl⟩ := Option.map_eq_some_iff.mp h
      exact .finish parks f ofd' op' t r hrunning hpc hchanges hsys
  | trying w =>
      obtain ⟨rfl, rfl⟩ : w.ofd = ofd ∧ w.op = op := by simpa [hf, Pc.inside] using hpc
      rw [hf] at h
      simp only [attempt] at h
      split at h
      · next t hbusy =>
          cases parks with
          | true =>
              obtain rfl := Option.some.inj h
              exact .park f w t hrunning hf hbusy
          | false =>
              obtain rfl := Option.some.inj h
              exact .giveUp f w t hrunning hf hbusy
      · next t r hnot hsys =>
          obtain rfl := Option.some.inj h
          exact .finish parks f w.ofd w.op t r hrunning hpc hchanges
            (sysFlock_of_nonblocking hsys hnot)
      · cases h

lemma fiber_move {file : ℕ → ℕ} {s s' : State} {f : ℕ} {a : Action} (hrunning : s.running = some f)
    (h : fiberStep file s f a = some s') : Move file s a s' := by
  unfold fiberStep at h
  split at h
  · obtain ⟨hpc, hs⟩ := Option.ite_none_right_eq_some.mp h
    obtain rfl := Option.some.inj hs
    exact .suspend f hrunning hpc
  · next ofd op site =>
      obtain ⟨hpc, hs⟩ := Option.ite_none_right_eq_some.mp h
      obtain rfl := Option.some.inj hs
      exact .call f ofd op site hrunning hpc
  · split at h
    · next ofd op hpc =>
        obtain ⟨hchanges, hs⟩ := Option.ite_none_right_eq_some.mp h
        obtain rfl := Option.some.inj hs
        exact .change f ofd op hrunning hpc hchanges
    · cases h
  · split at h
    · next ofd op hpc =>
        obtain ⟨hchanges, hs⟩ := Option.ite_none_left_eq_some.mp h
        exact attempt_move hrunning hpc (by simpa using hchanges) hs
    · cases h
  · next errno =>
      split at h
      · next ofd op hpc =>
          obtain rfl := Option.some.inj h
          exact .fail errno f ofd op hrunning hpc
      · cases h
  · next ofd =>
      obtain ⟨hpc, hs⟩ := Option.ite_none_right_eq_some.mp h
      obtain rfl := Option.some.inj hs
      exact .close f ofd hrunning hpc
  · cases h

theorem move_of_step {file : ℕ → ℕ} {s s' : State} {a : Action} (h : step file s a = some s') :
    Move file s a s' := by
  unfold step at h
  split at h
  · obtain rfl := Option.some.inj h
    exact .tick
  · next ofd =>
      obtain rfl := Option.some.inj h
      exact .released ofd
  · next ofd exclusive =>
      obtain ⟨hfree, hs⟩ := Option.ite_none_left_eq_some.mp h
      obtain rfl := Option.some.inj hs
      exact .taken ofd exclusive (by simpa using hfree)
  · split at h
    · next f hrunning => exact fiber_move hrunning h
    · next hrunning => exact loop_move hrunning h

end Ignis.Flock
