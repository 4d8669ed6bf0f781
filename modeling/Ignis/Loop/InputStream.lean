import Ignis.Loop.Scope

/-!
# `php://input`

A handle of `InputStream` keeps a position and nothing else; the body is looked up in the scope of
the fiber that asks, each time.  `enterRequest()` puts it into the bag of the handler's fiber, and a
child has a bag of its own (`inputBody_startJob`), so to a child the body is empty.  A seek sets the
position to whatever it comes to, and to `substr` a negative one counts from the end.

Beside it stands the file it is meant to be, read-only and in memory (`askFile`).  A run of calls
finds the two alike exactly when every call is sound for the position it starts from (`Sound`).
-/

namespace Ignis

namespace InputStream

/-! ## Calls and answers -/

/-- An `int` of a 64-bit build. -/
abbrev PhpLong := {x : ℤ // -2 ^ 63 ≤ x ∧ x < 2 ^ 63}

inductive Call where
  | streamRead (length : PhpLong)
  | streamSeek (offset whence : PhpLong)
  | streamTell
  | streamEof

inductive Answer where
  | string (s : PhpString)
  | bool (b : Bool)
  | int (n : ℤ)
  | threw (e : Throwable)
  deriving DecidableEq, Repr

def seekSet : ℤ := 0
def seekCur : ℤ := 1
def seekEnd : ℤ := 2

/-! ## The handle -/

/-- `substr` with a length that is not negative. -/
def substr (s : PhpString) (offset length : ℤ) : PhpString :=
  if (s.length : ℤ) < offset then []
  else
    let start := if offset < 0 then (s.length + offset).toNat else offset.toNat
    (s.drop start).take length.toNat

/-- A sum of `int`s outside their range is a float, which the property does not take. -/
def floatToInt : Throwable where
  cls := .typeError
  message := "Cannot assign float to property Ignis\\InputStream::$position of type int"

/-- The assignment of a seek. -/
def landsAt (position target : ℤ) : Answer × ℤ :=
  if -2 ^ 63 ≤ target ∧ target < 2 ^ 63 then (.bool true, target)
  else (.threw floatToInt, position)

/-- The handle, by its `$position`, asked by a fiber that sees `body`. -/
def ask (body : PhpString) (position : ℤ) : Call → Answer × ℤ
  | .streamRead length =>
      if length.val < 1 then (.string [], position)
      else
        let chunk := substr body position length
        (.string chunk, position + chunk.length)
  | .streamSeek offset whence =>
      landsAt position <|
        if whence.val = seekSet then offset.val
        else if whence.val = seekCur then position + offset.val
        else body.length + offset.val
  | .streamTell => (.int position, position)
  | .streamEof => (.bool (body.length ≤ position), position)

/-! ## The file -/

/-- A seek that has nowhere to go fails, and leaves the position. -/
def fileLandsAt (position : ℕ) : Option ℤ → Answer × ℕ
  | some t => if 0 ≤ t ∧ t < 2 ^ 63 then (.bool true, t.toNat) else (.bool false, position)
  | none => (.bool false, position)

/-- A read-only file in memory that holds `body`, at a position of its own. -/
def askFile (body : PhpString) (position : ℕ) : Call → Answer × ℕ
  | .streamRead length =>
      if length.val < 1 then (.string [], position)
      else
        let chunk := (body.drop position).take length.val.toNat
        (.string chunk, position + chunk.length)
  | .streamSeek offset whence =>
      fileLandsAt position <|
        if whence.val = seekSet then some offset.val
        else if whence.val = seekCur then some (position + offset.val)
        else if whence.val = seekEnd then some (body.length + offset.val)
        else none
  | .streamTell => (.int position, position)
  | .streamEof => (.bool (body.length ≤ position), position)

/-! ## Who asks -/

/-- The fiber of the request, or a child of it. -/
inductive Asker where
  | handler
  | child
  deriving DecidableEq, Repr

/-- What `body()` answers to it. -/
def Asker.sees (body : PhpString) : Asker → PhpString
  | .handler => body
  | .child => []

/-- `body()` on a fiber of the loop; `bodies` are those of the requests. -/
def inputBody (bodies : Id → PhpString) (s : Loop.State) (f : FiberId) : PhpString :=
  match (s.scopes f).get? .body with
  | some ⟨.body id, _⟩ => bodies id
  | _ => []

/-- Who asks, by the job of the fiber. -/
def askerOf (j : Job) : Asker :=
  match j.body with
  | .handler _ => .handler
  | .user => .child

/-- A job that starts on a fiber with no body in its scope sees what it is said to see. -/
lemma inputBody_startJob (bodies : Id → PhpString) (s : Loop.State) (f : FiberId) (j : Job)
    (id : Id) (hj : ∀ i, j.body = .handler i → i = id)
    (hnone : (s.scopes f).get? .body = none) :
    inputBody bodies (s.startJob f j) f = (askerOf j).sees (bodies id) := by
  unfold inputBody askerOf
  rw [Loop.startJob_scopes]
  cases hb : j.body with
  | handler i => simp [Job.stores, hb, Asker.sees, hj i hb]
  | user => simp [Job.stores, hb, Asker.sees, hnone]

/-! ## The two side by side -/

/-- The handle and the file after the same calls, and whether all answers were the same. -/
structure Pair where
  position : ℤ
  file : ℕ
  agreed : Bool
  deriving DecidableEq, Repr

def Pair.next (body : PhpString) (p : Pair) (x : Asker × Call) : Pair :=
  let told := ask (x.1.sees body) p.position x.2
  let wanted := askFile body p.file x.2
  ⟨told.2, wanted.2, p.agreed && told.1 == wanted.1⟩

/-- Every call is possible at any time. -/
def step (body : PhpString) (p : Pair) (x : Asker × Call) : Option Pair := some (p.next body x)

def opened : Pair := ⟨0, 0, true⟩

/-- The answers were the same, and the positions are. -/
def Alike (p : Pair) : Prop := p.agreed = true ∧ p.position = p.file

/-- A call that the handle answers as the file does, from a position. -/
def SoundAt (body : PhpString) (position : ℤ) : Asker × Call → Prop
  -- A child is told the truth only where nothing is left.
  | (who, .streamRead length) =>
      who = .handler ∨ length.val < 1 ∨ (body.length : ℤ) ≤ position
  | (who, .streamEof) => who = .handler ∨ (body.length : ℤ) ≤ position
  | (_, .streamTell) => True
  | (who, .streamSeek offset whence) =>
      (whence.val = seekSet ∧ 0 ≤ offset.val) ∨
        (whence.val = seekCur ∧ 0 ≤ position + offset.val ∧ position + offset.val < 2 ^ 63) ∨
        (whence.val = seekEnd ∧ (who = .handler ∨ body = []) ∧ 0 ≤ body.length + offset.val
          ∧ body.length + offset.val < 2 ^ 63)

def Sound (body : PhpString) (p : Pair) (x : Asker × Call) : Prop := SoundAt body p.position x

lemma substr_of_nonneg (s : PhpString) (n : ℕ) (length : ℤ) :
    substr s n length = (s.drop n).take length.toNat := by
  rw [substr]
  split_ifs with hpast hneg
  · rw [List.drop_eq_nil_of_le (by omega), List.take_nil]
  · omega
  · simp

lemma substr_nil (position length : ℤ) : substr [] position length = [] := by
  rw [substr]
  split_ifs <;> simp

/-- From the same position, the handle answers as the file does and goes where it goes. -/
def AsFile (body : PhpString) (n : ℕ) (x : Asker × Call) : Prop :=
  (ask (x.1.sees body) n x.2).1 = (askFile body n x.2).1
    ∧ (ask (x.1.sees body) n x.2).2 = (askFile body n x.2).2

lemma asFile_read_iff (body : PhpString) (n : ℕ) (who : Asker) (length : PhpLong) :
    AsFile body n (who, .streamRead length) ↔ SoundAt body n (who, .streamRead length) := by
  by_cases hlength : length.val < 1
  · simp [AsFile, ask, askFile, SoundAt, hlength]
  · cases who with
    | handler => simp [AsFile, ask, askFile, SoundAt, hlength, Asker.sees, substr_of_nonneg]
    | child =>
        have hpos : length.val.toNat ≠ 0 := by omega
        have htake : (body.drop n).take length.val.toNat = [] ↔ body.length ≤ n := by
          rw [List.take_eq_nil_iff, List.drop_eq_nil_iff]
          simp [hpos]
        simp only [AsFile, ask, askFile, hlength, if_false, Asker.sees, substr_nil, SoundAt,
          Answer.string.injEq, false_or, reduceCtorEq, Nat.cast_le]
        constructor
        · rintro ⟨hanswer, -⟩
          exact htake.mp hanswer.symm
        · intro hle
          rw [htake.mpr hle]
          simp

lemma asFile_eof_iff (body : PhpString) (n : ℕ) (who : Asker) :
    AsFile body n (who, .streamEof) ↔ SoundAt body n (who, .streamEof) := by
  cases who with
  | handler => simp [AsFile, ask, askFile, SoundAt, Asker.sees]
  | child => simp [AsFile, ask, askFile, SoundAt, Asker.sees]

lemma lands_alike_iff {n : ℕ} {target : ℤ} {wanted : Option ℤ} :
    ((landsAt n target).1 = (fileLandsAt n wanted).1
        ∧ (landsAt n target).2 = (fileLandsAt n wanted).2)
      ↔ wanted = some target ∧ 0 ≤ target ∧ target < 2 ^ 63 := by
  cases wanted with
  | none =>
      unfold landsAt fileLandsAt
      split_ifs <;> simp
  | some t =>
      unfold landsAt
      simp only [fileLandsAt, Option.some.injEq]
      split_ifs with hint hfile hfile
      · simp only [true_and]
        omega
      · simp only [Answer.bool.injEq, Bool.true_eq_false, false_and, false_iff]
        omega
      · simp only [false_and, false_iff]
        omega
      · simp only [false_and, false_iff]
        omega

lemma asFile_seek_iff (body : PhpString) (n : ℕ) (who : Asker) (offset whence : PhpLong) :
    AsFile body n (who, .streamSeek offset whence)
      ↔ SoundAt body n (who, .streamSeek offset whence) := by
  have hoffset := offset.property
  refine lands_alike_iff.trans ?_
  unfold SoundAt
  by_cases hset : whence.val = seekSet
  · have hzero : whence.val = 0 := hset
    have hlt : offset.val < 9223372036854775808 := hoffset.2
    simp [seekSet, seekCur, seekEnd, hzero, hlt]
  by_cases hcur : whence.val = seekCur
  · simp [hcur, seekSet, seekCur, seekEnd]
  by_cases hend : whence.val = seekEnd
  · cases who with
    | handler => simp [hend, seekSet, seekCur, seekEnd, Asker.sees]
    | child =>
        simp only [hend, seekSet, seekCur, seekEnd, Asker.sees]
        by_cases hnil : body = []
        · simp [hnil]
        · simp [hnil]
  · simp [hset, hcur, hend]

/-- A call from a pair that is alike leaves it alike exactly when it is sound. -/
lemma alike_step_iff {body : PhpString} {p p' : Pair} {x : Asker × Call} (h : Alike p)
    (hstep : step body p x = some p') : Alike p' ↔ Sound body p x := by
  obtain ⟨position, n, agreed⟩ := p
  obtain ⟨rfl, rfl⟩ : agreed = true ∧ position = n := h
  obtain rfl := Option.some.inj hstep
  obtain ⟨who, call⟩ := x
  have hfile : Alike ⟨(ask (who.sees body) n call).2, (askFile body n call).2,
      true && (ask (who.sees body) n call).1 == (askFile body n call).1⟩
      ↔ AsFile body n (who, call) := by
    simp [Alike, AsFile]
  refine hfile.trans ?_
  cases call with
  | streamRead length => exact asFile_read_iff body n who length
  | streamSeek offset whence => exact asFile_seek_iff body n who offset whence
  | streamTell => exact iff_of_true ⟨rfl, rfl⟩ trivial
  | streamEof => exact asFile_eof_iff body n who

/-- **The handle is the file as long as every call is sound.**  In every run of calls, by the
request's fiber and its children, all answers and positions are those of a read-only file in memory
exactly when the calls are sound: a child reads, and asks for the end, only where nothing is left,
and seeks from it only if there is no body; and a seek has one of the three origins and goes to a
position that is not negative and fits an `int`. -/
theorem input_stream_iff (body : PhpString) (xs : List (Asker × Call)) :
    StepSystem.Always (step body) Alike opened xs
      ↔ StepSystem.Along (step body) (Sound body) opened xs := by
  have hrun := StepSystem.runFrom_total (Pair.next body) opened xs
  exact StepSystem.always_iff_along (step body) (I := fun _ => True) (fun _ _ _ _ _ => trivial)
    (fun _ _ _ _ h hstep => alike_step_iff h hstep) trivial ⟨rfl, rfl⟩ hrun

/-- `$stream->stream_seek(-3)`. -/
def seekBack : Call := .streamSeek ⟨-3, by decide⟩ ⟨0, by decide⟩

/-- `$stream->stream_read(8)`. -/
def readEight : Call := .streamRead ⟨8, by decide⟩

/-- A seek to -3 succeeds, and the next read has the end of the body; and a child reads nothing. -/
theorem negative_seek_succeeds :
    ¬ (∀ body xs, StepSystem.Always (step body) Alike opened xs)
      ∧ ask (bytes "body") 0 seekBack = (.bool true, -3)
      ∧ ask (bytes "body") (-3) readEight = (.string (bytes "ody"), 0)
      ∧ ask (Asker.child.sees (bytes "body")) 0 readEight = (.string [], 0) := by
  refine ⟨fun h => ?_, by decide, by decide, by decide⟩
  have halike := h (bytes "body") [(.handler, seekBack)] [(.handler, seekBack)] ⟨-3, 0, false⟩
    List.prefix_rfl (by rfl)
  exact absurd halike.1 (by decide)

end InputStream

end Ignis
