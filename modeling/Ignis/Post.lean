import Mathlib.Logic.Function.Basic
import Ignis.Lib.OrdMap
import Ignis.Lib.StepSystem

/-!
# The request as the SAPI has it

`post.rs`: what `request_parse_body()` finds when it asks the SAPI for the request line and then for
the body.  The bytes are kept per fiber, in `BODIES`; the request line is `SG(request_info)`, of
which a thread has one, and two of its fields are pointers into the `Body` of the fiber that entered
last.

A `CString` is known by the address of its allocation, and no two allocations have the same.  `Owns`
says which strings are still there, so a pointer to any other dangles.

A fiber therefore reads its own line as long as no other request enters or leaves that has a
different one (`request_info_own_iff`), while what `read_post` gives it is always its own.  And
`leave` takes back only two of the three fields that `enter` has set (`no_dangling_iff`).
-/

namespace Ignis.Post

open StepSystem

abbrev Bytes := List UInt8

/-! ## The functions -/

structure CString where
  addr : ℕ
  text : Bytes
  deriving DecidableEq, Repr

/-- `CString::new(text).unwrap_or_default()`: a text with a NUL in it becomes the empty string. -/
def cstring (text : Bytes) : Bytes := if 0 ∈ text then [] else text

/-- `Body`. -/
structure Body where
  bytes : Bytes
  read : ℕ
  contentType : CString
  method : CString
  deriving DecidableEq, Repr

/-- `BODIES` by fiber (0 is `{main}`), and the fields of `SG(request_info)`. -/
structure State where
  bodies : OrdMap ℕ Body
  contentLength : ℕ
  contentType : Option ℕ
  requestMethod : Option ℕ
  /-- The next allocation. -/
  next : ℕ

/-- The embed SAPI starts a thread with no request line. -/
def init : State := ⟨∅, 0, none, none, 0⟩

/-- The body that `enter` builds. -/
def built (s : State) (method contentType bytes : Bytes) : Body :=
  { bytes := bytes, read := 0, contentType := ⟨s.next, cstring contentType⟩,
    method := ⟨s.next + 1, cstring method⟩ }

/-- `enter`, in the fiber `key`.  The body the fiber had before, if any, is dropped. -/
def enter (s : State) (key : ℕ) (method contentType bytes : Bytes) : State :=
  let body := built s method contentType bytes
  { bodies := s.bodies.set key body
    contentLength := bytes.length
    contentType := if contentType.isEmpty then none else some body.contentType.addr
    requestMethod := some body.method.addr
    next := s.next + 2 }

/-- `leave`. -/
def leave (s : State) (key : ℕ) : State :=
  { s with contentType := none, contentLength := 0, bodies := s.bodies.unset key }

/-- `read_post`: the bytes copied into a buffer of `count` bytes. -/
def readPost (s : State) (key count : ℕ) : State × Bytes :=
  match s.bodies.get? key with
  | none => (s, [])
  | some body =>
      let remaining := body.bytes.length - body.read
      let taken := min remaining count
      if taken = 0 then (s, [])
      else
        ({ s with bodies := s.bodies.set key { body with read := body.read + taken } },
          (body.bytes.drop body.read).take taken)

/-! ## What a fiber reads -/

/-- The strings a body keeps alive. -/
def Body.strings (body : Body) : List CString := [body.contentType, body.method]

/-- The string belongs to a body that is still in `BODIES`. -/
def Owns (s : State) (c : CString) : Prop :=
  ∃ key body, s.bodies.get? key = some body ∧ c ∈ body.strings

/-- What the engine reads through a pointer of `SG(request_info)`: nothing if it is null, a text if
it points to a string that is there. -/
def Reads (s : State) : Option ℕ → Option Bytes → Prop
  | none, text => text = none
  | some addr, text => ∃ c, Owns s c ∧ c.addr = addr ∧ text = some c.text

/-! ## Runs -/

/-- A request that has entered and not left. -/
structure Request where
  method : Bytes
  contentType : Bytes
  bytes : Bytes
  /-- What `read_post` has given so far. -/
  given : Bytes
  deriving DecidableEq, Repr

inductive Action where
  | enter (key : ℕ) (method contentType bytes : Bytes)
  | leave (key : ℕ)
  | readPost (key count : ℕ)
  deriving DecidableEq, Repr

/-- The machine with the requests on it.  A request is that of the last `enter` of its fiber. -/
structure Traced where
  state : State
  entered : ℕ → Option Request
  /-- The fiber of the last `enter`. -/
  last : Option ℕ

def start : Traced := ⟨init, fun _ => none, none⟩

def perform (t : Traced) : Action → Traced
  | .enter key method contentType bytes =>
      { state := enter t.state key method contentType bytes
        entered := Function.update t.entered key (some ⟨method, contentType, bytes, []⟩)
        last := some key }
  | .leave key =>
      { t with state := leave t.state key, entered := Function.update t.entered key none }
  | .readPost key count =>
      { t with
        state := (readPost t.state key count).1
        entered := Function.update t.entered key ((t.entered key).map fun r =>
          { r with given := r.given ++ (readPost t.state key count).2 }) }

/-- Any fiber can do any of these at any time. -/
def step (t : Traced) (a : Action) : Option Traced := some (perform t a)

/-! ## The invariant -/

/-- A body is that of its request, read as far as the request has been given it. -/
structure Kept (body : Body) (r : Request) : Prop where
  bytes : body.bytes = r.bytes
  contentType : body.contentType.text = cstring r.contentType
  method : body.method.text = cstring r.method
  read : body.read ≤ body.bytes.length
  given : r.given = r.bytes.take body.read

def Matches : Option Body → Option Request → Prop
  | none, none => True
  | some body, some r => Kept body r
  | _, _ => False

/-- Where `request_method` points to, by the fiber that entered last: to its own method, or into the
void if it has left. -/
def Hooked (s : State) : Option ℕ → Prop
  | none => s.requestMethod = none
  | some key => ∃ addr, s.requestMethod = some addr ∧ addr < s.next ∧
      match s.bodies.get? key with
      | some body => addr = body.method.addr
      | none => ∀ c, Owns s c → c.addr ≠ addr

structure Inv (t : Traced) : Prop where
  matching : ∀ key, Matches (t.state.bodies.get? key) (t.entered key)
  below : ∀ c, Owns t.state c → c.addr < t.state.next
  unique : ∀ key key' body body' c c', t.state.bodies.get? key = some body →
    t.state.bodies.get? key' = some body' → c ∈ body.strings → c' ∈ body'.strings →
    c.addr = c'.addr → key = key' ∧ c = c'
  contentType : ∀ addr, t.state.contentType = some addr →
    ∃ c, Owns t.state c ∧ c.addr = addr
  method : Hooked t.state t.last

lemma inv_start : Inv start where
  matching _ := trivial
  below := by simp [Owns, start, init]
  unique := by simp [start, init]
  contentType := by simp [start, init]
  method := rfl

section Enter

variable (s : State) (key : ℕ) (method contentType bytes : Bytes)

lemma get?_enter (k : ℕ) :
    (enter s key method contentType bytes).bodies.get? k
      = if k = key then some (built s method contentType bytes) else s.bodies.get? k :=
  OrdMap.get?_set _ _ _ _

variable {s key method contentType bytes}

/-- The strings after an `enter` are the two new ones and old ones. -/
lemma owns_enter {c : CString} (h : Owns (enter s key method contentType bytes) c) :
    c = ⟨s.next, cstring contentType⟩ ∨ c = ⟨s.next + 1, cstring method⟩ ∨ Owns s c := by
  obtain ⟨k, body, hbody, hc⟩ := h
  rw [get?_enter] at hbody
  split_ifs at hbody with hk
  · obtain rfl := Option.some.inj hbody
    simpa [Body.strings, built, or_assoc] using Or.inl hc
  · exact .inr (.inr ⟨k, body, hbody, hc⟩)

lemma owns_built {c : CString} (hc : c ∈ (built s method contentType bytes).strings) :
    Owns (enter s key method contentType bytes) c :=
  ⟨key, _, by rw [get?_enter, if_pos rfl], hc⟩

end Enter

section Leave

variable (s : State) (key : ℕ)

lemma get?_leave (k : ℕ) :
    (leave s key).bodies.get? k = if k = key then none else s.bodies.get? k :=
  OrdMap.get?_unset _ _ _

variable {s key}

/-- The strings after a `leave` are those of the other fibers. -/
lemma owns_leave {c : CString} :
    Owns (leave s key) c ↔
      ∃ k body, k ≠ key ∧ s.bodies.get? k = some body ∧ c ∈ body.strings := by
  constructor
  · rintro ⟨k, body, hbody, hc⟩
    rw [get?_leave] at hbody
    split_ifs at hbody with hk
    exact ⟨k, body, hk, hbody, hc⟩
  · rintro ⟨k, body, hk, hbody, hc⟩
    exact ⟨k, body, by rw [get?_leave, if_neg hk, hbody], hc⟩

lemma owns_of_owns_leave {c : CString} (h : Owns (leave s key) c) : Owns s c := by
  obtain ⟨k, body, -, hbody, hc⟩ := owns_leave.mp h
  exact ⟨k, body, hbody, hc⟩

end Leave

section ReadPost

variable (s : State) (key count : ℕ)

/-- What `read_post` copies. -/
lemma readPost_given :
    (readPost s key count).2 = match s.bodies.get? key with
      | none => []
      | some body => (body.bytes.drop body.read).take count := by
  unfold readPost
  cases s.bodies.get? key with
  | none => rfl
  | some body =>
      dsimp only
      split_ifs with htaken
      · rcases Nat.min_eq_zero_iff.mp htaken with hspent | hcount
        · rw [List.drop_eq_nil_of_le (by omega), List.take_nil]
        · rw [hcount, List.take_zero]
      · show (body.bytes.drop body.read).take (min (body.bytes.length - body.read) count) = _
        rw [Nat.min_comm, ← List.length_drop, ← List.take_eq_take_min]

/-- `read_post` moves the reader of its own fiber, and nothing else. -/
lemma get?_readPost (k : ℕ) :
    (readPost s key count).1.bodies.get? k
      = if k = key then (s.bodies.get? key).map fun body =>
          { body with read := body.read + (readPost s key count).2.length }
        else s.bodies.get? k := by
  unfold readPost
  cases hbody : s.bodies.get? key with
  | none =>
      by_cases hk : k = key
      · simp [hk, hbody]
      · simp [hk]
  | some body =>
      dsimp only
      split_ifs with htaken hk
      · simp [hk, hbody]
      · rfl
      · rename_i hk
        subst hk
        simp [List.length_drop]
      · rename_i hk
        simp [OrdMap.get?_set, hk]

lemma readPost_fields :
    (readPost s key count).1.contentLength = s.contentLength ∧
      (readPost s key count).1.contentType = s.contentType ∧
      (readPost s key count).1.requestMethod = s.requestMethod ∧
      (readPost s key count).1.next = s.next := by
  unfold readPost
  cases s.bodies.get? key with
  | none => exact ⟨rfl, rfl, rfl, rfl⟩
  | some body =>
      dsimp only
      split_ifs <;> exact ⟨rfl, rfl, rfl, rfl⟩

/-- The strings stay where they are: each body has the same ones before and after. -/
lemma strings_readPost {k : ℕ} {body : Body}
    (h : (readPost s key count).1.bodies.get? k = some body) :
    ∃ body', s.bodies.get? k = some body' ∧ body.strings = body'.strings ∧
      body.method = body'.method := by
  rw [get?_readPost] at h
  split_ifs at h with hk
  · subst hk
    obtain ⟨body', hbody', rfl⟩ := Option.map_eq_some_iff.mp h
    exact ⟨body', hbody', rfl, rfl⟩
  · exact ⟨body, h, rfl, rfl⟩

lemma owns_readPost {c : CString} : Owns (readPost s key count).1 c ↔ Owns s c := by
  constructor
  · rintro ⟨k, body, hbody, hc⟩
    obtain ⟨body', hbody', hstrings, -⟩ := strings_readPost s key count hbody
    exact ⟨k, body', hbody', hstrings ▸ hc⟩
  · rintro ⟨k, body, hbody, hc⟩
    refine ⟨k, if k = key then
      { body with read := body.read + (readPost s key count).2.length } else body, ?_, ?_⟩
    · rw [get?_readPost]
      split_ifs with hk
      · subst hk
        rw [hbody]
        rfl
      · exact hbody
    · split_ifs
      · exact hc
      · exact hc

end ReadPost

/-! ## Every step keeps the invariant -/

lemma Inv.enter {t : Traced} (hI : Inv t) (key : ℕ) (method contentType bytes : Bytes) :
    Inv (perform t (.enter key method contentType bytes)) where
  matching k := by
    show Matches ((Post.enter t.state key method contentType bytes).bodies.get? k)
      (Function.update t.entered key _ k)
    rw [get?_enter]
    by_cases hk : k = key
    · rw [if_pos hk, hk, Function.update_self]
      exact ⟨rfl, rfl, rfl, Nat.zero_le _, rfl⟩
    · rw [if_neg hk, Function.update_of_ne hk]
      exact hI.matching k
  below c hc := by
    show c.addr < t.state.next + 2
    rcases owns_enter hc with rfl | rfl | hc
    · exact Nat.lt_add_of_pos_right Nat.two_pos
    · exact Nat.lt_add_one _
    · exact Nat.lt_add_right 2 (hI.below c hc)
  unique k k' body body' c c' hbody hbody' hc hc' haddr := by
    -- the new strings are at new addresses, and they are two
    have hold : ∀ k body c, t.state.bodies.get? k = some body → c ∈ body.strings →
        c.addr < t.state.next := fun k body c hbody hc => hI.below c ⟨k, body, hbody, hc⟩
    have hnew : ∀ c ∈ (built t.state method contentType bytes).strings,
        c = ⟨t.state.next, cstring contentType⟩ ∨ c = ⟨t.state.next + 1, cstring method⟩ :=
      fun c hc => by simpa [Body.strings, built] using hc
    replace hbody := (get?_enter ..).symm.trans hbody
    replace hbody' := (get?_enter ..).symm.trans hbody'
    split_ifs at hbody hbody' with hk hk' hk'
    · obtain rfl := Option.some.inj hbody
      obtain rfl := Option.some.inj hbody'
      refine ⟨hk.trans hk'.symm, ?_⟩
      rcases hnew c hc with rfl | rfl <;> rcases hnew c' hc' with rfl | rfl
      · rfl
      · simp at haddr
      · simp at haddr
      · rfl
    · obtain rfl := Option.some.inj hbody
      have := hold k' body' c' hbody' hc'
      rcases hnew c hc with rfl | rfl <;> dsimp only at haddr <;> omega
    · obtain rfl := Option.some.inj hbody'
      have := hold k body c hbody hc
      rcases hnew c' hc' with rfl | rfl <;> dsimp only at haddr <;> omega
    · exact hI.unique k k' body body' c c' hbody hbody' hc hc' haddr
  contentType addr haddr := by
    refine ⟨⟨t.state.next, cstring contentType⟩, owns_built (by simp [Body.strings, built]), ?_⟩
    simp only [perform, Post.enter] at haddr
    split_ifs at haddr
    exact Option.some.inj haddr
  method := by
    refine ⟨t.state.next + 1, rfl, Nat.lt_add_one _, ?_⟩
    show match (Post.enter t.state key method contentType bytes).bodies.get? key with
      | some body => t.state.next + 1 = body.method.addr
      | none => _
    rw [get?_enter, if_pos rfl]
    rfl

lemma Inv.leave {t : Traced} (hI : Inv t) (key : ℕ) : Inv (perform t (.leave key)) where
  matching k := by
    show Matches ((Post.leave t.state key).bodies.get? k) (Function.update t.entered key none k)
    rw [get?_leave]
    by_cases hk : k = key
    · rw [if_pos hk, hk, Function.update_self]
      trivial
    · rw [if_neg hk, Function.update_of_ne hk]
      exact hI.matching k
  below c hc := hI.below c (owns_of_owns_leave hc)
  unique k k' body body' c c' hbody hbody' hc hc' haddr := by
    replace hbody := (get?_leave ..).symm.trans hbody
    replace hbody' := (get?_leave ..).symm.trans hbody'
    split_ifs at hbody hbody'
    exact hI.unique k k' body body' c c' hbody hbody' hc hc' haddr
  contentType addr haddr := by cases haddr
  method := by
    have hmethod := hI.method
    show Hooked (Post.leave t.state key) t.last
    cases hlast : t.last with
    | none =>
        rw [hlast] at hmethod
        exact hmethod
    | some owner =>
        rw [hlast] at hmethod
        obtain ⟨addr, haddr, hlt, howner⟩ := hmethod
        refine ⟨addr, haddr, hlt, ?_⟩
        rw [get?_leave]
        by_cases hkey : owner = key
        · -- the owner itself leaves: nobody else has a string at that address
          rw [if_pos hkey]
          intro c hc hcaddr
          obtain ⟨k, body, hk, hbody, hcmem⟩ := owns_leave.mp hc
          cases hown : t.state.bodies.get? owner with
          | none =>
              rw [hown] at howner
              exact howner c ⟨k, body, hbody, hcmem⟩ hcaddr
          | some mine =>
              rw [hown] at howner
              have hmem : mine.method ∈ mine.strings := by simp [Body.strings]
              obtain ⟨e, -⟩ := hI.unique k owner body mine c mine.method hbody hown hcmem hmem
                (hcaddr.trans howner)
              exact hk (e.trans hkey)
        · rw [if_neg hkey]
          cases hown : t.state.bodies.get? owner with
          | none =>
              rw [hown] at howner
              exact fun c hc => howner c (owns_of_owns_leave hc)
          | some mine =>
              rw [hown] at howner
              exact howner

lemma Kept.read_on {body : Body} {r : Request} (h : Kept body r) (count : ℕ) :
    Kept { body with read := body.read + ((body.bytes.drop body.read).take count).length }
      { r with given := r.given ++ (body.bytes.drop body.read).take count } where
  bytes := h.bytes
  contentType := h.contentType
  method := h.method
  read := by
    have := h.read
    simp only [List.length_take, List.length_drop]
    omega
  given := by
    show r.given ++ _ = r.bytes.take _
    rw [h.given, ← h.bytes, List.take_add, List.length_take, ← List.take_eq_take_min]

lemma Inv.readPost {t : Traced} (hI : Inv t) (key count : ℕ) :
    Inv (perform t (.readPost key count)) where
  matching k := by
    show Matches ((Post.readPost t.state key count).1.bodies.get? k)
      (Function.update t.entered key _ k)
    have hmatch := hI.matching key
    rw [get?_readPost]
    by_cases hk : k = key
    · rw [if_pos hk, hk, Function.update_self, readPost_given]
      cases hbody : t.state.bodies.get? key with
      | none =>
          cases hr : t.entered key with
          | none => trivial
          | some r => simp [Matches, hbody, hr] at hmatch
      | some body =>
          cases hr : t.entered key with
          | none => simp [Matches, hbody, hr] at hmatch
          | some r =>
              rw [hbody, hr] at hmatch
              exact Kept.read_on hmatch count
    · rw [if_neg hk, Function.update_of_ne hk]
      exact hI.matching k
  below c hc := by
    show c.addr < (Post.readPost t.state key count).1.next
    rw [(readPost_fields t.state key count).2.2.2]
    exact hI.below c ((owns_readPost ..).mp hc)
  unique k k' body body' c c' hbody hbody' hc hc' haddr := by
    obtain ⟨b, hb, hstrings, -⟩ := strings_readPost t.state key count hbody
    obtain ⟨b', hb', hstrings', -⟩ := strings_readPost t.state key count hbody'
    exact hI.unique k k' b b' c c' hb hb' (hstrings ▸ hc) (hstrings' ▸ hc') haddr
  contentType addr haddr := by
    replace haddr := (readPost_fields t.state key count).2.1.symm.trans haddr
    obtain ⟨c, hc, hcaddr⟩ := hI.contentType addr haddr
    exact ⟨c, (owns_readPost ..).mpr hc, hcaddr⟩
  method := by
    have hmethod := hI.method
    obtain ⟨-, -, hfield, hnext⟩ := readPost_fields t.state key count
    show Hooked (Post.readPost t.state key count).1 t.last
    cases hlast : t.last with
    | none =>
        rw [hlast] at hmethod
        exact hfield.trans hmethod
    | some owner =>
        rw [hlast] at hmethod
        obtain ⟨addr, haddr, hlt, howner⟩ := hmethod
        refine ⟨addr, hfield.trans haddr, hnext ▸ hlt, ?_⟩
        cases hown : (Post.readPost t.state key count).1.bodies.get? owner with
        | some body =>
            obtain ⟨b, hb, -, hmethods⟩ := strings_readPost t.state key count hown
            rw [hb] at howner
            show addr = body.method.addr
            rw [hmethods]
            exact howner
        | none =>
            have hnone : t.state.bodies.get? owner = none := by
              rw [get?_readPost] at hown
              split_ifs at hown with hk
              · rw [hk]
                exact Option.map_eq_none_iff.mp hown
              · exact hown
            rw [hnone] at howner
            exact fun c hc => howner c ((owns_readPost ..).mp hc)

theorem Inv.step {t t' : Traced} {a : Action} (hI : Inv t) (h : Post.step t a = some t') :
    Inv t' := by
  obtain rfl := Option.some.inj h
  cases a with
  | enter key method contentType bytes => exact hI.enter key method contentType bytes
  | leave key => exact hI.leave key
  | readPost key count => exact hI.readPost key count

theorem inv_of_run {as : List Action} {t : Traced} (h : runFrom step start as = some t) : Inv t :=
  invariant_of_run step (fun _ _ _ hI hs => hI.step hs) inv_start h

/-! ## Pointers that dangle -/

/-- Every pointer that is not null is one to a string of a body in `BODIES`. -/
def NoDangling (s : State) : Prop :=
  ∀ addr, s.contentType = some addr ∨ s.requestMethod = some addr → ∃ c, Owns s c ∧ c.addr = addr

/-- **When no pointer dangles.**  In every state that can be reached, the pointers are good if and
only if nobody has entered yet or the fiber of the last `enter` has not left since. -/
theorem no_dangling_iff {as : List Action} {t : Traced} (h : runFrom step start as = some t) :
    NoDangling t.state ↔ ∀ key, t.last = some key → t.entered key ≠ none := by
  have hI := inv_of_run h
  have hmethod := hI.method
  cases hlast : t.last with
  | none =>
      rw [hlast] at hmethod
      refine iff_of_true (fun addr haddr => ?_) (by simp)
      rcases haddr with haddr | haddr
      · exact hI.contentType addr haddr
      · exact absurd (hmethod.symm.trans haddr) (by simp)
  | some owner =>
      rw [hlast] at hmethod
      obtain ⟨addr, haddr, -, howner⟩ := hmethod
      have hmatch := hI.matching owner
      cases hown : t.state.bodies.get? owner with
      | none =>
          rw [hown] at howner hmatch
          cases hr : t.entered owner with
          | some r => simp [Matches, hr] at hmatch
          | none =>
              refine iff_of_false (fun hgood => ?_) (fun hstays => hstays owner rfl hr)
              obtain ⟨c, hc, hcaddr⟩ := hgood addr (.inr haddr)
              exact howner c hc hcaddr
      | some body =>
          rw [hown] at howner hmatch
          cases hr : t.entered owner with
          | none => simp [Matches, hr] at hmatch
          | some r =>
              refine iff_of_true (fun p hp => ?_) ?_
              · rcases hp with hp | hp
                · exact hI.contentType p hp
                · refine ⟨body.method, ⟨owner, body, hown, by simp [Body.strings]⟩, ?_⟩
                  exact howner.symm.trans (Option.some.inj (haddr.symm.trans hp))
              · rintro key ⟨⟩
                simp [hr]

/-- Another request leaves than the one that entered last. -/
theorem no_dangling_other_left : ∃ t,
    runFrom step start [.enter 6 [80] [] [], .enter 5 [71] [] [], .leave 6] = some t ∧
    NoDangling t.state := by
  have hrun : ∃ t,
      runFrom step start [.enter 6 [80] [] [], .enter 5 [71] [] [], .leave 6] = some t ∧
      t.last = some 5 ∧ (t.entered 5).isSome := ⟨_, rfl, rfl, rfl⟩
  obtain ⟨t, hrun, hlast, hentered⟩ := hrun
  refine ⟨t, hrun, (no_dangling_iff hrun).mpr fun key hkey => ?_⟩
  obtain rfl := Option.some.inj (hlast.symm.trans hkey)
  exact Option.isSome_iff_ne_none.mp hentered

/-- One request enters and leaves: `request_method` still points to the method it had. -/
theorem method_dangles_after_leave : ∃ t,
    runFrom step start [.enter 5 [71] [] [], .leave 5] = some t ∧
    t.state.requestMethod = some 1 ∧ t.state.bodies.keys = [] ∧ ¬ NoDangling t.state := by
  refine ⟨_, rfl, rfl, rfl, fun h => ?_⟩
  obtain ⟨c, ⟨key, body, hbody, -⟩, -⟩ := h 1 (.inr rfl)
  cases hbody

/-! ## Who reads whose line -/

/-- The request line that is read is that of the request `r`; a request without a content type has
the null pointer for it. -/
def ReadsLine (s : State) (r : Request) : Prop :=
  Reads s s.requestMethod (some r.method) ∧
    Reads s s.contentType (if r.contentType = [] then none else some r.contentType) ∧
    s.contentLength = r.bytes.length

/-- Every fiber that has entered and not left reads its own request: its line, and its body in the
order of its bytes and up to the end. -/
def ReadsOwn (t : Traced) : Prop :=
  ∀ key r, t.entered key = some r →
    ReadsLine t.state r ∧ r.given <+: r.bytes ∧
      ∀ count, 0 < count → (readPost t.state key count).2 = [] → r.given = r.bytes

/-- The body is read right whatever the other fibers do. -/
lemma Inv.given {t : Traced} (hI : Inv t) {key : ℕ} {r : Request} (hr : t.entered key = some r) :
    r.given <+: r.bytes ∧
      ∀ count, 0 < count → (Post.readPost t.state key count).2 = [] → r.given = r.bytes := by
  have hmatch := hI.matching key
  rw [hr] at hmatch
  cases hbody : t.state.bodies.get? key with
  | none => simp [Matches, hbody] at hmatch
  | some body =>
      rw [hbody] at hmatch
      have hkept : Kept body r := hmatch
      refine ⟨hkept.given ▸ List.take_prefix _ _, fun count hcount hspent => ?_⟩
      rw [readPost_given, hbody] at hspent
      have hend : body.bytes.length ≤ body.read := by
        rcases List.take_eq_nil_iff.mp hspent with h | h
        · omega
        · exact List.drop_eq_nil_iff.mp h
      rw [hkept.given]
      exact List.take_of_length_le (hkept.bytes ▸ hend)

lemma cstring_eq_iff (text : Bytes) : cstring text = text ↔ 0 ∉ text := by
  unfold cstring
  split_ifs with h
  · refine iff_of_false (fun e => ?_) (not_not_intro h)
    rw [← e] at h
    cases h
  · exact iff_of_true rfl h

/-- A string is read as it is: no other has its address. -/
lemma Inv.reads_owned {t : Traced} (hI : Inv t) {c : CString} (hc : Owns t.state c)
    (text : Option Bytes) : Reads t.state (some c.addr) text ↔ text = some c.text := by
  constructor
  · rintro ⟨c', hc', haddr, rfl⟩
    obtain ⟨key, body, hbody, hmem⟩ := hc
    obtain ⟨key', body', hbody', hmem'⟩ := hc'
    rw [(hI.unique key' key body' body c' c hbody' hbody hmem' hmem haddr).2]
  · rintro rfl
    exact ⟨c, hc, rfl, rfl⟩

/-- After an `enter` the line is that of the request that entered. -/
lemma Inv.readsLine_enter {t : Traced} (hI : Inv t) (key : ℕ) (method contentType bytes : Bytes)
    (r : Request) :
    ReadsLine (Post.enter t.state key method contentType bytes) r ↔
      r.method = cstring method ∧
        (if r.contentType = [] then none else some r.contentType)
          = (if contentType = [] then none else some (cstring contentType)) ∧
        bytes.length = r.bytes.length := by
  have hI' := hI.enter key method contentType bytes
  have howned : ∀ c ∈ (built t.state method contentType bytes).strings,
      Owns (Post.enter t.state key method contentType bytes) c := fun c hc => owns_built hc
  have hmethod := hI'.reads_owned (howned ⟨t.state.next + 1, cstring method⟩
    (by simp [Body.strings, built])) (some r.method)
  have htype := hI'.reads_owned (howned ⟨t.state.next, cstring contentType⟩
    (by simp [Body.strings, built])) (if r.contentType = [] then none else some r.contentType)
  refine and_congr ?_ (and_congr ?_ Iff.rfl)
  · rw [Option.some_inj] at hmethod
    exact hmethod
  · by_cases hempty : contentType = []
    · rw [if_pos hempty]
      subst hempty
      exact Iff.rfl
    · have hpointer : (Post.enter t.state key method contentType bytes).contentType
          = some t.state.next := by
        simp [Post.enter, built, hempty]
      rw [if_neg hempty, hpointer]
      exact htype

/-- The step leaves everybody's line alone.  An `enter` does if its texts have no NUL and all other
requests on the thread have the same line; a `leave` does if the others have neither content type
nor body, and the method is not that of the request that leaves. -/
def Undisturbed (t : Traced) : Action → Prop
  | .enter key method contentType bytes => 0 ∉ method ∧ 0 ∉ contentType ∧
      ∀ other r, other ≠ key → t.entered other = some r →
        r.method = method ∧ r.contentType = contentType ∧ r.bytes.length = bytes.length
  | .leave key => ∀ other r, other ≠ key → t.entered other = some r →
      t.last ≠ some key ∧ r.contentType = [] ∧ r.bytes = []
  | .readPost _ _ => True

/-- What remains to be shown of a step is what becomes of the lines. -/
lemma Inv.readsOwn_iff {t : Traced} (hI : Inv t) :
    ReadsOwn t ↔ ∀ key r, t.entered key = some r → ReadsLine t.state r :=
  ⟨fun h key r hr => (h key r hr).1, fun h key r hr => ⟨h key r hr, hI.given hr⟩⟩

lemma pointer_inj (a b : Bytes) :
    (if a = [] then none else some a) = (if b = [] then none else some b) ↔ a = b := by
  by_cases ha : a = [] <;> by_cases hb : b = [] <;> simp [ha, hb, eq_comm]

/-- The content type of a request that enters is read as it is unless there is a NUL in it. -/
lemma pointer_cstring_iff (text : Bytes) :
    (if text = [] then none else some text)
      = (if text = [] then none else some (cstring text)) ↔ 0 ∉ text := by
  by_cases h : text = []
  · simp [h]
  · rw [if_neg h, if_neg h, Option.some_inj, eq_comm, cstring_eq_iff]

lemma Inv.readsOwn_enter {t : Traced} (hI : Inv t) (key : ℕ) (method contentType bytes : Bytes) :
    ReadsOwn (perform t (.enter key method contentType bytes)) ↔
      Undisturbed t (.enter key method contentType bytes) := by
  rw [(hI.enter key method contentType bytes).readsOwn_iff]
  have hline := hI.readsLine_enter key method contentType bytes
  constructor
  · intro h
    -- what the request that entered reads says that its texts have survived
    obtain ⟨hm, hc, -⟩ := (hline _).mp (h key _ (Function.update_self key _ t.entered))
    have hmethod : 0 ∉ method := (cstring_eq_iff method).mp hm.symm
    have htype : 0 ∉ contentType := (pointer_cstring_iff contentType).mp hc
    refine ⟨hmethod, htype, fun other r hne hr => ?_⟩
    obtain ⟨hm', hc', hl'⟩ := (hline r).mp (h other r ((Function.update_of_ne hne _ _).trans hr))
    rw [(cstring_eq_iff method).mpr hmethod] at hm'
    rw [(cstring_eq_iff contentType).mpr htype] at hc'
    exact ⟨hm', (pointer_inj _ _).mp hc', hl'.symm⟩
  · rintro ⟨hmethod, htype, hothers⟩ k r hr
    refine (hline r).mpr ?_
    rw [(cstring_eq_iff method).mpr hmethod, (cstring_eq_iff contentType).mpr htype, pointer_inj]
    replace hr : Function.update t.entered key (some ⟨method, contentType, bytes, []⟩) k
        = some r := hr
    by_cases hk : k = key
    · rw [hk, Function.update_self] at hr
      obtain rfl := Option.some.inj hr
      exact ⟨rfl, rfl, rfl⟩
    · rw [Function.update_of_ne hk] at hr
      obtain ⟨hm, hc, hl⟩ := hothers k r hk hr
      exact ⟨hm, hc, hl.symm⟩

/-- The method that is read is that of the fiber of the last `enter`. -/
lemma Inv.reads_method {t : Traced} (hI : Inv t) {text : Bytes}
    (h : Reads t.state t.state.requestMethod (some text)) :
    ∃ owner body, t.last = some owner ∧ t.state.bodies.get? owner = some body ∧
      t.state.requestMethod = some body.method.addr ∧ body.method.text = text := by
  have hmethod := hI.method
  cases hlast : t.last with
  | none =>
      rw [hlast] at hmethod
      rw [show t.state.requestMethod = none from hmethod] at h
      cases h
  | some owner =>
      rw [hlast] at hmethod
      obtain ⟨addr, haddr, -, howner⟩ := hmethod
      rw [haddr] at h
      cases hown : t.state.bodies.get? owner with
      | none =>
          rw [hown] at howner
          obtain ⟨c, hc, hcaddr, -⟩ := h
          exact absurd hcaddr (howner c hc)
      | some body =>
          rw [hown] at howner
          replace howner : addr = body.method.addr := howner
          subst howner
          have howned : Owns t.state body.method := ⟨owner, body, hown, by simp [Body.strings]⟩
          refine ⟨owner, body, rfl, hown, haddr, ?_⟩
          exact (Option.some.inj ((hI.reads_owned howned _).mp h)).symm

lemma Inv.readsLine_leave {t : Traced} (hI : Inv t) {key : ℕ} {r : Request}
    (h : ReadsLine t.state r) :
    ReadsLine (Post.leave t.state key) r ↔
      t.last ≠ some key ∧ r.contentType = [] ∧ r.bytes = [] := by
  obtain ⟨owner, body, hlast, hown, hpointer, htext⟩ := hI.reads_method h.1
  have hmem : body.method ∈ body.strings := by simp [Body.strings]
  refine and_congr ?_ (and_congr ?_ ?_)
  · show Reads (Post.leave t.state key) t.state.requestMethod (some r.method) ↔ _
    rw [hpointer, hlast]
    constructor
    · rintro ⟨c, hc, hcaddr, -⟩ howner
      obtain ⟨k, body', hk, hbody', hcmem⟩ := owns_leave.mp hc
      obtain ⟨e, -⟩ := hI.unique k owner body' body c body.method hbody' hown hcmem hmem hcaddr
      exact hk (e.trans (Option.some.inj howner))
    · intro hne
      have hne' : owner ≠ key := fun e => hne (congrArg some e)
      exact ⟨body.method, owns_leave.mpr ⟨owner, body, hne', hown, hmem⟩, rfl, by rw [htext]⟩
  · show (if r.contentType = [] then none else some r.contentType) = none ↔ _
    simp
  · show 0 = r.bytes.length ↔ _
    rw [eq_comm, List.length_eq_zero_iff]

lemma Inv.readsOwn_leave {t : Traced} (hI : Inv t) (h : ReadsOwn t) (key : ℕ) :
    ReadsOwn (perform t (.leave key)) ↔ Undisturbed t (.leave key) := by
  rw [(hI.leave key).readsOwn_iff]
  constructor
  · intro hlines other r hne hr
    exact (hI.readsLine_leave (h other r hr).1).mp
      (hlines other r ((Function.update_of_ne hne _ _).trans hr))
  · intro hok k r hr
    replace hr : Function.update t.entered key none k = some r := hr
    by_cases hk : k = key
    · rw [hk, Function.update_self] at hr
      cases hr
    · rw [Function.update_of_ne hk] at hr
      exact (hI.readsLine_leave (h k r hr).1).mpr (hok k r hk hr)

lemma Inv.readsOwn_readPost {t : Traced} (hI : Inv t) (h : ReadsOwn t) (key count : ℕ) :
    ReadsOwn (perform t (.readPost key count)) := by
  obtain ⟨hlength, htype, hmethod, -⟩ := readPost_fields t.state key count
  have hreads : ∀ pointer text, Reads (Post.readPost t.state key count).1 pointer text ↔
      Reads t.state pointer text := by
    intro pointer text
    cases pointer with
    | none => exact Iff.rfl
    | some addr => simp only [Reads, owns_readPost]
  have hline : ∀ r, ReadsLine (Post.readPost t.state key count).1 r ↔ ReadsLine t.state r := by
    intro r
    simp only [ReadsLine, hreads, hlength, htype, hmethod]
  refine (hI.readPost key count).readsOwn_iff.mpr fun k r hr => (hline r).mpr ?_
  replace hr : Function.update t.entered key ((t.entered key).map fun r =>
      { r with given := r.given ++ (Post.readPost t.state key count).2 }) k = some r := hr
  by_cases hk : k = key
  · rw [hk, Function.update_self] at hr
    obtain ⟨r', hr', rfl⟩ := Option.map_eq_some_iff.mp hr
    exact (h key r' hr').1
  · rw [Function.update_of_ne hk] at hr
    exact (h k r hr).1

/-- **When every fiber reads its own request.**  In every run, each fiber that has entered and not
left reads its own method, content type and content length, and its own body in pieces up to the
end, if and only if every `enter` and every `leave` of the run leaves the lines of the others
alone. -/
theorem request_info_own_iff {as : List Action} {t : Traced}
    (h : runFrom step start as = some t) :
    Always step ReadsOwn start as ↔ Along step Undisturbed start as := by
  refine always_iff_along step (fun _ _ _ hI hs => hI.step hs) (fun t a t' hI hP ht => ?_)
    inv_start (fun _ _ hr => by cases hr) h
  obtain rfl := Option.some.inj ht
  cases a with
  | enter key method contentType bytes => exact hI.readsOwn_enter key method contentType bytes
  | leave key => exact hI.readsOwn_leave hP key
  | readPost key count => exact iff_of_true (hI.readsOwn_readPost hP key count) trivial

/-- Two requests one after the other on two fibers, each read to its end. -/
def oneByOne : List Action :=
  [.enter 5 [80] [97] [1, 2, 3], .readPost 5 2, .readPost 5 2, .readPost 5 2, .leave 5,
    .enter 6 [71] [] [], .readPost 6 2]

theorem request_info_own_one_by_one : ∃ t, runFrom step start oneByOne = some t ∧
    Always step ReadsOwn start oneByOne := by
  refine ⟨_, rfl, (request_info_own_iff rfl).mpr ?_⟩
  simp +contextual [oneByOne, Along, step, Undisturbed, perform, start]

/-- A request enters while another one waits, and the first now reads the line of the second. -/
theorem request_info_of_another : ∃ t,
    runFrom step start [.enter 5 [80] [97] [1], .enter 6 [71] [] []] = some t ∧
    (t.entered 5).map Request.method = some [80] ∧ t.state.contentLength = 0 ∧
    t.state.contentType = none ∧ Reads t.state t.state.requestMethod (some [71]) ∧
    ¬ ReadsOwn t := by
  refine ⟨_, rfl, rfl, rfl, rfl, ⟨⟨3, [71]⟩, ⟨6, _, rfl, by decide⟩, rfl, rfl⟩, fun h => ?_⟩
  obtain ⟨⟨-, -, hlength⟩, -⟩ := h 5 ⟨[80], [97], [1], []⟩ rfl
  cases hlength

end Ignis.Post
