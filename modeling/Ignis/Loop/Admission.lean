import Mathlib.Algebra.Order.Ring.Int
import Mathlib.Data.List.Nodup
import Ignis.Http.Request

/-!
# Admission control

The part of `Ignis\Loop` that decides which requests hold a slot (ADR-0019): admit up to
`$fiberBudget`, queue behind it as plain data, shed with a `503` past `$queueDepth`.  The queue is
an array read by index: `$queueHead` is the first live position, consumed slots stay until the
array is compacted, and a request whose client went away while it was queued stays in its slot
until `drainQueue()` reads it.

`Admission` holds exactly the statics these functions touch, so that what a run of the loop does to
them can be said once: a request arrives, a cancel is dispatched, or a slot is released.  Beside
the statics it keeps a record of what happened to each request (the fields marked ghost).
-/

namespace Ignis

/-- An admission as it happened: the request, whether an exemption let it in, and
`$inflightRequests` at that moment, before it was counted. -/
structure Admitted where
  id : ℕ
  exempt : Bool
  inflight : ℤ
  deriving DecidableEq, Repr

/-- A `503` as it happened: the request and the live length of the queue at that moment. -/
structure Refused where
  id : ℕ
  queued : ℤ
  deriving DecidableEq, Repr

/-- A request that reached `dispatchRequest()`. -/
structure Arrival where
  id : ℕ
  exempt : Bool
  deriving DecidableEq, Repr

structure Admission where
  fiberBudget : ℤ
  queueDepth : ℤ
  budgetExempt : List PhpString
  inflightRequests : ℤ
  handled : ℕ
  rejected : ℕ
  admittedAfterQueue : ℕ
  queuedPeak : ℤ
  requestQueue : List (ℕ × IgnisRequest)
  queueHead : ℕ
  queued : OrdMap ℕ Unit
  queueCancelled : OrdMap ℕ Unit
  /-- Ghost: the requests handed to `dispatchRequest()`, in order. -/
  arrivals : List Arrival
  /-- Ghost: the admissions, in order. -/
  admissions : List Admitted
  /-- Ghost: the requests answered `503`. -/
  refusals : List Refused
  /-- Ghost: the requests `drainQueue()` read and did not admit. -/
  dropped : List ℕ
  /-- Ghost: the requests for which a cancel was dispatched while they were queued. -/
  cancelledQueued : List ℕ
  /-- Ghost: the requests whose slot was given back. -/
  released : List ℕ

namespace Admission

/-- A fresh loop with the given settings. -/
def boot (fiberBudget queueDepth : ℤ) (budgetExempt : List PhpString) : Admission where
  fiberBudget := fiberBudget
  queueDepth := queueDepth
  budgetExempt := budgetExempt
  inflightRequests := 0
  handled := 0
  rejected := 0
  admittedAfterQueue := 0
  queuedPeak := 0
  requestQueue := []
  queueHead := 0
  queued := ∅
  queueCancelled := ∅
  arrivals := []
  admissions := []
  refusals := []
  dropped := []
  cancelledQueued := []
  released := []

/-! ## The operations -/

/-- `isExempt`. -/
def isExempt (a : Admission) (uri : PhpString) : Bool :=
  a.budgetExempt.any fun p => p.isPrefixOf uri

/-- `\count(self::$requestQueue) - self::$queueHead`. -/
def liveLength (a : Admission) : ℤ := (a.requestQueue.length : ℤ) - a.queueHead

/-- The counting half of `admitRequest`; the other half spawns the handler's job. -/
def admitRequest (a : Admission) (id : ℕ) (exempt : Bool) : Admission :=
  { a with
    inflightRequests := a.inflightRequests + 1
    admissions := a.admissions ++ [⟨id, exempt, a.inflightRequests⟩] }

/-- `queueRequest`: shed when a positive depth is reached, append otherwise. -/
def queueRequest (a : Admission) (id : ℕ) (raw : IgnisRequest) : Admission :=
  if 0 < a.queueDepth ∧ a.queueDepth ≤ a.liveLength then
    { a with
      rejected := a.rejected + 1
      refusals := a.refusals ++ [⟨id, a.liveLength⟩] }
  else
    { a with
      requestQueue := a.requestQueue ++ [(id, raw)]
      queued := a.queued.set id ()
      queuedPeak := max a.queuedPeak (a.liveLength + 1) }

/-- The test of `dispatchRequest`: no room, and no exemption. -/
def mustWait (a : Admission) (uri : PhpString) : Bool :=
  0 < a.fiberBudget && a.fiberBudget ≤ a.inflightRequests && !a.isExempt uri

/-- `dispatchRequest` on these statics. -/
def dispatchRequest (a : Admission) (id : ℕ) (raw : IgnisRequest) : Admission :=
  let b := { a with arrivals := a.arrivals ++ [(⟨id, a.isExempt raw.uri⟩ : Arrival)] }
  if a.mustWait raw.uri then b.queueRequest id raw else b.admitRequest id (a.isExempt raw.uri)

/-- What `drainQueue` leaves in a slot it has read: the body is freed now, not at compaction. -/
def blankRequest : IgnisRequest := ⟨[], [], ∅, []⟩

/-- Whether `drainQueue` may read another slot. -/
def hasRoom (a : Admission) : Bool :=
  a.fiberBudget ≤ 0 || a.inflightRequests < a.fiberBudget

/-- Reading the slot at `$queueHead`. -/
def takeHead (a : Admission) (id : ℕ) : Admission :=
  { a with
    requestQueue := a.requestQueue.set a.queueHead (id, blankRequest)
    queueHead := a.queueHead + 1
    queued := a.queued.unset id }

/-- The `while` of `drainQueue`, with the requests it admits in order.  Each turn reads one slot,
so the number of unread slots bounds the turns. -/
def drainLoop : ℕ → Admission → Admission × List (ℕ × IgnisRequest)
  | 0, a => (a, [])
  | turns + 1, a =>
      match a.requestQueue[a.queueHead]? with
      | none => (a, [])
      | some (id, raw) =>
          if a.hasRoom then
            if a.queueCancelled.has id then
              drainLoop turns
                { a.takeHead id with
                  queueCancelled := a.queueCancelled.unset id
                  dropped := a.dropped ++ [id] }
            else
              let (b, rest) := drainLoop turns
                (admitRequest
                  { a.takeHead id with admittedAfterQueue := a.admittedAfterQueue + 1 } id false)
              (b, (id, raw) :: rest)
          else (a, [])

/-- The compaction at the end of `drainQueue`. -/
def compact (a : Admission) : Admission :=
  if 0 < a.queueHead ∧ a.queueHead = a.requestQueue.length then
    { a with requestQueue := [], queueHead := 0 }
  else a

/-- `drainQueue`: the new statics, and the requests to hand to `spawn()` in this order. -/
def drainQueue (a : Admission) : Admission × List (ℕ × IgnisRequest) :=
  let (a, admitted) := drainLoop (a.requestQueue.length - a.queueHead) a
  (a.compact, admitted)

/-- `--self::$inflightRequests; ++self::$handled;` of `releaseRequest`. -/
def releaseSlot (a : Admission) (id : ℕ) : Admission :=
  { a with
    inflightRequests := a.inflightRequests - 1
    handled := a.handled + 1
    released := a.released ++ [id] }

/-- The queue's part of `cancelRequest`: a request with no fiber to throw into is marked. -/
def cancelQueued (a : Admission) (id : ℕ) : Admission :=
  if a.queued.has id then { a with queueCancelled := a.queueCancelled.set id () } else a

/-- A cancel of a queued request goes on record, whatever comes of it. -/
def recordCancel (a : Admission) (id : ℕ) : Admission :=
  if a.queued.has id then { a with cancelledQueued := a.cancelledQueued ++ [id] } else a

/-- A cancel is dispatched. -/
def dispatchCancel (a : Admission) (id : ℕ) : Admission := (a.recordCancel id).cancelQueued id

lemma dispatchCancel_eq (a : Admission) (id : ℕ) :
    a.dispatchCancel id = if a.queued.has id then
      { a with
        queueCancelled := a.queueCancelled.set id ()
        cancelledQueued := a.cancelledQueued ++ [id] }
    else a := by
  unfold dispatchCancel cancelQueued recordCancel
  by_cases hq : a.queued.has id = true
  · simp only [hq, if_true]
  · simp only [hq, if_false, Bool.false_eq_true]

end Admission

end Ignis
