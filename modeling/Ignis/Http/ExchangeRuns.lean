import Mathlib.Data.List.Count
import Ignis.Http.Exchange

/-!
# What becomes of an exchange

A delivered request is settled once.  The right to do it is in the map, with a `respond` that has
taken it, or with the guard of a client that has left, and `Settled` says that it is never doubled
and never lost: whoever comes too late is refused, and PHP is told of a client that left either by a
cancellation or by the result of what it does itself.

`exchange_reply` says what PHP has done when a client is given a reply, `exchange_settled_once` who
settles a request, `exchange_gone` that nothing counts as sent to a client that has left, and
`exchange_ends` that a settled request can come to its end, with all that was sent delivered.
-/

namespace Ignis.Exchange

open Reactor StepSystem

/-! ## Who settles a request -/

/-- PHP has settled the request: this call took the answer out of the map for good. -/
def Told.settles : Told → Bool
  | .respond _ .sent | .respond _ .gone | .respondStart _ _ .gone | .respondEnd .sent
  | .failPending .sent => true
  | _ => false

def settlements (s : State) : ℕ := s.log.countP Told.settles

def requests (s : State) : ℕ := s.announced.count .request

def cancellations (s : State) : ℕ := s.announced.count .cancelled

/-- `cancel_request` has taken the answer and not yet announced it. -/
def Client.cancels : Client → Bool
  | .cancelling _ => true
  | _ => false

/-- The future is not dropped and has no answer yet. -/
def Client.alive : Client → Bool
  | .reading | .waiting | .streaming _ _ => true
  | _ => false

/-- Whoever may still settle the request: the map has it, `respond` has, or the guard has. -/
def pending (s : State) : ℕ :=
  s.answer.isSome.toNat + s.sending.isSome.toNat + s.client.cancels.toNat

/-- The request is delivered, and its client waits for what is to come. -/
def Client.awaits : Client → Bool
  | .waiting | .streaming _ _ => true
  | _ => false

structure Settled (s : State) : Prop where
  conserved : pending s + settlements s + cancellations s = requests s
  unborn : s.client = .reading → s.announced = []
  born : s.client.awaits = true → requests s = 1
  once : requests s ≤ 1

lemma Told.settles_of_refused {t : Told} (h : t.result = .refused) : t.settles = false := by
  cases t <;> simp_all [Told.result, Told.settles]

lemma settlements_append {s s' : State} {t : Told} (h : s'.log = s.log ++ [t]) :
    settlements s' = settlements s + t.settles.toNat := by
  cases ht : t.settles <;> simp [settlements, h, ht]

/-- The right to settle goes from hand to hand, or is used. -/
lemma Settled.of_moved {s s' : State} (hs : Settled s)
    (hsum : pending s' + settlements s' = pending s + settlements s)
    (hannounced : s'.announced = s.announced)
    (hreading : s'.client = .reading → s.client = .reading)
    (hawaits : s'.client.awaits = true → s.client.awaits = true) : Settled s' := by
  obtain ⟨hconserved, hunborn, hborn, honce⟩ := hs
  have hcancellations : cancellations s' = cancellations s := by rw [cancellations, hannounced]; rfl
  have hrequests : requests s' = requests s := by rw [requests, hannounced]; rfl
  exact ⟨by omega, fun h => hannounced.trans (hunborn (hreading h)),
    fun h => hrequests.trans (hborn (hawaits h)), by omega⟩

/-- A call that changes nothing but the log. -/
lemma Settled.of_told {s s' : State} (hs : Settled s) {t : Told} (ht : t.settles = false)
    (hlog : s'.log = s.log ++ [t]) (hpending : pending s' = pending s)
    (hannounced : s'.announced = s.announced) (hclient : s'.client = s.client) : Settled s' := by
  refine hs.of_moved ?_ hannounced (fun h => hclient ▸ h) fun h => hclient ▸ h
  rw [settlements_append hlog, ht, hpending]
  rfl

lemma Settled.move {cfg : Setting} {s s' : State} (hs : Settled s) (h : Move cfg s s') :
    Settled s' := by
  cases h with
  | delivered hclient =>
      have hnone := hs.unborn hclient
      have hzero : requests s = 0 := by simp [requests, hnone]
      have hconserved := hs.conserved
      have hanswer : s.answer.isSome.toNat = 0 := by
        simp only [pending] at hconserved
        omega
      refine ⟨?_, by simp, fun _ => by simp [requests, hnone], by simp [requests, hnone]⟩
      have hrequests : requests { s with
          client := .waiting, answer := some .whole, announced := s.announced ++ [.request] } = 1 := by
        simp [requests, hnone]
      have hcancellations : cancellations { s with
          client := .waiting, answer := some .whole, announced := s.announced ++ [.request] }
            = cancellations s := by
        simp [cancellations]
      rw [hrequests, hcancellations]
      simp only [pending, settlements, Client.cancels, hclient, Option.isSome_some,
        Bool.toNat_true, Bool.toNat_false] at hconserved ⊢
      omega
  | cancelled reply hclient =>
      have hconserved := hs.conserved
      have hcancellations : cancellations { s with
          client := .done reply, announced := s.announced ++ [.cancelled] }
            = cancellations s + 1 := by
        simp [cancellations]
      have hrequests : requests { s with
          client := .done reply, announced := s.announced ++ [.cancelled] } = requests s := by
        simp [requests]
      refine ⟨?_, by simp, by simp [Client.awaits], hrequests ▸ hs.once⟩
      rw [hrequests, hcancellations]
      simp only [pending, settlements, Client.cancels, hclient, Bool.toNat_true,
        Bool.toNat_false] at hconserved ⊢
      omega
  | refused error hclient | leftEarly hclient | whole resp hclient | badHead status headers hclient
  | noResponse hclient | bodyEnd status headers hclient | owingNothing reply hclient =>
      exact hs.of_moved (by simp [pending, settlements, Client.cancels, hclient]) rfl (by simp)
        (by simp [Client.awaits])
  | head status headers hclient =>
      exact hs.of_moved (by simp [pending, settlements, Client.cancels, hclient]) rfl (by simp)
        fun _ => by rw [hclient]; rfl
  | left hclient =>
      refine hs.of_moved ?_ rfl (by simp) (by simp [Client.awaits])
      rcases hclient with h | ⟨_, _, h⟩ <;> simp [pending, settlements, Client.cancels, h]
  | frame => exact hs.of_moved rfl rfl id id
  | owing reply hclient hanswer =>
      refine hs.of_moved ?_ rfl (by simp) (by simp [Client.awaits])
      simp [pending, settlements, Client.cancels, hclient, hanswer, Nat.add_comm]
  | took resp hsending hanswer =>
      exact hs.of_moved (by simp [pending, settlements, hsending, hanswer]) rfl id id
  | sent resp hsending hclient | sentToNobody resp hsending hclient =>
      refine hs.of_moved ?_ rfl id id
      simp [pending, settlements, hsending, Told.settles]
      omega
  | started status headers hsending hanswer =>
      exact hs.of_told (t := .respondStart status headers .sent) rfl rfl
        (by simp [pending, hanswer]) rfl rfl
  | startedToNobody status headers hsending hanswer | ended hanswer | failed hanswer =>
      refine hs.of_moved ?_ rfl id id
      simp [pending, settlements, hanswer, Told.settles]
      omega
  | chunk b => exact hs.of_told (t := .chunk b .sent) rfl rfl rfl rfl rfl
  | park b => exact hs.of_told (t := .chunk b .parked) rfl rfl rfl rfl rfl
  | chunkToNobody b => exact hs.of_told (t := .chunk b .gone) rfl rfl rfl rfl rfl
  | unpark b => exact hs.of_told (t := .parkedChunk b .sent) rfl rfl rfl rfl rfl
  | unparkToNobody b => exact hs.of_told (t := .parkedChunk b .gone) rfl rfl rfl rfl rfl
  | nothing t hresult => exact hs.of_told (Told.settles_of_refused hresult) rfl rfl rfl rfl

/-! ## What PHP has sent -/

/-- The response a call has sent, whole or as the head of a stream. -/
def Told.head? : Told → Option Slot
  | .respond resp .sent => some (.full resp)
  | .respondStart status headers .sent => some (.stream status headers)
  | _ => none

/-- The chunk a call or an op has put in the channel. -/
def Told.chunk? : Told → Option PhpString
  | .chunk b .sent | .parkedChunk b .sent => some b
  | _ => none

def Told.isGone (t : Told) : Bool := t.result = .gone

def Told.isEnd (t : Told) : Bool := t = .respondEnd .sent

def heads (s : State) : List Slot := s.log.filterMap Told.head?

def accepted (s : State) : List PhpString := s.log.filterMap Told.chunk?

structure Known (cfg : Setting) (s : State) : Prop where
  /-- Nobody is told that a client is gone that is not. -/
  alive : s.client.alive = true → s.log.any Told.isGone = false
  unsent : s.client = .reading ∨ (s.client = .waiting ∧ s.slot = none) ∨ s.answer = some .whole ∨
    s.sending.isSome = true → heads s = []
  begun : s.answer = some .streaming ∨ s.parked ≠ [] ∨ s.log.any Told.isEnd = true ∨
    accepted s ≠ [] → ∃ status headers, heads s = [.stream status headers]
  slot : ∀ v, s.slot = some v → s.client = .waiting ∧ heads s = [v]
  streaming : ∀ status headers, s.client = .streaming status headers →
    cfg.valid status headers = true ∧ heads s = [.stream status headers]
  opened : s.answer = some .streaming → s.client.alive = true → s.receiving = true
  spent : ∀ reply, s.client = .done reply ∨ s.client = .cancelling reply → s.answer = none

section Append

variable {s s' : State} {t : Told} (h : s'.log = s.log ++ [t])

include h

lemma heads_append : heads s' = heads s ++ t.head?.toList := by
  simp only [heads, h, List.filterMap_append]
  cases ht : t.head? <;> simp [ht]

lemma accepted_append : accepted s' = accepted s ++ t.chunk?.toList := by
  simp only [accepted, h, List.filterMap_append]
  cases ht : t.chunk? <;> simp [ht]

end Append

lemma heads_eq {s s' : State} (h : s'.log = s.log) : heads s' = heads s := by rw [heads, h]; rfl

lemma accepted_eq {s s' : State} (h : s'.log = s.log) : accepted s' = accepted s := by
  rw [accepted, h]
  rfl

section Known

variable {cfg : Setting} {s s' : State}

/-- The client moves on, for good. -/
lemma Known.of_client (hk : Known cfg s) (hclient : s'.client.alive = false)
    (hslot : s'.slot = none) (hanswer : s'.answer = s.answer ∨ s'.answer = none)
    (hsending : s'.sending = s.sending) (hparked : s'.parked = s.parked) (hlog : s'.log = s.log)
    (hover : ∀ reply, s'.client = .done reply ∨ s'.client = .cancelling reply → s'.answer = none) :
    Known cfg s' := by
  have hheads := heads_eq hlog
  have hback : ∀ a, s'.answer = some a → s.answer = some a := by
    intro a ha
    rcases hanswer with h | h
    · exact h ▸ ha
    · rw [h] at ha
      cases ha
  refine ⟨by simp [hclient], ?_, ?_, by simp [hslot], ?_, by simp [hclient], hover⟩
  · rw [hheads, hsending]
    rintro (h | ⟨h, -⟩ | h | h)
    · rw [h] at hclient
      cases hclient
    · rw [h] at hclient
      cases hclient
    · exact hk.unsent (.inr (.inr (.inl (hback _ h))))
    · exact hk.unsent (.inr (.inr (.inr h)))
  · rw [hheads, hparked, hlog, accepted_eq hlog]
    rintro (h | h)
    · exact hk.begun (.inl (hback _ h))
    · exact hk.begun (.inr h)
  · intro status headers h
    rw [h] at hclient
    cases hclient

/-- PHP does something that sends no head. -/
lemma Known.of_told (hk : Known cfg s) {t : Told} (hlog : s'.log = s.log ++ [t])
    (hhead : t.head? = none) (hgone : t.isGone = true → s.client.alive = false)
    (hclient : s'.client = s.client) (hslot : s'.slot = s.slot)
    (hanswer : s'.answer = s.answer ∨ s'.answer = none)
    (hsending : s'.sending = s.sending ∨ s'.sending = none)
    (hbegun : s'.parked ≠ [] ∨ t.isEnd = true ∨ t.chunk? ≠ none →
      s.answer = some .streaming ∨ s.parked ≠ []) : Known cfg s' := by
  have hheads : heads s' = heads s := by rw [heads_append hlog, hhead]; simp
  have hback : ∀ a, s'.answer = some a → s.answer = some a := by
    intro a ha
    rcases hanswer with h | h
    · exact h ▸ ha
    · rw [h] at ha
      cases ha
  have hreceiving : s'.receiving = s.receiving := by simp [State.receiving, hclient, hslot]
  refine ⟨?_, ?_, ?_, ?_, ?_, ?_, ?_⟩
  · intro h
    rw [hclient] at h
    have hnot : t.isGone = false := by
      cases ht : t.isGone with
      | false => rfl
      | true => rw [hgone ht] at h; cases h
    simp [hlog, List.any_append, hk.alive h, hnot]
  · rw [hheads, hclient, hslot]
    rintro (h | h | h | h)
    · exact hk.unsent (.inl h)
    · exact hk.unsent (.inr (.inl h))
    · exact hk.unsent (.inr (.inr (.inl (hback _ h))))
    · refine hk.unsent (.inr (.inr (.inr ?_)))
      rcases hsending with e | e
      · exact e ▸ h
      · rw [e] at h
        cases h
  · rw [hheads]
    rintro (h | h | h | h)
    · exact hk.begun (.inl (hback _ h))
    · exact hk.begun ((hbegun (.inl h)).imp_right .inl)
    · rw [hlog, List.any_append, Bool.or_eq_true] at h
      rcases h with h | h
      · exact hk.begun (.inr (.inr (.inl h)))
      · exact hk.begun ((hbegun (.inr (.inl (by simpa using h)))).imp_right .inl)
    · rw [accepted_append hlog] at h
      cases ht : t.chunk? with
      | none => exact hk.begun (.inr (.inr (.inr (by simpa [ht] using h))))
      | some b => exact hk.begun ((hbegun (.inr (.inr (by simp [ht])))).imp_right .inl)
  · rw [hslot, hheads, hclient]
    exact hk.slot
  · rw [hclient, hheads]
    exact hk.streaming
  · rw [hclient, hreceiving]
    exact fun h => hk.opened (hback _ h)
  · intro reply h
    rw [hclient] at h
    rcases hanswer with e | e
    · rw [e]
      exact hk.spent reply h
    · exact e

lemma Known.not_begun (hk : Known cfg s) (h : heads s = []) :
    s.answer ≠ some .streaming ∧ s.parked = [] ∧ s.log.any Told.isEnd = false ∧
      accepted s = [] := by
  have hnot : ¬ (s.answer = some .streaming ∨ s.parked ≠ [] ∨ s.log.any Told.isEnd = true ∨
      accepted s ≠ []) := by
    intro hb
    obtain ⟨status, headers, hheads⟩ := hk.begun hb
    rw [h] at hheads
    cases hheads
  push Not at hnot
  exact ⟨hnot.1, hnot.2.1, by simpa using hnot.2.2.1, hnot.2.2.2⟩

/-- A head that is sent while the client waits is what it is going to receive. -/
lemma Known.of_head (hk : Known cfg s) {t : Told} {v : Slot} (hsent : heads s = [])
    (hhead : t.head? = some v) (hlog : s'.log = s.log ++ [t]) (hwaiting : s.client = .waiting)
    (hclient : s'.client = s.client) (hslot : s'.slot = some v) (hparked : s'.parked = s.parked)
    (hsending : s'.sending = none)
    (hanswer : s'.answer = none ∨ s'.answer = some .streaming ∧ ∃ status headers,
      v = .stream status headers) : Known cfg s' := by
  have hheads : heads s' = [v] := by rw [heads_append hlog, hsent, hhead]; rfl
  have hwaiting' : s'.client = .waiting := hclient.trans hwaiting
  obtain ⟨-, hnoneParked, hnoEnd, hnoChunk⟩ := hk.not_begun hsent
  have htold : t.isGone = false ∧ t.isEnd = false ∧ t.chunk? = none := by
    cases t with
    | respond resp result | respondStart status headers result =>
        cases result <;> simp_all [Told.head?, Told.isGone, Told.result, Told.isEnd, Told.chunk?]
    | _ => cases hhead
  refine ⟨fun _ => ?_, ?_, ?_, ?_, by simp [hwaiting'], ?_, by simp [hwaiting']⟩
  · rw [hlog, List.any_append, hk.alive (by rw [hwaiting]; rfl)]
    simp [htold.1]
  · rw [hwaiting', hslot, hsending]
    rcases hanswer with h | ⟨h, -⟩ <;> simp [h]
  · rw [hparked, hnoneParked, hlog, List.any_append, hnoEnd, accepted_append hlog, hnoChunk,
      htold.2.2]
    rcases hanswer with h | ⟨-, status, headers, rfl⟩
    · simp [h, htold.2.1]
    · exact fun _ => ⟨status, headers, hheads⟩
  · intro w hw
    rw [hslot] at hw
    exact ⟨hwaiting', by rw [hheads, Option.some.inj hw]⟩
  · rcases hanswer with h | ⟨-, status, headers, rfl⟩
    · simp [h]
    · simp [State.receiving, hslot]

lemma settlements_pos {resp : HttpResponse} (h : .full resp ∈ heads s) : 0 < settlements s := by
  obtain ⟨t, ht, hhead⟩ := List.mem_filterMap.mp h
  refine List.countP_pos_iff.mpr ⟨t, ht, ?_⟩
  cases t with
  | respond resp' result => cases result <;> first | rfl | cases hhead
  | respondStart status headers result => cases result <;> cases hhead
  | _ => cases hhead

/-- Once it is used, nobody has the right to settle. -/
lemma Settled.answer_none (hs : Settled s) (h : 0 < settlements s ∨ s.sending.isSome = true) :
    s.answer = none := by
  have hconserved := hs.conserved
  have honce := hs.once
  cases ha : s.answer with
  | none => rfl
  | some a =>
      exfalso
      rcases h with h | h <;> simp [pending, ha, h] at hconserved <;> omega

lemma Known.slot_none (hk : Known cfg s) (h : s.client ≠ .waiting) : s.slot = none := by
  cases hslot : s.slot with
  | none => rfl
  | some v => exact absurd (hk.slot v hslot).1 h

lemma Settled.unborn_answer (hs : Settled s) (h : s.client = .reading) :
    s.answer = none ∧ s.sending = none := by
  have hconserved := hs.conserved
  have hzero : requests s = 0 := by simp [requests, hs.unborn h]
  cases ha : s.answer <;> cases hx : s.sending <;> simp_all [pending]

lemma answer_none_of_ne (hwhole : s.answer ≠ some .whole)
    (hstreaming : s.answer ≠ some .streaming) :
    s.answer = none := by
  rcases ha : s.answer with _ | _ | _
  · rfl
  · exact absurd ha hwhole
  · exact absurd ha hstreaming

/-- Who has yet to be sent the response and does not wait for it has left. -/
lemma Known.not_alive (hk : Known cfg s) (hs : Settled s) (hclient : s.client ≠ .waiting)
    (howed : s.answer = some .whole ∨ s.sending.isSome = true) : s.client.alive = false := by
  cases hc : s.client with
  | reading =>
      obtain ⟨hanswer, hsending⟩ := hs.unborn_answer hc
      simp [hanswer, hsending] at howed
  | waiting => exact absurd hc hclient
  | streaming status headers =>
      have hsent := hk.unsent (.inr (.inr howed))
      rw [(hk.streaming status headers hc).2] at hsent
      cases hsent
  | _ => rfl

lemma receiving_of_streaming {status : ℕ} {headers : List (PhpString × PhpString)}
    (h : s.client = .streaming status headers) : s.receiving = true := by
  rw [State.receiving, h]
  rcases s.slot with _ | _ | _ <;> rfl

/-- A stream that nobody receives has lost its client. -/
lemma not_alive_of_receiving (hk : Known cfg s) (hreceiving : s.receiving = false)
    (hbegun : s.answer = some .streaming ∨ s.parked ≠ []) : s.client.alive = false := by
  obtain ⟨status, headers, hheads⟩ := hk.begun (hbegun.imp_right .inl)
  cases hc : s.client with
  | reading =>
      rw [hk.unsent (.inl hc)] at hheads
      cases hheads
  | waiting =>
      cases hslot : s.slot with
      | none =>
          rw [hk.unsent (.inr (.inl ⟨hc, hslot⟩))] at hheads
          cases hheads
      | some v =>
          rw [(hk.slot v hslot).2] at hheads
          obtain rfl : v = .stream status headers := by simpa using hheads
          simp [State.receiving, hslot] at hreceiving
  | streaming =>
      rw [receiving_of_streaming hc] at hreceiving
      cases hreceiving
  | _ => rfl

lemma Told.of_refused {t : Told} (h : t.result = .refused) :
    t.head? = none ∧ t.isGone = false ∧ t.isEnd = false ∧ t.chunk? = none := by
  cases t <;> simp_all [Told.result, Told.head?, Told.isGone, Told.isEnd, Told.chunk?]

/-- **What is known of an exchange is kept by every step.** -/
lemma Known.move (hk : Known cfg s) (hs : Settled s) (h : Move cfg s s') : Known cfg s' := by
  cases h with
  | delivered hclient =>
      have hsent := hk.unsent (.inl hclient)
      obtain ⟨-, hparked, hend, hchunk⟩ := hk.not_begun hsent
      have hslot := hk.slot_none (by simp [hclient])
      refine ⟨fun _ => hk.alive (by rw [hclient]; rfl), fun _ => hsent, ?_, by simp [hslot], by simp,
        by simp, by simp⟩
      rintro (h | h | h | h)
      · cases h
      · exact absurd hparked h
      · rw [hend] at h
        cases h
      · exact absurd hchunk h
  | refused error hclient | leftEarly hclient =>
      exact hk.of_client rfl (hk.slot_none (by simp [hclient])) (.inl rfl) rfl rfl rfl
        fun _ _ => (hs.unborn_answer hclient).1
  | whole resp hclient hslot =>
      have hanswer : s.answer = none :=
        hs.answer_none (.inl (settlements_pos ((hk.slot _ hslot).2 ▸ List.mem_singleton_self _)))
      exact hk.of_client rfl rfl (.inl rfl) rfl rfl rfl fun _ _ => hanswer
  | head status headers hclient hslot hvalid =>
      have hheads := (hk.slot _ hslot).2
      refine ⟨fun _ => hk.alive (by rw [hclient]; rfl), ?_, hk.begun, by simp, ?_,
        fun _ _ => rfl, by simp⟩
      · rintro (h | ⟨h, -⟩ | h)
        · cases h
        · cases h
        · exact hk.unsent (.inr (.inr h))
      · intro status' headers' h
        obtain ⟨rfl, rfl⟩ : status = status' ∧ headers = headers' := by simpa using h
        exact ⟨hvalid, hheads⟩
  | badHead status headers hclient =>
      exact hk.of_client rfl rfl (.inl rfl) rfl rfl rfl (by simp)
  | noResponse hclient hslot hanswer hsending =>
      refine hk.of_client rfl hslot (.inl rfl) rfl rfl rfl fun _ _ => ?_
      refine answer_none_of_ne hanswer fun ha => ?_
      have hreceiving := hk.opened ha (by rw [hclient]; rfl)
      simp [State.receiving, hslot, hclient] at hreceiving
  | frame status headers chunk queue hclient hqueue =>
      exact ⟨hk.alive, hk.unsent, hk.begun, hk.slot, hk.streaming, hk.opened, hk.spent⟩
  | bodyEnd status headers hclient hqueue hanswer hparked =>
      refine hk.of_client rfl (hk.slot_none (by simp [hclient])) (.inl rfl) rfl rfl rfl fun _ _ => ?_
      refine answer_none_of_ne (fun ha => ?_) hanswer
      have hsent := hk.unsent (.inr (.inr (.inl ha)))
      rw [(hk.streaming status headers hclient).2] at hsent
      cases hsent
  | left hclient => exact hk.of_client rfl rfl (.inl rfl) rfl rfl rfl (by simp)
  | owing reply hclient hanswer =>
      exact hk.of_client rfl (hk.slot_none (by simp [hclient])) (.inr rfl) rfl rfl rfl
        fun _ _ => rfl
  | owingNothing reply hclient hanswer =>
      exact hk.of_client rfl (hk.slot_none (by simp [hclient])) (.inl rfl) rfl rfl rfl
        fun _ _ => hanswer
  | cancelled reply hclient =>
      exact hk.of_client rfl (hk.slot_none (by simp [hclient])) (.inl rfl) rfl rfl rfl
        fun _ _ => hk.spent reply (.inr hclient)
  | took resp hsending hanswer =>
      have hsent := hk.unsent (.inr (.inr (.inl hanswer)))
      exact ⟨hk.alive, fun _ => hsent, fun h => hk.begun (h.resolve_left (by simp) |> .inr), hk.slot,
        hk.streaming, by simp, fun _ _ => rfl⟩
  | sent resp hsending hclient =>
      have hsome : s.sending.isSome = true := by rw [hsending]; rfl
      exact hk.of_head (hk.unsent (.inr (.inr (.inr hsome)))) rfl rfl hclient rfl rfl rfl rfl
        (.inl (hs.answer_none (.inr hsome)))
  | sentToNobody resp hsending hclient =>
      have hsome : s.sending.isSome = true := by rw [hsending]; rfl
      exact hk.of_told (t := .respond resp .gone) rfl rfl
        (fun _ => hk.not_alive hs hclient (.inr hsome)) rfl rfl (.inl rfl) (.inr rfl)
        fun h => .inr (h.resolve_right (by simp [Told.isEnd, Told.chunk?]))
  | started status headers hsending hanswer hclient =>
      exact hk.of_head (hk.unsent (.inr (.inr (.inl hanswer)))) rfl rfl hclient rfl rfl rfl hsending
        (.inr ⟨rfl, status, headers, rfl⟩)
  | startedToNobody status headers hsending hanswer hclient =>
      exact hk.of_told (t := .respondStart status headers .gone) rfl rfl
        (fun _ => hk.not_alive hs hclient (.inl hanswer)) rfl rfl (.inr rfl) (.inl rfl)
        fun h => .inr (h.resolve_right (by simp [Told.isEnd, Told.chunk?]))
  | chunk b hanswer =>
      exact hk.of_told (t := .chunk b .sent) rfl rfl (by simp [Told.isGone, Told.result]) rfl rfl
        (.inl rfl) (.inl rfl) fun _ => .inl hanswer
  | park b hanswer =>
      exact hk.of_told (t := .chunk b .parked) rfl rfl (by simp [Told.isGone, Told.result]) rfl rfl
        (.inl rfl) (.inl rfl) fun _ => .inl hanswer
  | chunkToNobody b hanswer hreceiving =>
      refine hk.of_told (t := .chunk b .gone) rfl rfl (fun _ => ?_) rfl rfl (.inl rfl) (.inl rfl)
        fun _ => .inl hanswer
      exact not_alive_of_receiving hk hreceiving (.inl hanswer)
  | unpark b parked hparked =>
      exact hk.of_told (t := .parkedChunk b .sent) rfl rfl (by simp [Told.isGone, Told.result]) rfl
        rfl (.inl rfl) (.inl rfl) fun _ => .inr (by simp [hparked])
  | unparkToNobody b parked hparked hreceiving =>
      refine hk.of_told (t := .parkedChunk b .gone) rfl rfl (fun _ => ?_) rfl rfl (.inl rfl)
        (.inl rfl) fun _ => .inr (by simp [hparked])
      exact not_alive_of_receiving hk hreceiving (.inr (by simp [hparked]))
  | ended hanswer =>
      exact hk.of_told (t := .respondEnd .sent) rfl rfl (by simp [Told.isGone, Told.result]) rfl rfl
        (.inr rfl) (.inl rfl) fun _ => .inl hanswer
  | failed hanswer =>
      exact hk.of_told (t := .failPending .sent) rfl rfl (by simp [Told.isGone, Told.result]) rfl
        rfl (.inr rfl) (.inl rfl) fun h =>
          .inr (h.resolve_right (by simp [Told.isEnd, Told.chunk?]))
  | nothing t hresult =>
      obtain ⟨hhead, hgone, hend, hchunk⟩ := Told.of_refused hresult
      exact hk.of_told rfl hhead (by simp [hgone]) rfl rfl (.inl rfl) (.inl rfl)
        fun h => .inr (h.resolve_right (by simp [hend, hchunk]))

end Known

/-! ## The chunks -/

/-- What was put in the channel has been received or is in it, while there is one. -/
structure Piped (s : State) : Prop where
  closed : s.receiving = false → s.queue = []
  piped : s.receiving = true → accepted s = s.received ++ s.queue
  received : s.received <+: accepted s

lemma Piped.of_closed {s s' : State} (hp : Piped s) (hreceiving : s'.receiving = false)
    (hqueue : s'.queue = []) (hreceived : s'.received = s.received)
    (hlog : accepted s' = accepted s) : Piped s' :=
  ⟨fun _ => hqueue, by simp [hreceiving], by rw [hreceived, hlog]; exact hp.received⟩

lemma Piped.of_same {s s' : State} (hp : Piped s) (hreceiving : s'.receiving = s.receiving)
    (hqueue : s'.queue = s.queue) (hreceived : s'.received = s.received)
    (haccepted : accepted s' = accepted s) : Piped s' := by
  refine ⟨?_, ?_, ?_⟩
  · rw [hreceiving, hqueue]
    exact hp.closed
  · rw [hreceiving, haccepted, hreceived, hqueue]
    exact hp.piped
  · rw [hreceived, haccepted]
    exact hp.received

/-- A chunk comes in. -/
lemma Piped.of_chunk {s s' : State} (hp : Piped s) {b : PhpString}
    (hreceiving : s.receiving = true) (hreceiving' : s'.receiving = true)
    (hqueue : s'.queue = s.queue ++ [b]) (hreceived : s'.received = s.received)
    (haccepted : accepted s' = accepted s ++ [b]) : Piped s' := by
  have hpiped := hp.piped hreceiving
  refine ⟨by simp [hreceiving'], fun _ => ?_, ?_⟩
  · rw [haccepted, hpiped, hreceived, hqueue, List.append_assoc]
  · rw [haccepted, hreceived]
    exact hp.received.trans (List.prefix_append _ _)

lemma receiving_of_client {s : State} (hslot : s.slot = none)
    (hclient : ∀ status headers, s.client ≠ .streaming status headers) : s.receiving = false := by
  rw [State.receiving, hslot]
  cases hc : s.client with
  | streaming status headers => exact absurd hc (hclient status headers)
  | _ => rfl

/-- Nothing of a body is there before its head is sent. -/
lemma Piped.of_unsent {cfg : Setting} {s : State} (hp : Piped s) (hk : Known cfg s)
    (hsent : heads s = []) (hclient : ∀ status headers, s.client ≠ .streaming status headers) :
    s.queue = [] ∧ s.received = [] ∧ accepted s = [] := by
  obtain ⟨-, -, -, haccepted⟩ := hk.not_begun hsent
  have hslot : s.slot = none := by
    cases hslot : s.slot with
    | none => rfl
    | some v =>
        have hheads := (hk.slot v hslot).2
        rw [hsent] at hheads
        cases hheads
  refine ⟨hp.closed (receiving_of_client hslot hclient), ?_, haccepted⟩
  exact List.prefix_nil.mp (haccepted ▸ hp.received)

lemma Piped.move {cfg : Setting} {s s' : State} (hp : Piped s) (hk : Known cfg s)
    (h : Move cfg s s') : Piped s' := by
  cases h with
  | delivered hclient | refused error hclient | leftEarly hclient =>
      have hslot := hk.slot_none (by simp [hclient])
      have hnot := receiving_of_client hslot (by simp [hclient])
      exact hp.of_closed (receiving_of_client hslot (by simp)) (hp.closed hnot) rfl rfl
  | whole resp hclient hslot =>
      have hnot : s.receiving = false := by simp [State.receiving, hslot, hclient]
      exact hp.of_closed (receiving_of_client rfl (by simp)) (hp.closed hnot) rfl rfl
  | head status headers hclient hslot =>
      exact hp.of_same (by simp [State.receiving, hslot]) rfl rfl rfl
  | badHead | left => exact hp.of_closed (receiving_of_client rfl (by simp)) rfl rfl rfl
  | noResponse hclient hslot =>
      have hnot := receiving_of_client hslot (by simp [hclient])
      exact hp.of_closed (receiving_of_client hslot (by simp)) (hp.closed hnot) rfl rfl
  | frame status headers chunk queue hclient hqueue =>
      have hreceiving := receiving_of_streaming hclient
      have hpiped := hp.piped hreceiving
      rw [hqueue, List.append_cons] at hpiped
      exact ⟨fun h => absurd (hreceiving.symm.trans h) (by simp), fun _ => hpiped,
        hpiped ▸ List.prefix_append _ _⟩
  | bodyEnd status headers hclient hqueue =>
      have hslot := hk.slot_none (by simp [hclient])
      exact hp.of_closed (receiving_of_client hslot (by simp)) hqueue rfl rfl
  | owing reply hclient | owingNothing reply hclient | cancelled reply hclient =>
      have hslot := hk.slot_none (by simp [hclient])
      have hnot := receiving_of_client hslot (by simp [hclient])
      exact hp.of_closed (receiving_of_client hslot (by simp)) (hp.closed hnot) rfl rfl
  | took => exact hp.of_same rfl rfl rfl rfl
  | sent resp hsending hclient =>
      have hsent := hk.unsent (.inr (.inr (.inr (by rw [hsending]; rfl))))
      obtain ⟨hempty, -⟩ := hp.of_unsent hk hsent (by simp [hclient])
      exact hp.of_closed (by simp [State.receiving, hclient]) hempty rfl
        (by simp [accepted, Told.chunk?])
  | sentToNobody resp =>
      exact hp.of_same rfl rfl rfl (by simp [accepted, Told.chunk?])
  | started status headers hsending hanswer hclient =>
      have hsent := hk.unsent (.inr (.inr (.inl hanswer)))
      obtain ⟨hempty, hreceived, haccepted⟩ := hp.of_unsent hk hsent (by simp [hclient])
      have haccepted' : accepted { s with
          answer := some .streaming
          slot := some (.stream status headers)
          log := s.log ++ [.respondStart status headers .sent] } = [] := by
        simpa [accepted, Told.chunk?] using haccepted
      refine ⟨by simp [State.receiving], fun _ => ?_, ?_⟩
      · rw [haccepted', hreceived, hempty]
        rfl
      · rw [haccepted', hreceived]
  | startedToNobody | park | chunkToNobody | unparkToNobody | ended | failed =>
      exact hp.of_same rfl rfl rfl (by simp [accepted, Told.chunk?])
  | chunk b hanswer hreceiving =>
      exact hp.of_chunk hreceiving hreceiving rfl rfl (by simp [accepted, Told.chunk?])
  | unpark b parked hparked hreceiving =>
      exact hp.of_chunk hreceiving hreceiving rfl rfl (by simp [accepted, Told.chunk?])
  | nothing t hresult =>
      exact hp.of_same rfl rfl rfl (by simp [accepted, (Told.of_refused hresult).2.2.2])

/-! ## What the client is given -/

def Client.reply : Client → Option Reply
  | .dropping reply | .cancelling reply | .done reply => reply
  | _ => none

/-- The builder of the response takes the head. -/
def Slot.valid (cfg : Setting) : Slot → Bool
  | .full resp => cfg.valid resp.status resp.headers
  | .stream status headers => cfg.valid status headers

/-- What PHP has done for the client to be given this. -/
def Accounted (cfg : Setting) (s : State) : Reply → Prop
  | .refused _ => s.announced = []
  | .noResponse => .failPending .sent ∈ s.log ∧ heads s = []
  | .badHeaders => ∃ v, heads s = [v] ∧ v.valid cfg = false
  | .whole resp => heads s = [.full resp]
  | .streamed status headers => heads s = [.stream status headers] ∧ s.received = accepted s ∧
      (.respondEnd .sent ∈ s.log ∨ .failPending .sent ∈ s.log)

structure Replied (cfg : Setting) (s : State) : Prop where
  reply : ∀ reply, s.client.reply = some reply → Accounted cfg s reply
  left : ∀ reply, s.client = .dropping reply ∨ s.client = .cancelling reply →
    reply = none ∨ reply = some .badHeaders
  cancelled : 0 < cancellations s → s.client = .done none ∨ s.client = .done (some .badHeaders)

section Replied

variable {cfg : Setting} {s s' : State}

lemma Accounted.of_told {t : Told} {reply : Reply} (h : Accounted cfg s reply)
    (hlog : s'.log = s.log ++ [t]) (hhead : t.head? = none) (hchunk : t.chunk? = none)
    (hannounced : s'.announced = s.announced) (hreceived : s'.received = s.received) :
    Accounted cfg s' reply := by
  have hheads : heads s' = heads s := by rw [heads_append hlog, hhead]; simp
  have haccepted : accepted s' = accepted s := by rw [accepted_append hlog, hchunk]; simp
  have hmem : ∀ u, u ∈ s.log → u ∈ s'.log := fun u hu => hlog ▸ List.mem_append_left _ hu
  cases reply with
  | refused error => exact hannounced.trans h
  | noResponse => exact ⟨hmem _ h.1, hheads.trans h.2⟩
  | badHeaders =>
      obtain ⟨v, hv, hvalid⟩ := h
      exact ⟨v, hheads.trans hv, hvalid⟩
  | whole resp => exact hheads.trans h
  | streamed status headers =>
      obtain ⟨hstream, hall, hend⟩ := h
      exact ⟨hheads.trans hstream, by rw [hreceived, haccepted, hall],
        hend.imp (hmem _) (hmem _)⟩

/-- A call of PHP that changes nothing for the client. -/
lemma Replied.of_told (hr : Replied cfg s) {t : Told} (hlog : s'.log = s.log ++ [t])
    (hhead : t.head? = none) (hchunk : t.chunk? = none) (hclient : s'.client = s.client)
    (hannounced : s'.announced = s.announced) (hreceived : s'.received = s.received) :
    Replied cfg s' := by
  refine ⟨fun reply h => ?_, ?_, ?_⟩
  · rw [hclient] at h
    exact (hr.reply reply h).of_told hlog hhead hchunk hannounced hreceived
  · rw [hclient]
    exact hr.left
  · rw [hclient, cancellations, hannounced]
    exact hr.cancelled

/-- While the client is still there. -/
lemma Replied.of_alive (hr : Replied cfg s) (hclient : s.client.alive = true)
    (hclient' : s'.client.alive = true) (hcancellations : cancellations s' = cancellations s) :
    Replied cfg s' := by
  refine ⟨?_, ?_, fun h => ?_⟩
  · cases h : s'.client <;> simp_all [Client.alive, Client.reply]
  · cases h : s'.client <;> simp_all [Client.alive]
  · rcases hr.cancelled (hcancellations ▸ h) with h | h <;> rw [h] at hclient <;> cases hclient

/-- The client gets its reply, or leaves. -/
lemma Replied.of_end (hr : Replied cfg s) (hclient : s.client.alive = true) {reply : Option Reply}
    (hend : s'.client = .dropping reply ∧ (reply = none ∨ reply = some .badHeaders) ∨
      s'.client = .done reply)
    (haccounted : ∀ r, reply = some r → Accounted cfg s' r)
    (hannounced : s'.announced = s.announced) : Replied cfg s' := by
  have hcancellations : ¬ 0 < cancellations s := by
    intro h
    rcases hr.cancelled h with h | h <;> rw [h] at hclient <;> cases hclient
  refine ⟨fun r h => ?_, fun r h => ?_, fun h => absurd ?_ hcancellations⟩
  · rcases hend with ⟨hend, -⟩ | hend <;> rw [hend] at h <;> exact haccounted r h
  · rcases hend with ⟨hend, hleft⟩ | hend
    · rw [hend] at h
      obtain rfl : reply = r := by simpa using h
      exact hleft
    · rw [hend] at h
      simp at h
  · rwa [cancellations, hannounced] at h

/-- Somebody has settled a request that nobody can settle any more. -/
lemma Settled.exists_settles (hs : Settled s) (hborn : s.client.awaits = true)
    (hanswer : s.answer = none) (hsending : s.sending = none)
    (hcancellations : cancellations s = 0) :
    ∃ t ∈ s.log, t.settles = true := by
  have hconserved := hs.conserved
  have hcancels : s.client.cancels = false := by
    cases h : s.client <;> simp_all [Client.awaits, Client.cancels]
  have hpending : pending s = 0 := by simp [pending, hanswer, hsending, hcancels]
  rw [hs.born hborn, hpending, hcancellations] at hconserved
  have hpos : 0 < s.log.countP Told.settles := by
    simp only [settlements] at hconserved
    omega
  exact List.countP_pos_iff.mp hpos

lemma Replied.no_cancellations (hr : Replied cfg s) (h : s.client.alive = true) :
    cancellations s = 0 := by
  by_contra hne
  rcases hr.cancelled (Nat.pos_of_ne_zero hne) with h' | h' <;> rw [h'] at h <;> cases h

/-- While the client waits, a request is settled by a response, the end of one, or the end of
PHP. -/
lemma Known.settled_by (hk : Known cfg s) (halive : s.client.alive = true) {t : Told}
    (ht : t ∈ s.log) (hsettles : t.settles = true) :
    (∃ resp, .full resp ∈ heads s) ∨ t = .respondEnd .sent ∨ t = .failPending .sent := by
  have hgone : t.isGone = false := by
    simpa using List.any_eq_false.mp (hk.alive halive) t ht
  cases t with
  | respond resp result =>
      cases result with
      | sent => exact .inl ⟨resp, List.mem_filterMap.mpr ⟨_, ht, rfl⟩⟩
      | gone => simp [Told.isGone, Told.result] at hgone
      | _ => cases hsettles
  | respondStart status headers result =>
      cases result with
      | gone => simp [Told.isGone, Told.result] at hgone
      | _ => cases hsettles
  | respondEnd result => cases result <;> simp_all [Told.settles]
  | failPending result => cases result <;> simp_all [Told.settles]
  | _ => cases hsettles

/-- Whoever holds the receiving end of a stream is there. -/
lemma Known.alive_of_receiving (hk : Known cfg s) (h : s.receiving = true) :
    s.client.alive = true := by
  cases hslot : s.slot with
  | some v => rw [(hk.slot v hslot).1]; rfl
  | none =>
      cases hc : s.client with
      | streaming status headers => rfl
      | _ =>
          rw [receiving_of_client hslot (by simp [hc])] at h
          cases h

lemma Replied.move (hr : Replied cfg s) (hk : Known cfg s) (hs : Settled s) (hp : Piped s)
    (h : Move cfg s s') : Replied cfg s' := by
  cases h with
  | delivered hclient =>
      exact hr.of_alive (by rw [hclient]; rfl) rfl (by simp [cancellations])
  | refused error hclient =>
      refine hr.of_end (by rw [hclient]; rfl) (.inr rfl) (fun r hrep => ?_) rfl
      obtain rfl := Option.some.inj hrep
      exact hs.unborn hclient
  | leftEarly hclient => exact hr.of_end (by rw [hclient]; rfl) (.inr rfl) (by simp) rfl
  | whole resp hclient hslot =>
      refine hr.of_end (by rw [hclient]; rfl) (.inr rfl) (fun r hrep => ?_) rfl
      have hheads := (hk.slot _ hslot).2
      by_cases hvalid : cfg.valid resp.status resp.headers = true
      · rw [if_pos hvalid] at hrep
        obtain rfl := Option.some.inj hrep
        exact hheads
      · rw [if_neg hvalid] at hrep
        obtain rfl := Option.some.inj hrep
        exact ⟨_, hheads, by simpa [Slot.valid] using hvalid⟩
  | head status headers hclient => exact hr.of_alive (by rw [hclient]; rfl) rfl rfl
  | badHead status headers hclient hslot hvalid =>
      refine hr.of_end (by rw [hclient]; rfl) (.inl ⟨rfl, .inr rfl⟩) (fun r hrep => ?_) rfl
      obtain rfl := Option.some.inj hrep
      exact ⟨_, (hk.slot _ hslot).2, hvalid⟩
  | noResponse hclient hslot hanswer hsending =>
      have halive : s.client.alive = true := by rw [hclient]; rfl
      have hsent := hk.unsent (.inr (.inl ⟨hclient, hslot⟩))
      refine hr.of_end halive (.inr rfl) (fun r hrep => ?_) rfl
      obtain rfl := Option.some.inj hrep
      have hnone : s.answer = none := answer_none_of_ne hanswer (hk.not_begun hsent).1
      obtain ⟨t, ht, hsettles⟩ := hs.exists_settles (by rw [hclient]; rfl) hnone hsending
        (hr.no_cancellations halive)
      rcases hk.settled_by halive ht hsettles with ⟨resp, hmem⟩ | rfl | rfl
      · rw [hsent] at hmem
        cases hmem
      · have hend := List.any_eq_false.mp (hk.not_begun hsent).2.2.1 _ ht
        simp [Told.isEnd] at hend
      · exact ⟨ht, hsent⟩
  | frame status headers chunk queue hclient =>
      have halive : s.client.alive = true := by rw [hclient]; rfl
      exact hr.of_alive halive halive rfl
  | bodyEnd status headers hclient hqueue hanswer hparked =>
      have halive : s.client.alive = true := by rw [hclient]; rfl
      have hheads := (hk.streaming status headers hclient).2
      have hnot : ¬ (s.answer = some .whole ∨ s.sending.isSome = true) := by
        intro howed
        rw [hk.unsent (.inr (.inr howed))] at hheads
        cases hheads
      push Not at hnot
      have hsending : s.sending = none := by simpa using hnot.2
      refine hr.of_end halive (.inr rfl) (fun r hrep => ?_) rfl
      obtain rfl := Option.some.inj hrep
      have hpiped := hp.piped (receiving_of_streaming hclient)
      rw [hqueue, List.append_nil] at hpiped
      obtain ⟨t, ht, hsettles⟩ := hs.exists_settles (by rw [hclient]; rfl)
        (answer_none_of_ne hnot.1 hanswer) hsending (hr.no_cancellations halive)
      refine ⟨hheads, hpiped.symm, ?_⟩
      rcases hk.settled_by halive ht hsettles with ⟨resp, hmem⟩ | rfl | rfl
      · rw [hheads] at hmem
        simp at hmem
      · exact .inl ht
      · exact .inr ht
  | left hclient =>
      have halive : s.client.alive = true := by
        rcases hclient with h | ⟨_, _, h⟩ <;> rw [h] <;> rfl
      exact hr.of_end halive (.inl ⟨rfl, .inl rfl⟩) (by simp) rfl
  | owing reply hclient hanswer =>
      have hreply := hr.reply
      have hleft := hr.left reply (.inl hclient)
      rw [hclient] at hreply
      refine ⟨hreply, fun r h => ?_, fun h => ?_⟩
      · obtain rfl : reply = r := by simpa using h
        exact hleft
      · rcases hr.cancelled h with h | h <;> rw [hclient] at h <;> cases h
  | owingNothing reply hclient hanswer =>
      have hreply := hr.reply
      rw [hclient] at hreply
      refine ⟨hreply, by simp, fun h => ?_⟩
      rcases hr.cancelled h with h | h <;> rw [hclient] at h <;> cases h
  | cancelled reply hclient =>
      have hreply := hr.reply
      rw [hclient] at hreply
      have hleft := hr.left reply (.inr hclient)
      refine ⟨fun r h => ?_, by simp, fun _ => by rcases hleft with rfl | rfl <;> simp⟩
      obtain rfl : r = .badHeaders := by
        rcases hleft with rfl | rfl
        · cases h
        · exact (Option.some.inj h).symm
      exact hreply .badHeaders h
  | took => exact ⟨hr.reply, hr.left, hr.cancelled⟩
  | sent resp hsending hclient =>
      have halive : s.client.alive = true := by rw [hclient]; rfl
      exact hr.of_alive halive halive rfl
  | started status headers hsending hanswer hclient =>
      have halive : s.client.alive = true := by rw [hclient]; rfl
      exact hr.of_alive halive halive rfl
  | sentToNobody resp => exact hr.of_told (t := .respond resp .gone) rfl rfl rfl rfl rfl rfl
  | startedToNobody status headers =>
      exact hr.of_told (t := .respondStart status headers .gone) rfl rfl rfl rfl rfl rfl
  | chunk b hanswer hreceiving =>
      have halive := hk.alive_of_receiving hreceiving
      exact hr.of_alive halive halive rfl
  | park b => exact hr.of_told (t := .chunk b .parked) rfl rfl rfl rfl rfl rfl
  | chunkToNobody b => exact hr.of_told (t := .chunk b .gone) rfl rfl rfl rfl rfl rfl
  | unpark b parked hparked hreceiving =>
      have halive := hk.alive_of_receiving hreceiving
      exact hr.of_alive halive halive rfl
  | unparkToNobody b => exact hr.of_told (t := .parkedChunk b .gone) rfl rfl rfl rfl rfl rfl
  | ended => exact hr.of_told (t := .respondEnd .sent) rfl rfl rfl rfl rfl rfl
  | failed => exact hr.of_told (t := .failPending .sent) rfl rfl rfl rfl rfl rfl
  | nothing t hresult =>
      obtain ⟨hhead, -, -, hchunk⟩ := Told.of_refused hresult
      exact hr.of_told rfl hhead hchunk rfl rfl rfl

end Replied

/-! ## Runs -/

section Runs

variable {cfg : Setting} {s s' : State}

structure Good (cfg : Setting) (s : State) : Prop where
  settled : Settled s
  known : Known cfg s
  piped : Piped s
  replied : Replied cfg s

lemma good_init : Good cfg init where
  settled := ⟨rfl, fun _ => rfl, by simp [init, Client.awaits], by simp [init, requests]⟩
  known := ⟨fun _ => rfl, fun _ => rfl, by simp [init, accepted], by simp [init], by simp [init],
    by simp [init], fun _ _ => rfl⟩
  piped := ⟨fun _ => rfl, fun _ => rfl, List.prefix_refl _⟩
  replied := ⟨by simp [init, Client.reply], by simp [init], by simp [init, cancellations]⟩

lemma Good.step {a : Action} (hg : Good cfg s) (h : step cfg s a = some s') : Good cfg s' := by
  have hmove := move_of_step h
  exact ⟨hg.settled.move hmove, hg.known.move hg.settled hmove, hg.piped.move hg.known hmove,
    hg.replied.move hg.known hg.settled hg.piped hmove⟩

lemma Good.run {as : List Action} (hg : Good cfg s)
    (h : runFrom (Exchange.step cfg) s as = some s') :
    Good cfg s' :=
  invariant_of_run (Exchange.step cfg) (fun _ _ _ hg hs => hg.step hs) hg h

/-- **What a client is given is what PHP has done.**  A whole response is the one PHP has sent; a
streamed one ends, with all chunks that counted as sent and in their order, when PHP has ended it or
is gone; a client is told that there is no response only when PHP is gone without one.  What a
client has received before that is the beginning of what was sent. -/
theorem exchange_reply {as : List Action} (h : runFrom (step cfg) init as = some s) :
    s.received <+: accepted s ∧
      ∀ reply, s.client = .done (some reply) → Accounted cfg s reply := by
  have hg := good_init.run h
  exact ⟨hg.piped.received, fun reply hclient => hg.replied.reply reply (by rw [hclient]; rfl)⟩

/-- Any status and any headers, and one chunk in the channel. -/
def roomForOne : Setting := ⟨1, fun _ _ => true, Nat.one_pos⟩

/-- Two chunks, of which the second has to wait. -/
def twoChunks : List Action :=
  [.readBody none, .respondStart 200 [], .receive, .sendChunk [1], .sendChunk [2], .frame,
    .sendParked, .respondEnd, .frame, .bodyEnd]

def afterTwoChunks : State where
  client := .done (some (.streamed 200 []))
  answer := none
  sending := none
  slot := none
  queue := []
  parked := []
  received := [[1], [2]]
  announced := [.request]
  log := [.respondStart 200 [] .sent, .chunk [1] .sent, .chunk [2] .parked,
    .parkedChunk [2] .sent, .respondEnd .sent]

theorem exchange_reply_twoChunks :
    afterTwoChunks.received <+: accepted afterTwoChunks ∧
      ∀ reply, afterTwoChunks.client = .done (some reply) →
        Accounted roomForOne afterTwoChunks reply := by
  have hrun : runFrom (step roomForOne) init twoChunks = some afterTwoChunks := by decide
  exact exchange_reply hrun

/-- **A request is settled once.**  Of a delivered request, PHP settles it, or the front door
cancels it, and never both; when the front door has nothing left to do, one of the two has happened
or `respond` is about to.  It is cancelled only if the client has left, or the response could not be
made. -/
theorem exchange_settled_once {as : List Action} (h : runFrom (step cfg) init as = some s) :
    settlements s + cancellations s ≤ requests s ∧ requests s ≤ 1 ∧
      (∀ reply, s.client = .done reply →
        settlements s + cancellations s + s.sending.isSome.toNat = requests s) ∧
      (0 < cancellations s → s.client = .done none ∨ s.client = .done (some .badHeaders)) := by
  obtain ⟨hsettled, hknown, -, hreplied⟩ := good_init.run h
  have hconserved := hsettled.conserved
  refine ⟨by omega, hsettled.once, fun reply hclient => ?_, hreplied.cancelled⟩
  have hanswer := hknown.spent reply (.inl hclient)
  simp only [pending, hanswer, hclient, Client.cancels, Option.isSome_none, Bool.toNat_false]
    at hconserved
  omega

/-- The client leaves when PHP has begun to stream to it. -/
def clientLeaves : List Action :=
  [.readBody none, .respondStart 200 [], .receive, .sendChunk [1], .leave, .dropGuard, .announce,
    .sendChunk [2]]

def afterClientLeaves : State where
  client := .done none
  answer := none
  sending := none
  slot := none
  queue := []
  parked := []
  received := []
  announced := [.request, .cancelled]
  log := [.respondStart 200 [] .sent, .chunk [1] .sent, .chunk [2] .refused]

theorem exchange_settled_once_clientLeaves :
    settlements afterClientLeaves + cancellations afterClientLeaves ≤ requests afterClientLeaves ∧
      requests afterClientLeaves ≤ 1 ∧
      (∀ reply, afterClientLeaves.client = .done reply →
        settlements afterClientLeaves + cancellations afterClientLeaves
          + afterClientLeaves.sending.isSome.toNat = requests afterClientLeaves) ∧
      (0 < cancellations afterClientLeaves → afterClientLeaves.client = .done none ∨
        afterClientLeaves.client = .done (some .badHeaders)) := by
  have hrun : runFrom (step roomForOne) init clientLeaves = some afterClientLeaves := by decide
  exact exchange_settled_once hrun

lemma gone_move (hk : Known cfg s) (halive : s.client.alive = false) (h : Move cfg s s') :
    s'.client.alive = false ∧ heads s' = heads s ∧ accepted s' = accepted s := by
  have hreceiving : s.receiving = false := by
    cases hr : s.receiving with
    | false => rfl
    | true => rw [hk.alive_of_receiving hr] at halive; cases halive
  cases h with
  | delivered hclient | refused error hclient | whole resp hclient | head status headers hclient
  | badHead status headers hclient | noResponse hclient | frame status headers chunk queue hclient
  | bodyEnd status headers hclient | leftEarly hclient =>
      rw [hclient] at halive
      cases halive
  | left hclient => exact ⟨rfl, rfl, rfl⟩
  | owing | owingNothing | cancelled => exact ⟨rfl, rfl, rfl⟩
  | took => exact ⟨halive, rfl, rfl⟩
  | sent resp hsending hclient | started status headers hsending hanswer hclient =>
      rw [hclient] at halive
      cases halive
  | chunk b hanswer hr | park b hanswer hr | unpark b parked hparked hr =>
      rw [hr] at hreceiving
      cases hreceiving
  | sentToNobody | startedToNobody | chunkToNobody | unparkToNobody | ended | failed =>
      exact ⟨halive, by simp [heads, Told.head?], by simp [accepted, Told.chunk?]⟩
  | nothing t hresult =>
      obtain ⟨hhead, -, -, hchunk⟩ := Told.of_refused hresult
      exact ⟨halive, by simp [heads, hhead], by simp [accepted, hchunk]⟩

/-- **Nothing counts as sent to a client that has left.**  From then on every call of PHP and every
parked chunk is refused or finds out. -/
theorem exchange_gone {as bs : List Action} (h : runFrom (step cfg) init as = some s)
    (halive : s.client.alive = false) (hlater : runFrom (step cfg) s bs = some s') :
    s'.client.alive = false ∧ heads s' = heads s ∧ accepted s' = accepted s := by
  have hI : Good cfg s' ∧ s'.client.alive = false ∧ heads s' = heads s ∧
      accepted s' = accepted s := by
    refine invariant_of_run (step cfg) (I := fun u => Good cfg u ∧ u.client.alive = false ∧
      heads u = heads s ∧ accepted u = accepted s) ?_ ⟨good_init.run h, halive, rfl, rfl⟩ hlater
    rintro u a u' ⟨hg, hu, hheads, haccepted⟩ hstep
    obtain ⟨hu', hheads', haccepted'⟩ := gone_move hg.known hu (move_of_step hstep)
    exact ⟨hg.step hstep, hu', hheads'.trans hheads, haccepted'.trans haccepted⟩
  exact hI.2

theorem exchange_gone_clientLeaves :
    ∃ s, runFrom (step roomForOne) init (clientLeaves.take 5) = some s ∧
      s.client.alive = false ∧ runFrom (step roomForOne) s (clientLeaves.drop 5)
        = some afterClientLeaves ∧
      heads afterClientLeaves = heads s ∧ accepted afterClientLeaves = accepted s := by
  let left : State := ⟨.dropping none, some .streaming, none, none, [], [], [], [.request],
    [.respondStart 200 [] .sent, .chunk [1] .sent]⟩
  have hrun : runFrom (step roomForOne) init (clientLeaves.take 5) = some left := by decide
  have hlater : runFrom (step roomForOne) left (clientLeaves.drop 5) = some afterClientLeaves := by
    decide
  obtain ⟨-, hheads, haccepted⟩ := exchange_gone hrun rfl hlater
  exact ⟨left, hrun, rfl, hlater, hheads, haccepted⟩

/-! ## A settled request comes to its end -/

/-- What hyper, the guard and the ops of the runtime do. -/
def Action.own : Action → Bool
  | .receive | .receiveError | .frame | .bodyEnd | .dropGuard | .announce | .respondSend
  | .sendParked => true
  | _ => false

def Client.weight : Client → ℕ
  | .reading => 6
  | .waiting => 5
  | .streaming _ _ => 4
  | .dropping _ => 3
  | .cancelling _ => 2
  | .done _ => 0

/-- How much is left to do. -/
def rank (s : State) : ℕ :=
  s.client.weight + s.sending.isSome.toNat + 2 * s.parked.length + s.queue.length

def Client.isDone : Client → Bool
  | .done _ => true
  | _ => false

lemma advances (hanswer : s.answer = none) (hreading : s.client ≠ .reading)
    (hdone : s.client.isDone = false) :
    ∃ a s', a.own = true ∧ step cfg s a = some s' ∧ s'.answer = none ∧ s'.client ≠ .reading ∧
      rank s' < rank s := by
  cases hclient : s.client with
  | reading => exact absurd hclient hreading
  | waiting =>
      cases hslot : s.slot with
      | some v =>
          refine ⟨.receive, phpResponse cfg s v, rfl, by simp [step, hclient, hslot], ?_, ?_, ?_⟩
          · cases v with
            | full resp => exact hanswer
            | stream => simp only [phpResponse]; split_ifs <;> exact hanswer
          · cases v with
            | full resp => simp [phpResponse]
            | stream => simp only [phpResponse]; split_ifs <;> simp
          · cases v with
            | full resp => simp [phpResponse, rank, hclient, Client.weight]
            | stream =>
                simp only [phpResponse]
                split_ifs
                · simp [rank, hclient, Client.weight]
                · simp [rank, hclient, Client.weight]
                  omega
      | none =>
          cases hsending : s.sending with
          | some resp =>
              refine ⟨.respondSend, respondSend s resp, rfl, by simp [step, hsending], ?_, ?_, ?_⟩
                <;> simp [respondSend, hclient, hanswer, rank, hsending]
          | none =>
              refine ⟨.receiveError, { s with client := .done (some .noResponse) }, rfl,
                by simp [step, hclient, hslot, hanswer, hsending], hanswer, by simp, ?_⟩
              simp [rank, hclient, Client.weight]
  | streaming status headers =>
      have hreceiving := receiving_of_streaming hclient
      cases hqueue : s.queue with
      | cons chunk queue =>
          refine ⟨.frame, { s with queue := queue, received := s.received ++ [chunk] }, rfl,
            by simp [step, hclient, hqueue], hanswer, hreading, ?_⟩
          simp [rank, hqueue]
      | nil =>
          cases hparked : s.parked with
          | nil =>
              refine ⟨.bodyEnd, { s with client := .done (some (.streamed status headers)) }, rfl,
                by simp [step, hclient, hqueue, hanswer, hparked], hanswer, by simp, ?_⟩
              simp [rank, hclient, Client.weight]
          | cons chunk parked =>
              refine ⟨.sendParked, { s with
                parked := parked, queue := s.queue ++ [chunk],
                log := s.log ++ [.parkedChunk chunk .sent] }, rfl, ?_, hanswer, hreading, ?_⟩
              · simp [step, sendParked, hparked, hreceiving, hqueue, cfg.cap_pos]
              · simp [rank, hparked, hqueue]
                omega
  | dropping reply =>
      refine ⟨.dropGuard, { s with client := .done reply }, rfl,
        by simp [step, hclient, dropGuard, hanswer], hanswer, by simp, ?_⟩
      simp [rank, hclient, Client.weight]
  | cancelling reply =>
      refine ⟨.announce, { s with
        client := .done reply, announced := s.announced ++ [.cancelled] }, rfl,
        by simp [step, hclient], hanswer, by simp, ?_⟩
      simp [rank, hclient, Client.weight]
  | done reply => simp [hclient, Client.isDone] at hdone

/-- The client's side is at its end, and nobody holds anything for it any more. -/
structure Ended (s : State) : Prop where
  client : s.client.isDone = true
  parked : s.parked = []
  sending : s.sending = none

/-- What a client that has gone leaves behind finds out. -/
lemma advances_done (hk : Known cfg s) (hanswer : s.answer = none)
    (hdone : s.client.isDone = true) (hnot : ¬ Ended s) :
    ∃ a s', a.own = true ∧ step cfg s a = some s' ∧ s'.answer = none ∧ s'.client ≠ .reading ∧
      rank s' < rank s := by
  have hwaiting : s.client ≠ .waiting := by
    intro h
    simp [h, Client.isDone] at hdone
  have hreading : s.client ≠ .reading := by
    intro h
    simp [h, Client.isDone] at hdone
  have hstreaming : ∀ status headers, s.client ≠ .streaming status headers := by
    intro status headers h
    simp [h, Client.isDone] at hdone
  cases hsending : s.sending with
  | some resp =>
      refine ⟨.respondSend, respondSend s resp, rfl, by simp [step, hsending], ?_, ?_, ?_⟩
        <;> simp [respondSend, hwaiting, hreading, hanswer, rank, hsending]
  | none =>
      cases hparked : s.parked with
      | nil => exact absurd ⟨hdone, hparked, hsending⟩ hnot
      | cons chunk parked =>
          have hreceiving := receiving_of_client (hk.slot_none hwaiting) hstreaming
          refine ⟨.sendParked, { s with
            parked := parked, log := s.log ++ [.parkedChunk chunk .gone] }, rfl, ?_, hanswer,
            hreading, ?_⟩
          · simp [step, sendParked, hparked, hreceiving]
          · simp [rank, hparked]

/-- `all` is what the client of a stream receives: nothing of it is lost on the way, and a client
that was there is not left without a reply. -/
structure Delivers (all : List PhpString) (s : State) : Prop where
  owed : s.client.alive = true → accepted s ++ s.parked = all
  reply : s.client.alive = false → ∃ r, s.client.reply = some r
  received : ∀ status headers, s.client.reply = some (.streamed status headers) → s.received = all

lemma Client.not_alive_of_reply {c : Client} {r : Reply} (h : c.reply = some r) :
    c.alive = false := by
  cases c with
  | reading | waiting | streaming => cases h
  | dropping | cancelling | done => rfl

/-- An own step that adds nothing to what was accepted, and leaves the client where it is. -/
lemma Delivers.of_same {all : List PhpString} (hd : Delivers all s) (hclient : s'.client = s.client)
    (haccepted : accepted s' = accepted s) (hparked : s'.parked = s.parked)
    (hreceived : s'.client.alive = false → s'.received = s.received) : Delivers all s' := by
  refine ⟨fun h => ?_, fun h => ?_, fun status headers h => ?_⟩
  · rw [haccepted, hparked]
    exact hd.owed (hclient ▸ h)
  · rw [hclient]
    exact hd.reply (hclient ▸ h)
  · rw [hreceived (Client.not_alive_of_reply h)]
    exact hd.received status headers (hclient ▸ h)

/-- The client is given a reply that is not the end of a stream. -/
lemma Delivers.of_reply {all : List PhpString} {r : Reply} (halive : s'.client.alive = false)
    (hreply : s'.client.reply = some r) (hr : ∀ status headers, r ≠ .streamed status headers) :
    Delivers all s' := by
  refine ⟨fun h => ?_, fun _ => ⟨r, hreply⟩, fun status headers h => ?_⟩
  · rw [halive] at h
    cases h
  · rw [hreply] at h
    exact absurd (Option.some.inj h) (hr status headers)

lemma Delivers.step {all : List PhpString} {a : Action} (hd : Delivers all s) (hg : Good cfg s)
    (ha : a.own = true) (h : step cfg s a = some s') : Delivers all s' := by
  cases a with
  | receive =>
      simp only [Exchange.step] at h
      split_ifs at h with hclient
      obtain ⟨v, hslot, rfl⟩ := Option.map_eq_some_iff.mp h
      have hall := hd.owed (by rw [hclient]; rfl)
      cases v with
      | full resp =>
          refine Delivers.of_reply (r := if cfg.valid resp.status resp.headers then .whole resp
            else .badHeaders) rfl rfl fun status headers => ?_
          split_ifs <;> simp
      | stream status headers =>
          simp only [phpResponse]
          split_ifs
          · exact ⟨fun _ => hall, by simp [Client.alive], by simp [Client.reply]⟩
          · exact Delivers.of_reply (r := .badHeaders) rfl rfl (by simp)
  | receiveError =>
      simp only [Exchange.step] at h
      split_ifs at h
      obtain rfl := Option.some.inj h
      exact Delivers.of_reply (r := .noResponse) rfl rfl (by simp)
  | frame =>
      simp only [Exchange.step] at h
      split at h
      · next status headers chunk queue hclient hqueue =>
          obtain rfl := Option.some.inj h
          exact hd.of_same rfl rfl rfl fun halive => by simp [hclient, Client.alive] at halive
      · cases h
  | bodyEnd =>
      simp only [Exchange.step] at h
      split at h
      · next status headers hclient hqueue =>
          split_ifs at h with hcond
          obtain rfl := Option.some.inj h
          -- The channel is empty and nobody waits for room in it, so all is with the client.
          have hall := hd.owed (by rw [hclient]; rfl)
          have hpiped := hg.piped.piped (receiving_of_streaming hclient)
          rw [hcond.2, List.append_nil, hpiped, hqueue, List.append_nil] at hall
          exact ⟨by simp [Client.alive], fun _ => ⟨_, rfl⟩, fun _ _ _ => hall⟩
      · cases h
  | dropGuard =>
      simp only [Exchange.step] at h
      split at h
      · next reply hclient =>
          obtain rfl := Option.some.inj h
          have hreply := hd.reply (by rw [hclient]; rfl)
          have hreceived := hd.received
          rw [hclient] at hreply hreceived
          unfold dropGuard
          split_ifs
          · exact ⟨by simp [Client.alive], fun _ => hreply, hreceived⟩
          · exact ⟨by simp [Client.alive], fun _ => hreply, hreceived⟩
      · cases h
  | announce =>
      simp only [Exchange.step] at h
      split at h
      · next reply hclient =>
          obtain rfl := Option.some.inj h
          have hreply := hd.reply (by rw [hclient]; rfl)
          have hreceived := hd.received
          rw [hclient] at hreply hreceived
          exact ⟨by simp [Client.alive], fun _ => hreply, hreceived⟩
      · cases h
  | respondSend =>
      obtain ⟨resp, hsending, rfl⟩ := Option.map_eq_some_iff.mp h
      unfold respondSend
      split_ifs
      · exact hd.of_same rfl (by simp [accepted, Told.chunk?]) rfl fun _ => rfl
      · exact hd.of_same rfl (by simp [accepted, Told.chunk?]) rfl fun _ => rfl
  | sendParked =>
      simp only [Exchange.step, sendParked] at h
      split at h
      · cases h
      · next chunk parked hparked =>
          split_ifs at h with hreceiving
          · obtain rfl := Option.some.inj h
            have hgone := not_alive_of_receiving hg.known hreceiving (.inr (by simp [hparked]))
            exact ⟨fun h => absurd (hgone.symm.trans h) (by simp), hd.reply, hd.received⟩
          · obtain rfl := Option.some.inj h
            refine ⟨fun h => ?_, hd.reply, hd.received⟩
            have hall := hd.owed h
            rw [hparked] at hall
            simpa [accepted, Told.chunk?] using hall
  | _ => cases ha

/-- **A settled request comes to its end.**  When nobody owes an answer any more, the front door and
the runtime can by themselves bring the client its reply, with all chunks that were accepted or wait
for room if it is a stream, and nothing is left over; what a client that has gone leaves behind is
dropped. -/
theorem exchange_ends {as : List Action} (h : runFrom (step cfg) init as = some s)
    (hborn : s.client ≠ .reading) (hanswer : s.answer = none) :
    ∃ bs s' reply, (∀ b ∈ bs, b.own = true) ∧ runFrom (step cfg) s bs = some s' ∧
      s'.client = .done reply ∧ s'.parked = [] ∧ s'.sending = none ∧
      (∀ r, reply = some r → Accounted cfg s' r) ∧
      (s.client.alive = true → (∃ r, reply = some r) ∧
        ∀ status headers, reply = some (.streamed status headers) →
          s'.received = accepted s ++ s.parked) := by
  have hstart : s.client.alive = true → Delivers (accepted s ++ s.parked) s := fun halive =>
    ⟨fun _ => rfl, fun h => absurd (halive.symm.trans h) (by simp), fun status headers h =>
      absurd (halive.symm.trans (Client.not_alive_of_reply h)) (by simp)⟩
  obtain ⟨bs, s', howns, hrun, ⟨hg, -, -, hdelivers⟩, hended⟩ := reaches_of_rank (step cfg)
    (I := fun u => Good cfg u ∧ u.answer = none ∧ u.client ≠ .reading ∧
      (s.client.alive = true → Delivers (accepted s ++ s.parked) u))
    (Q := Ended) (A := fun a => a.own = true) rank
    (fun u hu hnot => by
      obtain ⟨hg, hu, hreading, hdelivers⟩ := hu
      obtain ⟨a, u', ha, hstep, hu', hreading', hrank⟩ :
          ∃ a u', a.own = true ∧ step cfg u a = some u' ∧ u'.answer = none ∧
            u'.client ≠ .reading ∧ rank u' < rank u := by
        by_cases hdone : u.client.isDone = true
        · exact advances_done hg.known hu hdone hnot
        · exact advances hu hreading (by simpa using hdone)
      exact ⟨a, u', ha, hstep, ⟨hg.step hstep, hu', hreading',
        fun halive => (hdelivers halive).step hg ha hstep⟩, hrank⟩)
    ⟨good_init.run h, hanswer, hborn, hstart⟩
  cases hc : s'.client with
  | done reply =>
      refine ⟨bs, s', reply, howns, hrun, hc, hended.parked, hended.sending, fun r hr => ?_,
        fun halive => ?_⟩
      · exact hg.replied.reply r (by rw [hc]; exact hr)
      · have hd := hdelivers halive
        have hreply := hd.reply (by rw [hc]; rfl)
        have hreceived := hd.received
        rw [hc] at hreply hreceived
        exact ⟨hreply, hreceived⟩
  | _ => exact absurd hended.client (by simp [hc, Client.isDone])

theorem exchange_ends_twoChunks :
    ∃ s, runFrom (step roomForOne) init
        [.readBody none, .respondStart 200 [], .sendChunk [1], .sendChunk [2], .respondEnd]
        = some s ∧
      s.answer = none ∧ s.parked = [[2]] ∧ ∃ bs s' reply, (∀ b ∈ bs, b.own = true) ∧
        runFrom (step roomForOne) s bs = some s' ∧
        s'.client = .done reply ∧ s'.parked = [] ∧ s'.sending = none ∧
        (∀ r, reply = some r → Accounted roomForOne s' r) ∧ (∃ r, reply = some r) ∧
        ∀ status headers, reply = some (.streamed status headers) → s'.received = [[1], [2]] := by
  let ended : State := ⟨.waiting, none, none, some (.stream 200 []), [[1]], [[2]], [], [.request],
    [.respondStart 200 [] .sent, .chunk [1] .sent, .chunk [2] .parked, .respondEnd .sent]⟩
  have hrun : runFrom (step roomForOne) init
      [.readBody none, .respondStart 200 [], .sendChunk [1], .sendChunk [2], .respondEnd]
      = some ended := by decide
  obtain ⟨bs, s', reply, howns, hruns, hclient, hparked, hsending, haccounted, hdelivered⟩ :=
    exchange_ends hrun (by decide) rfl
  exact ⟨ended, hrun, rfl, rfl, bs, s', reply, howns, hruns, hclient, hparked, hsending, haccounted,
    hdelivered rfl⟩

end Runs

end Ignis.Exchange
