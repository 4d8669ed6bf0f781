import Ignis.Lib.StepSystem
import Ignis.Temporal.Codec

/-!
# The two numberings of a run

sdk-php numbers its requests by id, sdk-core numbers the commands of a run by seq.  `bySeq` and
`byId` tie the two together; `encode` adds to them and `decode` takes out of them.

Beside the codec, `World` keeps what happened to each run since its entry was made or reset: the
requests that were given a seq, in order (`issued`), and the seqs that were resolved (`resolved`).
The maps are determined by the two (`Correlated`): `bySeq` has exactly the issued and unresolved
seqs, `byId` exactly their ids.

A run of the system is a list of turns: an activation begins, a job of it is decoded, a command of
sdk-php is encoded.  `decodeActivation` and `encodeCompletion` are such lists
(`decodeActivation_run`, `encodeCompletion_run`); an activation that throws is none.
-/

namespace Ignis

namespace Temporal

/-! ## Definitions -/

/-- A request that was given a seq. -/
structure Issued where
  id : ReqId
  seq : ℕ
  kind : Kind
  deriving DecidableEq, Repr

structure World where
  codec : CoreCodec
  issued : PhpString → List Issued
  resolved : PhpString → List ℤ

def World.init : World := ⟨.init, fun _ => [], fun _ => []⟩

/-- The seq of a job that resolves a command. -/
def Job.resolves : Job → Option ℤ
  | .fireTimer seq => some seq
  | .resolveActivity seq _ => some seq
  | .resolveChildWorkflowExecution seq _ => some seq
  | _ => none

/-- The jobs that make the entry of a run anew or remove it. -/
def Job.clears : Job → Bool
  | .initializeWorkflow _ | .removeFromCache => true
  | _ => false

/-- What the history of the run notes of a job. -/
def World.afterJob (w : World) (runId : PhpString) (job : Job) : World :=
  { codec := (decodeJob w.codec runId job).1
    issued :=
      if job.clears then Function.update w.issued runId [] else w.issued
    resolved :=
      if job.clears then Function.update w.resolved runId []
      else
        match job.resolves with
        | some seq =>
            if ((w.codec.run runId).bySeq.get? seq).isSome then
              Function.update w.resolved runId (w.resolved runId ++ [seq])
            else w.resolved
        | none => w.resolved }

/-- The request that a command schedules. -/
def Command.schedules : Command → Option (ReqId × Kind)
  | .request name id _ _ _ => (scheduleKind name).map fun kind => (id, kind)
  | _ => none

def World.afterCommand (w : World) (host : Host) (runId : PhpString) (command : Command) : World :=
  { w with
    codec := (encodeCommand host w.codec runId command).1
    issued :=
      match command.schedules with
      | some (id, kind) =>
          Function.update w.issued runId
            (w.issued runId ++ [⟨id, (nextSeq w.codec runId id kind).2, kind⟩])
      | none => w.issued }

/-- sdk-php does not use the id of a request twice in a run. -/
def FreshId (w : World) (runId : PhpString) (command : Command) : Prop :=
  ∀ id kind, command.schedules = some (id, kind) →
    ∀ i ∈ w.issued runId, i.id.key ≠ id.key

instance (w : World) (runId : PhpString) (command : Command) :
    Decidable (FreshId w runId command) :=
  match h : command.schedules with
  | none => isTrue fun id kind hs => absurd (h.symm.trans hs) (by simp)
  | some (id, kind) =>
      decidable_of_iff (∀ i ∈ w.issued runId, i.id.key ≠ id.key)
        ⟨fun hf id' kind' hs => by cases h.symm.trans hs; exact hf, fun hf => hf id kind h⟩

inductive Turn where
  /-- `forBatch`, and the run id of the activation. -/
  | activation (runId : PhpString)
  | job (job : Job)
  | command (command : Command)

def turn (host : Host) (w : World) : Turn → Option World
  | .activation runId => some { w with codec := { forBatch w.codec with runId := runId } }
  | .job job => some (w.afterJob w.codec.runId job)
  | .command command =>
      if FreshId w w.codec.runId command then some (w.afterCommand host w.codec.runId command)
      else none

/-- The maps of a run, by its history. -/
structure Correlated (r : Run) (issued : List Issued) (resolved : List ℤ) : Prop where
  seqs : issued.map Issued.seq = List.range' 1 r.seq
  ids : (issued.map fun i => i.id.key).Nodup
  resolved_issued : ∀ s ∈ resolved, ∃ i ∈ issued, (i.seq : ℤ) = s
  bySeq : ∀ s e, r.bySeq.get? s = some e ↔
    ∃ i ∈ issued, (i.seq : ℤ) = s ∧ s ∉ resolved ∧ e = ⟨i.id, i.kind⟩
  byId : ∀ k e, r.byId.get? k = some e ↔
    ∃ i ∈ issued, i.id.key = k ∧ (i.seq : ℤ) ∉ resolved ∧ e = ⟨i.seq, i.kind⟩

def World.Inv (w : World) : Prop :=
  ∀ runId, Correlated (w.codec.run runId) (w.issued runId) (w.resolved runId)

/-- A request that is scheduled and not yet resolved. -/
def World.Outstanding (w : World) (runId : PhpString) (i : Issued) : Prop :=
  i ∈ w.issued runId ∧ (i.seq : ℤ) ∉ w.resolved runId

/-- The kind and the seq that a cancel command names. -/
def CoreCommand.cancels : CoreCommand → Option (Kind × ℕ)
  | .cancelTimer seq => some (.timer, seq)
  | .requestCancelActivity seq => some (.activity, seq)
  | .requestCancelLocalActivity seq => some (.localActivity, seq)
  | .cancelChildWorkflowExecution seq => some (.child, seq)
  | _ => none

/-- What the maps of a run are good for, whatever is decoded or encoded next. -/
structure World.Faithful (host : Host) (w : World) (runId : PhpString) : Prop where
  /-- The maps hold the outstanding requests. -/
  bySeq : ∀ s id kind, (w.codec.run runId).bySeq.get? s = some ⟨id, kind⟩ ↔
    ∃ i, w.Outstanding runId i ∧ (i.seq : ℤ) = s ∧ i.id = id ∧ i.kind = kind
  byId : ∀ k seq kind, (w.codec.run runId).byId.get? k = some ⟨seq, kind⟩ ↔
    ∃ i, w.Outstanding runId i ∧ i.id.key = k ∧ i.seq = seq ∧ i.kind = kind
  /-- Each is the inverse of the other. -/
  inverse : ∀ (seq : ℕ) k kind,
    (∃ id, id.key = k ∧ (w.codec.run runId).bySeq.get? seq = some ⟨id, kind⟩) ↔
      (w.codec.run runId).byId.get? k = some ⟨seq, kind⟩
  /-- The seqs that `nextSeq` has given are 1, 2, 3, … -/
  seqs : (w.issued runId).map Issued.seq = List.range' 1 (w.issued runId).length
  /-- The job that resolves an outstanding seq is answered to its request, and it is then noted. -/
  resolves : ∀ job i, w.Outstanding runId i → job.resolves = some (i.seq : ℤ) →
    (∀ out, (decodeJob w.codec runId job).2 = .ok out → ∃ body, out = [.response i.id body]) ∧
      (i.seq : ℤ) ∈ (w.afterJob runId job).resolved runId
  /-- A second one is not. -/
  resolved : ∀ job s, s ∈ w.resolved runId → job.resolves = some s →
    (decodeJob w.codec runId job).2 = .ok []
  /-- A cancel command names the seq and the kind of a request with one of the ids given. -/
  cancels : ∀ name id options payloads failure out command kind seq,
    (encodeCommand host w.codec runId (.request name id options payloads failure)).2 = .ok out →
    command ∈ out → CoreCommand.cancels command = some (kind, seq) →
      ∃ i, w.Outstanding runId i ∧ i.kind = kind ∧ i.seq = seq ∧
        ∃ target ∈ listOfKeysField options "ids", target.key = i.id.key
  /-- And a `Cancel` with the id of an outstanding request makes one. -/
  cancelled : ∀ i target id options payloads failure, w.Outstanding runId i →
    target ∈ listOfKeysField options "ids" → target.key = i.id.key →
      ∃ out, (encodeCommand host w.codec runId
          (.request (bytes "Cancel") id options payloads failure)).2 = .ok out ∧
        ∃ command ∈ out, CoreCommand.cancels command = some (i.kind, i.seq)
  /-- Nothing done to this run is done to another. -/
  others : ∀ other, other ≠ runId →
    (∀ job, (decodeJob w.codec runId job).1.runs.get? other = w.codec.runs.get? other) ∧
      ∀ command, (encodeCommand host w.codec runId command).1.runs.get? other
        = w.codec.runs.get? other

/-! ## The maps of one run -/

lemma correlated_empty : Correlated emptyRun [] [] :=
  ⟨rfl, List.nodup_nil, by simp, by simp [emptyRun], by simp [emptyRun]⟩

variable {r : Run} {issued : List Issued} {resolved : List ℤ}

/-- The other fields of a run play no part. -/
lemma Correlated.congr {r' : Run} (h : Correlated r issued resolved) (hseq : r'.seq = r.seq)
    (hbySeq : r'.bySeq = r.bySeq) (hbyId : r'.byId = r.byId) : Correlated r' issued resolved :=
  ⟨by rw [hseq]; exact h.seqs, h.ids, h.resolved_issued, by rw [hbySeq]; exact h.bySeq,
    by rw [hbyId]; exact h.byId⟩

/-- The issued seqs are at most the counter. -/
lemma Correlated.seq_le (h : Correlated r issued resolved) {i : Issued} (hi : i ∈ issued) :
    i.seq ≤ r.seq := by
  have hmem : i.seq ∈ issued.map Issued.seq := List.mem_map_of_mem hi
  rw [h.seqs, List.mem_range'_1] at hmem
  omega

lemma Correlated.seq_inj (h : Correlated r issued resolved) {i j : Issued} (hi : i ∈ issued)
    (hj : j ∈ issued) (heq : i.seq = j.seq) : i = j := by
  have hnodup : (issued.map Issued.seq).Nodup := by
    rw [h.seqs]
    exact List.nodup_range'
  exact List.inj_on_of_nodup_map hnodup hi hj heq

lemma Correlated.key_inj (h : Correlated r issued resolved) {i j : Issued} (hi : i ∈ issued)
    (hj : j ∈ issued) (heq : i.id.key = j.id.key) : i = j :=
  List.inj_on_of_nodup_map h.ids hi hj heq

/-- The next seq has not been resolved. -/
lemma Correlated.next_not_resolved (h : Correlated r issued resolved) :
    ((r.seq + 1 : ℕ) : ℤ) ∉ resolved := by
  intro hmem
  obtain ⟨i, hi, heq⟩ := h.resolved_issued _ hmem
  have := h.seq_le hi
  omega

/-- What `nextSeq` does to the maps. -/
lemma Correlated.nextSeq (h : Correlated r issued resolved) {id : ReqId} (kind : Kind)
    (hfresh : ∀ i ∈ issued, i.id.key ≠ id.key) :
    Correlated
      { r with
        seq := r.seq + 1
        bySeq := r.bySeq.set (r.seq + 1 : ℕ) ⟨id, kind⟩
        byId := r.byId.set id.key ⟨r.seq + 1, kind⟩ }
      (issued ++ [⟨id, r.seq + 1, kind⟩]) resolved where
  seqs := by
    show _ = List.range' 1 (r.seq + 1)
    rw [List.map_append, h.seqs, List.range'_concat, List.map_singleton]
    simp [Nat.add_comm]
  ids := by
    rw [List.map_append, List.nodup_append]
    refine ⟨h.ids, List.nodup_singleton _, ?_⟩
    intro a ha b hb
    obtain ⟨i, hi, rfl⟩ := List.mem_map.1 ha
    obtain rfl := List.mem_singleton.1 hb
    exact hfresh i hi
  resolved_issued s hs := by
    obtain ⟨i, hi, heq⟩ := h.resolved_issued s hs
    exact ⟨i, List.mem_append_left _ hi, heq⟩
  bySeq :=
    OrdMap.get?_set_of_indexed h.bySeq ⟨id, r.seq + 1, kind⟩ h.next_not_resolved fun i hi heq => by
      have hle := h.seq_le hi
      have heq' : (i.seq : ℤ) = (r.seq + 1 : ℕ) := heq
      omega
  byId :=
    OrdMap.get?_set_of_indexed h.byId ⟨id, r.seq + 1, kind⟩ h.next_not_resolved hfresh

/-- What `takeId` does to the maps: it takes the seq out of one and its id out of the other. -/
lemma Correlated.takeId (h : Correlated r issued resolved) {s : ℤ} {e : BySeq}
    (he : r.bySeq.get? s = some e) :
    Correlated { r with bySeq := r.bySeq.unset s, byId := r.byId.unset e.id.key } issued
      (resolved ++ [s]) := by
  obtain ⟨i, hi, rfl, hnot, rfl⟩ := (h.bySeq s e).1 he
  refine ⟨h.seqs, h.ids, ?_, ?_, ?_⟩
  · intro t ht
    rcases List.mem_append.1 ht with ht | ht
    · exact h.resolved_issued t ht
    · exact ⟨i, hi, (List.mem_singleton.1 ht).symm⟩
  · refine OrdMap.get?_unset_of_indexed h.bySeq (i.seq : ℤ) fun j _ => ?_
    rw [List.mem_append, List.mem_singleton, not_or]
  · refine OrdMap.get?_unset_of_indexed h.byId i.id.key fun j hj => ?_
    rw [List.mem_append, List.mem_singleton, not_or]
    -- a seq and an id name the same request
    refine and_congr_right fun _ => not_congr ⟨fun heq => ?_, fun heq => ?_⟩
    · rw [h.seq_inj hj hi (by exact_mod_cast heq)]
    · rw [h.key_inj hj hi heq]

/-! ## The operations -/

/-- A job that resolves a seq goes through `takeId`, and answers if there was an id. -/
lemma decodeJob_resolves (c : CoreCodec) (runId : PhpString) {job : Job} {s : ℤ}
    (h : job.resolves = some s) :
    (decodeJob c runId job).1 = (takeId c runId s).1 ∧
      ∃ result, (decodeJob c runId job).2 = respondTo (takeId c runId s).2 result := by
  cases job <;> cases h <;> exact ⟨rfl, _, rfl⟩

/-- A job that neither resolves nor clears leaves both maps and the counter. -/
lemma decodeJob_maps (c : CoreCodec) (runId : PhpString) {job : Job}
    (hresolves : job.resolves = none) (hclears : job.clears = false) :
    let r := (decodeJob c runId job).1.run runId
    r.seq = (c.run runId).seq ∧ r.bySeq = (c.run runId).bySeq ∧ r.byId = (c.run runId).byId := by
  cases job with
  | resolveChildWorkflowExecutionStart s outcome =>
      simp only [decodeJob]
      split <;> simp
  | queryWorkflow _ _ _ => simp [decodeJob]
  | doUpdate _ _ _ _ _ => simp [decodeJob]
  | signalWorkflow _ _ => exact ⟨rfl, rfl, rfl⟩
  | cancelWorkflow _ => exact ⟨rfl, rfl, rfl⟩
  | fireTimer _ | resolveActivity _ _ | resolveChildWorkflowExecution _ _ => cases hresolves
  | initializeWorkflow _ | removeFromCache => cases hclears

/-- A command that schedules nothing leaves both maps and the counter. -/
lemma encodeCommand_maps (host : Host) (c : CoreCodec) (runId : PhpString) {command : Command}
    (h : command.schedules = none) :
    let r := (encodeCommand host c runId command).1.run runId
    r.seq = (c.run runId).seq ∧ r.bySeq = (c.run runId).bySeq ∧ r.byId = (c.run runId).byId := by
  cases command with
  | updateResponse _ _ _ _ => exact ⟨rfl, rfl, rfl⟩
  | response _ _ =>
      simp only [encodeCommand, encodeIfQueryResponse]
      split <;> simp
  | request name id options payloads failure =>
      have hnone : scheduleKind name = none := by simpa [Command.schedules] using h
      simp only [encodeCommand, hnone]
      split_ifs
      · simp only [rememberChildStartWaiter]
        split <;> simp
      all_goals exact ⟨rfl, rfl, rfl⟩

/-- A command that schedules goes through `nextSeq`. -/
lemma encodeCommand_schedules (host : Host) (c : CoreCodec) (runId : PhpString)
    {command : Command} {id : ReqId} {kind : Kind} (h : command.schedules = some (id, kind)) :
    (encodeCommand host c runId command).1 = (nextSeq c runId id kind).1 := by
  cases command with
  | updateResponse _ _ _ _ => cases h
  | response _ _ => cases h
  | request name id' options payloads failure =>
      obtain ⟨kind', hkind, heq⟩ := Option.map_eq_some_iff.1 h
      cases heq
      simp only [encodeCommand, hkind]

/-! ## Runs -/

/-- The invariant, from the run that was worked on. -/
lemma World.Inv.update {w w' : World} (h : w.Inv) (runId : PhpString)
    (hrun : Correlated (w'.codec.run runId) (w'.issued runId) (w'.resolved runId))
    (hcodec : ∀ other, other ≠ runId → w'.codec.runs.get? other = w.codec.runs.get? other)
    (hissued : ∀ other, other ≠ runId → w'.issued other = w.issued other)
    (hresolved : ∀ other, other ≠ runId → w'.resolved other = w.resolved other) : w'.Inv := by
  intro other
  by_cases hne : other = runId
  · rw [hne]
    exact hrun
  · rw [run_eq_of_get? (hcodec other hne), hissued other hne, hresolved other hne]
    exact h other

/-- The entry that a clearing job leaves. -/
lemma decodeJob_clears {c : CoreCodec} {runId : PhpString} {job : Job}
    (h : job.clears = true) : (decodeJob c runId job).1.run runId = emptyRun := by
  cases job with
  | initializeWorkflow _ => simp [decodeJob, reset]
  | removeFromCache => simp [decodeJob, CoreCodec.run]
  | _ => cases h

lemma World.Inv.afterJob {w : World} (h : w.Inv) (runId : PhpString) (job : Job) :
    (w.afterJob runId job).Inv := by
  refine h.update runId ?_ (fun other hne => decodeJob_other job hne) ?_ ?_
  · cases hclears : job.clears with
    | true => simpa [World.afterJob, hclears, decodeJob_clears hclears] using correlated_empty
    | false =>
        cases hresolves : job.resolves with
        | none =>
            obtain ⟨hseq, hbySeq, hbyId⟩ := decodeJob_maps w.codec runId hresolves hclears
            simpa [World.afterJob, hclears, hresolves] using (h runId).congr hseq hbySeq hbyId
        | some s =>
            have hcodec := (decodeJob_resolves w.codec runId hresolves).1
            simp only [World.afterJob, hclears, hresolves, hcodec, Bool.false_eq_true, if_false]
            cases hget : (w.codec.run runId).bySeq.get? s with
            | none => simpa [takeId, hget] using h runId
            | some e => simpa [takeId, hget] using (h runId).takeId hget
  · intro other hne
    simp only [World.afterJob]
    split_ifs
    · exact Function.update_of_ne hne _ _
    · rfl
  · intro other hne
    simp only [World.afterJob]
    split_ifs
    · exact Function.update_of_ne hne _ _
    · cases job.resolves with
      | none => rfl
      | some s =>
          simp only
          split_ifs
          · exact Function.update_of_ne hne _ _
          · rfl

lemma World.Inv.afterCommand {w : World} (h : w.Inv) (host : Host) {runId : PhpString}
    {command : Command} (hfresh : FreshId w runId command) :
    (w.afterCommand host runId command).Inv := by
  refine h.update runId ?_ (fun other hne => encodeCommand_other command hne) ?_
    (fun _ _ => rfl)
  · cases hschedules : command.schedules with
    | none =>
        obtain ⟨hseq, hbySeq, hbyId⟩ := encodeCommand_maps host w.codec runId hschedules
        simpa [World.afterCommand, hschedules] using (h runId).congr hseq hbySeq hbyId
    | some p =>
        obtain ⟨id, kind⟩ := p
        have hcodec := encodeCommand_schedules host w.codec runId hschedules
        simpa [World.afterCommand, hschedules, hcodec, nextSeq]
          using (h runId).nextSeq kind (hfresh id kind hschedules)
  · intro other hne
    simp only [World.afterCommand]
    cases command.schedules with
    | none => rfl
    | some p => exact Function.update_of_ne hne _ _

lemma turn_inv {host : Host} {w w' : World} {t : Turn} (h : w.Inv) (ht : turn host w t = some w') :
    w'.Inv := by
  cases t with
  | activation runId =>
      cases ht
      exact fun runId => h runId
  | job job =>
      cases ht
      exact h.afterJob w.codec.runId job
  | command command =>
      simp only [turn] at ht
      split_ifs at ht with hfresh
      cases ht
      exact h.afterCommand host hfresh

lemma init_inv : World.init.Inv := fun _ => correlated_empty

/-- The answer to a job that resolves a seq, by the entry of the seq. -/
lemma decodeJob_of_bySeq {c : CoreCodec} {runId : PhpString} {job : Job} {s : ℤ} {e : BySeq}
    (hres : job.resolves = some s) (he : (c.run runId).bySeq.get? s = some e)
    {out : List ServerCommand} (hout : (decodeJob c runId job).2 = .ok out) :
    ∃ body, out = [.response e.id body] := by
  obtain ⟨-, result, hresult⟩ := decodeJob_resolves c runId hres
  have htake : (takeId c runId s).2 = some e.id := by simp [takeId, he]
  rw [hresult, htake] at hout
  cases result with
  | error e => cases hout
  | ok body =>
      cases hout
      exact ⟨body, rfl⟩

lemma decodeJob_of_bySeq_none {c : CoreCodec} {runId : PhpString} {job : Job} {s : ℤ}
    (hres : job.resolves = some s) (he : (c.run runId).bySeq.get? s = none) :
    (decodeJob c runId job).2 = .ok [] := by
  obtain ⟨-, result, hresult⟩ := decodeJob_resolves c runId hres
  have htake : (takeId c runId s).2 = none := by simp [takeId, he]
  rw [hresult, htake]
  rfl

/-- The cancel commands come from `cancelOf`, and it reads them off `byId`. -/
lemma cancelOf_cancels {c : CoreCodec} {runId : PhpString} {id : ReqId} {command : CoreCommand}
    (h : cancelOf c runId id = some command) :
    ∃ e, (c.run runId).byId.get? id.key = some e ∧ command.cancels = some (e.kind, e.seq) := by
  obtain ⟨e, he, rfl⟩ := Option.map_eq_some_iff.1 h
  refine ⟨e, he, ?_⟩
  obtain ⟨seq, kind⟩ := e
  cases kind <;> rfl

/-- What `byId` holds can be cancelled. -/
lemma exists_cancelOf {c : CoreCodec} {runId : PhpString} {id : ReqId} {e : ById}
    (he : (c.run runId).byId.get? id.key = some e) :
    ∃ command, cancelOf c runId id = some command ∧ command.cancels = some (e.kind, e.seq) := by
  obtain ⟨command, hof⟩ : ∃ command, cancelOf c runId id = some command := ⟨_, by
    rw [cancelOf, he]
    rfl⟩
  obtain ⟨e', he', hcancels⟩ := cancelOf_cancels hof
  obtain rfl := Option.some.inj (he.symm.trans he')
  exact ⟨command, hof, hcancels⟩

lemma schedule_cancels {host : Host} {kind : Kind} {seq : ℕ} {options : Val} {payloads : Converted}
    {command : CoreCommand} (h : schedule host kind seq options payloads = .ok command) :
    command.cancels = none := by
  obtain ⟨ps, rfl, -⟩ := schedule_ok h
  cases kind <;> rfl

lemma completion_cancels (failure : Option Failure) (payloads : List Payload) :
    (completion failure payloads).cancels = none := by
  cases failure with
  | none => rfl
  | some f =>
      simp only [completion]
      split_ifs <;> rfl

/-- Only a `Cancel` request is encoded to cancel commands. -/
lemma encodeCommand_cancels {host : Host} {c : CoreCodec} {runId name : PhpString} {id : ReqId}
    {options : Val} {payloads : Converted} {failure : Option Failure} {out : List CoreCommand}
    {command : CoreCommand} {kind : Kind} {seq : ℕ}
    (hout : (encodeCommand host c runId (.request name id options payloads failure)).2 = .ok out)
    (hmem : command ∈ out) (hcancels : command.cancels = some (kind, seq)) :
    ∃ target ∈ listOfKeysField options "ids", cancelOf c runId target = some command := by
  simp only [encodeCommand] at hout
  split at hout
  · obtain ⟨scheduled, hscheduled, rfl⟩ := Fallible.of_map_eq_ok hout
    obtain rfl := List.mem_singleton.1 hmem
    rw [schedule_cancels hscheduled] at hcancels
    cases hcancels
  · split_ifs at hout
    · cases hout
      cases hmem
    · cases hout
      exact List.mem_filterMap.1 hmem
    · obtain ⟨ps, -, rfl⟩ := Fallible.of_map_eq_ok hout
      obtain rfl := List.mem_singleton.1 hmem
      rw [completion_cancels] at hcancels
      cases hcancels
    · cases hout
      obtain rfl := List.mem_singleton.1 hmem
      cases hcancels

lemma World.Inv.faithful {w : World} (h : w.Inv) (host : Host) (runId : PhpString) :
    w.Faithful host runId := by
  have hcorr := h runId
  have hbySeq : ∀ s id kind, (w.codec.run runId).bySeq.get? s = some ⟨id, kind⟩ ↔
      ∃ i, w.Outstanding runId i ∧ (i.seq : ℤ) = s ∧ i.id = id ∧ i.kind = kind := by
    intro s id kind
    rw [hcorr.bySeq]
    constructor
    · rintro ⟨i, hi, rfl, hopen, heq⟩
      cases heq
      exact ⟨i, ⟨hi, hopen⟩, rfl, rfl, rfl⟩
    · rintro ⟨i, ⟨hi, hopen⟩, rfl, rfl, rfl⟩
      exact ⟨i, hi, rfl, hopen, rfl⟩
  have hbyId : ∀ k seq kind, (w.codec.run runId).byId.get? k = some ⟨seq, kind⟩ ↔
      ∃ i, w.Outstanding runId i ∧ i.id.key = k ∧ i.seq = seq ∧ i.kind = kind := by
    intro k seq kind
    rw [hcorr.byId]
    constructor
    · rintro ⟨i, hi, rfl, hopen, heq⟩
      cases heq
      exact ⟨i, ⟨hi, hopen⟩, rfl, rfl, rfl⟩
    · rintro ⟨i, ⟨hi, hopen⟩, rfl, rfl, rfl⟩
      exact ⟨i, hi, rfl, hopen, rfl⟩
  refine ⟨hbySeq, hbyId, ?_, ?_, ?_, ?_, ?_, ?_, ?_⟩
  · intro seq k kind
    rw [hbyId]
    constructor
    · rintro ⟨id, rfl, hget⟩
      obtain ⟨i, hi, hseq, rfl, rfl⟩ := (hbySeq _ _ _).1 hget
      exact ⟨i, hi, rfl, by exact_mod_cast hseq, rfl⟩
    · rintro ⟨i, hi, rfl, rfl, rfl⟩
      exact ⟨i.id, rfl, (hbySeq _ _ _).2 ⟨i, hi, rfl, rfl, rfl⟩⟩
  · have hlength : (w.issued runId).length = (w.codec.run runId).seq := by
      simpa using congrArg List.length hcorr.seqs
    rw [hlength, hcorr.seqs]
  · intro job i hi hres
    have hget := (hbySeq i.seq i.id i.kind).2 ⟨i, hi, rfl, rfl, rfl⟩
    refine ⟨fun out hout => decodeJob_of_bySeq hres hget hout, ?_⟩
    have hclears : job.clears = false := by cases job <;> first | rfl | cases hres
    simp [World.afterJob, hclears, hres, hget]
  · intro job s hs hres
    refine decodeJob_of_bySeq_none hres (Option.eq_none_iff_forall_ne_some.2 ?_)
    intro e he
    obtain ⟨i, -, -, hopen, -⟩ := (hcorr.bySeq s e).1 he
    exact hopen hs
  · intro name id options payloads failure out command kind seq hout hmem hcancels
    obtain ⟨target, htarget, hof⟩ := encodeCommand_cancels hout hmem hcancels
    obtain ⟨e, he, hread⟩ := cancelOf_cancels hof
    rw [hread] at hcancels
    cases hcancels
    obtain ⟨i, hi, hkey, hseq, hkind⟩ := (hbyId _ _ _).1 he
    exact ⟨i, hi, hkind, hseq, target, htarget, hkey.symm⟩
  · intro i target id options payloads failure hi htarget hkey
    have hget := (hbyId target.key i.seq i.kind).2 ⟨i, hi, hkey.symm, rfl, rfl⟩
    obtain ⟨command, hof, hcancels⟩ := exists_cancelOf hget
    exact ⟨_, rfl, command, List.mem_filterMap.2 ⟨target, htarget, hof⟩, hcancels⟩
  · intro other hne
    exact ⟨fun job => decodeJob_other job hne, fun command => encodeCommand_other command hne⟩

/-- In every state that turns lead to, the maps of every run tie each outstanding request to its
seq and back. -/
theorem correlation_faithful (host : Host) (turns : List Turn) (w : World)
    (h : StepSystem.runFrom (turn host) World.init turns = some w) (runId : PhpString) :
    w.Faithful host runId := by
  have hinv : w.Inv :=
    StepSystem.invariant_of_run _ (fun _ _ _ hs ht => turn_inv hs ht) init_inv h
  exact hinv.faithful host runId

/-- `Cancel` of one request. -/
def cancelOne (id target : ℤ) : Command :=
  .request (bytes "Cancel") (.int id) (.arr [(key "ids", .arr [(.int 0, .int target)])]) (.ok [])
    none

/-- Two runs in turn: an activity and a timer of the one, a timer of the other, the activity
resolved and the timer of the first run cancelled. -/
def interleavedTurns : List Turn :=
  [.activation (bytes "one"), .job (.initializeWorkflow (.ok [])),
    .command (.request (bytes "ExecuteActivity") (.int 7) (.arr []) (.ok []) none),
    .command (.request (bytes "NewTimer") (.int 8) (.arr []) (.ok []) none),
    .activation (bytes "two"), .job (.initializeWorkflow (.ok [])),
    .command (.request (bytes "NewTimer") (.int 7) (.arr []) (.ok []) none),
    .activation (bytes "one"), .job (.resolveActivity 1 (.ok (.success []))),
    .command (cancelOne 9 8)]

def plainHost : Host := ⟨bytes "default", fun _ => none, fun _ _ _ => bytes "1", bytes "child-1"⟩

lemma interleaved_isSome :
    (StepSystem.runFrom (turn plainHost) World.init interleavedTurns).isSome := by
  decide

theorem correlation_faithful_interleaved :
    ∃ w, StepSystem.runFrom (turn plainHost) World.init interleavedTurns = some w ∧
      w.Outstanding (bytes "one") ⟨.int 8, 2, .timer⟩ ∧
      w.Faithful plainHost (bytes "one") ∧
      ∃ out, (encodeCommand plainHost w.codec (bytes "one") (cancelOne 10 8)).2 = .ok out ∧
        ∃ command ∈ out, command.cancels = some (.timer, 2) := by
  have hrun := Option.eq_some_of_isSome interleaved_isSome
  have hfaithful := correlation_faithful plainHost interleavedTurns _ hrun (bytes "one")
  have houtstanding : World.Outstanding
      ((StepSystem.runFrom (turn plainHost) World.init interleavedTurns).get interleaved_isSome)
      (bytes "one") ⟨.int 8, 2, .timer⟩ := ⟨by decide, by decide⟩
  exact ⟨_, hrun, houtstanding, hfaithful,
    hfaithful.cancelled ⟨.int 8, 2, .timer⟩ (.int 8) (.int 10)
    (.arr [(key "ids", .arr [(.int 0, .int 8)])]) (.ok []) none houtstanding (by decide) rfl⟩

/-! ## Whole batches -/

lemma decodeJobs_run (host : Host) {runId : PhpString} (jobs : List Job) (w : World)
    (hrun : w.codec.runId = runId) :
    ∃ turns w', StepSystem.runFrom (turn host) w turns = some w' ∧
      w'.codec = (decodeJobs w.codec runId jobs).1 := by
  induction jobs generalizing w with
  | nil => exact ⟨[], w, rfl, rfl⟩
  | cons job jobs ih =>
      have hstep : turn host w (.job job) = some (w.afterJob runId job) := by
        simp only [turn, hrun]
      cases hjob : (decodeJob w.codec runId job).2 with
      | error e =>
          refine ⟨[.job job], w.afterJob runId job, ?_, ?_⟩
          · exact (StepSystem.runFrom_cons _).2 ⟨_, hstep, rfl⟩
          · rw [decodeJobs, Fallible.forEach_cons_error hjob]
            rfl
      | ok out =>
          obtain ⟨turns, w', hturns, hw'⟩ := ih (w.afterJob runId job)
            ((decodeJob_runId job).trans hrun)
          refine ⟨.job job :: turns, w', (StepSystem.runFrom_cons _).2 ⟨_, hstep, hturns⟩, ?_⟩
          rw [decodeJobs, Fallible.forEach_cons_ok hjob]
          exact hw'

/-- What `decode` makes of a workflow batch, whether it throws or not, is the work of turns. -/
theorem decodeActivation_run (host : Host) (w : World) (activation : Val) :
    ∃ turns w', StepSystem.runFrom (turn host) w turns = some w' ∧
      w'.codec = (decodeActivation host (forBatch w.codec) activation).1 := by
  simp only [decodeActivation]
  cases required (activation.get "runId") "runId" with
  | error e => exact ⟨[.activation []], _, rfl, rfl⟩
  | ok runId =>
      obtain ⟨turns, w', hturns, hw'⟩ := decodeJobs_run host
        ((listOfArraysField activation "jobs").filterMap (Job.ofDocument host))
        { w with codec := { forBatch w.codec with runId := runId } } rfl
      exact ⟨.activation runId :: turns, w', (StepSystem.runFrom_cons _).2 ⟨_, rfl, hturns⟩, hw'⟩

/-- And so is what `encode` makes of one that it does not refuse. -/
theorem encodeCompletion_run (host : Host) (w w' : World) (commands : List Command)
    (h : StepSystem.runFrom (turn host) w (commands.map .command) = some w')
    (hok : ∃ out, (encodeCompletion host w.codec commands).2 = .ok out) :
    w'.codec = (encodeCompletion host w.codec commands).1 := by
  simp only [encodeCompletion] at hok ⊢
  generalize hrun : w.codec.runId = runId at hok ⊢
  induction commands generalizing w with
  | nil =>
      cases h
      rfl
  | cons command commands ih =>
      obtain ⟨w₁, hstep, hrest⟩ := (StepSystem.runFrom_cons _).1 h
      simp only [turn, hrun] at hstep
      split_ifs at hstep
      cases hstep
      obtain ⟨out, hout⟩ := hok
      obtain ⟨first, rest, hcmd, hcmds, -⟩ := Fallible.of_forEach_cons_eq_ok hout
      rw [encodeCommands, Fallible.forEach_cons_ok hcmd]
      exact ih _ hrest ((encodeCommand_runId command).trans hrun) ⟨rest, hcmds⟩

end Temporal

end Ignis
