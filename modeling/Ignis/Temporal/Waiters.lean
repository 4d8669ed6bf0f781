import Ignis.Temporal.Correlation

/-!
# The requests that wait for a command

A command that was scheduled under a seq has the request that scheduled it in `bySeq` and `byId`,
and for a child workflow there may be a second request, `GetChildWorkflowExecution`, in
`childStart`. When core reports that the command is over it will not speak of the seq again, and
whoever waits has to be answered now.

The jobs for timers, activities and children that have run answer the first request and look at
`childStart` no more; the job for a child that did not start answers the second one and leaves the
first in both maps.  And a payload list that does not read throws the answers of the whole
activation away.  `waiters_released_iff` says that these are the only ways to leave one waiting.
-/

namespace Ignis

namespace Temporal

namespace Waiters

/-! ## Definitions -/

/-- A workflow task: the activation that is polled, and the commands of sdk-php, unless it
throws. -/
structure Batch where
  activation : Val
  commands : Option (List Command)

/-- One turn of the loop of sdk-php. -/
def serve (host : Host) (c : CoreCodec) (b : Batch) : CoreCodec :=
  match decodeActivation host (forBatch c) b.activation with
  | (c, .error _) => c
  | (c, .ok _) =>
      match b.commands with
      | none => c
      | some commands => (encodeCompletion host c commands).1

/-- The jobs of an activation. -/
def jobsOf (host : Host) (activation : Val) : List Job :=
  (listOfArraysField activation "jobs").filterMap (Job.ofDocument host)

/-- The seq that core will not speak of again after the job. -/
def ends : Job → Option ℤ
  | .resolveChildWorkflowExecutionStart seq (.failure _ _) => some seq
  | job => job.resolves

/-- The request with the id waits for the command with the seq. -/
def Waits (r : Run) (s : ℤ) (id : ReqId) : Prop :=
  (∃ kind, r.bySeq.get? s = some ⟨id, kind⟩) ∨ r.childStart.get? s = some id

/-- One of the maps of the run has an entry for the seq. -/
def mentions (r : Run) (s : ℤ) : Bool :=
  r.bySeq.has s || r.byId.entries.any (fun e => e.2.seq = s) || r.childStart.has s

/-- How `decode` goes through the jobs of a run. -/
abbrev jobTurn (runId : PhpString) : CoreCodec → Job → Option CoreCodec :=
  Fallible.turn fun c job => decodeJob c runId job

/-- Whenever the activation reports that a command is over which the maps have entries for, everyone
who waits for it is answered, and no entry is left. -/
def Released (host : Host) (c : CoreCodec) (b : Batch) : Prop :=
  ∀ runId, required (b.activation.get "runId") "runId" = .ok runId →
    StepSystem.Along (jobTurn runId)
      (fun d job => ∀ s, ends job = some s → mentions (d.run runId) s = true →
        ∃ out part, (decodeActivation host (forBatch c) b.activation).2 = .ok out ∧
          (decodeJob d runId job).2 = .ok part ∧ part ⊆ out ∧
          (∀ id, Waits (d.run runId) s id → ∃ body, .response id body ∈ part) ∧
          mentions ((decodeJob d runId job).1.run runId) s = false ∧
          mentions ((decodeActivation host (forBatch c) b.activation).1.run runId) s = false)
      { forBatch c with runId := runId } (jobsOf host b.activation)

/-! ### The condition -/

/-- The payloads of the job read, where they are asked for. -/
def reads (r : Run) : Job → Bool
  | .initializeWorkflow arguments => arguments.isOk
  | .signalWorkflow _ input => input.isOk
  | .queryWorkflow _ _ arguments => arguments.isOk
  | .doUpdate _ _ _ _ input => input.isOk
  | .cancelWorkflow details => details.isOk
  | .resolveActivity seq result => !r.bySeq.has seq || result.isOk
  | .resolveChildWorkflowExecution seq result => !r.bySeq.has seq || result.isOk
  | .fireTimer _ | .resolveChildWorkflowExecutionStart _ _ | .removeFromCache => true

/-- Nobody waits for the seq in the map that the job does not look at. -/
def alone (r : Run) (s : ℤ) : Job → Bool
  | .resolveChildWorkflowExecutionStart _ _ => !r.bySeq.has s
  | _ => !r.childStart.has s

/-- Whenever the activation reports that a command is over which the maps have entries for, all its
payloads read, and nobody waits where the job does not look. -/
def Answerable (host : Host) (c : CoreCodec) (b : Batch) : Prop :=
  ∀ runId, required (b.activation.get "runId") "runId" = .ok runId →
    StepSystem.Along (jobTurn runId)
      (fun d job => ∀ s, ends job = some s → mentions (d.run runId) s = true →
        StepSystem.Along (jobTurn runId) (fun e other => reads (e.run runId) other = true)
            { forBatch c with runId := runId } (jobsOf host b.activation) ∧
          alone (d.run runId) s job = true)
      { forBatch c with runId := runId } (jobsOf host b.activation)

/-! ## The maps of a run -/

/-- What the maps of a run have to do with each other. -/
structure Consistent (r : Run) : Prop where
  seqs : ∀ s e, r.bySeq.get? s = some e → s ≤ r.seq
  byId : ∀ k e, r.byId.get? k = some e →
    ∃ id, r.bySeq.get? e.seq = some ⟨id, e.kind⟩ ∧ id.key = k

lemma consistent_empty : Consistent emptyRun := ⟨by simp [emptyRun], by simp [emptyRun]⟩

lemma Consistent.congr {r r' : Run} (h : Consistent r) (hseq : r'.seq = r.seq)
    (hbySeq : r'.bySeq = r.bySeq) (hbyId : r'.byId = r.byId) : Consistent r' :=
  ⟨by rw [hseq, hbySeq]; exact h.seqs, by rw [hbySeq, hbyId]; exact h.byId⟩

/-- Of the maps that know a command by its seq, one has an entry wherever `byId` does. -/
lemma Consistent.mentions_iff {r : Run} (h : Consistent r) (s : ℤ) :
    mentions r s = true ↔ r.bySeq.has s = true ∨ r.childStart.has s = true := by
  simp only [mentions, Bool.or_eq_true, List.any_eq_true, decide_eq_true_eq]
  constructor
  · rintro ((hs | ⟨⟨k, e⟩, hmem, rfl⟩) | hs)
    · exact Or.inl hs
    · obtain ⟨id, hid, -⟩ := h.byId k e (OrdMap.mem_entries_iff.mp hmem)
      exact Or.inl (OrdMap.has_iff.mpr ⟨_, hid⟩)
    · exact Or.inr hs
  · rintro (hs | hs)
    · exact Or.inl (Or.inl hs)
    · exact Or.inr hs

/-- The next seq is a new one. -/
lemma Consistent.nextSeq {r : Run} (h : Consistent r) (id : ReqId) (kind : Kind) :
    Consistent { r with
      seq := r.seq + 1
      bySeq := r.bySeq.set (r.seq + 1 : ℕ) ⟨id, kind⟩
      byId := r.byId.set id.key ⟨r.seq + 1, kind⟩ } where
  seqs s e hs := by
    simp only [OrdMap.get?_set] at hs
    split_ifs at hs with heq
    · exact Int.le_of_eq heq
    · have := h.seqs s e hs
      push_cast
      omega
  byId k e hk := by
    simp only [OrdMap.get?_set] at hk ⊢
    split_ifs at hk with heq
    · obtain rfl := Option.some.inj hk
      exact ⟨id, by simp, heq.symm⟩
    · obtain ⟨id', hid', hkey⟩ := h.byId k e hk
      have hle := h.seqs _ _ hid'
      refine ⟨id', ?_, hkey⟩
      rw [if_neg (by push_cast; omega)]
      exact hid'

/-- `takeId` takes an entry out of both maps. -/
lemma Consistent.takeId {r : Run} (h : Consistent r) {s : ℤ} {entry : BySeq}
    (hs : r.bySeq.get? s = some entry) :
    Consistent { r with bySeq := r.bySeq.unset s, byId := r.byId.unset entry.id.key } where
  seqs t e ht := by
    simp only [OrdMap.get?_unset] at ht
    split_ifs at ht
    exact h.seqs t e ht
  byId k e hk := by
    simp only [OrdMap.get?_unset] at hk ⊢
    split_ifs at hk with hne
    obtain ⟨id, hid, hkey⟩ := h.byId k e hk
    refine ⟨id, ?_, hkey⟩
    rw [if_neg ?_]
    · exact hid
    · intro heq
      rw [heq, hs] at hid
      obtain rfl := Option.some.inj hid
      exact hne hkey.symm

/-! ## The invariant -/

def Good (c : CoreCodec) : Prop := ∀ runId, Consistent (c.run runId)

/-- Only the run that is worked on is in question. -/
lemma Good.update {c d : CoreCodec} (h : Good c) (runId : PhpString)
    (hrun : Consistent (d.run runId))
    (hother : ∀ other, other ≠ runId → d.runs.get? other = c.runs.get? other) : Good d := by
  intro other
  by_cases hne : other = runId
  · rw [hne]
    exact hrun
  · rw [run_eq_of_get? (hother other hne)]
    exact h other

lemma consistent_takeId {c : CoreCodec} {runId : PhpString} (h : Consistent (c.run runId)) (s : ℤ) :
    Consistent ((takeId c runId s).1.run runId) := by
  simp only [takeId]
  cases hs : (c.run runId).bySeq.get? s with
  | none => exact h
  | some entry =>
      rw [CoreCodec.run_setRun]
      exact h.takeId hs

lemma Good.decodeJob {c : CoreCodec} (h : Good c) (runId : PhpString) (job : Job) :
    Good (decodeJob c runId job).1 := by
  refine h.update runId ?_ fun other hne => decodeJob_other job hne
  cases job with
  | fireTimer s => exact consistent_takeId (h runId) s
  | resolveActivity s _ => exact consistent_takeId (h runId) s
  | resolveChildWorkflowExecution s _ => exact consistent_takeId (h runId) s
  | initializeWorkflow _ =>
      simp only [Temporal.decodeJob, reset, CoreCodec.run_setRun]
      exact consistent_empty
  | removeFromCache =>
      simp only [Temporal.decodeJob, CoreCodec.run, OrdMap.get?_unset_self, Option.getD_none]
      exact consistent_empty
  | resolveChildWorkflowExecutionStart s _ =>
      simp only [Temporal.decodeJob]
      split
      · exact h runId
      · rw [CoreCodec.run_setRun]
        exact (h runId).congr rfl rfl rfl
  | queryWorkflow _ _ _ | doUpdate _ _ _ _ _ =>
      simp only [Temporal.decodeJob, CoreCodec.run_setRun]
      exact (h runId).congr rfl rfl rfl
  | signalWorkflow _ _ | cancelWorkflow _ => exact h runId

lemma Good.encodeCommand {host : Host} {c : CoreCodec} (h : Good c) (runId : PhpString)
    (command : Command) : Good (encodeCommand host c runId command).1 := by
  refine h.update runId ?_ fun other hne => encodeCommand_other command hne
  cases command with
  | updateResponse _ _ _ _ => exact h runId
  | response _ _ =>
      simp only [Temporal.encodeCommand, encodeIfQueryResponse]
      split
      · exact h runId
      · rw [CoreCodec.run_setRun]
        exact (h runId).congr rfl rfl rfl
  | request name id options payloads failure =>
      simp only [Temporal.encodeCommand]
      split
      · simp only [Temporal.nextSeq, CoreCodec.run_setRun]
        exact (h runId).nextSeq id _
      · split_ifs
        · simp only [rememberChildStartWaiter]
          split
          · exact h runId
          · rw [CoreCodec.run_setRun]
            exact (h runId).congr rfl rfl rfl
        all_goals exact h runId

lemma Good.serve {host : Host} {c : CoreCodec} (h : Good c) (b : Batch) :
    Good (serve host c b) := by
  have hdecode : Good (decodeActivation host (forBatch c) b.activation).1 := by
    simp only [decodeActivation]
    cases required (b.activation.get "runId") "runId" with
    | error e => exact h
    | ok runId => exact Fallible.forEach_invariant (fun d job _ hd => hd.decodeJob runId job) h
  simp only [Waiters.serve]
  generalize decodeActivation host (forBatch c) b.activation = r at hdecode
  obtain ⟨d, decoded⟩ := r
  cases decoded with
  | error e => exact hdecode
  | ok out =>
      cases b.commands with
      | none => exact hdecode
      | some commands =>
          exact Fallible.forEach_invariant (fun e command _ he => he.encodeCommand d.runId command)
            hdecode

/-! ## One job -/

/-- No job enters anything for a seq. -/
lemma mentions_decodeJob {c : CoreCodec} (h : Good c) {runId : PhpString} {job : Job} {s : ℤ}
    (hs : mentions (c.run runId) s = false) :
    mentions ((decodeJob c runId job).1.run runId) s = false := by
  have hno : ¬ ((c.run runId).bySeq.has s = true ∨ (c.run runId).childStart.has s = true) := by
    rw [← (h runId).mentions_iff, hs]
    exact Bool.false_ne_true
  rw [Bool.eq_false_iff, ne_eq, ((h.decodeJob runId job) runId).mentions_iff]
  refine fun hmem => hno ?_
  have htake : ∀ t, ((takeId c runId t).1.run runId).bySeq.has s = true ∨
      ((takeId c runId t).1.run runId).childStart.has s = true →
        (c.run runId).bySeq.has s = true ∨ (c.run runId).childStart.has s = true := by
    intro t ht
    simp only [takeId] at ht
    split at ht
    · exact ht
    · rw [CoreCodec.run_setRun] at ht
      exact ht.imp_left fun hb => (OrdMap.has_unset.mp hb).2
  cases job with
  | fireTimer t => exact htake t hmem
  | resolveActivity t _ => exact htake t hmem
  | resolveChildWorkflowExecution t _ => exact htake t hmem
  | initializeWorkflow _ => simp [Temporal.decodeJob, reset, emptyRun] at hmem
  | removeFromCache => simp [Temporal.decodeJob, CoreCodec.run, emptyRun] at hmem
  | resolveChildWorkflowExecutionStart t _ =>
      simp only [Temporal.decodeJob] at hmem
      split at hmem
      · exact hmem
      · rw [CoreCodec.run_setRun] at hmem
        exact hmem.imp_right fun hb => (OrdMap.has_unset.mp hb).2
  | queryWorkflow _ _ _ | doUpdate _ _ _ _ _ =>
      simp only [Temporal.decodeJob, CoreCodec.run_setRun] at hmem
      exact hmem
  | signalWorkflow _ _ | cancelWorkflow _ => exact hmem

lemma respondTo_ok_iff (id : Option ReqId) (r : Except Throwable Resolution) :
    (∃ out, respondTo id r = .ok out) ↔ id = none ∨ r.isOk = true := by
  cases id <;> cases r <;> simp [respondTo, Except.map, Except.isOk, Except.toBool]

lemma takeId_eq_none_iff (c : CoreCodec) (runId : PhpString) (s : ℤ) :
    (takeId c runId s).2 = none ↔ (c.run runId).bySeq.has s = false := by
  simp only [takeId, OrdMap.has]
  split <;> simp_all

/-- A turn of `decode` fails only at payloads. -/
lemma decodeJob_ok_iff (c : CoreCodec) (runId : PhpString) (job : Job) :
    (∃ out, (decodeJob c runId job).2 = .ok out) ↔ reads (c.run runId) job = true := by
  have hrequest : ∀ (payloads : Except Throwable (List WirePayload)) (route),
      (∃ out, requestOf payloads route = .ok out) ↔ payloads.isOk = true := by
    intro payloads route
    cases payloads <;> simp [requestOf, Except.map, Except.isOk, Except.toBool]
  cases job with
  | fireTimer s => exact iff_of_true ((respondTo_ok_iff _ _).mpr (Or.inr rfl)) rfl
  | resolveActivity s result | resolveChildWorkflowExecution s result =>
      simp only [reads, Bool.or_eq_true, Bool.not_eq_true', ← takeId_eq_none_iff]
      exact respondTo_ok_iff _ _
  | resolveChildWorkflowExecutionStart s outcome =>
      refine iff_of_true ?_ rfl
      simp only [decodeJob]
      split <;> exact ⟨_, rfl⟩
  | initializeWorkflow _ => exact hrequest _ _
  | signalWorkflow _ _ => exact hrequest _ _
  | queryWorkflow _ _ _ => exact hrequest _ _
  | doUpdate _ _ _ _ _ => exact hrequest _ _
  | cancelWorkflow _ => exact hrequest _ _
  | removeFromCache => exact iff_of_true ⟨_, rfl⟩ rfl

/-- Everyone who waits for the seq is answered by the job, and no entry is left. -/
def Settles (c : CoreCodec) (runId : PhpString) (job : Job) (s : ℤ)
    (part : List ServerCommand) : Prop :=
  (∀ id, Waits (c.run runId) s id → ∃ body, .response id body ∈ part) ∧
    mentions ((decodeJob c runId job).1.run runId) s = false

/-- The jobs that go through `takeId` settle the seq if nobody waits in `childStart`. -/
lemma settles_taken_iff {c : CoreCodec} (h : Good c) {runId : PhpString} {job : Job} {s : ℤ}
    (hresolves : job.resolves = some s) {part : List ServerCommand}
    (hpart : (decodeJob c runId job).2 = .ok part) (hm : mentions (c.run runId) s = true) :
    Settles c runId job s part ↔ (c.run runId).childStart.has s = false := by
  obtain ⟨hcodec, result, hresult⟩ := decodeJob_resolves c runId hresolves
  have hafter := (h.decodeJob runId job) runId
  rw [(h runId).mentions_iff] at hm
  rw [hresult] at hpart
  unfold Settles
  rw [Bool.eq_false_iff, ne_eq, hafter.mentions_iff, hcodec]
  cases hs : (c.run runId).bySeq.get? s with
  | none =>
      have hstart := hm.resolve_left (by simp [OrdMap.has, hs])
      obtain ⟨w, hw⟩ := OrdMap.has_iff.mp hstart
      have hnil : part = [] := by simpa [takeId, hs, respondTo, eq_comm] using hpart
      refine iff_of_false (fun hsettles => ?_) (by simp [hstart])
      obtain ⟨body, hbody⟩ := hsettles.1 w (Or.inr hw)
      simp [hnil] at hbody
  | some entry =>
      simp only [takeId, hs, CoreCodec.run_setRun, OrdMap.has_unset, ne_eq, not_true_eq_false,
        false_and, false_or, Bool.not_eq_true]
      refine and_iff_right_of_imp fun hstart id hid => ?_
      have hid' : id = entry.id := by
        rcases hid with ⟨kind, hkind⟩ | hid
        · rw [hs] at hkind
          exact (congrArg BySeq.id (Option.some.inj hkind)).symm
        · rw [OrdMap.has, hid] at hstart
          cases hstart
      simp only [takeId, hs, respondTo] at hpart
      obtain ⟨body, -, rfl⟩ := Fallible.of_map_eq_ok hpart
      exact ⟨body, by simp [hid']⟩

/-- The job for a child that did not start settles the seq if nobody waits in `bySeq`. -/
lemma settles_notStarted_iff {c : CoreCodec} (h : Good c) {runId : PhpString} {s : ℤ}
    {outcome : Resolution} {part : List ServerCommand}
    (hpart : (decodeJob c runId (.resolveChildWorkflowExecutionStart s outcome)).2 = .ok part)
    (hm : mentions (c.run runId) s = true) :
    Settles c runId (.resolveChildWorkflowExecutionStart s outcome) s part
      ↔ (c.run runId).bySeq.has s = false := by
  have hafter := (h.decodeJob runId (.resolveChildWorkflowExecutionStart s outcome)) runId
  rw [(h runId).mentions_iff] at hm
  unfold Settles
  rw [Bool.eq_false_iff, ne_eq, hafter.mentions_iff]
  cases hs : (c.run runId).childStart.get? s with
  | none =>
      have hseq := hm.resolve_right (by simp [OrdMap.has, hs])
      obtain ⟨entry, hentry⟩ := OrdMap.has_iff.mp hseq
      have hnil : part = [] := by simpa [decodeJob, hs, eq_comm] using hpart
      refine iff_of_false (fun hsettles => ?_) (by simp [hseq])
      obtain ⟨body, hbody⟩ := hsettles.1 entry.id (Or.inl ⟨entry.kind, hentry⟩)
      simp [hnil] at hbody
  | some w =>
      simp only [decodeJob, hs, CoreCodec.run_setRun, OrdMap.has_unset, ne_eq, not_true_eq_false,
        false_and, or_false, Bool.not_eq_true]
      refine and_iff_right_of_imp fun hseq id hid => ?_
      have hid' : id = w := by
        rcases hid with ⟨kind, hkind⟩ | hid
        · rw [OrdMap.has, hkind] at hseq
          cases hseq
        · rw [hs] at hid
          exact (Option.some.inj hid).symm
      simp only [decodeJob, hs, respondTo] at hpart
      obtain ⟨body, -, rfl⟩ := Fallible.of_map_eq_ok hpart
      exact ⟨body, by simp [hid']⟩

lemma settles_iff {c : CoreCodec} (h : Good c) {runId : PhpString} {job : Job} {s : ℤ}
    (hends : ends job = some s) {part : List ServerCommand}
    (hpart : (decodeJob c runId job).2 = .ok part) (hm : mentions (c.run runId) s = true) :
    Settles c runId job s part ↔ alone (c.run runId) s job = true := by
  cases job with
  | fireTimer _ | resolveActivity _ _ | resolveChildWorkflowExecution _ _ =>
      refine (settles_taken_iff h ?_ hpart hm).trans ?_
      · exact hends
      · simp [alone]
  | resolveChildWorkflowExecutionStart t outcome =>
      cases outcome with
      | failure canceled message =>
          obtain rfl := Option.some.inj hends
          rw [settles_notStarted_iff h hpart hm]
          simp [alone]
      | success _ | started _ _ => cases hends
  | _ => cases hends

/-! ## Activations -/

/-- An activation that does not decode settles nothing, one that does all of what it reports. -/
lemma released_iff {host : Host} {c : CoreCodec} (h : Good c) (b : Batch) :
    Released host c b ↔ Answerable host c b := by
  refine forall₂_congr fun runId hrunId => ?_
  set start : CoreCodec := { forBatch c with runId := runId } with hstart
  have hgood : Good start := h
  have hdecode : decodeActivation host (forBatch c) b.activation
      = decodeJobs start runId (jobsOf host b.activation) := by
    simp only [decodeActivation, hrunId]
    rfl
  rw [hdecode]
  generalize jobsOf host b.activation = jobs
  have hreads : (∃ out, (decodeJobs start runId jobs).2 = .ok out) ↔
      StepSystem.Along (jobTurn runId) (fun e other => reads (e.run runId) other = true) start
        jobs := by
    refine Fallible.forEach_ok_iff.trans ?_
    refine StepSystem.along_congr_of_invariant _ (I := fun _ => True) (fun _ _ _ _ _ => trivial)
      (fun e other _ => decodeJob_ok_iff e runId other) trivial
  have hkeep : ∀ d job d', Good d → jobTurn runId d job = some d' → Good d' := by
    intro d job d' hd hstep
    obtain rfl := Option.some.inj hstep
    exact hd.decodeJob runId job
  by_cases hok : ∃ out, (decodeJobs start runId jobs).2 = .ok out
  · have hall := hreads.mp hok
    obtain ⟨out, hout⟩ := hok
    have hlast := Fallible.lasting_of_forEach_ok
      (P := fun s d => Good d ∧ mentions (d.run runId) s = false)
      (fun s d job hd => ⟨hd.1.decodeJob runId job, mentions_decodeJob hd.1 hd.2⟩) hout
    have hfacts := StepSystem.along_and _ (Fallible.parts_of_forEach_ok hout) hlast
    constructor
    · refine fun hreleased => StepSystem.along_of_invariant _ (I := Good)
        (fun d job d' hd _ => hkeep d job d' hd) (fun d job hd hok s hends hm => ?_) hgood hreleased
      obtain ⟨_, part, -, hpart, -, hanswered, hgone, -⟩ := hok s hends hm
      exact ⟨hall, (settles_iff hd hends hpart hm).mp ⟨hanswered, hgone⟩⟩
    · refine fun hanswerable => StepSystem.along_of_invariant _ (I := Good)
        (fun d job d' hd _ => hkeep d job d' hd) (fun d job hd hok s hends hm => ?_) hgood
        (StepSystem.along_and _ hfacts hanswerable)
      obtain ⟨⟨⟨part, hpart, hsub⟩, hlasting⟩, hcond⟩ := hok
      obtain ⟨hanswered, hgone⟩ := (settles_iff hd hends hpart hm).mpr (hcond s hends hm).2
      exact ⟨out, part, hout, hpart, hsub, hanswered, hgone,
        (hlasting s ⟨hd.decodeJob runId job, hgone⟩).2⟩
  · -- nobody waits for a command that the activation reports
    constructor
    · refine fun hreleased => StepSystem.along_of_invariant _ (I := fun _ => True)
        (fun _ _ _ _ _ _ => trivial) (fun d job _ hreleased s hends hm => ?_) trivial hreleased
      obtain ⟨out, -, hout, -⟩ := hreleased s hends hm
      exact absurd ⟨out, hout⟩ hok
    · refine fun hanswerable => StepSystem.along_of_invariant _ (I := fun _ => True)
        (fun _ _ _ _ _ _ => trivial) (fun d job _ hcond s hends hm => ?_) trivial hanswerable
      exact absurd (hreads.mpr (hcond s hends hm).1) hok

/-! ## Runs -/

lemma good_init : Good CoreCodec.init := fun _ => consistent_empty

/-- **Who waits for a command is answered when it is over.**  In every run of workflow tasks this is
so exactly when, wherever an activation reports that a command is over which has entries, all
payloads of the activation read and nobody waits in the map that the job does not look at. -/
theorem waiters_released_iff (host : Host) (batches : List Batch) :
    StepSystem.Along (fun c b => some (serve host c b)) (Released host) CoreCodec.init batches ↔
      StepSystem.Along (fun c b => some (serve host c b)) (Answerable host) CoreCodec.init
        batches := by
  refine StepSystem.along_congr_of_invariant _ (I := Good) (fun c b c' hc hstep => ?_)
    (fun c b hc => released_iff hc b) good_init
  obtain rfl := Option.some.inj hstep
  exact hc.serve b

/-- A workflow starts a child and asks for its execution. -/
def childScheduled : Batch :=
  ⟨assoc [("runId", .str (bytes "r")), ("jobs", listVal [
      assoc [("initializeWorkflow", assoc [])]])],
    some [.request (bytes "ExecuteChildWorkflow") (.int 7) (.arr []) (.ok []) none,
      .request (bytes "GetChildWorkflowExecution") (.int 8) (assoc [("id", .int 7)]) (.ok [])
        none]⟩

/-- Core reports that the child did not start. -/
def childNotStarted : Batch :=
  ⟨assoc [("runId", .str (bytes "r")), ("jobs", listVal [
      assoc [("resolveChildWorkflowExecutionStart",
        assoc [("seq", .int 1), ("failed", assoc [("failure", .str (bytes "gone"))])])]])], none⟩

/-- The second request is answered and the first is not: it is still entered under the seq. -/
theorem child_not_started_keeps_waiter :
    let c := serve plainHost .init childScheduled
    let decoded := decodeActivation plainHost (forBatch c) childNotStarted.activation
    decoded.2.toOption = some [.response (.int 8) (.failure false (bytes "gone"))] ∧
      (decoded.1.run (bytes "r")).bySeq.get? 1 = some ⟨.int 7, .child⟩ ∧
      ¬ StepSystem.Along (fun c b => some (serve plainHost c b)) (Released plainHost)
        CoreCodec.init [childScheduled, childNotStarted] := by
  refine ⟨by decide, by decide, fun h => ?_⟩
  obtain ⟨out, part, -, -, -, -, hgone, -⟩ :=
    ((h.2 _ rfl).1 (bytes "r") rfl).1 1 rfl (by decide)
  exact absurd hgone (by decide)

end Waiters

end Temporal

end Ignis
