import Mathlib.Data.List.Basic
import Ignis.Classic.Request

/-!
# Where a request path leads

`Runner::resolve` decodes the path once, refuses it as a whole for a `..` or a NUL, and walks along
its non-empty segments: a prefix that is a file is the script, one that is a directory is passed,
and anything else ends the walk with nothing.  `Found` is what the walk can end with.

The file it returns lies under the document root (`resolve_contained`).  `PATH_INFO` is cut from the
decoded path by the length of `SCRIPT_NAME`, which has no empty segments; so it is what follows the
script only where the path itself has none before the end of the script (`path_info_iff`).
-/

namespace Ignis

namespace Classic

/-! ## Segments -/

lemma explode_eq_splitOn (sep : UInt8) (s : PhpString) : explode sep s = s.splitOn sep := by
  induction s with
  | nil => rfl
  | cons b s ih =>
      rw [List.splitOn_cons_eq_if_modifyHead, explode, ← ih]
      by_cases hb : b = sep
      · rw [if_pos hb, if_pos (beq_iff_eq.mpr hb)]
      · rw [if_neg hb, if_neg fun h => hb (beq_iff_eq.mp h)]
        cases hexp : explode sep s with
        | nil => exact absurd (ih.symm.trans hexp) (List.splitOn_ne_nil sep s)
        | cons first parts => rfl

lemma explode_of_notMem {sep : UInt8} {s : PhpString} (h : sep ∉ s) : explode sep s = [s] := by
  rw [explode_eq_splitOn, List.splitOn_eq_singleton h]

lemma explode_append {sep : UInt8} {s : PhpString} (h : sep ∉ s) (t : PhpString) :
    explode sep (s ++ sep :: t) = s :: explode sep t := by
  rw [explode_eq_splitOn, explode_eq_splitOn, List.splitOn_append_cons_self_of_not_mem h]

/-- A part is without the separator, and has no bytes of its own. -/
lemma of_mem_explode {sep : UInt8} {s part : PhpString} (h : part ∈ explode sep s) :
    sep ∉ part ∧ ∀ b ∈ part, b ∈ s := by
  induction s generalizing part with
  | nil =>
      obtain rfl := List.mem_singleton.mp h
      exact ⟨List.not_mem_nil, fun _ hb => hb⟩
  | cons b s ih =>
      have hrest : ∀ p ∈ explode sep s, sep ∉ p ∧ ∀ c ∈ p, c ∈ b :: s := fun p hp =>
        ⟨(ih hp).1, fun c hc => List.mem_cons_of_mem b ((ih hp).2 c hc)⟩
      rw [explode] at h
      split_ifs at h with hb
      · rcases List.mem_cons.mp h with rfl | h
        · exact ⟨List.not_mem_nil, fun _ hc => absurd hc List.not_mem_nil⟩
        · exact hrest part h
      · have hext : ∀ p : PhpString, sep ∉ p → (∀ c ∈ p, c ∈ b :: s) →
            sep ∉ b :: p ∧ ∀ c ∈ b :: p, c ∈ b :: s := by
          intro p hsep hsub
          refine ⟨fun hm => ?_, fun c hc => ?_⟩
          · rcases List.mem_cons.mp hm with rfl | hm
            · exact hb rfl
            · exact hsep hm
          · rcases List.mem_cons.mp hc with rfl | hc
            · exact List.mem_cons_self
            · exact hsub c hc
        cases hexp : explode sep s with
        | nil =>
            rw [hexp] at h
            obtain rfl := List.mem_singleton.mp h
            exact hext [] List.not_mem_nil fun _ hc => absurd hc List.not_mem_nil
        | cons first parts =>
            rw [hexp] at h hrest
            rcases List.mem_cons.mp h with rfl | h
            · obtain ⟨hsep, hsub⟩ := hrest first List.mem_cons_self
              exact hext first hsep hsub
            · exact hrest part (List.mem_cons_of_mem first h)

/-- A segment of a path. -/
structure IsSegment (g : PhpString) : Prop where
  ne_nil : g ≠ []
  no_slash : 47 ∉ g

/-- The segments of a path: what `resolve` walks along. -/
def segmentsOf (path : PhpString) : List PhpString :=
  (explode 47 path).filter fun segment => segment != []

/-- The path that segments make. -/
def joined (segments : List PhpString) : PhpString := segments.flatMap fun g => 47 :: g

@[simp] lemma joined_nil : joined [] = [] := rfl

lemma joined_cons (g : PhpString) (segments : List PhpString) :
    joined (g :: segments) = 47 :: (g ++ joined segments) := rfl

lemma joined_append (as bs : List PhpString) : joined (as ++ bs) = joined as ++ joined bs :=
  List.flatMap_append

lemma isSegment_of_mem {path g : PhpString} (h : g ∈ segmentsOf path) : IsSegment g where
  ne_nil := by simpa using (List.mem_filter.mp h).2
  no_slash := (of_mem_explode (List.mem_filter.mp h).1).1

/-- What may follow a segment: the end, or a slash. -/
def EndsSegment (rest : PhpString) : Prop := rest = [] ∨ ∃ t, rest = 47 :: t

lemma endsSegment_joined (segments : List PhpString) {rest : PhpString} (h : EndsSegment rest) :
    EndsSegment (joined segments ++ rest) := by
  cases segments with
  | nil => exact h
  | cons g gs => exact Or.inr ⟨_, rfl⟩

lemma segmentsOf_slash (s : PhpString) : segmentsOf (47 :: s) = segmentsOf s := by
  simp [segmentsOf, explode]

lemma segmentsOf_segment {g rest : PhpString} (hg : IsSegment g) (h : EndsSegment rest) :
    segmentsOf (g ++ rest) = g :: segmentsOf rest := by
  have hkeep : (g != []) = true := by simpa using hg.ne_nil
  rcases h with rfl | ⟨t, rfl⟩
  · rw [List.append_nil, segmentsOf, explode_of_notMem hg.no_slash, List.filter_singleton, hkeep]
    rfl
  · rw [segmentsOf_slash, segmentsOf, explode_append hg.no_slash, List.filter_cons, hkeep]
    rfl

/-- A path that spells its first segments out, and no empty one between them, has them. -/
lemma segmentsOf_joined {segments : List PhpString} (hs : ∀ g ∈ segments, IsSegment g)
    {rest : PhpString} (h : EndsSegment rest) :
    segmentsOf (joined segments ++ rest) = segments ++ segmentsOf rest := by
  induction segments with
  | nil => rfl
  | cons g gs ih =>
      have hgs : ∀ g' ∈ gs, IsSegment g' := fun g' hg' => hs g' (List.mem_cons_of_mem g hg')
      rw [joined_cons, List.cons_append, segmentsOf_slash, List.append_assoc,
        segmentsOf_segment (hs g List.mem_cons_self) (endsSegment_joined gs h), ih hgs]
      rfl

/-! ## The walk -/

/-- The walk has passed a prefix: it is a directory and no file. -/
def Config.Passes (cfg : Config) (segments : List PhpString) : Prop :=
  cfg.isFile (cfg.docroot ++ joined segments) = false ∧
    cfg.isDir (cfg.docroot ++ joined segments) = true

/-- What the walk finds once it has come along `done`, with the segments `rest` before it: the first
file on its way, or the index of the directory that all of them lead to. -/
inductive Found (cfg : Config) (path : PhpString) (done rest : List PhpString) : Script → Prop where
  | script {segments pre post : List PhpString} {g : PhpString} (hrest : rest = pre ++ g :: post)
      (hsegments : segments = done ++ (pre ++ [g]))
      (hfile : cfg.isFile (cfg.docroot ++ joined segments) = true)
      (hpass : ∀ q, q <+: pre → q ≠ [] → cfg.Passes (done ++ q)) :
      Found cfg path done rest ⟨cfg.docroot ++ joined segments, joined segments,
        path.drop (joined segments).length⟩
  | index {segments : List PhpString} {name : PhpString} (hsegments : segments = done ++ rest)
      (hname : cfg.index = some name)
      (hfile : cfg.isFile (cfg.docroot ++ (joined segments ++ 47 :: name)) = true)
      (hpass : ∀ q, q <+: rest → q ≠ [] → cfg.Passes (done ++ q)) :
      Found cfg path done rest ⟨cfg.docroot ++ (joined segments ++ 47 :: name),
        joined segments ++ 47 :: name, []⟩

/-- One more segment is passed. -/
lemma passes_cons {cfg : Config} {done pre : List PhpString} {g : PhpString}
    (hg : cfg.Passes (done ++ [g]))
    (hpass : ∀ q, q <+: pre → q ≠ [] → cfg.Passes (done ++ [g] ++ q)) :
    ∀ q, q <+: g :: pre → q ≠ [] → cfg.Passes (done ++ q) := by
  intro q hq hne
  cases q with
  | nil => exact absurd rfl hne
  | cons g' q =>
      obtain ⟨rfl, hq'⟩ := List.cons_prefix_cons.mp hq
      by_cases hnil : q = []
      · exact hnil ▸ hg
      · have := hpass q hq' hnil
        rwa [List.append_assoc] at this

theorem found_of_resolveFrom {cfg : Config} {path : PhpString} {done rest : List PhpString}
    {s : Script} (h : resolveFrom cfg path (joined done) rest = some s) :
    Found cfg path done rest s := by
  induction rest generalizing done with
  | nil =>
      simp only [resolveFrom] at h
      split at h
      · cases h
      · rename_i name hname
        split_ifs at h with hfile
        cases h
        refine .index (List.append_nil done).symm hname hfile fun q hq hne => ?_
        exact absurd (List.prefix_nil.mp hq) hne
  | cons g rest ih =>
      have hg : joined done ++ 47 :: g = joined (done ++ [g]) := by
        rw [joined_append, joined_cons, joined_nil, List.append_nil]
      simp only [resolveFrom, hg] at h
      split_ifs at h with hfile hdir
      · cases h
        exact .script (List.nil_append _).symm rfl hfile fun q hq hne =>
          absurd (List.prefix_nil.mp hq) hne
      · have hpassed : cfg.Passes (done ++ [g]) := ⟨by simpa using hfile, hdir⟩
        cases ih h with
        | @script segments pre post g' hrest hsegments hfile' hpass =>
            have hcons : g :: rest = (g :: pre) ++ g' :: post := by
              rw [hrest]
              rfl
            refine .script hcons ?_ hfile' (passes_cons hpassed hpass)
            rw [hsegments, List.append_assoc]
            rfl
        | @index segments name hsegments hname hfile' hpass =>
            refine .index ?_ hname hfile' (passes_cons hpassed hpass)
            rw [hsegments, List.append_assoc]
            rfl

lemma prefix_of_found {segments pre post rest : List PhpString} {g : PhpString}
    (hrest : rest = pre ++ g :: post) (hsegments : segments = [] ++ (pre ++ [g])) :
    segments <+: rest := by
  refine ⟨post, ?_⟩
  rw [hrest, hsegments, List.nil_append, List.append_assoc]
  rfl

/-- What `resolve` has refused before it walks. -/
lemma found_of_resolve {cfg : Config} {path : PhpString} {s : Script}
    (h : resolve cfg path = some s) :
    0 ∉ rawurldecode path ∧ bytes ".." ∉ explode 47 (rawurldecode path) ∧
      Found cfg (rawurldecode path) [] (segmentsOf (rawurldecode path)) s := by
  simp only [resolve] at h
  split_ifs at h with hbad
  simp only [Bool.or_eq_true, List.contains_iff_mem, not_or] at hbad
  exact ⟨hbad.1, hbad.2, found_of_resolveFrom h⟩

/-! ## Containment -/

/-- The array `resolve` returns; what it has not found is `[null, '', '']`. -/
def resolved (cfg : Config) (path : PhpString) : Option PhpString × PhpString × PhpString :=
  match resolve cfg path with
  | none => (none, [], [])
  | some s => (some s.file, s.name, s.pathInfo)

/-- A segment of a file that may be served. -/
structure IsSafe (g : PhpString) : Prop where
  ne_nil : g ≠ []
  ne_dots : g ≠ bytes ".."
  no_nul : 0 ∉ g
  no_slash : 47 ∉ g

/-- A file under the document root: the root, segments with every proper prefix a directory, and
behind them, where the path named a directory, the name of its index. -/
def Contained (cfg : Config) (path file : PhpString) : Prop :=
  ∃ segments, segments <+: segmentsOf (rawurldecode path) ∧ (∀ g ∈ segments, IsSafe g) ∧
    ((file = cfg.docroot ++ joined segments ∧ segments ≠ [] ∧
        ∀ k, 0 < k → k < segments.length →
          cfg.isDir (cfg.docroot ++ joined (segments.take k)) = true) ∨
      ∃ name, cfg.index = some name ∧ file = cfg.docroot ++ (joined segments ++ 47 :: name) ∧
        segments = segmentsOf (rawurldecode path) ∧
        ∀ k, 0 < k → k ≤ segments.length →
          cfg.isDir (cfg.docroot ++ joined (segments.take k)) = true)

lemma isSafe_of_mem {path g : PhpString} (hnul : 0 ∉ path) (hdots : bytes ".." ∉ explode 47 path)
    (hg : g ∈ segmentsOf path) : IsSafe g where
  ne_nil := (isSegment_of_mem hg).ne_nil
  ne_dots := by
    rintro rfl
    exact hdots (List.mem_filter.mp hg).1
  no_nul := fun h0 => hnul ((of_mem_explode (List.mem_filter.mp hg).1).2 0 h0)
  no_slash := (isSegment_of_mem hg).no_slash

lemma isDir_take {cfg : Config} {segments : List PhpString}
    (hpass : ∀ q, q <+: segments → q ≠ [] → cfg.Passes ([] ++ q)) {k : ℕ} (hk : 0 < k)
    (hle : k ≤ segments.length) : cfg.isDir (cfg.docroot ++ joined (segments.take k)) = true := by
  have hne : segments.take k ≠ [] := List.length_pos_iff.mp (by rw [List.length_take]; omega)
  exact (hpass _ (List.take_prefix k segments) hne).2

/-- **Document-root containment.**  Whatever the path and the files, `resolve` returns a file under
the document root, or `[null, '', '']`. -/
theorem resolve_contained (cfg : Config) (path : PhpString) :
    (∃ file name pathInfo, resolved cfg path = (some file, name, pathInfo) ∧
      cfg.isFile file = true ∧ Contained cfg path file) ∨ resolved cfg path = (none, [], []) := by
  cases h : resolve cfg path with
  | none => exact Or.inr (by rw [resolved, h])
  | some s =>
      left
      obtain ⟨hnul, hdots, hfound⟩ := found_of_resolve h
      refine ⟨s.file, s.name, s.pathInfo, by rw [resolved, h], ?_⟩
      cases hfound with
      | @script segments pre post g hrest hsegments hfile hpass =>
          have hpre := prefix_of_found hrest hsegments
          refine ⟨hfile, segments, hpre,
            fun g hg => isSafe_of_mem hnul hdots (hpre.subset hg), Or.inl ⟨rfl, ?_, ?_⟩⟩
          · rw [hsegments]
            simp
          · intro k hk hlt
            rw [hsegments, List.nil_append, List.length_append, List.length_singleton] at hlt
            have htake : segments.take k = pre.take k := by
              rw [hsegments, List.nil_append, List.take_append_of_le_length (by omega)]
            rw [htake]
            exact isDir_take hpass hk (by omega)
      | @index segments name hsegments hname hfile hpass =>
          have heq : segments = segmentsOf (rawurldecode path) := hsegments
          refine ⟨hfile, segments, heq ▸ List.prefix_refl _, fun g hg =>
            isSafe_of_mem hnul hdots (heq ▸ hg), Or.inr ⟨name, hname, rfl, heq, ?_⟩⟩
          intro k hk hle
          rw [heq] at hle ⊢
          exact isDir_take hpass hk hle

/-! ## `PATH_INFO` -/

/-- A path with each run of slashes made one. -/
def squeeze : PhpString → PhpString
  | [] => []
  | [b] => [b]
  | b :: c :: s => if b = 47 ∧ c = 47 then squeeze (c :: s) else b :: squeeze (c :: s)

lemma squeeze_sublist : ∀ s : PhpString, (squeeze s).Sublist s
  | [] => List.Sublist.refl []
  | [b] => List.Sublist.refl [b]
  | b :: c :: s => by
      rw [squeeze]
      split_ifs
      · exact (squeeze_sublist (c :: s)).cons b
      · exact (squeeze_sublist (c :: s)).cons_cons b

/-- No slash of a path that is made of segments comes next to another. -/
lemma squeeze_segment (g : PhpString) (hg : 47 ∉ g) {rest : PhpString}
    (hrest : squeeze rest = rest) : squeeze (g ++ rest) = g ++ rest := by
  induction g with
  | nil => exact hrest
  | cons b g ih =>
      have hb : b ≠ 47 := fun e => hg (e ▸ List.mem_cons_self)
      have ih := ih fun hm => hg (List.mem_cons_of_mem b hm)
      cases hcons : g ++ rest with
      | nil => rw [List.cons_append, hcons, squeeze]
      | cons c s =>
          rw [hcons] at ih
          rw [List.cons_append, hcons, squeeze, if_neg fun hand => hb hand.1, ih]

lemma squeeze_joined {segments : List PhpString} (hs : ∀ g ∈ segments, IsSegment g) :
    squeeze (joined segments) = joined segments := by
  induction segments with
  | nil => rfl
  | cons g gs ih =>
      have hg := hs g List.mem_cons_self
      have hrest := squeeze_segment g hg.no_slash
        (ih fun g' hg' => hs g' (List.mem_cons_of_mem g hg'))
      obtain ⟨b, t, rfl⟩ := List.exists_cons_of_ne_nil hg.ne_nil
      have hb : b ≠ 47 := fun e => hg.no_slash (e ▸ List.mem_cons_self)
      rw [joined_cons, List.cons_append, squeeze, if_neg fun hand => hb hand.2,
        ← List.cons_append, hrest]

/-- `resolve` returns a script that the path names, no index of a directory: it returns the same
with no index configured. -/
def NamesScript (cfg : Config) (path : PhpString) (s : Script) : Prop :=
  resolve cfg path = some s ∧ resolve { cfg with index := none } path = some s

/-- `PATH_INFO` is what follows the script: it is empty or starts with a slash, and behind
`SCRIPT_NAME` it makes the decoded path, up to repeated slashes in the script's part. -/
def PathInfoFollows (path : PhpString) (s : Script) : Prop :=
  EndsSegment s.pathInfo ∧
    ∃ part, rawurldecode path = part ++ s.pathInfo ∧ squeeze part = squeeze s.name

/-- A prefix of the decoded path is a file as it stands: it starts with a slash, has no empty
segment and ends where a segment ends. -/
def SpelledOut (cfg : Config) (path : PhpString) : Prop :=
  ∃ segments rest, rawurldecode path = joined segments ++ rest ∧ segments ≠ [] ∧
    (∀ g ∈ segments, IsSegment g) ∧ EndsSegment rest ∧
    cfg.isFile (cfg.docroot ++ joined segments) = true

/-- The script of a path that names one, by its segments. -/
lemma script_of_namesScript {cfg : Config} {path : PhpString} {s : Script}
    (h : NamesScript cfg path s) :
    ∃ segments, segments <+: segmentsOf (rawurldecode path) ∧ segments ≠ [] ∧
      (∀ g ∈ segments, IsSegment g) ∧ cfg.isFile (cfg.docroot ++ joined segments) = true ∧
      (∀ q, q <+: segments → q ≠ [] → q ≠ segments →
        cfg.isFile (cfg.docroot ++ joined q) = false) ∧
      s.name = joined segments ∧
      s.pathInfo = (rawurldecode path).drop (joined segments).length := by
  obtain ⟨-, -, hfound⟩ := found_of_resolve h.2
  cases hfound with
  | @script segments pre post g hrest hsegments hfile hpass =>
      have hpre := prefix_of_found hrest hsegments
      refine ⟨segments, hpre, by rw [hsegments]; simp,
        fun g hg => isSegment_of_mem (hpre.subset hg), hfile, ?_, rfl, rfl⟩
      intro q hq hne hproper
      rw [hsegments, List.nil_append] at hq hproper
      have hpre : q <+: pre := (List.prefix_concat_iff.mp hq).resolve_left hproper
      exact (hpass q hpre hne).1
  | index hsegments hname hfile hpass => cases hname

/-- **`PATH_INFO` is what follows the script** exactly where the path spells a file out. -/
theorem path_info_iff {cfg : Config} {path : PhpString} {s : Script}
    (h : NamesScript cfg path s) : PathInfoFollows path s ↔ SpelledOut cfg path := by
  obtain ⟨segments, hpre, hne, hseg, hfile, hshorter, hname, hinfo⟩ := script_of_namesScript h
  constructor
  · rintro ⟨hends, part, hpath, hsqueeze⟩
    rw [hname, squeeze_joined hseg] at hsqueeze
    -- the part behind is cut off by the length of the name, so the part before has that length
    have hlen : (joined segments).length ≤ part.length :=
      hsqueeze ▸ (squeeze_sublist part).length_le
    have hdrop := congrArg List.length hinfo
    have htotal := congrArg List.length hpath
    rw [List.length_drop] at hdrop
    rw [List.length_append] at htotal
    have hpart : part = joined segments := by
      rw [← hsqueeze]
      exact ((squeeze_sublist part).eq_of_length (by rw [hsqueeze]; omega)).symm
    exact ⟨segments, s.pathInfo, hpart ▸ hpath, hne, hseg, hends, hfile⟩
  · rintro ⟨spelled, rest, hpath, hne', hseg', hends, hfile'⟩
    have hsegs : segmentsOf (rawurldecode path) = spelled ++ segmentsOf rest := by
      rw [hpath, segmentsOf_joined hseg' hends]
    -- the walk stops at the spelled file at the latest
    have hle : segments <+: spelled := by
      rcases List.prefix_or_prefix_of_prefix hpre (hsegs ▸ List.prefix_append _ _) with hp | hp
      · exact hp
      · by_cases heq : spelled = segments
        · exact heq ▸ List.prefix_refl _
        · rw [hshorter spelled hp hne' heq] at hfile'
          cases hfile'
    obtain ⟨more, rfl⟩ := hle
    have hrest : rawurldecode path = joined segments ++ (joined more ++ rest) := by
      rw [hpath, joined_append, List.append_assoc]
    have hpathInfo : s.pathInfo = joined more ++ rest := by
      rw [hinfo, hrest, List.drop_left]
    refine ⟨hpathInfo ▸ endsSegment_joined more hends, joined segments, ?_, by rw [hname]⟩
    rw [hpathInfo, hrest]

/-- A document root with one script. -/
def oneScript : Config where
  docroot := bytes "/srv"
  index := some (bytes "index.php")
  extra := ∅
  env := ∅
  isFile := fun file => file == bytes "/srv/app.php"
  isDir := fun file => file == bytes "/srv"

theorem path_info_iff_app :
    NamesScript oneScript (bytes "/app.php/extra")
      ⟨bytes "/srv/app.php", bytes "/app.php", bytes "/extra"⟩ ∧
    PathInfoFollows (bytes "/app.php/extra")
      ⟨bytes "/srv/app.php", bytes "/app.php", bytes "/extra"⟩ := by
  have h : NamesScript oneScript (bytes "/app.php/extra")
      ⟨bytes "/srv/app.php", bytes "/app.php", bytes "/extra"⟩ :=
    ⟨by decide +kernel, by decide +kernel⟩
  refine ⟨h, (path_info_iff h).mpr ⟨[bytes "app.php"], bytes "/extra", by decide +kernel,
    List.cons_ne_nil _ _, fun g hg => ?_, Or.inr ⟨bytes "extra", by decide +kernel⟩,
    by decide +kernel⟩⟩
  rw [List.mem_singleton.mp hg]
  exact ⟨by decide +kernel, by decide +kernel⟩

/-- A second slash before the script is dropped from `SCRIPT_NAME` and counted in `PATH_INFO`. -/
theorem path_info_behind_two_slashes :
    NamesScript oneScript (bytes "//app.php/extra")
      ⟨bytes "/srv/app.php", bytes "/app.php", bytes "p/extra"⟩ ∧
    ¬ PathInfoFollows (bytes "//app.php/extra")
      ⟨bytes "/srv/app.php", bytes "/app.php", bytes "p/extra"⟩ := by
  refine ⟨⟨by decide +kernel, by decide +kernel⟩, ?_⟩
  rintro ⟨hends, -⟩
  rcases hends with hnil | ⟨t, hcons⟩
  · exact absurd hnil (by decide +kernel)
  · exact absurd (congrArg List.head? hcons) (by simp [bytes])

end Classic

end Ignis
