import Ignis.Lib.Scan
import Ignis.Classic.Resolve

/-!
# Multipart forms

`Request::multipartQuery` makes a query string of the fields of a `multipart/form-data` body, which
`parse_str` then reads.  The regular expressions of the source are leftmost matches here; that a
match of them can be given up for its size is not modelled.

What it makes can be read back, whatever the body (`pairsOf_multipartQuery`), and a body with plain
fields is cut into these (`multipartFields_multipart`).  But a value goes without the line end it
has (`multipart_fields_iff`): the delimiter was matched together with the line end before it, and
then the value loses another one.
-/

namespace Ignis

namespace Classic

/-! ## Query strings -/

/-- What `rawurlencode` leaves as it is. -/
def isUnreserved (b : UInt8) : Bool :=
  (48 ≤ b && b ≤ 57) || (65 ≤ b && b ≤ 90) || (97 ≤ b && b ≤ 122)
    || b = 45 || b = 46 || b = 95 || b = 126

def hexDigit (n : ℕ) : UInt8 := if n < 10 then UInt8.ofNat (48 + n) else UInt8.ofNat (55 + n)

/-- `rawurlencode`. -/
def rawurlencode : PhpString → PhpString
  | [] => []
  | b :: s =>
      if isUnreserved b then b :: rawurlencode s
      else 37 :: hexDigit (b.toNat / 16) :: hexDigit (b.toNat % 16) :: rawurlencode s

/-- The pairs of a query string, before `parse_str` makes arrays of them. -/
def pairsOf (query : PhpString) : List (PhpString × PhpString) :=
  ((explode 38 query).filter fun pair => pair ≠ []).map fun pair =>
    (urldecode (splitAt 61 pair).1, urldecode ((splitAt 61 pair).2.getD []))

/-! ## `Http\Request::multipartQuery` -/

def delimiter (boundary : PhpString) : PhpString := 45 :: 45 :: boundary

/-- `(?:\r\n|\n)--BOUNDARY`. -/
def delimiterLine (boundary : PhpString) : Scan.Pattern UInt8 :=
  Scan.either (13 :: 10 :: delimiter boundary) (10 :: delimiter boundary) (List.cons_ne_nil _ _)
    (List.cons_ne_nil _ _)

/-- The `preg_split` of the body.  At its start the delimiter needs no line end. -/
def partsOf (boundary body : PhpString) : List PhpString :=
  if delimiter boundary <+: body then
    [] :: (delimiterLine boundary).splitAll (body.drop (delimiter boundary).length)
  else (delimiterLine boundary).splitAll body

/-- `\r\n\r\n|\n\n`. -/
def blankLine : Scan.Pattern UInt8 :=
  Scan.either [13, 10, 13, 10] [10, 10] (List.cons_ne_nil _ _) (List.cons_ne_nil _ _)

def isLineEnd (b : UInt8) : Bool := b = 13 || b = 10

/-- `\w` of a regular expression. -/
def isWord (b : UInt8) : Bool :=
  (48 ≤ b && b ≤ 57) || (65 ≤ b && b ≤ 90) || (97 ≤ b && b ≤ 122) || b = 95

def startsName (s : PhpString) : Bool := (s.take 5).map toUpper = bytes "NAME="

/-- `"([^"]*)"|([^;\r\n]*)`, and the group of the two that is not empty. -/
def nameValue (s : PhpString) : PhpString :=
  let unquoted := s.takeWhile fun b => b ≠ 59 && !isLineEnd b
  match s with
  | 34 :: rest =>
      match splitAt 34 rest with
      | (quoted, some _) => quoted
      | (_, none) => unquoted
  | _ => unquoted

/-- The `preg_match` for the name, with the kind of the byte before: `\b` needs that no word goes
on. -/
def nameFrom : (inWord : Bool) → PhpString → Option PhpString
  | _, [] => none
  | inWord, b :: s =>
      if !inWord && startsName (b :: s) then some (nameValue ((b :: s).drop 5))
      else nameFrom (isWord b) s

/-- `$`: the end, or a line feed and then the end. -/
def AtEnd (s : PhpString) : Prop := s = [] ∨ s = [10]

instance (s : PhpString) : Decidable (AtEnd s) := inferInstanceAs (Decidable (_ ∨ _))

/-- `preg_replace('#\r\n$|\n$#', '', $value)`. -/
def stripLineEnd : PhpString → PhpString
  | [] => []
  | 13 :: 10 :: s => if AtEnd s then stripLineEnd s else 13 :: stripLineEnd (10 :: s)
  | b :: s => if b = 10 ∧ AtEnd s then stripLineEnd s else b :: stripLineEnd s

/-- The headers and the value of a part that is not skipped. -/
def sections (part : PhpString) : Option (PhpString × PhpString) :=
  if part = [] ∨ bytes "--" <+: part then none
  else blankLine.cut (part.dropWhile isLineEnd)

/-- The name and the value of a part, if it is a field. -/
def fieldOf (part : PhpString) : Option (PhpString × PhpString) :=
  match sections part with
  | none => none
  | some (headers, value) =>
      if bytes "filename=" <:+: headers then none
      else (nameFrom false headers).map fun name => (name, stripLineEnd value)

def multipartFields (body boundary : PhpString) : List (PhpString × PhpString) :=
  (partsOf boundary body).filterMap fieldOf

/-- `rawurlencode($name) . '=' . rawurlencode($value)`. -/
def encodePair (f : PhpString × PhpString) : PhpString :=
  rawurlencode f.1 ++ 61 :: rawurlencode f.2

def multipartQuery (body boundary : PhpString) : PhpString :=
  [38].intercalate ((multipartFields body boundary).map encodePair)

/-! ## Reading the query string back -/

lemma hexValue_hexDigit {n : ℕ} (h : n < 16) : hexValue (hexDigit n) = some n := by
  have hall : ∀ i : Fin 16, hexValue (hexDigit i) = some i.val := by decide
  exact hall ⟨n, h⟩

lemma isUnreserved_hexDigit {n : ℕ} (h : n < 16) : isUnreserved (hexDigit n) = true := by
  have hall : ∀ i : Fin 16, isUnreserved (hexDigit i) = true := by decide
  exact hall ⟨n, h⟩

lemma mem_rawurlencode {s : PhpString} {b : UInt8} (h : b ∈ rawurlencode s) :
    b = 37 ∨ isUnreserved b = true := by
  induction s with
  | nil => exact absurd h List.not_mem_nil
  | cons c s ih =>
      have hc := c.toNat_lt
      rw [rawurlencode] at h
      split_ifs at h with hfree
      · rcases List.mem_cons.mp h with rfl | h
        · exact Or.inr hfree
        · exact ih h
      · rcases List.mem_cons.mp h with rfl | h
        · exact Or.inl rfl
        · rcases List.mem_cons.mp h with rfl | h
          · exact Or.inr (isUnreserved_hexDigit (by omega))
          · rcases List.mem_cons.mp h with rfl | h
            · exact Or.inr (isUnreserved_hexDigit (by omega))
            · exact ih h

/-- The bytes that mean something in a query string are encoded. -/
lemma notMem_rawurlencode {b : UInt8} (s : PhpString) (hb : b ≠ 37)
    (hfree : isUnreserved b = false) : b ∉ rawurlencode s := by
  intro h
  rcases mem_rawurlencode h with h | h
  · exact hb h
  · exact absurd (hfree.symm.trans h) (by decide)

lemma rawurldecode_cons {b : UInt8} (hb : b ≠ 37) (s : PhpString) :
    rawurldecode (b :: s) = b :: rawurldecode s := by
  rw [rawurldecode]
  exact fun _ _ _ heq => absurd heq hb

lemma rawurldecode_rawurlencode (s : PhpString) : rawurldecode (rawurlencode s) = s := by
  induction s with
  | nil => rfl
  | cons b s ih =>
      rw [rawurlencode]
      split_ifs with hfree
      · have hb : b ≠ 37 := by
          rintro rfl
          exact absurd hfree (by decide)
        rw [rawurldecode_cons hb, ih]
      · have hb := b.toNat_lt
        have hbyte : UInt8.ofNat (16 * (b.toNat / 16) + b.toNat % 16) = b := by
          rw [Nat.div_add_mod, UInt8.ofNat_toNat]
        simp only [rawurldecode, hexValue_hexDigit (show b.toNat / 16 < 16 by omega),
          hexValue_hexDigit (show b.toNat % 16 < 16 by omega), hbyte, ih]

lemma urldecode_rawurlencode (s : PhpString) : urldecode (rawurlencode s) = s := by
  have hplus := notMem_rawurlencode (b := 43) s (by decide) (by decide)
  have hmap : (rawurlencode s).map (fun b => if b = 43 then 32 else b) = rawurlencode s := by
    conv_rhs => rw [← List.map_id (rawurlencode s)]
    refine List.map_congr_left fun b hb => if_neg ?_
    rintro rfl
    exact hplus hb
  rw [urldecode, hmap, rawurldecode_rawurlencode]

lemma splitAt_append {sep : UInt8} {s : PhpString} (h : sep ∉ s) (t : PhpString) :
    splitAt sep (s ++ sep :: t) = (s, some t) := by
  induction s with
  | nil => exact if_pos rfl
  | cons b s ih =>
      have hb : b ≠ sep := fun heq => h (heq ▸ List.mem_cons_self)
      rw [List.cons_append, splitAt, if_neg hb, ih fun hm => h (List.mem_cons_of_mem b hm)]

lemma pairsOf_encoded (fields : List (PhpString × PhpString)) :
    pairsOf ([38].intercalate (fields.map encodePair)) = fields := by
  rcases eq_or_ne fields [] with rfl | hne
  · rfl
  · have hamp : ∀ pair ∈ fields.map encodePair, (38 : UInt8) ∉ pair := by
      intro pair hpair
      obtain ⟨f, -, rfl⟩ := List.mem_map.mp hpair
      intro hm
      rcases List.mem_append.mp hm with h | h
      · exact notMem_rawurlencode f.1 (by decide) (by decide) h
      · rcases List.mem_cons.mp h with h | h
        · exact absurd h (by decide)
        · exact notMem_rawurlencode f.2 (by decide) (by decide) h
    have hpairs : fields.map encodePair ≠ [] := fun h => hne (List.map_eq_nil_iff.mp h)
    have hfull :
        (fields.map encodePair).filter (fun pair => pair ≠ []) = fields.map encodePair := by
      refine List.filter_eq_self.mpr fun pair hpair => ?_
      obtain ⟨f, -, rfl⟩ := List.mem_map.mp hpair
      exact decide_eq_true (List.append_ne_nil_of_right_ne_nil _ (List.cons_ne_nil _ _))
    rw [pairsOf, explode_eq_splitOn, List.splitOn_intercalate 38 hamp hpairs, hfull, List.map_map]
    conv_rhs => rw [← List.map_id fields]
    refine List.map_congr_left fun f _ => ?_
    have hequals := notMem_rawurlencode (b := 61) f.1 (by decide) (by decide)
    simp only [Function.comp_apply, encodePair, splitAt_append hequals, Option.getD_some,
      urldecode_rawurlencode, id_eq]

/-- Nothing of the fields is lost on the way through the query string. -/
theorem pairsOf_multipartQuery (body boundary : PhpString) :
    pairsOf (multipartQuery body boundary) = multipartFields body boundary :=
  pairsOf_encoded _

/-! ## The line end of a value -/

lemma length_stripLineEnd_le (v : PhpString) : (stripLineEnd v).length ≤ v.length := by
  fun_induction stripLineEnd v with
  | case1 => exact le_rfl
  | case2 s hend ih => exact ih.trans (Nat.le_add_right _ 2)
  | case3 s hend ih => exact Nat.succ_le_succ ih
  | case4 b s _ hend ih => exact ih.trans (Nat.le_succ _)
  | case5 b s _ hend ih => exact Nat.succ_le_succ ih

lemma getLast?_of_atEnd {s : PhpString} (h : AtEnd s) : (10 :: s).getLast? = some 10 := by
  rcases h with rfl | rfl <;> rfl

/-- A value is kept if and only if it does not end in a line feed. -/
lemma stripLineEnd_eq_self_iff (v : PhpString) : stripLineEnd v = v ↔ v.getLast? ≠ some 10 := by
  have hshorter : ∀ {s t : PhpString}, s.length < t.length → stripLineEnd s ≠ t := by
    intro s t hlt heq
    have hle := length_stripLineEnd_le s
    rw [heq] at hle
    omega
  fun_induction stripLineEnd v with
  | case1 => exact iff_of_true rfl (by decide)
  | case2 s hend ih =>
      have hlast : (13 :: 10 :: s).getLast? = some 10 := by
        rw [List.getLast?_cons, getLast?_of_atEnd hend]
        rfl
      exact iff_of_false (hshorter (Nat.lt_add_of_pos_right Nat.two_pos)) (not_not_intro hlast)
  | case3 s hend ih =>
      rw [List.cons_inj_right, List.getLast?_cons_cons]
      exact ih
  | case4 b s _ hend ih =>
      obtain ⟨rfl, hend⟩ := hend
      exact iff_of_false (hshorter (Nat.lt_succ_self _)) (not_not_intro (getLast?_of_atEnd hend))
  | case5 b s _ hend ih =>
      rw [List.cons_inj_right]
      refine Iff.trans ih ?_
      cases s with
      | nil =>
          have hb : b ≠ 10 := fun hb => hend ⟨hb, Or.inl rfl⟩
          exact iff_of_true (by decide) fun heq => hb (Option.some.inj heq)
      | cons c s => rw [List.getLast?_cons_cons]

/-! ## A form as a browser sends it -/

/-- The boundary of a form, which a header has carried. -/
structure Boundary where
  text : PhpString
  noReturn : 13 ∉ text
  noFeed : 10 ∉ text

/-- No line but the first starts with the text. -/
def LineFree (d s : PhpString) : Prop := ∀ a b, s = a ++ 10 :: b → ¬ d <+: b

/-- A field whose name needs no escape, and no line of whose value starts with the delimiter. -/
structure Plain (boundary : Boundary) (f : PhpString × PhpString) : Prop where
  noQuote : 34 ∉ f.1
  noReturn : 13 ∉ f.1
  noFeed : 10 ∉ f.1
  noFilename : ¬ bytes "filename=" <:+: f.1
  first : ¬ delimiter boundary.text <+: f.2
  others : LineFree (delimiter boundary.text) f.2

def beforeName : PhpString := bytes "Content-Disposition: form-data; "

def disposition (name : PhpString) : PhpString :=
  beforeName ++ (bytes "name=" ++ 34 :: (name ++ [34]))

/-- What stands between two delimiters, up to the line end. -/
def contentOf (f : PhpString × PhpString) : PhpString :=
  13 :: 10 :: (disposition f.1 ++ 13 :: 10 :: 13 :: 10 :: f.2)

/-- A `multipart/form-data` body with CRLF line ends. -/
def multipart (boundary : Boundary) (fields : List (PhpString × PhpString)) : PhpString :=
  (fields.flatMap fun f => delimiter boundary.text ++ contentOf f ++ [13, 10])
    ++ delimiter boundary.text ++ [45, 45, 13, 10]

/-! ## The parts -/

lemma lineFree_cons {d : PhpString} {b : UInt8} {s : PhpString} (h : LineFree d s)
    (hb : b = 10 → ¬ d <+: s) : LineFree d (b :: s) := by
  intro a t heq
  cases a with
  | nil =>
      obtain ⟨hfeed, rfl⟩ := List.cons.inj heq
      exact hb hfeed
  | cons c a => exact h a t (List.cons.inj heq).2

lemma lineFree_append {d front s : PhpString} (h : LineFree d s) (hfront : 10 ∉ front) :
    LineFree d (front ++ s) := by
  induction front with
  | nil => exact h
  | cons b front ih =>
      refine lineFree_cons (ih fun hm => hfront (List.mem_cons_of_mem b hm)) ?_
      rintro rfl
      exact absurd List.mem_cons_self hfront

lemma lineFree_nil (d : PhpString) : LineFree d [] := fun a b heq => by simp at heq

lemma lineFree_of_notMem {d s : PhpString} (h : 10 ∉ s) : LineFree d s := by
  have hfree := lineFree_append (lineFree_nil d) h
  rwa [List.append_nil] at hfree

lemma prefix_of_append_cons {d s t : PhpString} {x : UInt8} (hx : x ∉ d) (h : d <+: s ++ x :: t) :
    d <+: s := by
  rcases List.prefix_or_prefix_of_prefix h (List.prefix_append s (x :: t)) with hd | ⟨u, rfl⟩
  · exact hd
  · rcases List.prefix_cons_iff.mp ((List.prefix_append_right_inj s).mp h) with rfl | ⟨v, rfl, -⟩
    · rw [List.append_nil]
    · exact absurd (List.mem_append_right s List.mem_cons_self) hx

lemma notMem_delimiter (boundary : Boundary) :
    13 ∉ delimiter boundary.text ∧ 10 ∉ delimiter boundary.text := by
  refine ⟨fun h => boundary.noReturn ?_, fun h => boundary.noFeed ?_⟩
  all_goals simpa [delimiter] using h

/-- No delimiter is found where no line starts with it. -/
lemma run_delimiterLine {boundary : Boundary} {s a b : PhpString}
    (h : LineFree (delimiter boundary.text) s) (hs : s = a ++ b) (hb : b ≠ []) (t : PhpString) :
    (delimiterLine boundary.text).run (b ++ 13 :: t) = none := by
  obtain ⟨hreturn, hfeed⟩ := notMem_delimiter boundary
  obtain ⟨c, b, rfl⟩ := List.exists_cons_of_ne_nil hb
  refine Scan.either_run_eq_none_iff.mpr ⟨fun hd => ?_, fun hd => ?_⟩
  · obtain ⟨rfl, hrest⟩ := List.cons_prefix_cons.mp hd
    cases b with
    | nil => exact absurd (List.cons_prefix_cons.mp hrest).1 (by decide)
    | cons c b =>
        obtain ⟨rfl, hline⟩ := List.cons_prefix_cons.mp hrest
        exact h (a ++ [13]) b (by rw [hs, List.append_assoc]; rfl)
          (prefix_of_append_cons hreturn hline)
  · obtain ⟨rfl, hline⟩ := List.cons_prefix_cons.mp hd
    exact h a b hs (prefix_of_append_cons hreturn hline)

lemma run_delimiterLine_of_lineFree {boundary : Boundary} {s a b : PhpString}
    (h : LineFree (delimiter boundary.text) s) (hs : s = a ++ b) :
    (delimiterLine boundary.text).run b = none := by
  refine Scan.either_run_eq_none_iff.mpr ?_
  rcases eq_or_ne b [] with rfl | hb
  · exact ⟨fun hd => List.cons_ne_nil _ _ (List.prefix_nil.mp hd),
      fun hd => List.cons_ne_nil _ _ (List.prefix_nil.mp hd)⟩
  · have hnone := Scan.either_run_eq_none_iff.mp (run_delimiterLine h hs hb [])
    exact ⟨fun hd => hnone.1 (List.prefix_append_of_prefix hd),
      fun hd => hnone.2 (List.prefix_append_of_prefix hd)⟩

lemma head_disposition (name : PhpString) : ∃ rest, disposition name = 67 :: rest := by
  have hhead : beforeName = 67 :: beforeName.tail := by decide +kernel
  exact ⟨beforeName.tail ++ (bytes "name=" ++ 34 :: (name ++ [34])), congrArg (· ++ _) hhead⟩

/-- The disposition of a plain field is one line. -/
lemma notMem_disposition {b : UInt8} {name : PhpString} (hb : b = 13 ∨ b = 10) (hname : b ∉ name) :
    b ∉ disposition name := by
  have hbefore : b ∉ beforeName := by rcases hb with rfl | rfl <;> decide +kernel
  have hword : b ∉ bytes "name=" := by rcases hb with rfl | rfl <;> decide +kernel
  have hquote : b ≠ 34 := by rcases hb with rfl | rfl <;> decide
  simp [disposition, hbefore, hword, hquote, hname]

lemma lineFree_contentOf {boundary : Boundary} {f : PhpString × PhpString} (h : Plain boundary f) :
    LineFree (delimiter boundary.text) (contentOf f) := by
  obtain ⟨rest, hrest⟩ := head_disposition f.1
  have hfeed := notMem_disposition (Or.inr rfl) h.noFeed
  have hstart : ∀ b : UInt8, b ≠ 45 → ∀ s, ¬ delimiter boundary.text <+: b :: s :=
    fun b hb s hd => hb (List.cons_prefix_cons.mp hd).1.symm
  have hvalue := lineFree_cons (b := 10) h.others fun _ => h.first
  have hblank := lineFree_cons (b := 10) (lineFree_cons (b := 13) hvalue fun heq => by
    exact absurd heq (by decide)) fun _ => hstart 13 (by decide) _
  have hheaders := lineFree_append (lineFree_cons (b := 13) hblank fun heq => by
    exact absurd heq (by decide)) hfeed
  have hline := lineFree_cons (b := 10) hheaders fun _ => by
    rw [hrest]
    exact hstart 67 (by decide) _
  exact lineFree_cons hline fun heq => absurd heq (by decide)

/-- The body after its first delimiter. -/
def tailOf (boundary : Boundary) : List (PhpString × PhpString) → PhpString
  | [] => [45, 45, 13, 10]
  | f :: fields => contentOf f ++ 13 :: 10 :: (delimiter boundary.text ++ tailOf boundary fields)

lemma multipart_eq (boundary : Boundary) (fields : List (PhpString × PhpString)) :
    multipart boundary fields = delimiter boundary.text ++ tailOf boundary fields := by
  induction fields with
  | nil => rfl
  | cons f fields ih =>
      unfold multipart at ih ⊢
      rw [List.flatMap_cons, List.append_assoc, List.append_assoc,
        ← List.append_assoc _ _ [45, 45, 13, 10], ih, tailOf]
      simp

/-- The delimiters cut the body into the contents of the fields. -/
lemma splitAll_tailOf {boundary : Boundary} {fields : List (PhpString × PhpString)}
    (h : ∀ f ∈ fields, Plain boundary f) :
    (delimiterLine boundary.text).splitAll (tailOf boundary fields)
      = fields.map contentOf ++ [[45, 45, 13, 10]] := by
  induction fields with
  | nil =>
      have hfree : LineFree (delimiter boundary.text) [45, 45, 13, 10] := by
        have hlast : LineFree (delimiter boundary.text) [10] :=
          lineFree_cons (lineFree_nil _) fun _ hd => nomatch List.prefix_nil.mp hd
        have hdashes : (10 : UInt8) ∉ [(45 : UInt8), 45, 13] := by decide
        exact lineFree_append hlast hdashes
      exact Scan.Pattern.splitAll_of_none _ (Scan.Pattern.cut_eq_none _ fun a b hs =>
        run_delimiterLine_of_lineFree hfree hs)
  | cons f fields ih =>
      have hfree := lineFree_contentOf (h f List.mem_cons_self)
      have hcut : (delimiterLine boundary.text).cut (tailOf boundary (f :: fields))
          = some (contentOf f, tailOf boundary fields) :=
        Scan.Pattern.cut_append _ (fun a b hs hb => run_delimiterLine hfree hs hb _)
          (Scan.either_run_left _ _ _)
      rw [Scan.Pattern.splitAll_of_cut _ hcut, ih fun g hg => h g (List.mem_cons_of_mem f hg)]
      rfl

lemma partsOf_multipart {boundary : Boundary} {fields : List (PhpString × PhpString)}
    (h : ∀ f ∈ fields, Plain boundary f) :
    partsOf boundary.text (multipart boundary fields)
      = [] :: (fields.map contentOf ++ [[45, 45, 13, 10]]) := by
  rw [multipart_eq, partsOf, if_pos (List.prefix_append _ _), List.drop_left, splitAll_tailOf h]

/-! ## A part -/

lemma startsName_append {s : PhpString} (h : 5 ≤ s.length) (t : PhpString) :
    startsName (s ++ t) = startsName s := by
  rw [startsName, startsName, List.take_append_of_le_length h]

/-- The name is read where the first `name=` stands. -/
lemma nameFrom_append {front : PhpString} {inWord : Bool} (t : PhpString)
    (hfree : ∀ i < front.length, startsName (front.drop i ++ bytes "name=") = false)
    (hlast : (front.getLast?.map isWord).getD inWord = false) :
    nameFrom inWord (front ++ (bytes "name=" ++ t)) = some (nameValue t) := by
  have hname : bytes "name=" = [110, 97, 109, 101, 61] := by decide +kernel
  induction front generalizing inWord with
  | nil =>
      have hword : inWord = false := hlast
      have hstarts : startsName (bytes "name=" ++ t) = true :=
        (startsName_append (by decide +kernel) t).trans (by decide +kernel)
      rw [hname] at hstarts ⊢
      exact if_pos (by rw [hword]; exact hstarts)
  | cons b front ih =>
      have hstarts : startsName (b :: (front ++ (bytes "name=" ++ t))) = false := by
        have hlong : 5 ≤ (b :: front ++ bytes "name=").length := by
          rw [hname, List.length_append]
          exact Nat.le_add_left _ _
        have hthere := startsName_append hlong t
        rw [List.append_assoc] at hthere
        exact hthere.trans (hfree 0 (Nat.succ_pos _))
      rw [List.cons_append, nameFrom, hstarts, Bool.and_false]
      refine ih (fun i hi => hfree (i + 1) (Nat.succ_lt_succ hi)) ?_
      rw [List.getLast?_cons] at hlast
      cases hlast' : front.getLast? with
      | none => rw [hlast'] at hlast; exact hlast
      | some c => rw [hlast'] at hlast; exact hlast

lemma nameFrom_disposition {name : PhpString} (h : 34 ∉ name) :
    nameFrom false (disposition name) = some name := by
  have hname : nameFrom false (beforeName ++ (bytes "name=" ++ 34 :: (name ++ [34])))
      = some (nameValue (34 :: (name ++ [34]))) :=
    nameFrom_append _ (by decide +kernel) (by decide +kernel)
  rw [disposition, hname]
  simp only [nameValue, splitAt_append h]

/-- What a disposition of a plain field contains, its name contains. -/
lemma infix_append_cons {w s t : PhpString} {x : UInt8} (hx : x ∉ w) (h : w <:+: s ++ x :: t) :
    w <:+: s ∨ w <:+: t := by
  obtain ⟨a, c, heq⟩ := h
  rcases List.append_eq_append_iff.mp heq with ⟨u, rfl, -⟩ | ⟨u, hleft, hright⟩
  · exact Or.inl ⟨a, u, rfl⟩
  · cases u with
    | nil => exact Or.inl ⟨a, [], by rw [hleft, List.append_nil, List.append_nil]⟩
    | cons y u =>
        obtain ⟨rfl, rfl⟩ := List.cons.inj hright
        rcases List.append_eq_append_iff.mp hleft with ⟨v, -, rfl⟩ | ⟨v, -, hv⟩
        · exact absurd (List.mem_append_right v List.mem_cons_self) hx
        · cases v with
          | nil => exact absurd (hv ▸ List.mem_cons_self : x ∈ [] ++ w) hx
          | cons z v =>
              obtain ⟨rfl, rfl⟩ := List.cons.inj hv
              exact Or.inr ⟨v, c, rfl⟩

lemma noFilename_disposition {name : PhpString} (h : ¬ bytes "filename=" <:+: name) :
    ¬ bytes "filename=" <:+: disposition name := by
  have hquote : (34 : UInt8) ∉ bytes "filename=" := by decide +kernel
  intro hin
  rw [disposition, ← List.append_assoc] at hin
  rcases infix_append_cons hquote hin with hin | hin
  · exact absurd hin (by decide +kernel)
  · rcases infix_append_cons hquote hin with hin | hin
    · exact h hin
    · exact absurd hin (by decide +kernel)

lemma sections_contentOf {boundary : Boundary} {f : PhpString × PhpString} (h : Plain boundary f) :
    sections (contentOf f) = some (disposition f.1, f.2) := by
  obtain ⟨rest, hrest⟩ := head_disposition f.1
  have hreturn := notMem_disposition (Or.inl rfl) h.noReturn
  have hfeed := notMem_disposition (Or.inr rfl) h.noFeed
  have hpart : ¬ (contentOf f = [] ∨ bytes "--" <+: contentOf f) := by
    rintro (heq | hd)
    · exact nomatch heq
    · rw [show bytes "--" = [45, 45] by decide +kernel] at hd
      exact absurd (List.cons_prefix_cons.mp hd).1 (by decide)
  have htrim : (contentOf f).dropWhile isLineEnd
      = disposition f.1 ++ [13, 10, 13, 10] ++ f.2 := by
    rw [contentOf, hrest]
    simp [isLineEnd]
  have hcut : blankLine.cut (disposition f.1 ++ ([13, 10, 13, 10] ++ f.2))
      = some (disposition f.1, f.2) := by
    refine Scan.Pattern.cut_append _ (fun a b hs hb => ?_) (Scan.either_run_left _ _ _)
    obtain ⟨c, b, rfl⟩ := List.exists_cons_of_ne_nil hb
    have hmem : c ∈ disposition f.1 := hs ▸ List.mem_append_right a List.mem_cons_self
    refine Scan.either_run_eq_none_iff.mpr ⟨fun hd => ?_, fun hd => ?_⟩
    · exact hreturn ((List.cons_prefix_cons.mp hd).1 ▸ hmem)
    · exact hfeed ((List.cons_prefix_cons.mp hd).1 ▸ hmem)
  rw [sections, if_neg hpart, htrim, List.append_assoc, hcut]

lemma fieldOf_contentOf {boundary : Boundary} {f : PhpString × PhpString} (h : Plain boundary f) :
    fieldOf (contentOf f) = some (f.1, stripLineEnd f.2) := by
  simp only [fieldOf, sections_contentOf h, if_neg (noFilename_disposition h.noFilename),
    nameFrom_disposition h.noQuote, Option.map_some]

/-- The fields come out in order, each without the line end of its value. -/
theorem multipartFields_multipart {boundary : Boundary} {fields : List (PhpString × PhpString)}
    (h : ∀ f ∈ fields, Plain boundary f) :
    multipartFields (multipart boundary fields) boundary.text
      = fields.map fun f => (f.1, stripLineEnd f.2) := by
  have hend : fieldOf [45, 45, 13, 10] = none := by decide +kernel
  have hcontents : (fields.map contentOf).filterMap fieldOf
      = fields.map fun f => (f.1, stripLineEnd f.2) := by
    rw [List.filterMap_map, ← List.filterMap_eq_map]
    exact List.filterMap_congr fun f hf => fieldOf_contentOf (h f hf)
  have hempty : fieldOf [] = none := rfl
  rw [multipartFields, partsOf_multipart h, List.filterMap_cons_none hempty, List.filterMap_append,
    List.filterMap_cons_none hend, List.filterMap_nil, List.append_nil, hcontents]

/-! ## What survives -/

lemma of_fieldOf {part : PhpString} {f : PhpString × PhpString} (h : fieldOf part = some f) :
    ∃ headers value, sections part = some (headers, value) ∧ ¬ bytes "filename=" <:+: headers ∧
      nameFrom false headers = some f.1 ∧ f.2 = stripLineEnd value := by
  unfold fieldOf at h
  split at h
  · cases h
  · rename_i headers value hsections
    split_ifs at h with hfile
    obtain ⟨name, hname, rfl⟩ := Option.map_eq_some_iff.mp h
    exact ⟨headers, value, hsections, hfile, hname, rfl⟩

/-- The fields of a form survive if and only if none of their values ends in a line feed; and what
any body makes comes from its parts that are no files. -/
theorem multipart_fields_iff {boundary : Boundary} {fields : List (PhpString × PhpString)}
    (h : ∀ f ∈ fields, Plain boundary f) :
    (pairsOf (multipartQuery (multipart boundary fields) boundary.text) = fields
        ↔ ∀ f ∈ fields, f.2.getLast? ≠ some 10)
      ∧ ∀ body text : PhpString, ∀ f ∈ pairsOf (multipartQuery body text),
          ∃ part ∈ partsOf text body, ∃ headers value, sections part = some (headers, value) ∧
            ¬ bytes "filename=" <:+: headers ∧ nameFrom false headers = some f.1 ∧
              f.2 = stripLineEnd value := by
  refine ⟨?_, fun body text f hf => ?_⟩
  · rw [pairsOf_multipartQuery, multipartFields_multipart h]
    have hkept : ∀ f : PhpString × PhpString,
        (f.1, stripLineEnd f.2) = f ↔ f.2.getLast? ≠ some 10 := fun f => by
      rw [← stripLineEnd_eq_self_iff, Prod.ext_iff]
      exact and_iff_right rfl
    have hlist := List.map_inj_left (l := fields) (f := fun f => (f.1, stripLineEnd f.2)) (g := id)
    rw [List.map_id] at hlist
    rw [hlist]
    exact forall₂_congr fun f _ => hkept f
  · rw [pairsOf_multipartQuery] at hf
    obtain ⟨part, hpart, hfield⟩ := List.mem_filterMap.mp hf
    exact ⟨part, hpart, of_fieldOf hfield⟩

/-- The boundary of the tests. -/
def bndry : Boundary := ⟨bytes "BNDRY", by decide +kernel, by decide +kernel⟩

/-- An empty value, a line break in the middle, and the delimiter where no line starts. -/
theorem multipart_fields_iff_form :
    pairsOf (multipartQuery (multipart bndry [(bytes "a", []),
        (bytes "b[]", bytes "line1\r\nline2"),
        (bytes "t", bytes "x--BNDRY-not-a-boundary")]) bndry.text)
      = [(bytes "a", []), (bytes "b[]", bytes "line1\r\nline2"),
        (bytes "t", bytes "x--BNDRY-not-a-boundary")] := by
  have hempty : Plain bndry (bytes "a", []) :=
    ⟨by decide +kernel, by decide +kernel, by decide +kernel, by decide +kernel, by decide +kernel,
      lineFree_nil _⟩
  have hbreak : Plain bndry (bytes "b[]", bytes "line1\r\nline2") := by
    have hline : bytes "line1\r\nline2" = bytes "line1\r" ++ 10 :: bytes "line2" := by
      decide +kernel
    refine ⟨by decide +kernel, by decide +kernel, by decide +kernel, by decide +kernel,
      by decide +kernel, ?_⟩
    rw [hline]
    exact lineFree_append (lineFree_cons (lineFree_of_notMem (by decide +kernel)) fun _ => by
      decide +kernel) (by decide +kernel)
  have hinner : Plain bndry (bytes "t", bytes "x--BNDRY-not-a-boundary") :=
    ⟨by decide +kernel, by decide +kernel, by decide +kernel, by decide +kernel, by decide +kernel,
      lineFree_of_notMem (by decide +kernel)⟩
  refine (multipart_fields_iff ?_).1.mpr (by decide +kernel)
  simp only [List.forall_mem_cons, List.not_mem_nil, false_implies, implies_true, and_true]
  exact ⟨hempty, hbreak, hinner⟩

/-- A text that ends in a line break comes without it. -/
theorem multipart_line_end_lost :
    Plain bndry (bytes "text", bytes "line\r\n")
      ∧ pairsOf (multipartQuery (multipart bndry [(bytes "text", bytes "line\r\n")]) bndry.text)
          = [(bytes "text", bytes "line")]
      ∧ bytes "line" ≠ bytes "line\r\n" := by
  have hplain : Plain bndry (bytes "text", bytes "line\r\n") := by
    have hline : bytes "line\r\n" = bytes "line\r" ++ [10] := by decide +kernel
    refine ⟨by decide +kernel, by decide +kernel, by decide +kernel, by decide +kernel,
      by decide +kernel, ?_⟩
    rw [hline]
    exact lineFree_append (lineFree_cons (lineFree_nil _) fun _ => by decide +kernel)
      (by decide +kernel)
  refine ⟨hplain, ?_, by decide +kernel⟩
  rw [pairsOf_multipartQuery, multipartFields_multipart (List.forall_mem_singleton.mpr hplain)]
  decide +kernel

end Classic

end Ignis
