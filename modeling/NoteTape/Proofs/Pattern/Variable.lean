import Mathlib.Data.List.TakeWhile
import NoteTape.Pattern.Variable

/-!
# Substitution by segments

`substitute` reads a pattern twice: once to take the bindings out, and what is left a second time
to replace the references.  Here the pattern is cut once, at every `$`, into segments, and every
segment is read for itself.

That this comes to the same is not plain from the two readings.  Taking a binding out brings
together texts that were apart, and the text so made might hold a name or a binding that no part
had.  It does not, because a binding ends where the next `$` begins or the pattern ends: what
follows the gap is again a whole segment.

* `Segment.read`: what one segment is; `segmentwise`: a pattern substituted by its segments.
* `stripFrom_joined`, `resolveFrom_joined`: what the two readings make of joined segments.
* `substitute_eq_segmentwise`: both substitutions are the same function.
-/

namespace NoteTape
namespace Variable

/-! ## Segments -/

/-- What the text behind a `$` is, up to the next one or to the end of the pattern. -/
inductive Segment where
  /-- No name: the text stays, with its `$`. -/
  | literal (text : List Char)
  /-- A name with an equals sign behind it, and the text bound to the name. -/
  | binding (name value : String)
  /-- A name to be replaced, and the text behind it. -/
  | reference (name : String) (rest : List Char)
  deriving DecidableEq, Repr

namespace Segment

/-- Read a segment.  Its name is the longest run of word characters that it begins with. -/
def read (text : List Char) : Segment :=
  let name := text.takeWhile Text.isWordChar
  let behind := text.dropWhile Text.isWordChar
  if name = [] then literal text
  else
    match behind.dropWhile Text.isBlank with
    | '=' :: value => binding (String.ofList name) (Text.trim (String.ofList value))
    | _ => reference (String.ofList name) behind

/-- The text that a segment binds to a name. -/
def value? (name : String) : Segment → Option String
  | binding other value => if other = name then some value else none
  | _ => none

/-- What becomes of a segment and its `$`, given what every name stands for. -/
def text (value : String → String) : Segment → List Char
  | literal text => '$' :: text
  | binding _ _ => []
  | reference name rest => (value name).toList ++ rest

end Segment

/-- The text that the last binding of a name binds to it. -/
def lastValue? (name : String) (segments : List Segment) : Option String :=
  (segments.filterMap (Segment.value? name)).getLast?

/-- What a name stands for: the text bound to it last, or else the context's text, or else
nothing. -/
def valueOf (context : Context) (segments : List Segment) (name : String) : String :=
  ((lastValue? name segments).or (context.bindings.lookup name)).getD ""

/-- A pattern substituted segment by segment. -/
def segmentwise (context : Context) (pattern : List Char) : List Char :=
  match pattern.splitOn '$' with
  | [] => []
  | first :: rest =>
      let segments := rest.map Segment.read
      first ++ segments.flatMap (Segment.text (valueOf context segments))

/-- Segments written one after the other, each with its `$`. -/
def joined (segments : List (List Char)) : List Char := segments.flatMap ('$' :: ·)

@[simp] theorem joined_nil : joined [] = [] := rfl

@[simp] theorem joined_cons (segment : List Char) (segments : List (List Char)) :
    joined (segment :: segments) = '$' :: (segment ++ joined segments) := rfl

/-- A pattern is cut into a first part and segments without a `$`. -/
theorem exists_splitOn_eq (pattern : List Char) :
    ∃ first rest, pattern.splitOn '$' = first :: rest ∧ '$' ∉ first ∧
      (∀ segment ∈ rest, '$' ∉ segment) ∧ pattern = first ++ joined rest := by
  induction pattern with
  | nil => exact ⟨[], [], rfl, by simp, by simp, rfl⟩
  | cons c cs ih =>
    obtain ⟨first, rest, hcut, hfirst, hrest, rfl⟩ := ih
    rw [List.splitOn] at hcut
    rw [List.splitOn, List.splitOnP_cons_eq_if_modifyHead, hcut]
    by_cases hc : c = '$'
    · subst hc
      refine ⟨[], first :: rest, by simp, by simp, ?_, by simp⟩
      exact List.forall_mem_cons.mpr ⟨hfirst, hrest⟩
    · refine ⟨c :: first, rest, by simp [hc], ?_, hrest, by simp⟩
      rw [List.mem_cons, not_or]
      exact ⟨Ne.symm hc, hfirst⟩

/-! ## A segment in front of others -/

theorem takeWhile_joined {p : Char → Bool} (hp : p '$' = false) (segments : List (List Char)) :
    (joined segments).takeWhile p = [] := by
  cases segments with
  | nil => rfl
  | cons segment segments => rw [joined_cons, List.takeWhile_cons_of_neg (by simp [hp])]

theorem dropWhile_joined {p : Char → Bool} (hp : p '$' = false) (segments : List (List Char)) :
    (joined segments).dropWhile p = joined segments := by
  cases segments with
  | nil => rfl
  | cons segment segments => rw [joined_cons, List.dropWhile_cons_of_neg (by simp [hp])]

/-- A run of characters other than `$` does not reach beyond a segment. -/
theorem takeWhile_append_joined {p : Char → Bool} (hp : p '$' = false) (cs : List Char)
    (segments : List (List Char)) :
    (cs ++ joined segments).takeWhile p = cs.takeWhile p := by
  rw [List.takeWhile_append, takeWhile_joined hp, List.append_nil]
  split
  · next hall => exact (List.takeWhile_sublist p).eq_of_length hall |>.symm
  · rfl

theorem dropWhile_append_joined {p : Char → Bool} (hp : p '$' = false) (cs : List Char)
    (segments : List (List Char)) :
    (cs ++ joined segments).dropWhile p = cs.dropWhile p ++ joined segments := by
  rw [List.dropWhile_append, dropWhile_joined hp]
  split
  · next hnone => rw [List.isEmpty_iff.mp hnone, List.nil_append]
  · rfl

/-! ## The three kinds of segments -/

theorem Segment.read_literal {cs : List Char} (hname : nameOf cs = []) :
    Segment.read cs = .literal cs := by
  simp only [Segment.read]
  rw [← nameOf, if_pos hname]

theorem Segment.read_binding {cs value : List Char} (hname : nameOf cs ≠ [])
    (hequals : (afterName cs).dropWhile Text.isBlank = '=' :: value) :
    Segment.read cs =
      .binding (String.ofList (nameOf cs)) (Text.trim (String.ofList value)) := by
  simp only [Segment.read]
  rw [← nameOf, ← afterName, if_neg hname]
  split
  · next rest hrest => rw [(List.cons.inj (hequals.symm.trans hrest)).2]
  · next hne => exact absurd hequals (hne value)

theorem Segment.read_reference {cs : List Char} (hname : nameOf cs ≠ [])
    (hequals : ∀ value, (afterName cs).dropWhile Text.isBlank ≠ '=' :: value) :
    Segment.read cs = .reference (String.ofList (nameOf cs)) (afterName cs) := by
  simp only [Segment.read]
  rw [← nameOf, ← afterName, if_neg hname]
  split
  · next value hvalue => exact absurd hvalue (hequals value)
  · rfl

theorem binding?_of_nameOf_eq_nil {cs : List Char} (hname : nameOf cs = []) :
    binding? cs = none := by
  simp [binding?, hname]

theorem binding?_of_ne {cs : List Char}
    (hequals : ∀ value, (afterName cs).dropWhile Text.isBlank ≠ '=' :: value) :
    binding? cs = none := by
  have hnone : afterEquals? (afterName cs) = none := by
    unfold afterEquals?
    split
    · next value hvalue => exact absurd hvalue (hequals value)
    · rfl
  simp [binding?, hnone]

theorem binding?_of_eq {cs value : List Char} (hname : nameOf cs ≠ [])
    (hequals : (afterName cs).dropWhile Text.isBlank = '=' :: value) :
    ∃ h, binding? cs = some ((String.ofList (nameOf cs),
      String.ofList (Text.trimEnds Text.isBlank (value.takeWhile (· != '$')))),
      ⟨value.dropWhile (· != '$'), h⟩) := by
  have hlength : value.length < (afterName cs).length := by
    have hle := length_dropWhile_le Text.isBlank (afterName cs)
    rw [hequals, List.length_cons] at hle
    omega
  have hsome : afterEquals? (afterName cs) = some ⟨value, Nat.le_of_lt hlength⟩ := by
    unfold afterEquals?
    split
    · next rest hrest =>
      obtain rfl : rest = value := (List.cons.inj (hrest.symm.trans hequals)).2
      rfl
    · next hne => exact absurd hequals (hne value)
  have hrest := length_dropWhile_le (· != '$') value
  have hbehind := length_afterName_le cs
  exact ⟨by omega, by simp [binding?, hname, hsome]⟩

/-! ## What the two readings make of joined segments -/

/-- The binding that a segment is. -/
def Segment.binding? : Segment → Option Binding
  | binding name value => some (name, value)
  | _ => none

theorem stripFrom_append (kept : List Char) (bound : List Binding) {cs : List Char}
    (h : '$' ∉ cs) (rest : List Char) :
    stripFrom kept bound (cs ++ rest) = stripFrom (cs.reverse ++ kept) bound rest := by
  induction cs generalizing kept with
  | nil => rfl
  | cons c cs ih =>
    rw [List.mem_cons, not_or] at h
    obtain ⟨hc, hcs⟩ := h
    rw [List.cons_append, stripFrom, if_neg (Ne.symm hc), ih _ hcs, List.reverse_cons,
      List.append_assoc, List.singleton_append]

theorem resolveFrom_append (bound : List Binding) (done : List Char) {cs : List Char}
    (h : '$' ∉ cs) (rest : List Char) :
    resolveFrom bound done (cs ++ rest) = resolveFrom bound (cs.reverse ++ done) rest := by
  induction cs generalizing done with
  | nil => rfl
  | cons c cs ih =>
    rw [List.mem_cons, not_or] at h
    obtain ⟨hc, hcs⟩ := h
    rw [List.cons_append, resolveFrom, if_neg (fun hvar => hc hvar.1.symm), ih _ hcs,
      List.reverse_cons, List.append_assoc, List.singleton_append]

theorem nameOf_append_joined (segment : List Char) (segments : List (List Char)) :
    nameOf (segment ++ joined segments) = nameOf segment :=
  takeWhile_append_joined (by decide) segment segments

theorem afterName_append_joined (segment : List Char) (segments : List (List Char)) :
    afterName (segment ++ joined segments) = afterName segment ++ joined segments :=
  dropWhile_append_joined (by decide) segment segments

theorem not_mem_afterName {segment : List Char} (h : '$' ∉ segment) : '$' ∉ afterName segment :=
  fun hmem => h ((List.dropWhile_sublist _).mem hmem)

/-- **The first reading takes out a segment that binds a name,** and no more than the segment; any
other segment it keeps. -/
theorem stripFrom_segment (kept : List Char) (bound : List Binding) {segment : List Char}
    (h : '$' ∉ segment) (segments : List (List Char)) :
    stripFrom kept bound ('$' :: (segment ++ joined segments)) =
      (Segment.read segment).binding?.elim
        (stripFrom (segment.reverse ++ '$' :: kept) bound (joined segments))
        fun found => stripFrom kept (found :: bound) (joined segments) := by
  have hname := nameOf_append_joined segment segments
  have hbehind : (afterName (segment ++ joined segments)).dropWhile Text.isBlank =
      (afterName segment).dropWhile Text.isBlank ++ joined segments := by
    rw [afterName_append_joined, dropWhile_append_joined (by decide)]
  rw [stripFrom, if_pos rfl]
  by_cases hempty : nameOf segment = []
  · rw [binding?_of_nameOf_eq_nil (hname.trans hempty), Segment.read_literal hempty]
    exact stripFrom_append _ _ h _
  by_cases hequals : ∃ value, (afterName segment).dropWhile Text.isBlank = '=' :: value
  · obtain ⟨value, hvalue⟩ := hequals
    have hmark : '$' ∉ value := by
      intro hmem
      have hbehind : '$' ∈ (afterName segment).dropWhile Text.isBlank := by
        rw [hvalue]
        exact List.mem_cons_of_mem _ hmem
      exact not_mem_afterName h ((List.dropWhile_sublist _).mem hbehind)
    have hall : ∀ c ∈ value, (c != '$') = true := by
      intro c hc
      rw [bne_iff_ne]
      rintro rfl
      exact hmark hc
    rw [hvalue, List.cons_append] at hbehind
    obtain ⟨hle, hfound⟩ := binding?_of_eq (hname ▸ hempty) hbehind
    have hstop : ('$' != '$') = false := by decide
    simp only [hfound, Segment.read_binding hempty hvalue, Segment.binding?, Option.elim_some,
      hname, takeWhile_append_joined (p := (· != '$')) hstop,
      dropWhile_append_joined (p := (· != '$')) hstop, List.takeWhile_eq_self_iff.mpr hall,
      List.dropWhile_eq_nil_iff.mpr hall, List.nil_append, Text.trim, String.toList_ofList]
  · rw [not_exists] at hequals
    have hnone : ∀ value,
        (afterName (segment ++ joined segments)).dropWhile Text.isBlank ≠ '=' :: value := by
      intro value heq
      rw [hbehind] at heq
      cases hrest : (afterName segment).dropWhile Text.isBlank with
      | nil =>
        -- the run ends the segment, and a `$` follows or nothing
        rw [hrest, List.nil_append] at heq
        cases segments with
        | nil => simp at heq
        | cons other segments => simp at heq
      | cons c cs =>
        rw [hrest, List.cons_append] at heq
        rw [(List.cons.inj heq).1] at hrest
        exact hequals cs hrest
    rw [binding?_of_ne hnone, Segment.read_reference hempty hequals]
    exact stripFrom_append _ _ h _

/-- What the first reading keeps of joined segments, and what it finds bound in them. -/
theorem stripFrom_joined (kept : List Char) (bound : List Binding) {segments : List (List Char)}
    (h : ∀ segment ∈ segments, '$' ∉ segment) :
    stripFrom kept bound (joined segments) =
      (kept.reverse ++
          joined (segments.filter fun segment => (Segment.read segment).binding?.isNone),
        (segments.filterMap fun segment => (Segment.read segment).binding?).reverse ++ bound) := by
  induction segments generalizing kept bound with
  | nil => simp [stripFrom]
  | cons segment segments ih =>
    obtain ⟨hsegment, hsegments⟩ := List.forall_mem_cons.mp h
    rw [joined_cons, stripFrom_segment kept bound hsegment]
    cases hread : (Segment.read segment).binding? with
    | none =>
      rw [Option.elim_none, ih _ _ hsegments]
      simp [hread]
    | some found =>
      rw [Option.elim_some, ih _ _ hsegments]
      simp [hread]

/-- The second reading replaces the name of every segment that has one. -/
theorem resolveFrom_joined (bound : List Binding) (done : List Char) {segments : List (List Char)}
    (h : ∀ segment ∈ segments, '$' ∉ segment)
    (hkept : ∀ segment ∈ segments, (Segment.read segment).binding? = none) :
    resolveFrom bound done (joined segments) =
      done.reverse ++ (segments.map Segment.read).flatMap
        (Segment.text fun name => (bound.lookup name).getD "") := by
  induction segments generalizing done with
  | nil => simp [resolveFrom]
  | cons segment segments ih =>
    obtain ⟨hsegment, hsegments⟩ := List.forall_mem_cons.mp h
    obtain ⟨hread, hreads⟩ := List.forall_mem_cons.mp hkept
    have hname := nameOf_append_joined segment segments
    rw [joined_cons, resolveFrom, List.map_cons, List.flatMap_cons]
    by_cases hempty : nameOf segment = []
    · rw [if_neg (fun hvar => hvar.2 (hname.trans hempty)), resolveFrom_append _ _ hsegment,
        ih _ hsegments hreads, Segment.read_literal hempty]
      simp [Segment.text]
    · have hequals : ∀ value, (afterName segment).dropWhile Text.isBlank ≠ '=' :: value := by
        intro value hvalue
        rw [Segment.read_binding hempty hvalue] at hread
        simp [Segment.binding?] at hread
      rw [if_pos ⟨rfl, hname ▸ hempty⟩]
      simp only
      rw [hname, afterName_append_joined, resolveFrom_append _ _ (not_mem_afterName hsegment),
        ih _ hsegments hreads, Segment.read_reference hempty hequals]
      simp [Segment.text]

/-! ## Both readings together -/

theorem lastValue?_cons (name : String) (segment : Segment) (segments : List Segment) :
    lastValue? name (segment :: segments) =
      (lastValue? name segments).or (segment.value? name) := by
  rw [lastValue?, lastValue?, List.filterMap_cons]
  cases segment.value? name with
  | none => rw [Option.or_none]
  | some value =>
    rw [List.getLast?_cons]
    cases (segments.filterMap (Segment.value? name)).getLast? with
    | none => rfl
    | some last => rfl

/-- The bindings are found the latest first, so the first of a name is its last one. -/
theorem lookup_reverse_binding? (name : String) (segments : List Segment)
    (others : List Binding) :
    ((segments.filterMap Segment.binding?).reverse ++ others).lookup name =
      (lastValue? name segments).or (others.lookup name) := by
  rw [List.lookup_append]
  congr 1
  induction segments with
  | nil => rfl
  | cons segment segments ih =>
    rw [lastValue?_cons, ← ih, List.filterMap_cons]
    cases segment with
    | literal text => simp [Segment.binding?, Segment.value?]
    | reference other rest => simp [Segment.binding?, Segment.value?]
    | binding other value =>
      simp only [Segment.binding?, Segment.value?]
      rw [List.reverse_cons, List.lookup_append, List.lookup_cons]
      by_cases hname : other = name
      · simp [hname]
      · have hne : (name == other) = false := by simpa using Ne.symm hname
        simp [hname, hne]

/-- A segment that binds a name leaves nothing behind. -/
theorem flatMap_filter_binding? (value : String → String) (segments : List (List Char)) :
    ((segments.filter fun segment => (Segment.read segment).binding?.isNone).map
        Segment.read).flatMap (Segment.text value) =
      (segments.map Segment.read).flatMap (Segment.text value) := by
  induction segments with
  | nil => rfl
  | cons segment segments ih =>
    rw [List.map_cons, List.flatMap_cons, ← ih]
    cases hread : Segment.read segment with
    | literal text => simp [hread, Segment.binding?]
    | reference name rest => simp [hread, Segment.binding?]
    | binding name bound => simp [hread, Segment.binding?, Segment.text]

/-- **Substitution goes by segments:** every segment is read for itself, a binding leaves nothing
behind, and a reference is replaced by what is bound to its name last in the whole pattern, or else
by what the context binds to it. -/
theorem substitute_eq_segmentwise (context : Context) (pattern : List Char) :
    substitute context pattern = segmentwise context pattern := by
  obtain ⟨first, rest, hcut, hfirst, hrest, hpattern⟩ := exists_splitOn_eq pattern
  have hstrip : strip pattern =
      (first ++ joined (rest.filter fun segment => (Segment.read segment).binding?.isNone),
        (rest.filterMap fun segment => (Segment.read segment).binding?).reverse) := by
    rw [hpattern, strip, stripFrom_append _ _ hfirst, stripFrom_joined _ _ hrest]
    simp
  have hresolve (bound : List Binding) :
      resolve bound
          (first ++ joined (rest.filter fun segment => (Segment.read segment).binding?.isNone)) =
        first ++ (rest.map Segment.read).flatMap
          (Segment.text fun name => (bound.lookup name).getD "") := by
    rw [resolve, resolveFrom_append _ _ hfirst, resolveFrom_joined, flatMap_filter_binding?]
    · simp
    · intro segment hmem
      exact hrest segment (List.mem_filter.mp hmem).1
    · intro segment hmem
      exact Option.isNone_iff_eq_none.mp (List.mem_filter.mp hmem).2
  have hvalue (name : String) :
      (((rest.filterMap fun segment => (Segment.read segment).binding?).reverse ++
        context.bindings).lookup name).getD "" = valueOf context (rest.map Segment.read) name := by
    rw [valueOf, ← lookup_reverse_binding?, List.filterMap_map]
    rfl
  rw [substitute, hstrip]
  simp only [hresolve, hvalue, segmentwise, hcut]

/-- A reference in front of its bindings, a `$` without a name, and a value with an equals sign. -/
example :
    segmentwise .standard "$x+$$ $y = 1 $x = $y$x =2 = 3".toList = "2 = 3+$$ 1".toList := by
  decide +kernel

end Variable
end NoteTape
