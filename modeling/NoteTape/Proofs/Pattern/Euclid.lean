import Mathlib.Data.List.Infix
import NoteTape.Proofs.Pattern.Parenthesis
import NoteTape.Proofs.Pattern.Pieces
import NoteTape.Proofs.Pattern.Tape

/-!
# One pass over the Euclidean calls

`Call.expandEuclids` draws nothing, so apart from its warnings it is a function of the text,
`replaceEuclids`.  The function is transparent to everything around a call: a Euclidean call is a
regular form that ends at its first closing parenthesis, so it is found in the same way whatever
follows it, and a text with as many closing as opening parentheses behind every place has no call
that reaches over its end.

* `found?_euclid?_iff`: what a Euclidean call is, and that the rest of the text does not matter.
* `alike_expandEuclids`: the pass is a function.
* `Unexpandable`: no call of a text has a rhythm; then the pass changes nothing, and neither does
  a pass over any part of the text.
* `levelAfter_replaceEuclids`, `replaceEuclids_spreadText`: the pass keeps parentheses and commas,
  and inside a spread call it is the pass over the pattern.
-/

namespace NoteTape
namespace Call

open Play (Alike)
open Text (isBlank isDigit)

/-! ## What a call is -/

/-- A call is written from two runs of digits, with blanks around the comma between them. -/
structure Euclid.Written (call : Euclid) (before after : List Char) : Prop where
  text_eq : call.text =
    'E' :: '(' :: (call.pulses ++ before ++ ',' :: after ++ call.steps ++ [')'])
  pulses_ne_nil : call.pulses ≠ []
  steps_ne_nil : call.steps ≠ []
  pulses_digits : ∀ d ∈ call.pulses, isDigit d = true
  steps_digits : ∀ d ∈ call.steps, isDigit d = true
  before_blanks : ∀ b ∈ before, isBlank b = true
  after_blanks : ∀ b ∈ after, isBlank b = true

theorem digits?_eq_some {cs run rest : List Char} (h : digits? cs = some (run, rest)) :
    cs = run ++ rest ∧ run ≠ [] ∧ ∀ d ∈ run, isDigit d = true := by
  unfold digits? at h
  split at h
  · simp at h
  · next hne =>
    obtain ⟨rfl, rfl⟩ := Prod.mk.inj (Option.some.inj h)
    exact ⟨List.takeWhile_append_dropWhile.symm, hne, Token.forall_mem_takeWhile _ _⟩

theorem digits?_append {run rest : List Char} (hne : run ≠ [])
    (hrun : ∀ d ∈ run, isDigit d = true) (hrest : Text.Stops isDigit rest) :
    digits? (run ++ rest) = some (run, rest) := by
  obtain ⟨htake, hdrop⟩ := Text.span_append hrun hrest
  rw [digits?, htake, hdrop]
  cases run with
  | nil => exact absurd rfl hne
  | cons d ds => rfl

/-- A blank is not a digit: no run of digits comes near one. -/
theorem isDigit_of_isBlank {c : Char} (h : isBlank c = true) : isDigit c = false := by
  have hzeros : ∀ z ∈ Text.zeros, (z + 10 ≤ 0x85 ∨ 0xA0 < z) ∧ (z + 10 ≤ 0x1680 ∨ 0x1680 < z) ∧
      (z + 10 ≤ 0x2000 ∨ 0x3000 < z) := by
    decide
  simp only [isBlank, Bool.or_eq_true, Bool.and_eq_true, decide_eq_true_eq, beq_iff_eq] at h
  have hnone : Text.digitValue? c = none := by
    simp only [Text.digitValue?]
    split
    · rw [if_neg (by omega)]
    · rw [Option.map_eq_none_iff, List.find?_eq_none]
      intro z hz
      have hz := hzeros z hz
      simp only [Bool.and_eq_true, decide_eq_true_eq]
      omega
  rw [isDigit, hnone]
  rfl

theorem isBlank_of_isDigit {c : Char} (h : isDigit c = true) : isBlank c = false := by
  rw [← Bool.not_eq_true]
  intro hblank
  rw [isDigit_of_isBlank hblank] at h
  exact absurd h (by decide)

/-- The pieces of a text behind `E(` that is the rest of a call. -/
theorem euclidBody?_eq_some {body rest : List Char} {call : Euclid}
    (h : euclidBody? body = some (call, rest)) :
    ∃ before after, call.Written before after ∧ 'E' :: '(' :: body = call.text ++ rest := by
  unfold euclidBody? at h
  split at h
  · simp at h
  · next pulses behind hpulses =>
    obtain ⟨hbody, hpne, hpdigits⟩ := digits?_eq_some hpulses
    split at h
    · simp at h
    · next tail htail =>
      have hbehind : behind = behind.takeWhile isBlank ++ ',' :: tail := by
        have hcomma : behind.dropWhile isBlank = ',' :: tail := Text.after?_eq_some_iff.mp htail
        rw [← hcomma, List.takeWhile_append_dropWhile]
      split at h
      · simp at h
      · next steps close hsteps =>
        obtain ⟨hdrop, hsne, hsdigits⟩ := digits?_eq_some hsteps
        split at h
        · simp at h
        · next last hlast =>
          have hclose : close = ')' :: last := Text.after?_eq_some_iff.mp hlast
          have htext : tail = tail.takeWhile isBlank ++ (steps ++ close) := by
            rw [← hdrop, List.takeWhile_append_dropWhile]
          obtain ⟨rfl, rfl⟩ := Prod.mk.inj (Option.some.inj h)
          refine ⟨behind.takeWhile isBlank, tail.takeWhile isBlank,
            ⟨rfl, hpne, hsne, hpdigits, hsdigits, Token.forall_mem_takeWhile _ _,
              Token.forall_mem_takeWhile _ _⟩, ?_⟩
          conv_lhs => rw [hbody, hbehind, htext, hclose]
          simp

/-- Digits are followed by blanks and a comma, and blanks by a character that is none. -/
theorem euclidBody?_of_written {call : Euclid} {before after : List Char}
    (h : call.Written before after) (rest : List Char) :
    euclidBody? (call.pulses ++ (before ++ ',' :: (after ++ (call.steps ++ ')' :: rest)))) =
      some (call, rest) := by
  have hpulses := digits?_append h.pulses_ne_nil h.pulses_digits
    ((Text.stops_cons (show isDigit ',' = false by decide)
      (after ++ (call.steps ++ ')' :: rest))).append
        fun b hb => isDigit_of_isBlank (h.before_blanks b hb))
  have hbefore := Text.span_append h.before_blanks
    (Text.stops_cons (show isBlank ',' = false by decide) (after ++ (call.steps ++ ')' :: rest)))
  have hafter := Text.span_append h.after_blanks
    ((Text.stops_cons (show isBlank ')' = false by decide) rest).append
      fun d hd => isBlank_of_isDigit (h.steps_digits d hd))
  have hsteps := digits?_append h.steps_ne_nil h.steps_digits
    (Text.stops_cons (show isDigit ')' = false by decide) rest)
  have hcomma : Text.after? [','] (',' :: (after ++ (call.steps ++ ')' :: rest))) =
      some (after ++ (call.steps ++ ')' :: rest)) := Text.after?_eq_some_iff.mpr rfl
  have hclose : Text.after? [')'] (')' :: rest) = some rest := Text.after?_eq_some_iff.mpr rfl
  simp only [euclidBody?, hpulses, hbefore.1, hbefore.2, hcomma, hafter.1, hafter.2, hsteps,
    hclose, ← h.text_eq]

/-- **What a Euclidean call is:** a text of a certain form.  What follows it does not matter. -/
theorem found?_euclid?_iff {cs rest : List Char} {call : Euclid} :
    found? euclid? cs = some (call, rest) ↔
      (∃ before after, call.Written before after) ∧ cs = call.text ++ rest := by
  have hbody (body : List Char) : found? euclid? ('E' :: '(' :: body) = euclidBody? body := by
    rw [found?, euclid?]
    split
    · next hsome => exact hsome.symm
    · next hnone => exact hnone.symm
  constructor
  · intro h
    obtain ⟨shorter, hcall⟩ := exists_of_found? h
    unfold euclid? at hcall
    split at hcall
    · next body =>
      rw [hbody] at h
      obtain ⟨before, after, hwritten, htext⟩ := euclidBody?_eq_some h
      exact ⟨⟨before, after, hwritten⟩, htext⟩
    · simp at hcall
  · rintro ⟨⟨before, after, hwritten⟩, rfl⟩
    have htext : call.text ++ rest =
        'E' :: '(' :: (call.pulses ++ (before ++ ',' :: (after ++ (call.steps ++ ')' :: rest)))) := by
      rw [hwritten.text_eq]
      simp
    rw [htext, hbody, euclidBody?_of_written hwritten]

theorem faithful_euclid? : Faithful euclid? Euclid.text :=
  fun _ _ _ h => (found?_euclid?_iff.mp h).2

/-! ## The pass as a function -/

/-- The rhythm that a call stands for, when its numbers are in order. -/
def Euclid.rhythm? (call : Euclid) : Option (List Char) :=
  match integerOfChars? call.pulses, integerOfChars? call.steps with
  | some pulses, some steps =>
      if (stepLimit : Int) < steps then none
      else
        match Rhythm.euclideanTape pulses steps with
        | .ok tape => some tape.toList
        | .error _ => none
  | _, _ => none

/-- What a call is replaced by: its rhythm, or itself. -/
def Euclid.replacement (call : Euclid) : List Char := call.rhythm?.getD call.text

/-- A text with its Euclidean calls replaced. -/
def replaceEuclids (text : List Char) : List Char :=
  (pieces euclid? text).flatMap (pieceText Euclid.replacement)

@[simp] theorem replaceEuclids_nil : replaceEuclids [] = [] := by
  rw [replaceEuclids, pieces_nil, List.flatMap_nil]

theorem alike_leave (text : List Char) (reason : String) :
    Alike (leave text reason) (pure text) := Alike.notify_bind (.pure text)

theorem alike_expandEuclid (call : Euclid) :
    Alike (expandEuclid call) (pure call.replacement) := by
  unfold expandEuclid Euclid.replacement Euclid.rhythm?
  cases integerOfChars? call.pulses with
  | none => exact alike_leave _ _
  | some pulses =>
    cases integerOfChars? call.steps with
    | none => exact alike_leave _ _
    | some steps =>
      simp only
      by_cases hmany : (stepLimit : Int) < steps
      · rw [if_pos hmany, if_pos hmany]
        exact alike_leave _ _
      · rw [if_neg hmany, if_neg hmany]
        cases Rhythm.euclideanTape pulses steps with
        | ok tape => exact .pure tape.toList
        | error fault => exact alike_leave _ _

/-- **One pass is a function of the text,** apart from its warnings. -/
theorem alike_expandEuclids (text : List Char) :
    Alike (expandEuclids text) (pure (replaceEuclids text)) :=
  alike_replaceCalls_pure fun call _ => alike_expandEuclid call

/-- A text without the first letter of a call is not changed. -/
theorem replaceEuclids_append_of_not_mem {cs : List Char} (h : 'E' ∉ cs) (rest : List Char) :
    replaceEuclids (cs ++ rest) = cs ++ replaceEuclids rest := by
  have hnone : ∀ c ∈ cs, ∀ tail, euclid? (c :: tail) = none := by
    intro c hc
    refine euclid?_of_ne ?_
    rintro rfl
    exact h hc
  rw [replaceEuclids, pieces_append_of_none hnone, List.flatMap_append, ← replaceEuclids,
    List.flatMap_map]
  congr 1
  exact List.flatMap_singleton' cs

theorem replaceEuclids_of_not_mem {cs : List Char} (h : 'E' ∉ cs) : replaceEuclids cs = cs := by
  have happend := replaceEuclids_append_of_not_mem h []
  rwa [List.append_nil, replaceEuclids_nil, List.append_nil] at happend

/-! ## Texts without rhythms -/

/-- No Euclidean call that has a rhythm begins anywhere in the text. -/
def Unexpandable (text : List Char) : Prop :=
  ∀ x, x <:+ text → ∀ call rest, euclid? x = some (call, rest) → call.rhythm? = none

instance (text : List Char) : Decidable (Unexpandable text) :=
  decidable_of_iff (∀ x ∈ text.tails, ∀ found ∈ euclid? x, found.1.rhythm? = none) <| by
    constructor
    · exact fun h x hx call rest hcall => h x ((List.mem_tails x text).mpr hx) (call, rest) hcall
    · exact fun h x hx found hfound => h x ((List.mem_tails x text).mp hx) found.1 found.2 hfound

/-- What holds of a text holds of its parts, since a call is read in the same way whatever follows
it. -/
theorem Unexpandable.of_part {text part : List Char} (h : Unexpandable text)
    (hpart : part <:+: text) : Unexpandable part := by
  intro x hx call rest hcall
  obtain ⟨before, after, rfl⟩ := hpart
  obtain ⟨front, rfl⟩ := hx
  obtain ⟨hwritten, htext⟩ := found?_euclid?_iff.mp (found?_of_eq_some hcall)
  have hfound : found? euclid? (x ++ after) = some (call, rest.1 ++ after) := by
    refine found?_euclid?_iff.mpr ⟨hwritten, ?_⟩
    rw [← List.append_assoc, ← htext]
  obtain ⟨shorter, hlong⟩ := exists_of_found? hfound
  refine h (x ++ after) ⟨before ++ front, ?_⟩ call _ hlong
  simp only [List.append_assoc]

/-- Where no call has a rhythm, nothing is replaced. -/
theorem replaceEuclids_of_unexpandable {text : List Char} (h : Unexpandable text) :
    replaceEuclids text = text := by
  have hpieces : (pieces euclid? text).flatMap (pieceText Euclid.replacement) =
      (pieces euclid? text).flatMap (pieceText Euclid.text) := by
    rw [List.flatMap_def, List.flatMap_def]
    congr 1
    refine List.map_congr_left fun part hpart => ?_
    cases part with
    | inl c => rfl
    | inr call =>
      obtain ⟨x, rest, hx, hfound⟩ := exists_suffix_of_mem faithful_euclid? hpart
      obtain ⟨shorter, hcall⟩ := exists_of_found? hfound
      rw [pieceText_inr, pieceText_inr, Euclid.replacement, h x hx call _ hcall, Option.getD_none]
  rw [replaceEuclids, hpieces, flatMap_piece faithful_euclid?]

/-! ## Parentheses and commas -/

/-- A rhythm is written with `1`, `-` and spaces. -/
theorem mem_rhythm? {call : Euclid} {rhythm : List Char} (h : call.rhythm? = some rhythm)
    {c : Char} (hc : c ∈ rhythm) : c = '1' ∨ c = '-' ∨ c = ' ' := by
  have htape : ∃ pulses steps tape, Rhythm.euclideanTape pulses steps = .ok tape ∧
      rhythm = tape.toList := by
    unfold Euclid.rhythm? at h
    split at h
    · next pulses steps _ _ =>
      split at h
      · simp at h
      · split at h
        · next tape htape => exact ⟨pulses, steps, tape, htape, (Option.some.inj h).symm⟩
        · simp at h
    · simp at h
  obtain ⟨pulses, steps, tape, htape, rfl⟩ := htape
  obtain ⟨hits, -, hwritten⟩ := Play.exists_of_bind_eq_ok htape
  obtain rfl := Except.ok.inj hwritten
  rcases Text.mem_unwords hc with hspace | ⟨word, hword, hmem⟩
  · exact .inr (.inr hspace)
  · obtain ⟨hit, -, rfl⟩ := List.mem_map.mp hword
    cases hit with
    | true => exact .inl (List.mem_singleton.mp hmem)
    | false => exact .inr (.inl (List.mem_singleton.mp hmem))

theorem isPlain_of_isDigit {c : Char} (h : isDigit c = true) : IsPlain c :=
  isPlain_of_class (by decide) (by decide) (by decide) h

theorem isPlain_of_isBlank {c : Char} (h : isBlank c = true) : IsPlain c :=
  isPlain_of_class (by decide) (by decide) (by decide) h

/-- A call closes what it opens, and its comma is inside. -/
theorem Euclid.Written.levelAfter {call : Euclid} {before after : List Char}
    (h : call.Written before after) (level : Nat) : levelAfter level call.text = some level := by
  have hbefore : ∀ c ∈ call.pulses ++ before, IsPlain c :=
    List.forall_mem_append.mpr ⟨fun d hd => isPlain_of_isDigit (h.pulses_digits d hd),
      fun b hb => isPlain_of_isBlank (h.before_blanks b hb)⟩
  have hafter : ∀ c ∈ after ++ call.steps, IsPlain c :=
    List.forall_mem_append.mpr ⟨fun b hb => isPlain_of_isBlank (h.after_blanks b hb),
      fun d hd => isPlain_of_isDigit (h.steps_digits d hd)⟩
  have htext : call.text = 'E' :: '(' :: (call.pulses ++ before ++ ',' ::
      (after ++ call.steps ++ [')'])) := by
    rw [h.text_eq]
    simp
  rw [htext, Call.levelAfter, if_neg (by decide), if_neg (by decide), if_neg (by simp),
    levelAfter_open, levelAfter_append, levelAfter_of_isPlain _ hbefore, Option.bind_some,
    Call.levelAfter, if_neg (by decide), if_neg (by decide), if_neg (by simp), levelAfter_append,
    levelAfter_of_isPlain _ hafter, Option.bind_some, levelAfter_close]
  rfl

/-- Nor does the rhythm of a call open or close anything. -/
theorem Euclid.Written.levelAfter_replacement {call : Euclid} {before after : List Char}
    (h : call.Written before after) (level : Nat) :
    Call.levelAfter level call.replacement = some level := by
  unfold Euclid.replacement
  cases hrhythm : call.rhythm? with
  | none => exact h.levelAfter level
  | some rhythm =>
    refine levelAfter_of_isPlain level fun c hc => ?_
    rcases mem_rhythm? hrhythm hc with rfl | rfl | rfl
    · exact ⟨by decide, by decide, by decide⟩
    · exact ⟨by decide, by decide, by decide⟩
    · exact ⟨by decide, by decide, by decide⟩

/-- **The pass keeps parentheses and commas:** it opens and closes what the text does. -/
theorem levelAfter_replaceEuclids (level : Nat) (text : List Char) :
    levelAfter level (replaceEuclids text) = levelAfter level text := by
  unfold replaceEuclids
  induction text using pieces_induction euclid? generalizing level with
  | nil => rw [pieces_nil, List.flatMap_nil]
  | char c tail hnone ih =>
    rw [pieces_of_none hnone, List.flatMap_cons, pieceText_inl, levelAfter_append,
      ← List.singleton_append (x := c) (l := tail), levelAfter_append]
    cases levelAfter level [c] with
    | none => rfl
    | some inner => exact ih inner
  | call cs call rest hsome ih =>
    obtain ⟨⟨before, after, hwritten⟩, rfl⟩ := found?_euclid?_iff.mp hsome
    rw [pieces_of_some hsome, List.flatMap_cons, pieceText_inr, levelAfter_append,
      hwritten.levelAfter_replacement, levelAfter_append, hwritten.levelAfter]
    exact ih level

/-! ## Inside a spread call -/

/-- A text that is well nested closes as many parentheses as it opens behind every place. -/
theorem WellNested.opens_le {text : List Char} (h : WellNested text) {x : List Char}
    (hx : x <:+ text) : x.count '(' ≤ x.count ')' := by
  obtain ⟨head, rfl⟩ := hx
  have hhead := h.closes_le head (List.prefix_append head x)
  have hall := h.closes_eq
  rw [List.count_append, List.count_append] at hall
  omega

/-- A call has one opening parenthesis, its second character, and one closing one, its last. -/
theorem Euclid.Written.count_close {call : Euclid} {before after : List Char}
    (h : call.Written before after) {x y : List Char} (htext : call.text = x ++ y) (hy : y ≠ []) :
    ')' ∉ x := by
  obtain ⟨inner, c, rfl⟩ : ∃ inner c, y = inner ++ [c] :=
    ⟨y.dropLast, y.getLast hy, (List.dropLast_append_getLast hy).symm⟩
  rw [h.text_eq, ← List.append_assoc, ← List.cons_append, ← List.cons_append] at htext
  obtain ⟨hinit, -⟩ := List.append_inj' htext rfl
  intro hmem
  have hall : ')' ∈ 'E' :: '(' :: (call.pulses ++ before ++ ',' :: after ++ call.steps) := by
    rw [hinit]
    exact List.mem_append_left inner hmem
  have hdigit {c : Char} (hc : isDigit c = true) : c ≠ ')' := (isPlain_of_isDigit hc).2.1
  have hblank {c : Char} (hc : isBlank c = true) : c ≠ ')' := (isPlain_of_isBlank hc).2.1
  simp only [List.mem_cons, List.mem_append] at hall
  rcases hall with heq | heq | ((hpulses | hbefore) | heq | hafter) | hsteps
  · exact absurd heq (by decide)
  · exact absurd heq (by decide)
  · exact hdigit (h.pulses_digits _ hpulses) rfl
  · exact hblank (h.before_blanks _ hbefore) rfl
  · exact absurd heq (by decide)
  · exact hblank (h.after_blanks _ hafter) rfl
  · exact hdigit (h.steps_digits _ hsteps) rfl

/-- A call that is cut in front of its end, where the part before the cut closes what it opens, is
cut in front of its opening parenthesis. -/
theorem Euclid.Written.eq_open_cons {call : Euclid} {before after : List Char}
    (h : call.Written before after) {x y : List Char} (htext : call.text = x ++ y) (hx : x ≠ [])
    (hy : y ≠ []) (hcount : x.count '(' ≤ x.count ')') : ∃ tail, y = '(' :: tail := by
  have hclose : ')' ∉ x := h.count_close htext hy
  have hopen : '(' ∉ x := by
    rw [← List.count_eq_zero] at hclose ⊢
    omega
  obtain ⟨c, x, rfl⟩ := List.exists_cons_of_ne_nil hx
  rw [h.text_eq, List.cons_append] at htext
  have htail := (List.cons.inj htext).2
  cases x with
  | nil => exact ⟨_, htail.symm⟩
  | cons d x =>
    rw [← (List.cons.inj htail).1, List.mem_cons, List.mem_cons, not_or, not_or] at hopen
    exact absurd rfl hopen.2.1

/-- No call reaches over the end of a part that closes what it opens, unless an opening
parenthesis follows. -/
theorem found?_euclid?_append {x : List Char} (hx : x ≠ []) (hcount : x.count '(' ≤ x.count ')')
    {rest : List Char} (hrest : rest.head? ≠ some '(') :
    found? euclid? (x ++ rest) = (found? euclid? x).map fun found => (found.1, found.2 ++ rest) := by
  cases hfound : found? euclid? x with
  | some found =>
    obtain ⟨hwritten, htext⟩ := found?_euclid?_iff.mp hfound
    refine found?_euclid?_iff.mpr ⟨hwritten, ?_⟩
    rw [← List.append_assoc, ← htext]
  | none =>
    have hpart (call : Euclid) (inside : List Char)
        (hwritten : ∃ before after, call.Written before after) : x ≠ call.text ++ inside := by
      intro heq
      rw [found?_euclid?_iff.mpr ⟨hwritten, heq⟩] at hfound
      simp at hfound
    rw [Option.map_none, Option.eq_none_iff_forall_ne_some]
    rintro ⟨call, behind⟩ hcall
    obtain ⟨⟨before, after, hwritten⟩, htext⟩ := found?_euclid?_iff.mp hcall
    rcases List.append_eq_append_iff.mp htext with ⟨more, hmore, rfl⟩ | ⟨inside, hinside, -⟩
    · by_cases hnil : more = []
      · rw [hnil, List.append_nil] at hmore
        exact hpart call [] ⟨before, after, hwritten⟩ (by rw [List.append_nil, hmore])
      · obtain ⟨tail, rfl⟩ := hwritten.eq_open_cons hmore hx hnil hcount
        exact hrest rfl
    · exact hpart call inside ⟨before, after, hwritten⟩ hinside

/-- **Inside a spread call** the pass is the pass over the pattern. -/
theorem replaceEuclids_spreadText {pattern length : List Char} (hpattern : WellNested pattern)
    (hlength : 'E' ∉ length) :
    replaceEuclids (spreadText (pattern ++ ',' :: length)) =
      spreadText (replaceEuclids pattern ++ ',' :: length) := by
  have hend : 'E' ∉ ',' :: (length ++ [')']) := by
    rw [List.mem_cons, List.mem_append, List.mem_singleton, not_or, not_or]
    exact ⟨by decide, hlength, by decide⟩
  have hsplit : pieces euclid? (pattern ++ ',' :: (length ++ [')'])) =
      pieces euclid? pattern ++ pieces euclid? (',' :: (length ++ [')'])) := by
    refine pieces_append faithful_euclid? fun x hx hne => ?_
    exact found?_euclid?_append hne (hpattern.opens_le hx) (by simp)
  rw [spreadText, List.append_assoc, replaceEuclids_append_of_not_mem (by decide), spreadText,
    List.append_assoc, List.append_assoc, List.append_assoc, List.cons_append]
  congr 1
  rw [replaceEuclids, hsplit, List.flatMap_append, ← replaceEuclids, ← replaceEuclids,
    replaceEuclids_of_not_mem hend]

end Call
end NoteTape
