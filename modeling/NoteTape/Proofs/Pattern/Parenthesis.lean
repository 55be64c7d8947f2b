import NoteTape.Proofs.Pattern.Pieces
import NoteTape.Proofs.Text.Words

/-!
# Parentheses

A spread call ends at the parenthesis that closes its first one, and its arguments are cut at a
comma outside all parentheses.  `levelAfter` counts the open parentheses along a text, and refuses
a text that closes one too many or has a comma where none is open.  A text that it lets through is
passed over by both scanners of the call: the search for the closing parenthesis,
`closeFrom_append`, and the search for commas, `commasFrom_append`.

* `WellNested`, `CommasInside`: the two conditions by counting, as one would state them.
* `levelAfter_eq_zero_iff`: the texts that are let through are those with both.
* `pieces_spreadText`: the call of such a text and of a length is found whole, and
  `twoArguments?_append` cuts it into the two.
-/

namespace NoteTape
namespace Call

/-- No beginning of the text closes more parentheses than it opens, and the whole text closes as
many as it opens. -/
structure WellNested (text : List Char) : Prop where
  closes_le : ∀ head, head <+: text → head.count ')' ≤ head.count '('
  closes_eq : text.count ')' = text.count '('

/-- Every comma of the text stands inside parentheses. -/
def CommasInside (text : List Char) : Prop :=
  ∀ head tail, text = head ++ ',' :: tail → head.count ')' < head.count '('

/-! ## Levels -/

/-- The number of parentheses that are open behind a text, from the number that are open before
it; nothing when the text closes one that is not open, or has a comma while none is. -/
def levelAfter (level : Nat) : List Char → Option Nat
  | [] => some level
  | c :: cs =>
      if c = '(' then levelAfter (level + 1) cs
      else if c = ')' then if level = 0 then none else levelAfter (level - 1) cs
      else if c = ',' ∧ level = 0 then none
      else levelAfter level cs

@[simp] theorem levelAfter_open (level : Nat) (cs : List Char) :
    levelAfter level ('(' :: cs) = levelAfter (level + 1) cs := by
  rw [levelAfter, if_pos rfl]

@[simp] theorem levelAfter_close (level : Nat) (cs : List Char) :
    levelAfter (level + 1) (')' :: cs) = levelAfter level cs := by
  rw [levelAfter, if_neg (by decide), if_pos rfl, if_neg (Nat.succ_ne_zero level),
    Nat.add_sub_cancel]

theorem levelAfter_append (level : Nat) (cs rest : List Char) :
    levelAfter level (cs ++ rest) = (levelAfter level cs).bind fun inner =>
      levelAfter inner rest := by
  induction cs generalizing level with
  | nil => rfl
  | cons c cs ih =>
    rw [List.cons_append, levelAfter, levelAfter]
    split
    · exact ih _
    · split
      · split
        · rfl
        · exact ih _
      · split
        · rfl
        · exact ih level

/-- A character that opens and closes nothing, and is no comma. -/
def IsPlain (c : Char) : Prop := c ≠ '(' ∧ c ≠ ')' ∧ c ≠ ','

theorem isPlain_of_class {p : Char → Bool} (hopen : p '(' = false) (hclose : p ')' = false)
    (hcomma : p ',' = false) {c : Char} (h : p c = true) : IsPlain c := by
  refine ⟨?_, ?_, ?_⟩
  · rintro rfl
    exact absurd h (by simp [hopen])
  · rintro rfl
    exact absurd h (by simp [hclose])
  · rintro rfl
    exact absurd h (by simp [hcomma])

theorem levelAfter_of_isPlain (level : Nat) {cs : List Char} (h : ∀ c ∈ cs, IsPlain c) :
    levelAfter level cs = some level := by
  induction cs with
  | nil => rfl
  | cons c cs ih =>
    obtain ⟨⟨hopen, hclose, hcomma⟩, hcs⟩ := List.forall_mem_cons.mp h
    rw [levelAfter, if_neg hopen, if_neg hclose, if_neg fun hc => hcomma hc.1, ih hcs]

/-- One character: how it changes the level, and what it asks of it. -/
theorem levelAfter_cons_iff {level inner : Nat} {c : Char} {cs : List Char} :
    levelAfter level (c :: cs) = some inner ↔
      ∃ next, next + [c].count ')' = level + [c].count '(' ∧ (c = ',' → 0 < level) ∧
        levelAfter next cs = some inner := by
  by_cases hopen : c = '('
  · subst hopen
    rw [levelAfter_open]
    constructor
    · exact fun h => ⟨level + 1, rfl, by simp, h⟩
    · rintro ⟨next, heq, -, h⟩
      obtain rfl : next = level + 1 := heq
      exact h
  by_cases hclose : c = ')'
  · subst hclose
    cases level with
    | zero =>
      constructor
      · intro h
        simp [levelAfter] at h
      · rintro ⟨next, heq, -, -⟩
        exact absurd heq (Nat.succ_ne_zero next)
    | succ outer =>
      rw [levelAfter_close]
      constructor
      · exact fun h => ⟨outer, rfl, by simp, h⟩
      · rintro ⟨next, heq, -, h⟩
        obtain rfl : next = outer := Nat.succ.inj heq
        exact h
  have hcount : [c].count ')' = 0 ∧ [c].count '(' = 0 :=
    ⟨List.count_eq_zero.mpr (by simpa using Ne.symm hclose),
      List.count_eq_zero.mpr (by simpa using Ne.symm hopen)⟩
  rw [levelAfter, if_neg hopen, if_neg hclose, hcount.1, hcount.2]
  by_cases hcomma : c = ',' ∧ level = 0
  · rw [if_pos hcomma]
    constructor
    · simp
    · rintro ⟨next, -, hpos, -⟩
      have hlevel := hpos hcomma.1
      omega
  · rw [if_neg hcomma]
    constructor
    · intro h
      exact ⟨level, rfl, fun hc => Nat.pos_of_ne_zero fun hzero => hcomma ⟨hc, hzero⟩, h⟩
    · rintro ⟨next, heq, -, h⟩
      obtain rfl : next = level := heq
      exact h

/-- The first character of a text, counted by itself. -/
theorem count_cons_add (c d : Char) (cs : List Char) :
    (c :: cs).count d = [c].count d + cs.count d := by
  rw [← List.count_append, List.singleton_append]

/-- **The level is what counting says,** and a text is let through when the counts allow it. -/
theorem levelAfter_eq_some_iff {level inner : Nat} {text : List Char} :
    levelAfter level text = some inner ↔
      (∀ head, head <+: text → head.count ')' ≤ level + head.count '(') ∧
        (∀ head tail, text = head ++ ',' :: tail → head.count ')' < level + head.count '(') ∧
          inner + text.count ')' = level + text.count '(' := by
  induction text generalizing level with
  | nil =>
    simp only [levelAfter, Option.some.injEq, List.prefix_nil, List.nil_eq, List.append_eq_nil_iff,
      List.cons_ne_nil, and_false, List.count_nil]
    constructor
    · rintro rfl
      exact ⟨fun head hhead => by simp [hhead], fun _ _ hfalse => hfalse.elim, rfl⟩
    · exact fun h => h.2.2.symm
  | cons c cs ih =>
    rw [levelAfter_cons_iff]
    constructor
    · rintro ⟨next, hnext, hcomma, h⟩
      obtain ⟨hcloses, hcommas, heq⟩ := ih.mp h
      refine ⟨fun head hhead => ?_, fun head tail htail => ?_, ?_⟩
      · rcases List.prefix_cons_iff.mp hhead with rfl | ⟨front, rfl, hfront⟩
        · simp
        · have hle := hcloses front hfront
          rw [count_cons_add c ')', count_cons_add c '(']
          omega
      · cases head with
        | nil =>
          have hpos := hcomma (List.cons.inj htail).1
          simpa using hpos
        | cons d head =>
          obtain ⟨rfl, hcs⟩ := List.cons.inj htail
          have hlt := hcommas head tail hcs
          rw [count_cons_add c ')', count_cons_add c '(']
          omega
      · rw [count_cons_add c ')', count_cons_add c '(']
        omega
    · rintro ⟨hcloses, hcommas, heq⟩
      have hfirst := hcloses [c] (List.prefix_append [c] cs)
      refine ⟨level + [c].count '(' - [c].count ')', by omega, ?_, ?_⟩
      · rintro rfl
        simpa using hcommas [] cs rfl
      refine ih.mpr ⟨fun head hhead => ?_, fun head tail htail => ?_, ?_⟩
      · have hle := hcloses (c :: head) (List.cons_prefix_cons.mpr ⟨rfl, hhead⟩)
        rw [count_cons_add c ')', count_cons_add c '('] at hle
        omega
      · have hlt := hcommas (c :: head) tail (by rw [htail, List.cons_append])
        rw [count_cons_add c ')', count_cons_add c '('] at hlt
        omega
      · rw [count_cons_add c ')', count_cons_add c '('] at heq
        omega

/-- A text is let through from the ground when it is well nested with its commas inside. -/
theorem levelAfter_eq_zero_iff {text : List Char} :
    levelAfter 0 text = some 0 ↔ WellNested text ∧ CommasInside text := by
  rw [levelAfter_eq_some_iff]
  simp only [Nat.zero_add]
  exact ⟨fun ⟨hcloses, hcommas, heq⟩ => ⟨⟨hcloses, heq⟩, hcommas⟩,
    fun ⟨hnested, hcommas⟩ => ⟨hnested.closes_le, hcommas, hnested.closes_eq⟩⟩

/-! ## The two scanners -/

theorem closeFrom_open (depth : Nat) (inside cs : List Char) :
    closeFrom depth inside ('(' :: cs) = closeFrom (depth + 1) ('(' :: inside) cs := by
  rw [closeFrom.eq_def]
  rfl

theorem closeFrom_close (depth : Nat) (inside cs : List Char) :
    closeFrom (depth + 1) inside (')' :: cs) = closeFrom depth (')' :: inside) cs := by
  rw [closeFrom.eq_def]
  rfl

theorem closeFrom_end (inside cs : List Char) :
    closeFrom 0 inside (')' :: cs) = some (inside.reverse, cs) := by
  rw [closeFrom.eq_def]
  rfl

theorem closeFrom_of_ne {c : Char} (hopen : c ≠ '(') (hclose : c ≠ ')') (depth : Nat)
    (inside cs : List Char) : closeFrom depth inside (c :: cs) = closeFrom depth (c :: inside) cs := by
  rw [closeFrom.eq_def]
  simp only [if_neg hopen, if_neg hclose]

/-- **The search for the closing parenthesis passes over a text** of which no beginning closes more
than is open. -/
theorem closeFrom_over {depth : Nat} {text : List Char}
    (h : ∀ head, head <+: text → head.count ')' ≤ depth + head.count '(')
    (inside rest : List Char) :
    closeFrom depth inside (text ++ rest) =
      closeFrom (depth + text.count '(' - text.count ')') (text.reverse ++ inside) rest := by
  induction text generalizing depth inside with
  | nil => rfl
  | cons c cs ih =>
    have hfirst := h [c] (List.prefix_append [c] cs)
    have hrest : ∀ head, head <+: cs →
        head.count ')' ≤ depth + [c].count '(' - [c].count ')' + head.count '(' := by
      intro head hhead
      have hle := h (c :: head) (List.cons_prefix_cons.mpr ⟨rfl, hhead⟩)
      rw [count_cons_add c ')', count_cons_add c '('] at hle
      omega
    have hnext : closeFrom depth inside (c :: (cs ++ rest)) =
        closeFrom (depth + [c].count '(' - [c].count ')') (c :: inside) (cs ++ rest) := by
      by_cases hopen : c = '('
      · subst hopen
        exact closeFrom_open depth inside _
      by_cases hclose : c = ')'
      · subst hclose
        cases depth with
        | zero => simp at hfirst
        | succ outer => exact closeFrom_close outer inside _
      · rw [closeFrom_of_ne hopen hclose]
        simp [hopen, hclose]
    rw [List.cons_append, hnext, ih hrest, List.reverse_cons, List.append_assoc,
      List.singleton_append, count_cons_add c ')' cs, count_cons_add c '(' cs]
    congr 1
    omega

/-- The search passes over a text that is let through, from its level before to its level behind. -/
theorem closeFrom_append {level inner : Nat} {text : List Char}
    (h : levelAfter level text = some inner) (inside rest : List Char) :
    closeFrom level inside (text ++ rest) = closeFrom inner (text.reverse ++ inside) rest := by
  obtain ⟨hcloses, -, hlevel⟩ := levelAfter_eq_some_iff.mp h
  rw [closeFrom_over hcloses]
  congr 1
  omega

/-- What is searched for the closing parenthesis is the arguments, the parenthesis and the rest. -/
theorem closeFrom_eq_some {depth : Nat} {inside cs arguments rest : List Char}
    (h : closeFrom depth inside cs = some (arguments, rest)) :
    inside.reverse ++ cs = arguments ++ ')' :: rest := by
  induction cs generalizing depth inside with
  | nil => simp [closeFrom] at h
  | cons c cs ih =>
    by_cases hopen : c = '('
    · subst hopen
      rw [closeFrom_open] at h
      simpa using ih h
    by_cases hclose : c = ')'
    · subst hclose
      cases depth with
      | zero =>
        rw [closeFrom_end] at h
        obtain ⟨rfl, rfl⟩ := Prod.mk.inj (Option.some.inj h)
        rfl
      | succ outer =>
        rw [closeFrom_close] at h
        simpa using ih h
    rw [closeFrom_of_ne hopen hclose] at h
    simpa using ih h

/-- The search for commas finds none in a text that has its commas inside parentheses. -/
theorem commasFrom_append {level inner : Nat} {text : List Char}
    (h : levelAfter level text = some inner) (place : Nat) (found : List Nat)
    (rest : List Char) :
    commasFrom level place found (text ++ rest) =
      commasFrom inner (place + text.length) found rest := by
  induction text generalizing level place with
  | nil =>
    rw [levelAfter] at h
    rw [Option.some.inj h, List.nil_append, List.length_nil, Nat.add_zero]
  | cons c cs ih =>
    rw [levelAfter] at h
    rw [List.cons_append, commasFrom, List.length_cons, Nat.add_comm cs.length 1,
      ← Nat.add_assoc]
    by_cases hopen : c = '('
    · rw [if_pos hopen] at h ⊢
      exact ih h _
    rw [if_neg hopen] at h ⊢
    by_cases hclose : c = ')'
    · rw [if_pos hclose] at h ⊢
      by_cases hzero : level = 0
      · rw [if_pos hzero] at h
        simp at h
      · rw [if_neg hzero] at h
        have hlevel : (level : Int) - 1 = (level - 1 : Nat) := by omega
        rw [hlevel]
        exact ih h _
    rw [if_neg hclose] at h ⊢
    by_cases hcomma : c = ',' ∧ level = 0
    · rw [if_pos hcomma] at h
      simp at h
    · rw [if_neg hcomma] at h
      have hcount : ¬ (c = ',' ∧ (level : Int) = 0) := by
        rintro ⟨hc, hlevel⟩
        exact hcomma ⟨hc, by omega⟩
      rw [if_neg hcount]
      exact ih h _

/-! ## A written call -/

variable {pattern length : List Char}

/-- **The arguments of a call are cut at the comma between them.** -/
theorem twoArguments?_append (hpattern : levelAfter 0 pattern = some 0)
    (hlength : levelAfter 0 length = some 0) :
    twoArguments? (pattern ++ ',' :: length) = some (pattern, length) := by
  have hrest (place : Nat) (found : List Nat) : commasFrom (0 : Nat) place found length = found := by
    have h := commasFrom_append hlength place found []
    rwa [List.append_nil, commasFrom] at h
  have hcommas : commasFrom (0 : Nat) 0 [] (pattern ++ ',' :: length) = [pattern.length] := by
    rw [commasFrom_append hpattern, commasFrom, if_neg (by decide), if_neg (by decide),
      if_pos ⟨rfl, rfl⟩, Nat.zero_add]
    exact hrest _ _
  have htake : (pattern ++ ',' :: length).take pattern.length = pattern := List.take_left
  have hdrop : (pattern ++ ',' :: length).drop (pattern.length + 1) = length := by
    rw [List.drop_append, List.drop_eq_nil_of_le (Nat.le_succ _), Nat.add_sub_cancel_left]
    rfl
  rw [Int.natCast_zero] at hcommas
  simp only [twoArguments?, hcommas, htake, hdrop]

/-- The call of a pattern and a length ends where it was written to end. -/
theorem closeFrom_arguments (hpattern : levelAfter 0 pattern = some 0)
    (hlength : levelAfter 0 length = some 0) (rest : List Char) :
    closeFrom 0 [] (pattern ++ ',' :: length ++ ')' :: rest) =
      some (pattern ++ ',' :: length, rest) := by
  rw [List.append_assoc, closeFrom_append hpattern, List.cons_append,
    closeFrom_of_ne (by decide) (by decide), closeFrom_append hlength, closeFrom_end]
  simp

/-- **A written call is found whole.** -/
theorem pieces_spreadText (hpattern : levelAfter 0 pattern = some 0)
    (hlength : levelAfter 0 length = some 0) :
    pieces spread? (spreadText (pattern ++ ',' :: length)) =
      [.inr (.closed (pattern ++ ',' :: length))] := by
  have hafter : Text.after? spreadHead (spreadText (pattern ++ ',' :: length)) =
      some (pattern ++ ',' :: length ++ [')']) := by
    rw [Text.after?_eq_some_iff, spreadText, List.append_assoc]
  have hclose := closeFrom_arguments hpattern hlength []
  have hshort : ([] : List Char).length < (spreadText (pattern ++ ',' :: length)).length := by
    simp [spreadText, spreadHead]
  have hcall : spread? (spreadText (pattern ++ ',' :: length)) =
      some (.closed (pattern ++ ',' :: length), ⟨[], hshort⟩) := by
    unfold spread?
    split
    · next hnone =>
      rw [hafter] at hnone
      simp at hnone
    · next body hbody =>
      obtain rfl := Option.some.inj (hafter.symm.trans hbody)
      split
      · next arguments rest hsome =>
        obtain ⟨rfl, rfl⟩ := Prod.mk.inj (Option.some.inj (hclose.symm.trans hsome))
        rfl
      · next hnone =>
        rw [hclose] at hnone
        simp at hnone
  exact pieces_of_whole (found?_of_eq_some hcall)

end Call
end NoteTape
