import NoteTape.Proofs.Pattern.Token
import NoteTape.Proofs.Play.Alike

/-!
# The grammar of lexemes

`Writes` is the notation as a grammar: one rule for each kind of lexeme, with the token that it
writes.  It says nothing of the order in which the kinds are tried.  Reading tries one after the
other, and a lexeme may begin like another kind than its own: `-5` like a rest, `?<5` like a random
note, `]*+2` like a repeated group.

The two agree.  What is written by a rule is read as that, `read_of_writes`, and what is read is
written by a rule or unknown, `writes_or_unknown_of_read`.  So the rules never compete for a
lexeme, and `Reads`, the grammar completed by the unknown lexemes, is reading itself,
`ofLexeme_reads`.

The digits of counts and notes are those of ASCII, the digits of bounds are those of every script.
Lexemes are as long as a number may be, `digitLimit`; beyond that no number is read at all.
-/

namespace NoteTape
namespace Token

open Text (isAsciiDigit)

/-- A count as it is written: ASCII digits, at least one, of a value within `stepLimit`. -/
structure Counts (digits : List Char) (count : Int) : Prop where
  digits_ne_nil : digits ≠ []
  digits_ascii : ∀ d ∈ digits, isAsciiDigit d = true
  count_eq : count = Text.natural digits
  count_le : count ≤ stepLimit

/-- Bounds that a random range keeps: in order, and within a MIDI byte. -/
def InOrder (low high : List Char) : Prop :=
  Text.natural low < Text.natural high ∧ Text.natural high ≤ 127

/-- How a lexeme of the notation writes its token. -/
inductive Writes : List Char → Token → Prop
  | rest : Writes ['-'] (.rest 1)
  | rests {digits : List Char} {count : Int} :
      Counts digits count → Writes ('-' :: '*' :: digits) (.rest count)
  | groupStart : Writes ['['] .groupStart
  | groupEnd : Writes [']'] .groupEnd
  | groupRepeat {digits : List Char} {count : Int} :
      Counts digits count → Writes (']' :: '*' :: digits) (.groupRepeat count)
  | random : Writes ['?'] .random
  | range {body low high : List Char} : Bounds body low high → InOrder low high →
      Writes ('?' :: '<' :: body) (.randomRange (Text.natural low) (Text.natural high))
  | widest {body low high : List Char} : Bounds body low high → ¬ InOrder low high →
      Writes ('?' :: '<' :: body) (.randomRange 1 127)
  | note {sign digits : List Char} : (sign = [] ∨ sign = ['+'] ∨ sign = ['-']) → digits ≠ [] →
      (∀ d ∈ digits, isAsciiDigit d = true) →
      Writes (sign ++ digits) (.note (String.ofList (sign ++ digits)))

/-- The grammar completed: a lexeme that no rule writes is unknown. -/
def Reads (lexeme : List Char) (token : Token) : Prop :=
  Writes lexeme token ∨
    token = .unknown (String.ofList lexeme) ∧ ∀ other, ¬ Writes lexeme other

theorem Writes.not_unknown {lexeme : List Char} {raw : String} :
    ¬ Writes lexeme (.unknown raw) := by
  intro h
  cases h

/-! ## Counts -/

theorem readCount_of_counts {digits : List Char} {count : Int} (h : Counts digits count)
    (hlength : digits.length ≤ digitLimit) (lexeme : List Char) (make : Int → Token) :
    readCount lexeme digits make = .plain (make count) := by
  have hvalue : asciiNatural? digits = some (Text.natural digits) :=
    asciiNatural?_eq_some_iff.mpr ⟨h.digits_ne_nil, hlength, h.digits_ascii, rfl⟩
  have hle : Text.natural digits ≤ stepLimit := by
    have hcount := h.count_le
    rw [h.count_eq] at hcount
    exact_mod_cast hcount
  have hcheck : (digits.isEmpty || !digits.all isAsciiDigit) = false := by
    simp [h.digits_ne_nil, List.all_eq_true.mpr h.digits_ascii]
  rw [readCount, hcheck, hvalue, h.count_eq]
  exact if_pos hle

theorem counts_of_readCount (lexeme digits : List Char) (make : Int → Token) :
    (∃ count, Counts digits count ∧ (readCount lexeme digits make).token = make count) ∨
      (readCount lexeme digits make).token = .unknown (String.ofList lexeme) := by
  unfold readCount
  simp only
  split
  · exact .inr rfl
  · split
    · next n hn =>
      obtain ⟨hne, -, hdigits, heq⟩ := asciiNatural?_eq_some_iff.mp hn
      split
      · next hle =>
        exact .inl ⟨n, ⟨hne, hdigits, congrArg Nat.cast heq, by exact_mod_cast hle⟩, rfl⟩
      · exact .inr rfl
    · exact .inr rfl

/-! ## Random ranges -/

theorem naturalOfChars_eq {cs : List Char} (h : ∀ d ∈ cs, Text.isDigit d = true)
    (hlength : cs.length ≤ digitLimit) : naturalOfChars cs = .ok (Text.natural cs) := by
  rw [naturalOfChars, naturalOfDigitRun, length_filterMap_digitValue? h,
    if_neg (Nat.not_lt.mpr hlength)]
  rfl

/-- The token of a random range by its two bounds. -/
theorem readRange_of_bounds {body low high : List Char} (h : Bounds body low high)
    (hlow : low.length ≤ digitLimit) (hhigh : high.length ≤ digitLimit) (lexeme : List Char) :
    ∃ reading, readRange lexeme body = .ok reading ∧
      (InOrder low high →
        reading.token = .randomRange (Text.natural low) (Text.natural high)) ∧
      (¬ InOrder low high → reading.token = .randomRange 1 127) := by
  unfold readRange
  rw [boundDigits?_of_bounds h]
  simp only [naturalOfChars_eq h.low_digits hlow, naturalOfChars_eq h.high_digits hhigh]
  have hcheck : (decide (Text.natural low < Text.natural high) &&
      decide (Text.natural high ≤ 127)) = true ↔ InOrder low high := by
    rw [Bool.and_eq_true, decide_eq_true_iff, decide_eq_true_iff, InOrder]
  by_cases horder : InOrder low high
  · exact ⟨_, if_pos (hcheck.mpr horder), fun _ => rfl, fun hout => absurd horder hout⟩
  · exact ⟨_, if_neg (mt hcheck.mp horder), fun hin => absurd hin horder, fun _ => rfl⟩

/-! ## Lexemes -/

theorem Bounds.length_le {body low high : List Char} (h : Bounds body low high) :
    low.length ≤ body.length ∧ high.length ≤ body.length := by
  rw [h.body_eq]
  simp only [List.length_append, List.length_cons]
  omega

/-- **What a rule writes is read as that,** in a lexeme that is not too long. -/
theorem read_of_writes {lexeme : List Char} {token : Token} (h : Writes lexeme token)
    (hlength : lexeme.length ≤ digitLimit) :
    ∃ reading, read lexeme = .ok reading ∧ reading.token = token := by
  cases h with
  | rest => exact ⟨_, rfl, rfl⟩
  | groupStart => exact ⟨_, rfl, rfl⟩
  | groupEnd => exact ⟨_, rfl, rfl⟩
  | random => exact ⟨_, rfl, rfl⟩
  | @rests digits count hcounts =>
    have hshort : digits.length ≤ digitLimit := by
      simp only [List.length_cons] at hlength
      omega
    exact ⟨_, congrArg Except.ok (readCount_of_counts hcounts hshort _ _), rfl⟩
  | @groupRepeat digits count hcounts =>
    have hshort : digits.length ≤ digitLimit := by
      simp only [List.length_cons] at hlength
      omega
    exact ⟨_, congrArg Except.ok (readCount_of_counts hcounts hshort _ _), rfl⟩
  | @range body low high hbounds horder =>
    have hpart := hbounds.length_le
    simp only [List.length_cons] at hlength
    obtain ⟨reading, hread, hin, -⟩ :=
      readRange_of_bounds hbounds (by omega) (by omega) ('?' :: '<' :: body)
    exact ⟨reading, hread, hin horder⟩
  | @widest body low high hbounds horder =>
    have hpart := hbounds.length_le
    simp only [List.length_cons] at hlength
    obtain ⟨reading, hread, -, hout⟩ :=
      readRange_of_bounds hbounds (by omega) (by omega) ('?' :: '<' :: body)
    exact ⟨reading, hread, hout horder⟩
  | @note sign digits hsign hne hdigits =>
    have hshort : digits.length ≤ digitLimit := by
      rw [List.length_append] at hlength
      omega
    exact ⟨_, read_numeral ⟨sign, digits, rfl, hsign, hne, hshort, hdigits⟩, rfl⟩

/-- **What is read is written by a rule,** or the lexeme is unknown. -/
theorem writes_or_unknown_of_read {lexeme : List Char} {reading : Reading}
    (h : read lexeme = .ok reading) :
    Writes lexeme reading.token ∨ reading.token = .unknown (String.ofList lexeme) := by
  unfold read at h
  split at h
  · obtain rfl := Except.ok.inj h
    exact .inl .rest
  · obtain rfl := Except.ok.inj h
    exact .inl .groupStart
  · obtain rfl := Except.ok.inj h
    exact .inl .groupEnd
  · obtain rfl := Except.ok.inj h
    exact .inl .random
  · next digits =>
    obtain rfl := Except.ok.inj h
    refine (counts_of_readCount _ digits _).imp_left ?_
    rintro ⟨count, hcounts, heq⟩
    rw [heq]
    exact .rests hcounts
  · next digits =>
    obtain rfl := Except.ok.inj h
    refine (counts_of_readCount _ digits _).imp_left ?_
    rintro ⟨count, hcounts, heq⟩
    rw [heq]
    exact .groupRepeat hcounts
  · next body =>
    cases hcut : boundDigits? body with
    | none =>
      rw [readRange, hcut] at h
      obtain rfl := Except.ok.inj h
      exact .inr rfl
    | some bounds =>
      have hb := bounds_of_boundDigits? hcut
      have hshort : ¬ Overlong ('?' :: '<' :: body) := by
        have hverdict := verdict_readRange body
        rw [h] at hverdict
        exact hverdict.2
      rw [overlong_range_iff] at hshort
      have hlengths : bounds.1.length ≤ digitLimit ∧ bounds.2.length ≤ digitLimit := by
        by_contra hlong
        exact hshort ⟨bounds.1, bounds.2, hcut, by omega⟩
      obtain ⟨reading', hread, hin, hout⟩ :=
        readRange_of_bounds hb hlengths.1 hlengths.2 ('?' :: '<' :: body)
      obtain rfl := Except.ok.inj (h.symm.trans hread)
      by_cases horder : InOrder bounds.1 bounds.2
      · rw [hin horder]
        exact .inl (.range hb horder)
      · rw [hout horder]
        exact .inl (.widest hb horder)
  · split at h
    · next n hn =>
      obtain rfl := Except.ok.inj h
      obtain ⟨sign, digits, rfl, hsign, hne, -, hdigits⟩ :=
        (isSome_integerOfChars?_iff lexeme).mp (by rw [hn]; rfl)
      exact .inl (.note hsign hne hdigits)
    · obtain rfl := Except.ok.inj h
      exact .inr rfl

/-- Reading a lexeme that is not too long has one answer, and it is that of the grammar. -/
theorem exists_read_iff {lexeme : List Char} (h : lexeme.length ≤ digitLimit) :
    ∃ reading, read lexeme = .ok reading ∧
      ∀ token, reading.token = token ↔ Reads lexeme token := by
  have hverdict := verdict_read lexeme
  cases hread : read lexeme with
  | error fault =>
    rw [hread] at hverdict
    exact absurd hverdict.1 (not_overlong_of_length h)
  | ok reading =>
    have hwritten {token : Token} (hw : Writes lexeme token) : reading.token = token := by
      obtain ⟨reading', hread', htoken⟩ := read_of_writes hw h
      obtain rfl := Except.ok.inj (hread.symm.trans hread')
      exact htoken
    refine ⟨reading, rfl, fun token => ⟨?_, ?_⟩⟩
    · rintro rfl
      rcases writes_or_unknown_of_read hread with hw | hunknown
      · exact .inl hw
      · refine .inr ⟨hunknown, fun other hw => ?_⟩
        have heq := hwritten hw
        rw [hunknown] at heq
        subst heq
        exact hw.not_unknown
    · rintro (hw | ⟨rfl, hnone⟩)
      · exact hwritten hw
      · exact (writes_or_unknown_of_read hread).resolve_left (hnone _)

/-- A token is read off a lexeme without a draw. -/
theorem answers_ofLexeme {lexeme : String} {reading : Reading}
    (h : read lexeme.toList = .ok reading) :
    Play.Answers (ofLexeme lexeme) (.ok reading.token) := by
  rw [ofLexeme, h, Play.liftM_ok, pure_bind]
  split
  · exact .pure _
  · exact (Play.Answers.notify _ _ _).bind_ok (.pure _)

/-- **A lexeme is read as the grammar says,** no matter how it begins: its token is the one that a
rule writes, or unknown when no rule writes the lexeme.  So every token of a text has a count
within `stepLimit` or bounds in order within a MIDI byte. -/
theorem ofLexeme_reads :
    (∀ lexeme : String, lexeme.toList.length ≤ digitLimit →
      ∃ token, Play.Answers (ofLexeme lexeme) (.ok token) ∧
        ∀ other, token = other ↔ Reads lexeme.toList other) ∧
      ∀ (text : String) (desk after : Desk) (tokens : List Token),
        (ofText text).outcome desk = (.ok tokens, after) → ∀ token ∈ tokens, token.WellRead := by
  constructor
  · intro lexeme h
    obtain ⟨reading, hread, hiff⟩ := exists_read_iff h
    exact ⟨reading.token, answers_ofLexeme hread, hiff⟩
  · intro text desk after tokens h
    have hsettles : Play.Settles (fun _ => True) (ofText text)
        (fun tokens => ∀ token ∈ tokens, token.WellRead) fun _ => True :=
      (settles_ofText text).mono (fun _ h => h.1) fun _ _ => trivial
    exact hsettles.of_ok h

/-- The first digit of a range may be one of another script, and what only begins like a repeated
group is unknown. -/
theorem ofLexeme_reads_arabic :
    Play.Answers (ofLexeme "?<٣-12>") (.ok (.randomRange 3 12)) ∧
      (∃ token, Play.Answers (ofLexeme "]*+2") (.ok token) ∧
        ∀ other, token = other ↔ Reads "]*+2".toList other) ∧
      ∀ token ∈ [Token.rest 7, .randomRange 5 9], token.WellRead := by
  refine ⟨?_, ofLexeme_reads.1 "]*+2" (by decide +kernel), ?_⟩
  · obtain ⟨token, hanswers, hiff⟩ := ofLexeme_reads.1 "?<٣-12>" (by decide +kernel)
    have hbounds : Bounds "٣-12>".toList ['٣'] ['1', '2'] := {
      body_eq := by decide +kernel
      low_ne_nil := List.cons_ne_nil _ _
      high_ne_nil := List.cons_ne_nil _ _
      low_digits := List.all_eq_true.mp (by decide +kernel)
      high_digits := List.all_eq_true.mp (by decide +kernel) }
    have horder : InOrder ['٣'] ['1', '2'] := ⟨by decide +kernel, by decide +kernel⟩
    have htoken := (hiff (.randomRange 3 12)).mpr (.inl (.range hbounds horder))
    rwa [htoken] at hanswers
  · have hread : (ofText "-*007 ?<5-9>").outcome ⟨.script ⟨#[], 0⟩, #[]⟩ =
        (.ok [.rest 7, .randomRange 5 9], ⟨.script ⟨#[], 0⟩, #[]⟩) := by
      decide +kernel
    exact ofLexeme_reads.2 _ _ _ _ hread

end Token
end NoteTape
