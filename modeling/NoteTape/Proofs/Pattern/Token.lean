import NoteTape.Pattern.Token
import NoteTape.Proofs.Number.Numeral
import NoteTape.Proofs.Play
import NoteTape.Proofs.Text.Words

/-!
# What a lexeme can be read as

Reading a lexeme checks everything that later stages rely on: a token that was read has a count
within `stepLimit`, a note that is a numeral and a random range within a MIDI byte, `WellRead`.

Only the bounds of a random range are turned into numbers without a check on their length.  A
lexeme is *overlong* when it is a random range one of whose bounds has more than `digitLimit`
digits; these lexemes, and no others, cannot be read.
-/

namespace NoteTape

open Text (isDigit digitValue?)

/-! ## The bounds of a random range -/

theorem length_filterMap_digitValue? {cs : List Char} (h : ∀ d ∈ cs, isDigit d = true) :
    (cs.filterMap digitValue?).length = cs.length := by
  induction cs with
  | nil => rfl
  | cons c cs ih =>
    obtain ⟨v, hv⟩ := Option.isSome_iff_exists.mp (h c (List.mem_cons_self ..))
    rw [List.filterMap_cons_some hv, List.length_cons, List.length_cons,
      ih fun d hd => h d (List.mem_cons_of_mem _ hd)]

theorem naturalOfChars_of_le {cs : List Char} (h : ∀ d ∈ cs, isDigit d = true)
    (hlen : cs.length ≤ digitLimit) : ∃ n, naturalOfChars cs = .ok n := by
  rw [naturalOfChars, naturalOfDigitRun, length_filterMap_digitValue? h,
    if_neg (Nat.not_lt.mpr hlen)]
  exact ⟨_, rfl⟩

theorem naturalOfChars_of_lt {cs : List Char} (h : ∀ d ∈ cs, isDigit d = true)
    (hlen : digitLimit < cs.length) : naturalOfChars cs = .error (.numeralTooLong cs.length) := by
  rw [naturalOfChars, naturalOfDigitRun, length_filterMap_digitValue? h, if_pos hlen]

namespace Token

/-- The text of the two bounds behind the opening bracket. -/
structure Bounds (body low high : List Char) : Prop where
  body_eq : body = low ++ '-' :: (high ++ ['>'])
  low_ne_nil : low ≠ []
  high_ne_nil : high ≠ []
  low_digits : ∀ d ∈ low, isDigit d = true
  high_digits : ∀ d ∈ high, isDigit d = true

theorem forall_mem_takeWhile (p : Char → Bool) (cs : List Char) :
    ∀ c ∈ cs.takeWhile p, p c = true :=
  List.all_eq_true.mp List.all_takeWhile

theorem bounds_of_boundDigits? {body low high : List Char}
    (h : boundDigits? body = some (low, high)) : Bounds body low high := by
  simp only [boundDigits?] at h
  split at h
  · next tail htail =>
    split at h
    · simp at h
    · next hcheck =>
      simp only [Bool.or_eq_true, List.isEmpty_iff, bne_iff_ne, ne_eq, not_or, not_not] at hcheck
      obtain ⟨rfl, rfl⟩ := Prod.mk.inj (Option.some.inj h)
      refine ⟨?_, hcheck.1.1, hcheck.1.2, forall_mem_takeWhile _ _, forall_mem_takeWhile _ _⟩
      calc body = body.takeWhile isDigit ++ body.dropWhile isDigit :=
            List.takeWhile_append_dropWhile.symm
        _ = body.takeWhile isDigit ++ '-' :: (tail.takeWhile isDigit ++ tail.dropWhile isDigit) := by
            rw [htail, List.takeWhile_append_dropWhile]
        _ = body.takeWhile isDigit ++ '-' :: (tail.takeWhile isDigit ++ ['>']) := by
            rw [hcheck.2]
  · simp at h

theorem boundDigits?_of_bounds {body low high : List Char} (h : Bounds body low high) :
    boundDigits? body = some (low, high) := by
  have hlow := Text.span_append h.low_digits
    (Text.stops_cons (show isDigit '-' = false by decide) (high ++ ['>']))
  have hhigh := Text.span_append h.high_digits
    (Text.stops_cons (show isDigit '>' = false by decide) [])
  simp only [boundDigits?, h.body_eq, hlow.1, hlow.2, hhigh.1, hhigh.2]
  simp [h.low_ne_nil, h.high_ne_nil]

/-! ## Reading -/

/-- What a lexeme can be read as. -/
def WellRead : Token → Prop
  | rest count => 0 ≤ count ∧ count ≤ stepLimit
  | note text => IsNumeral text.toList
  | groupRepeat count => 0 ≤ count ∧ count ≤ stepLimit
  | randomRange low high => 0 ≤ low ∧ low < high ∧ high ≤ 127
  | _ => True

/-- A random range one of whose bounds has too many digits. -/
def Overlong (lexeme : List Char) : Prop :=
  ∃ low high, lexeme = '?' :: '<' :: (low ++ '-' :: (high ++ ['>'])) ∧
    low ≠ [] ∧ high ≠ [] ∧ (∀ d ∈ low, isDigit d = true) ∧ (∀ d ∈ high, isDigit d = true) ∧
    (digitLimit < low.length ∨ digitLimit < high.length)

/-- The fault of reading a number of too many digits. -/
def TooLong (fault : Fault) : Prop := ∃ digits, digitLimit < digits ∧ fault = .numeralTooLong digits

theorem not_overlong_of_head {c : Char} {cs : List Char} (h : c ≠ '?') : ¬ Overlong (c :: cs) := by
  rintro ⟨low, high, heq, -⟩
  exact h (List.cons.inj heq).1

theorem not_overlong_of_length {lexeme : List Char} (h : lexeme.length ≤ digitLimit) :
    ¬ Overlong lexeme := by
  rintro ⟨low, high, rfl, -, -, -, -, hlong⟩
  simp only [List.length_cons, List.length_append] at h
  omega

/-- A count is the value of the digits or there is none. -/
theorem readCount_token (lexeme digits : List Char) (make : Int → Token) :
    (∃ n : Nat, n ≤ stepLimit ∧ (readCount lexeme digits make).token = make n) ∨
      (readCount lexeme digits make).token = .unknown (String.ofList lexeme) := by
  unfold readCount
  simp only
  split
  · exact .inr rfl
  · split
    · next n hn =>
      split
      · next hle => exact .inl ⟨n, hle, rfl⟩
      · exact .inr rfl
    · exact .inr rfl

theorem wellRead_readCount {lexeme digits : List Char} {make : Int → Token}
    (h : ∀ n : Nat, n ≤ stepLimit → (make n).WellRead) :
    (readCount lexeme digits make).token.WellRead := by
  rcases readCount_token lexeme digits make with ⟨n, hn, heq⟩ | heq
  · rw [heq]
    exact h n hn
  · rw [heq]
    trivial

open Play (Verdict)

/-- A random range is overlong when one of its two runs of digits is. -/
theorem overlong_range_iff (body : List Char) :
    Overlong ('?' :: '<' :: body) ↔
      ∃ low high, boundDigits? body = some (low, high) ∧
        (digitLimit < low.length ∨ digitLimit < high.length) := by
  constructor
  · rintro ⟨low, high, heq, hlow, hhigh, hdlow, hdhigh, hlong⟩
    have hbody : body = low ++ '-' :: (high ++ ['>']) := (List.cons.inj (List.cons.inj heq).2).2
    exact ⟨low, high, boundDigits?_of_bounds ⟨hbody, hlow, hhigh, hdlow, hdhigh⟩, hlong⟩
  · rintro ⟨low, high, hbounds, hlong⟩
    have hb := bounds_of_boundDigits? hbounds
    exact ⟨low, high, by rw [hb.body_eq], hb.low_ne_nil, hb.high_ne_nil, hb.low_digits,
      hb.high_digits, hlong⟩

theorem verdict_readRange (body : List Char) :
    Verdict (fun reading => reading.token.WellRead ∧ ¬ Overlong ('?' :: '<' :: body))
      (fun fault => Overlong ('?' :: '<' :: body) ∧ TooLong fault)
      (readRange ('?' :: '<' :: body) body) := by
  rw [overlong_range_iff]
  unfold readRange
  cases hbounds : boundDigits? body with
  | none => exact ⟨trivial, by simp⟩
  | some bounds =>
    obtain ⟨low, high⟩ := bounds
    have hb := bounds_of_boundDigits? hbounds
    rcases Nat.lt_or_ge digitLimit low.length with hlow | hlow
    · simp only [naturalOfChars_of_lt hb.low_digits hlow]
      exact ⟨⟨low, high, rfl, .inl hlow⟩, _, hlow, rfl⟩
    obtain ⟨n, hn⟩ := naturalOfChars_of_le hb.low_digits hlow
    rcases Nat.lt_or_ge digitLimit high.length with hhigh | hhigh
    · simp only [hn, naturalOfChars_of_lt hb.high_digits hhigh]
      exact ⟨⟨low, high, rfl, .inr hhigh⟩, _, hhigh, rfl⟩
    obtain ⟨n', hn'⟩ := naturalOfChars_of_le hb.high_digits hhigh
    have hshort : ¬ ∃ low' high', some (low, high) = some (low', high') ∧
        (digitLimit < low'.length ∨ digitLimit < high'.length) := by
      rintro ⟨low', high', heq, hlong⟩
      obtain ⟨rfl, rfl⟩ := Prod.mk.inj (Option.some.inj heq)
      omega
    simp only [hn, hn']
    change Verdict _ _ (if _ then _ else _)
    split
    · next hcheck =>
      simp only [Bool.and_eq_true, decide_eq_true_eq] at hcheck
      exact ⟨⟨by omega, by omega, by omega⟩, hshort⟩
    · exact ⟨⟨by decide, by decide, by decide⟩, hshort⟩

/-- **A lexeme is read unless it is overlong,** and what was read is in order. -/
theorem verdict_read (lexeme : List Char) :
    Verdict (fun reading => reading.token.WellRead ∧ ¬ Overlong lexeme)
      (fun fault => Overlong lexeme ∧ TooLong fault) (read lexeme) := by
  have hcount : ∀ n : Nat, n ≤ stepLimit → (0 : Int) ≤ n ∧ (n : Int) ≤ stepLimit := by
    intro n hn
    omega
  unfold read
  split
  · exact ⟨⟨by decide, by decide⟩, not_overlong_of_head (by decide)⟩
  · exact ⟨trivial, not_overlong_of_head (by decide)⟩
  · exact ⟨trivial, not_overlong_of_head (by decide)⟩
  · refine ⟨trivial, ?_⟩
    rintro ⟨low, high, heq, -⟩
    simp at heq
  · exact ⟨wellRead_readCount hcount, not_overlong_of_head (by decide)⟩
  · exact ⟨wellRead_readCount hcount, not_overlong_of_head (by decide)⟩
  · exact verdict_readRange _
  · next hrange =>
    have hshort : ¬ Overlong lexeme := by
      rintro ⟨low, high, heq, -⟩
      exact hrange _ heq
    split
    · next n hn =>
      refine ⟨?_, hshort⟩
      change IsNumeral (String.ofList lexeme).toList
      rw [String.toList_ofList, ← isSome_integerOfChars?_iff, hn]
      rfl
    · exact ⟨trivial, hshort⟩

theorem wellRead_of_read {lexeme : List Char} {reading : Reading}
    (h : read lexeme = .ok reading) : reading.token.WellRead := by
  have hverdict := verdict_read lexeme
  rw [h] at hverdict
  exact hverdict.1

/-- A note is read as what it is. -/
theorem read_numeral {lexeme : List Char} (h : IsNumeral lexeme) :
    read lexeme = .ok (.plain (.note (String.ofList lexeme))) := by
  obtain ⟨n, hn⟩ := exists_integerOfChars? h
  have hmem : ∀ c ∈ lexeme, c = '+' ∨ c = '-' ∨ Text.isAsciiDigit c = true := fun c hc => h.mem hc
  have hdash : lexeme ≠ ['-'] := by
    rintro rfl
    have hnone : integerOfChars? ['-'] = none := by decide
    rw [hnone] at hn
    simp at hn
  unfold read
  split
  · exact absurd rfl hdash
  · simp [Text.isAsciiDigit] at hmem
  · simp [Text.isAsciiDigit] at hmem
  · simp [Text.isAsciiDigit] at hmem
  · simp [Text.isAsciiDigit] at hmem
  · simp [Text.isAsciiDigit] at hmem
  · simp [Text.isAsciiDigit] at hmem
  · rw [hn]

/-! ## Lexemes and texts -/

variable {steady : Source → Prop}

theorem settles_ofLexeme (lexeme : String) :
    Play.Settles steady (ofLexeme lexeme)
      (fun token => token.WellRead ∧ ¬ Overlong lexeme.toList)
      fun fault => Overlong lexeme.toList ∧ TooLong fault := by
  refine .bind (.lift (verdict_read lexeme.toList)) fun reading hreading => ?_
  split
  · exact .pure hreading
  · exact .bind .notify fun _ _ => .pure hreading

/-- **The tokens of a text.**  They are read unless some lexeme is overlong. -/
theorem settles_ofText (text : String) :
    Play.Settles steady (ofText text)
      (fun tokens => (∀ token ∈ tokens, token.WellRead) ∧
        ∀ lexeme ∈ Text.words text, ¬ Overlong lexeme.toList)
      fun fault => (∃ lexeme ∈ Text.words text, Overlong lexeme.toList) ∧ TooLong fault := by
  refine (Play.Settles.mapM fun lexeme _ => settles_ofLexeme lexeme).mono ?_ ?_
  · intro tokens htokens
    generalize Text.words text = lexemes at htokens ⊢
    induction htokens with
    | nil => simp
    | cons hfirst hrest ih =>
      exact ⟨List.forall_mem_cons.mpr ⟨hfirst.1, ih.1⟩, List.forall_mem_cons.mpr ⟨hfirst.2, ih.2⟩⟩
  · rintro fault ⟨lexeme, hmem, hoverlong, hfault⟩
    exact ⟨⟨lexeme, hmem, hoverlong⟩, hfault⟩

end Token
end NoteTape
