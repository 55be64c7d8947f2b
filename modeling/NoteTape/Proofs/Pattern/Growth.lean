import NoteTape.Proofs.Pattern.Failure
import NoteTape.Proofs.Pattern.Progress

/-!
# How large an expansion grows

A replay multiplies the innermost scope, and groups nest, so no bound on a single scope is kept by
a step.  What is kept is a bound on the whole stack.  A replay cut back to `tapeLimit` leaves its
scope with no more than `tapeLimit` elements, or with as many as it had: so it *adds* `tapeLimit`
at most, however many there were.  A rest adds as many as its count, a note or a draw one, and
the other tokens only move elements.

So the size of the stack is bounded by a sum over the tokens read, `sizeBound`, which does not
look at their order or nesting.
-/

namespace NoteTape

open Play (Settles)

namespace Token

/-- A closing bracket that repeats its group. -/
def isRepeat : Token → Bool
  | groupRepeat _ => true
  | _ => false

def isRest : Token → Bool
  | rest _ => true
  | _ => false

/-- A note or a draw of one: a token of exactly one element. -/
def isSingle : Token → Bool
  | note _ | random | randomRange _ _ => true
  | _ => false

end Token

namespace Expansion

variable {steady : Source → Prop}

/-- What the stack holds at most behind some tokens. -/
def sizeBound (tokens : List Token) : Nat :=
  tapeLimit * tokens.countP Token.isRepeat + stepLimit * tokens.countP Token.isRest +
    tokens.countP Token.isSingle

theorem sizeBound_append (front back : List Token) :
    sizeBound (front ++ back) = sizeBound front + sizeBound back := by
  simp only [sizeBound, List.countP_append]
  ring

theorem sizeBound_cons (token : Token) (tokens : List Token) :
    sizeBound (token :: tokens) = sizeBound [token] + sizeBound tokens :=
  sizeBound_append [token] tokens

/-- No token adds more than a replay may. -/
theorem sizeBound_le (tokens : List Token) : sizeBound tokens ≤ tapeLimit * tokens.length := by
  induction tokens with
  | nil => exact Nat.le_refl _
  | cons token tokens ih =>
    have htoken : sizeBound [token] ≤ tapeLimit := by
      cases token <;>
        simp [sizeBound, Token.isRepeat, Token.isRest, Token.isSingle, tapeLimit, stepLimit]
    rw [sizeBound_cons, List.length_cons, Nat.mul_succ]
    omega

/-! ## Replays -/

/-- **A replay is cut back to `tapeLimit` elements,** or to a single one. -/
theorem mul_replays_le (size : Nat) (count : Int) :
    (replays size count).toNat * size ≤ max size tapeLimit := by
  unfold replays
  split
  · have hfits : tapeLimit / size * size ≤ tapeLimit := Nat.div_mul_le_self tapeLimit size
    rcases Nat.lt_or_ge (tapeLimit / size) 1 with hnone | hsome
    · have hone : (max 1 ((tapeLimit / size : Nat) : Int)).toNat = 1 := by omega
      rw [hone, Nat.one_mul]
      exact Nat.le_max_left _ _
    · have hmany : (max 1 ((tapeLimit / size : Nat) : Int)).toNat = tapeLimit / size := by omega
      rw [hmany]
      exact hfits.trans (Nat.le_max_right _ _)
  · next hsmall =>
    rcases lt_or_ge 1 count with hmore | hone
    · have hfits : (size * count : Int) ≤ tapeLimit := by
        by_contra hlarge
        exact hsmall ⟨hmore, Int.not_le.mp hlarge⟩
      obtain ⟨times, rfl⟩ := Int.eq_ofNat_of_zero_le (by omega : 0 ≤ count)
      have htimes : times * size ≤ tapeLimit := by
        rw [Nat.mul_comm]
        exact_mod_cast hfits
      exact htimes.trans (Nat.le_max_right _ _)
    · have htimes : count.toNat ≤ 1 := by omega
      calc count.toNat * size ≤ 1 * size := Nat.mul_le_mul_right size htimes
        _ ≤ max size tapeLimit := by
          rw [Nat.one_mul]
          exact Nat.le_max_left _ _

theorem length_replayed (scope : List String) (count : Int) :
    Settles (fun _ => True) (replayed scope count)
      (fun group => group.length ≤ scope.length + tapeLimit) fun _ => True := by
  refine (Settles.any _).bind fun _ _ => ?_
  unfold Rhythm.repetitions
  split
  · refine .pure ?_
    have hreplays := mul_replays_le scope.length count
    rw [List.length_flatten, List.map_replicate, List.sum_replicate_nat]
    omega
  · exact .lift trivial

/-! ## Steps -/

theorem length_leaf (context : Context) {token : Token} (h : token.WellRead) :
    Settles (fun _ => True) (leaf context token)
      (fun elements => elements.length ≤ sizeBound [token]) fun _ => True := by
  cases token with
  | rest count =>
    have hcount : count.toNat ≤ stepLimit := by
      have hle := h.2
      omega
    rw [leaf, Rhythm.repetitions_of_lt h.fits.1 h.fits.2, Play.liftM_ok, pure_bind]
    refine .pure ?_
    rw [List.length_replicate]
    exact hcount
  | note text => exact .pure (Nat.le_refl 1)
  | random => exact (Settles.any _).bind fun _ _ => .pure (Nat.le_refl 1)
  | randomRange low high =>
    exact (Settles.any _).bind fun _ _ => (Settles.any _).bind fun _ _ => .pure (Nat.le_refl 1)
  | groupStart => exact .pure (Nat.le_refl 0)
  | groupEnd => exact .pure (Nat.le_refl 0)
  | groupRepeat count => exact .pure (Nat.zero_le _)
  | unknown raw => exact .pure (Nat.le_refl 0)

theorem size_close (unread : List Token) (group : List String) (scopes : List (List String)) :
    Settles (fun _ => True) (close unread group scopes)
      (fun progress => progress.size = group.length + scopes.flatten.length) fun _ => True := by
  cases scopes with
  | nil =>
    refine (Settles.any _).bind fun _ _ => .pure ?_
    simp [Progress.size]
  | cons outer scopes =>
    refine .pure ?_
    simp [Progress.size]

/-- **What one token adds to the stack.** -/
theorem size_step (context : Context) {token : Token} (h : token.WellRead) (unread : List Token)
    (scope : List String) (scopes : List (List String)) :
    Settles (fun _ => True) (step context token unread scope scopes)
      (fun progress => progress.size ≤ (Progress.reading scope scopes).size + sizeBound [token])
      fun _ => True := by
  have hsize : (Progress.reading scope scopes).size = scope.length + scopes.flatten.length := by
    simp [Progress.size]
  cases token using leaf_or_bracket with
  | leaf token hl =>
    rw [step_leaf context hl]
    refine (length_leaf context h).bind fun elements helements => .pure ?_
    simp only [Progress.size, List.flatten_cons, List.length_append, List.length_reverse]
    omega
  | groupStart =>
    refine .pure ?_
    simp [Progress.size]
  | groupEnd =>
    refine (size_close unread scope scopes).mono (fun progress hprogress => ?_) fun _ _ => trivial
    omega
  | groupRepeat count =>
    refine (length_replayed scope count).bind fun group hgroup => ?_
    refine (size_close unread group scopes).mono (fun progress hprogress => ?_) fun _ _ => trivial
    have hbound : sizeBound [.groupRepeat count] = tapeLimit := rfl
    omega

/-! ## Runs -/

theorem size_advance (context : Context) {read : List Token} (h : ∀ token ∈ read, token.WellRead)
    (unread : List Token) (progress : Progress) :
    Settles (fun _ => True) (advance context read unread progress)
      (fun reached => reached.size ≤ progress.size + sizeBound read) fun _ => True := by
  induction read generalizing progress with
  | nil => exact .pure (Nat.le_refl _)
  | cons token read ih =>
    obtain ⟨htoken, hread⟩ := List.forall_mem_cons.mp h
    cases progress with
    | ended elements =>
      rw [advance_ended]
      exact .pure (Nat.le_add_right _ _)
    | reading scope scopes =>
      rw [advance]
      refine (size_step context htoken _ scope scopes).bind fun middle hmiddle => ?_
      refine (ih hread middle).mono (fun reached hreached => ?_) fun _ _ => trivial
      rw [sizeBound_cons]
      omega

theorem size_start : Progress.start.size = 0 := rfl

/-- At the end the elements of all scopes that are still open are the elements of the tape. -/
theorem length_finish_nil (context : Context) (progress : Progress) :
    Settles steady (finish context [] progress)
      (fun elements => elements.length = progress.size) fun _ => True := by
  cases progress with
  | ended elements => exact .pure rfl
  | reading scope scopes =>
    refine .pure ?_
    rw [List.length_reverse, closeAll_eq_flatten, Progress.size]

theorem length_expand (context : Context) {tokens : List Token}
    (h : ∀ token ∈ tokens, token.WellRead) :
    Settles (fun _ => True) (expand context tokens)
      (fun elements => elements.length ≤ sizeBound tokens) fun _ => True := by
  have hsplit := expand_append context tokens []
  rw [List.append_nil] at hsplit
  rw [hsplit]
  refine (size_advance context h [] .start).bind fun progress hprogress => ?_
  refine (length_finish_nil context progress).mono (fun elements helements => ?_) fun _ _ => trivial
  rw [size_start, Nat.zero_add] at hprogress
  omega

/-- There are as many tokens as lexemes. -/
theorem length_ofText {text : String} {desk middle : Desk} {tokens : List Token}
    (h : (Token.ofText text).outcome desk = (.ok tokens, middle)) :
    tokens.length = (Text.words text).length := by
  have hpairs : Settles (fun _ => True) (Token.ofText text)
      (List.Forall₂ (fun _ _ => True) (Text.words text)) fun _ => True :=
    (Settles.mapM fun lexeme _ => Settles.any (Token.ofLexeme lexeme)).mono (fun _ hp => hp)
      fun _ _ => trivial
  exact (hpairs.of_ok h).length_eq.symm

/-- **Expansion cannot blow up.**  Of the tokens of a text an expansion makes no more elements
than `sizeBound` says, and behind every token the whole stack holds no more than `sizeBound` says
of the tokens read so far.  This is linear in the number of lexemes, whatever their nesting. -/
theorem length_expand_le {text : String} {desk middle : Desk} {tokens : List Token}
    (h : (Token.ofText text).outcome desk = (.ok tokens, middle)) (context : Context)
    (place : Desk) :
    (place.source.Fair →
      ∃ elements after, (expand context tokens).outcome place = (.ok elements, after)) ∧
      (∀ elements after, (expand context tokens).outcome place = (.ok elements, after) →
        elements.length ≤ sizeBound tokens) ∧
      (∀ read unread, tokens = read ++ unread →
        expand context tokens = advance context read unread .start >>= finish context unread ∧
          ∀ progress after,
            (advance context read unread .start).outcome place = (.ok progress, after) →
              progress.size ≤ sizeBound read) ∧
      sizeBound tokens ≤ tapeLimit * (Text.words text).length := by
  have hread : ∀ token ∈ tokens, token.WellRead :=
    (((Token.settles_ofText text).mono (fun _ hgood => hgood) fun _ _ => trivial).of_ok h).1
  refine ⟨?_, ?_, ?_, ?_⟩
  · intro hfair
    obtain ⟨elements, after, hok, -⟩ :=
      (settles_expand_of_fits context fun token hmem => (hread token hmem).fits).exists_ok
        place hfair
    exact ⟨elements, after, hok⟩
  · intro elements after hok
    exact (length_expand context hread).of_ok hok
  · rintro read unread rfl
    refine ⟨expand_append context read unread, fun progress after hok => ?_⟩
    have hsize := (size_advance context
      (fun token hmem => hread token (List.mem_append_left _ hmem)) unread .start).of_ok hok
    rwa [size_start, Nat.zero_add] at hsize
  · rw [← length_ofText h]
    exact sizeBound_le tokens

/-- Sixty-nine thousand million replays are asked for. -/
theorem length_expand_le_nested :
    (Token.ofText "[ [ [ 60 ]*4096 ]*4096 ]*4096").outcome ⟨.script ⟨#[], 0⟩, #[]⟩ =
        (.ok [.groupStart, .groupStart, .groupStart, .note "60", .groupRepeat 4096,
          .groupRepeat 4096, .groupRepeat 4096], ⟨.script ⟨#[], 0⟩, #[]⟩) ∧
      ∃ elements after,
        (expand .standard [.groupStart, .groupStart, .groupStart, .note "60", .groupRepeat 4096,
          .groupRepeat 4096, .groupRepeat 4096]).outcome ⟨.script ⟨#[], 0⟩, #[]⟩ =
            (.ok elements, after) ∧
          elements.length ≤ 3 * 65536 + 1 := by
  have htokens : (Token.ofText "[ [ [ 60 ]*4096 ]*4096 ]*4096").outcome
      ⟨.script ⟨#[], 0⟩, #[]⟩ =
        (.ok [.groupStart, .groupStart, .groupStart, .note "60", .groupRepeat 4096,
          .groupRepeat 4096, .groupRepeat 4096], ⟨.script ⟨#[], 0⟩, #[]⟩) := by
    decide +kernel
  obtain ⟨hreturns, hlength, -, -⟩ :=
    length_expand_le htokens .standard ⟨.script ⟨#[], 0⟩, #[]⟩
  obtain ⟨elements, after, hok⟩ := hreturns (by simp [Source.Fair])
  exact ⟨htokens, elements, after, hok, hlength elements after hok⟩

end Expansion
end NoteTape
