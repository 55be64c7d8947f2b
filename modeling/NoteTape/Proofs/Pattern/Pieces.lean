import NoteTape.Pattern.Compile
import NoteTape.Proofs.Play.Alike

/-!
# Pieces of a text

`Call.pieces` cuts a text into characters and calls.  This file says what the cutting does, for
any reader of calls; the two readers of the notation come in later.

* `pieces_of_none`, `pieces_of_some`: one step of the search, without its accumulator, and
  `pieces_induction`: the induction along it.
* `flatMap_piece`: written again, the pieces are the text, when a reader's calls are what it has
  read; and every call among them begins somewhere in the text, `exists_suffix_of_mem`.
* `pieces_append`: two texts are cut one after the other, when no call of the first one reaches
  over its end.
* `replaceCalls_map_inl`, `alike_replaceCalls`: what replacing the calls of a text comes to.
-/

namespace NoteTape
namespace Call

open Play (Alike)

variable {β : Type} {call? : (cs : List Char) → Option (β × Shorter cs)} {call : β}
  {c : Char} {cs rest tail : List Char}

/-- The call at the beginning of a text and the text behind it. -/
def found? (call? : (cs : List Char) → Option (β × Shorter cs)) (cs : List Char) :
    Option (β × List Char) :=
  (call? cs).map fun found => (found.1, found.2.1)

theorem found?_eq_none_iff : found? call? cs = none ↔ call? cs = none := Option.map_eq_none_iff

theorem exists_of_found? (h : found? call? cs = some (call, rest)) :
    ∃ shorter, call? cs = some (call, ⟨rest, shorter⟩) := by
  obtain ⟨⟨found, after, shorter⟩, hfound, heq⟩ := Option.map_eq_some_iff.mp h
  obtain ⟨rfl, rfl⟩ := Prod.mk.inj heq
  exact ⟨shorter, hfound⟩

theorem found?_of_eq_some {shorter : rest.length < cs.length}
    (h : call? cs = some (call, ⟨rest, shorter⟩)) : found? call? cs = some (call, rest) := by
  rw [found?, h]
  rfl

/-- What a reader takes for a call is what it has read. -/
def Faithful (call? : (cs : List Char) → Option (β × Shorter cs)) (text : β → List Char) : Prop :=
  ∀ cs call rest, found? call? cs = some (call, rest) → cs = text call ++ rest

variable {text : β → List Char}

theorem Faithful.suffix (h : Faithful call? text) (hfound : found? call? cs = some (call, rest)) :
    rest <:+ cs :=
  ⟨text call, (h cs call rest hfound).symm⟩

/-! ## The search -/

theorem piecesFrom_eq (found : List (Char ⊕ β)) (cs : List Char) :
    piecesFrom call? found cs = found.reverse ++ pieces call? cs := by
  have happend (cs : List Char) : ∀ found before : List (Char ⊕ β),
      piecesFrom call? (found ++ before) cs = before.reverse ++ piecesFrom call? found cs := by
    intro found
    induction found, cs using piecesFrom.induct call? with
    | case1 found =>
      intro before
      rw [piecesFrom, piecesFrom, List.reverse_append]
    | case2 found c tail call rest shorter hcall ih =>
      intro before
      rw [piecesFrom, piecesFrom, hcall]
      exact ih before
    | case3 found c tail hcall ih =>
      intro before
      rw [piecesFrom, piecesFrom, hcall]
      exact ih before
  exact happend cs [] found

@[simp] theorem pieces_nil : pieces call? [] = [] := by
  rw [pieces, piecesFrom, List.reverse_nil]

theorem pieces_of_none (h : found? call? (c :: tail) = none) :
    pieces call? (c :: tail) = .inl c :: pieces call? tail := by
  rw [pieces, piecesFrom, found?_eq_none_iff.mp h]
  exact piecesFrom_eq [.inl c] tail

theorem pieces_of_some (h : found? call? cs = some (call, rest)) :
    pieces call? cs = .inr call :: pieces call? rest := by
  obtain ⟨shorter, hcall⟩ := exists_of_found? h
  cases cs with
  | nil => exact absurd shorter (Nat.not_lt_zero _)
  | cons c tail =>
    rw [pieces, piecesFrom, hcall]
    exact piecesFrom_eq [.inr call] rest

/-- Induction along the search: over a character where no call begins, and over a call. -/
theorem pieces_induction (call? : (cs : List Char) → Option (β × Shorter cs))
    {motive : List Char → Prop} (nil : motive [])
    (char : ∀ c tail, found? call? (c :: tail) = none → motive tail → motive (c :: tail))
    (call : ∀ cs call rest, found? call? cs = some (call, rest) → motive rest → motive cs)
    (cs : List Char) : motive cs := by
  induction h : cs.length using Nat.strongRecOn generalizing cs with
  | ind n ih =>
    cases hfound : found? call? cs with
    | some found =>
      obtain ⟨shorter, -⟩ := exists_of_found? hfound
      exact call cs found.1 found.2 hfound (ih _ (h ▸ shorter) found.2 rfl)
    | none =>
      cases cs with
      | nil => exact nil
      | cons c tail =>
        have hlength : tail.length < n := by
          rw [← h, List.length_cons]
          omega
        exact char c tail hfound (ih _ hlength tail rfl)

/-- A text that is one call from its first character to its last. -/
theorem pieces_of_whole (h : found? call? cs = some (call, [])) :
    pieces call? cs = [.inr call] := by
  rw [pieces_of_some h, pieces_nil]

/-- A text in front in which no call begins is cut into its characters. -/
theorem pieces_append_of_none (h : ∀ c ∈ cs, ∀ tail, call? (c :: tail) = none) :
    pieces call? (cs ++ rest) = cs.map .inl ++ pieces call? rest := by
  induction cs with
  | nil => rfl
  | cons c cs ih =>
    obtain ⟨hc, hcs⟩ := List.forall_mem_cons.mp h
    rw [List.cons_append, pieces_of_none (found?_eq_none_iff.mpr (hc _)), ih hcs, List.map_cons,
      List.cons_append]

theorem pieces_of_forall_none (h : ∀ c ∈ cs, ∀ tail, call? (c :: tail) = none) :
    pieces call? cs = cs.map .inl := by
  have happend : pieces call? (cs ++ []) = cs.map .inl ++ pieces call? [] :=
    pieces_append_of_none h
  rwa [List.append_nil, pieces_nil, List.append_nil] at happend

/-- **Two texts are cut one after the other,** when in front of the second one the first is read
as it is by itself. -/
theorem pieces_append (hfaithful : Faithful call? text)
    (h : ∀ x, x <:+ cs → x ≠ [] →
      found? call? (x ++ rest) = (found? call? x).map fun found => (found.1, found.2 ++ rest)) :
    pieces call? (cs ++ rest) = pieces call? cs ++ pieces call? rest := by
  induction cs using pieces_induction call? with
  | nil => rw [List.nil_append, pieces_nil, List.nil_append]
  | char c tail hnone ih =>
    have hfound := h (c :: tail) List.suffix_rfl (List.cons_ne_nil c tail)
    rw [hnone, Option.map_none, List.cons_append] at hfound
    rw [List.cons_append, pieces_of_none hfound, pieces_of_none hnone, List.cons_append, ih]
    intro x hx
    exact h x (hx.trans (List.suffix_cons c tail))
  | call cs call after hsome ih =>
    have hne : cs ≠ [] := by
      rintro rfl
      obtain ⟨shorter, -⟩ := exists_of_found? hsome
      exact absurd shorter (Nat.not_lt_zero _)
    have hfound := h cs List.suffix_rfl hne
    rw [hsome, Option.map_some] at hfound
    rw [pieces_of_some hfound, pieces_of_some hsome, List.cons_append, ih]
    intro x hx
    exact h x (hx.trans (hfaithful.suffix hsome))

/-! ## The pieces and the text -/

/-- A piece as a text, given the texts of calls. -/
def pieceText (text : β → List Char) : Char ⊕ β → List Char := Sum.elim (fun c => [c]) text

@[simp] theorem pieceText_inl (text : β → List Char) (c : Char) :
    pieceText text (.inl c) = [c] := rfl

@[simp] theorem pieceText_inr (text : β → List Char) (call : β) :
    pieceText text (.inr call) = text call := rfl

/-- **Written again, the pieces are the text.** -/
theorem flatMap_piece (h : Faithful call? text) (cs : List Char) :
    (pieces call? cs).flatMap (pieceText text) = cs := by
  induction cs using pieces_induction call? with
  | nil => rw [pieces_nil, List.flatMap_nil]
  | char c tail hnone ih =>
    rw [pieces_of_none hnone, List.flatMap_cons, ih, pieceText_inl, List.singleton_append]
  | call cs call rest hsome ih =>
    rw [pieces_of_some hsome, List.flatMap_cons, ih, pieceText_inr, ← h cs call rest hsome]

/-- Every call among the pieces begins somewhere in the text. -/
theorem exists_suffix_of_mem (h : Faithful call? text) (hmem : .inr call ∈ pieces call? cs) :
    ∃ x rest, x <:+ cs ∧ found? call? x = some (call, rest) := by
  induction cs using pieces_induction call? with
  | nil => simp at hmem
  | char c tail hnone ih =>
    rw [pieces_of_none hnone, List.mem_cons] at hmem
    rcases hmem with heq | hmem
    · exact absurd heq (by simp)
    · obtain ⟨x, rest, hx, hfound⟩ := ih hmem
      exact ⟨x, rest, hx.trans (List.suffix_cons c tail), hfound⟩
  | call cs other after hsome ih =>
    rw [pieces_of_some hsome, List.mem_cons] at hmem
    rcases hmem with heq | hmem
    · obtain rfl := Sum.inr.inj heq
      exact ⟨cs, after, List.suffix_rfl, hsome⟩
    · obtain ⟨x, rest, hx, hfound⟩ := ih hmem
      exact ⟨x, rest, hx.trans (h.suffix hsome), hfound⟩

/-! ## Replacing the calls -/

variable {expand expand' : β → Play (List Char)}

theorem replaceCalls_map_inl (expand : β → Play (List Char)) (cs : List Char) :
    replaceCalls expand (cs.map .inl) = pure cs := by
  rw [replaceCalls, List.mapM_map]
  change (cs.mapM fun c => (pure [c] : Play (List Char))) >>= _ = _
  rw [List.mapM_pure, pure_bind]
  congr 1
  induction cs with
  | nil => rfl
  | cons c cs ih => rw [List.map_cons, List.flatten_cons, ih, List.singleton_append]

/-- A text that is one call becomes what the call expands to. -/
theorem replaceCalls_singleton (expand : β → Play (List Char)) (call : β) :
    replaceCalls expand [.inr call] = expand call := by
  rw [replaceCalls, List.mapM_cons, List.mapM_nil]
  simp

theorem alike_replaceCalls {parts : List (Char ⊕ β)}
    (h : ∀ call, .inr call ∈ parts → Alike (expand call) (expand' call)) :
    Alike (replaceCalls expand parts) (replaceCalls expand' parts) := by
  refine (Alike.mapM fun part hmem => ?_).bind fun texts => .pure texts.flatten
  cases part with
  | inl c => exact .pure [c]
  | inr call => exact h call hmem

/-- Calls that are replaced without a draw are replaced as if by a function. -/
theorem alike_replaceCalls_pure {replacement : β → List Char} {parts : List (Char ⊕ β)}
    (h : ∀ call, .inr call ∈ parts → Alike (expand call) (pure (replacement call))) :
    Alike (replaceCalls expand parts) (pure (parts.flatMap (pieceText replacement))) := by
  have hpure : (parts.mapM fun part => (pure (pieceText replacement part) : Play (List Char))) >>=
      (fun texts => pure texts.flatten) = pure (parts.flatMap (pieceText replacement)) := by
    rw [List.mapM_pure, pure_bind, List.flatMap_def]
  rw [← hpure]
  refine (Alike.mapM fun part hmem => ?_).bind fun texts => .pure texts.flatten
  cases part with
  | inl c => exact .pure [c]
  | inr call => exact h call hmem

end Call
end NoteTape
