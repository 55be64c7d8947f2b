import NoteTape.Proofs.Pattern.Failure
import NoteTape.Proofs.Pattern.Seam

/-!
# Spread calls in succession

A text is read as a *succession*: a plain text, in which no call begins, then calls whose
parenthesis is closed by their last character, each with a plain text behind it, and at the end
perhaps a call that is never closed.  The search for calls goes through the text from left to
right.  It does not find a call across a boundary, since `spread(` has its first letter and its
parenthesis only once: `pieces_plain_append`, `pieces_succession`.  It passes over everything inside
a call, whatever is nested there, because the arguments of the call are balanced:
`closeFrom_of_wellNested`.

So the calls are expanded one after the other, each as if it were alone, and the texts between them
stay: `expandCalls_succession`.  It is an equation of plays.  The calls take their draws in the order
in which they stand, and what is said about them is said in that order.
-/

namespace NoteTape

namespace Call

/-! ## Parts -/

/-- No beginning of the text closes more parentheses than it opens, so a parenthesis before the text
is never closed in it. -/
def Unclosed (text : List Char) : Prop :=
  ∀ head, head <+: text → head.count ')' ≤ head.count '('

instance (text : List Char) : Decidable (Unclosed text) :=
  decidable_of_iff (∀ head ∈ text.inits, head.count ')' ≤ head.count '(') <|
    forall_congr' fun head => by rw [List.mem_inits]

theorem wellNested_iff {text : List Char} :
    WellNested text ↔ Unclosed text ∧ text.count ')' = text.count '(' :=
  ⟨fun h => ⟨h.closes_le, h.closes_eq⟩, fun h => ⟨h.1, h.2⟩⟩

instance (text : List Char) : Decidable (WellNested text) := decidable_of_iff' _ wellNested_iff

/-- No spread call begins in the text. -/
def Plain (text : List Char) : Prop := ¬ spreadHead <:+: text

instance (text : List Char) : Decidable (Plain text) :=
  inferInstanceAs (Decidable (¬ spreadHead <:+: text))

theorem Plain.of_suffix {text x : List Char} (h : Plain text) (hx : x <:+ text) : Plain x :=
  fun hhead => h (hhead.trans hx.isInfix)

/-- A call and the text behind it. -/
structure Part where
  arguments : List Char
  behind : List Char
  deriving DecidableEq, Repr

/-- The arguments are balanced, and no call begins behind them. -/
structure Part.Proper (part : Part) : Prop where
  arguments_wellNested : WellNested part.arguments
  behind_plain : Plain part.behind

/-- The call of a part by itself. -/
def Part.call (part : Part) : List Char := spreadText part.arguments

/-- A text and parts behind it. -/
def succession (first : List Char) (parts : List Part) : List Char :=
  first ++ parts.flatMap fun part => part.call ++ part.behind

/-! ## The end of a call -/

theorem closeFrom_of_wellNested {arguments : List Char} (h : WellNested arguments)
    (rest : List Char) : closeFrom 0 [] (arguments ++ ')' :: rest) = some (arguments, rest) := by
  have hcloses : ∀ head, head <+: arguments → head.count ')' ≤ 0 + head.count '(' := by
    intro head hhead
    rw [Nat.zero_add]
    exact h.closes_le head hhead
  have hlevel : 0 + arguments.count '(' - arguments.count ')' = 0 := by
    have heq := h.closes_eq
    omega
  rw [closeFrom_over hcloses, hlevel, closeFrom_end, List.append_nil, List.reverse_reverse]

theorem closeFrom_of_unclosed {text : List Char} (h : Unclosed text) :
    closeFrom 0 [] text = none := by
  have hcloses : ∀ head, head <+: text → head.count ')' ≤ 0 + head.count '(' := by
    intro head hhead
    rw [Nat.zero_add]
    exact h head hhead
  rw [← List.append_nil text, closeFrom_over hcloses, closeFrom]

/-- A call is found whole, whatever stands behind it. -/
theorem found?_spread?_spreadText {arguments : List Char} (h : WellNested arguments)
    (rest : List Char) :
    found? spread? (spreadText arguments ++ rest) = some (.closed arguments, rest) := by
  have htext : spreadText arguments ++ rest = spreadHead ++ (arguments ++ ')' :: rest) := by
    simp [spreadText]
  rw [htext, found?_spread?_of_closed (closeFrom_of_wellNested h rest)]

/-- A call that is never closed takes everything behind it. -/
theorem found?_spread?_unclosed {body : List Char} (h : Unclosed body) :
    found? spread? (spreadHead ++ body) = some (.unclosed (spreadHead ++ body), []) := by
  have hafter : Text.after? spreadHead (spreadHead ++ body) = some body :=
    Text.after?_eq_some_iff.mpr rfl
  have hnone := closeFrom_of_unclosed h
  rw [found?, spread?]
  split
  · next hbody =>
    rw [hafter] at hbody
    exact absurd hbody (by simp)
  · next body' hbody =>
    obtain rfl := Option.some.inj (hafter.symm.trans hbody)
    split
    · next hsome =>
      rw [hnone] at hsome
      exact absurd hsome (by simp)
    · rfl

/-! ## The search -/

/-- **A plain text is passed over** up to the next call or to the end.  A call that began in the
plain text and ended behind it would have the first letter of `spread(` a second time. -/
theorem pieces_plain_append {text rest : List Char} (h : Plain text)
    (hrest : rest = [] ∨ spreadHead <+: rest) :
    pieces spread? (text ++ rest) = text.map .inl ++ pieces spread? rest := by
  induction text with
  | nil => rfl
  | cons c text ih =>
    have hnone : found? spread? (c :: text ++ rest) = none := by
      refine found?_spread?_of_not_begins fun hlong => ?_
      rcases List.prefix_or_prefix_of_prefix hlong (List.prefix_append (c :: text) rest) with
        hinside | hover
      · exact h hinside.isInfix
      obtain ⟨middle, hmiddle⟩ := hover
      have hbehind : middle <+: rest := by
        rw [← hmiddle] at hlong
        exact (List.prefix_append_right_inj (c :: text)).mp hlong
      rcases hrest with rfl | ⟨body, rfl⟩
      · obtain rfl := List.prefix_nil.mp hbehind
        rw [List.append_nil] at hmiddle
        exact h (hmiddle ▸ List.infix_rfl)
      · cases middle with
        | nil =>
          rw [List.append_nil] at hmiddle
          exact h (hmiddle ▸ List.infix_rfl)
        | cons d middle =>
          -- the letter behind the boundary is the first of `spread(`, and stands in it again
          obtain rfl : d = 's' := (List.cons_prefix_cons.mp hbehind).1
          have htail : 's' ∈ spreadHead.tail := by
            rw [← hmiddle, List.cons_append, List.tail_cons]
            exact List.mem_append_right text (List.mem_cons_self ..)
          exact absurd htail (by decide)
    rw [List.cons_append] at hnone
    rw [List.cons_append, pieces_of_none hnone, ih (h.of_suffix (List.suffix_cons c text)),
      List.map_cons, List.cons_append]

/-- The pieces of a part. -/
def Part.pieces (part : Part) : List (Char ⊕ Spread) :=
  .inr (.closed part.arguments) :: part.behind.map .inl

/-- **The pieces of a succession** are the characters of the plain texts and the calls. -/
theorem pieces_succession {first rest : List Char} {parts : List Part} (hfirst : Plain first)
    (hparts : ∀ part ∈ parts, part.Proper) (hrest : rest = [] ∨ spreadHead <+: rest) :
    Call.pieces spread? (succession first parts ++ rest) =
      first.map .inl ++ (parts.flatMap Part.pieces ++ Call.pieces spread? rest) := by
  induction parts generalizing first with
  | nil =>
    rw [succession, List.flatMap_nil, List.append_nil, pieces_plain_append hfirst hrest]
    rfl
  | cons part parts ih =>
    obtain ⟨hpart, hothers⟩ := List.forall_mem_cons.mp hparts
    have hcut : succession first (part :: parts) ++ rest =
        first ++ (part.call ++ (succession part.behind parts ++ rest)) := by
      simp [succession]
    have hcall : spreadHead <+: part.call ++ (succession part.behind parts ++ rest) := by
      rw [Part.call, spreadText, List.append_assoc, List.append_assoc]
      exact List.prefix_append _ _
    rw [hcut, pieces_plain_append hfirst (.inr hcall), Part.call,
      pieces_of_some (found?_spread?_spreadText hpart.arguments_wellNested _),
      ih hpart.behind_plain hothers, List.flatMap_cons, Part.pieces]
    simp

end Call

namespace Pattern

open Play (Settles)
open Call (Part Plain Unclosed spreadHead spread? succession)

/-! ## The calls one after the other -/

/-- A part becomes what its call expands to, and the text behind it. -/
def expandPart (context : Context) (part : Part) : Play (List Char) := do
  let text ← expandCalls context (.ofList part.call)
  return text.toList ++ part.behind

/-- A call by itself is expanded as it is in a text. -/
theorem expandPart_eq (context : Context) {part : Part} (hpart : part.Proper)
    (heuclid : ¬ ['E', '('] <:+: part.call) :
    expandPart context part = do
      let text ← expandSpread (innerCompiler context) part.arguments
      return text ++ part.behind := by
  have hpieces : Call.pieces spread? part.call = [.inr (.closed part.arguments)] := by
    have hfound := Call.found?_spread?_spreadText hpart.arguments_wellNested []
    rw [List.append_nil] at hfound
    exact Call.pieces_of_whole hfound
  rw [expandPart, expandCalls, expandCallsWith, String.toList_ofList,
    Call.expandEuclids_of_not_infix heuclid, pure_bind, hpieces, Call.replaceCalls_singleton]
  simp only [bind_assoc, pure_bind, String.toList_ofList]
  rfl

/-- The pieces of parts are replaced part by part. -/
theorem replaceCalls_parts (context : Context) (size : Nat) {parts : List Part}
    (hparts : ∀ part ∈ parts, part.Proper)
    (heuclid : ∀ part ∈ parts, ¬ ['E', '('] <:+: part.call) :
    Call.replaceCalls (expandSpreadPiece (innerCompiler context) size) (parts.flatMap Part.pieces) =
      do return (← parts.mapM (expandPart context)).flatten := by
  induction parts with
  | nil => rfl
  | cons part parts ih =>
    obtain ⟨hpart, hothers⟩ := List.forall_mem_cons.mp hparts
    obtain ⟨hcall, hcalls⟩ := List.forall_mem_cons.mp heuclid
    have hpiece : Call.replaceCalls (expandSpreadPiece (innerCompiler context) size) part.pieces =
        expandPart context part := by
      rw [Part.pieces, ← List.singleton_append, Call.replaceCalls_append,
        Call.replaceCalls_singleton, Call.replaceCalls_map_inl, expandPart_eq context hpart hcall]
      simp only [pure_bind]
      rfl
    rw [List.flatMap_cons, Call.replaceCalls_append, hpiece, ih hothers hcalls, List.mapM_cons]
    simp only [bind_assoc, pure_bind, List.flatten_cons]

/-- What stands behind a succession, from a call on or nothing, is searched by itself. -/
theorem expandCalls_append (context : Context) {first rest : List Char} {parts : List Part}
    (hfirst : Plain first) (hparts : ∀ part ∈ parts, part.Proper)
    (hrest : rest = [] ∨ spreadHead <+: rest)
    (heuclid : ¬ ['E', '('] <:+: succession first parts ++ rest) :
    expandCalls context (.ofList (succession first parts ++ rest)) = do
      let texts ← parts.mapM (expandPart context)
      let last ← Call.replaceCalls
        (expandSpreadPiece (innerCompiler context) (succession first parts ++ rest).length)
        (Call.pieces spread? rest)
      return .ofList (first ++ texts.flatten ++ last) := by
  have hcalls : ∀ part ∈ parts, ¬ ['E', '('] <:+: part.call := by
    intro part hpart hcall
    have hinside : part.call <:+: parts.flatMap fun part => part.call ++ part.behind := by
      rw [List.flatMap_def]
      exact (List.prefix_append part.call part.behind).isInfix.trans
        (List.infix_of_mem_flatten (List.mem_map_of_mem hpart))
    refine heuclid (hcall.trans (hinside.trans ?_))
    exact ((List.suffix_append first _).isInfix.trans (List.prefix_append _ rest).isInfix)
  rw [expandCalls, expandCallsWith, String.toList_ofList,
    Call.expandEuclids_of_not_infix heuclid, pure_bind,
    Call.pieces_succession hfirst hparts hrest, Call.replaceCalls_append,
    Call.replaceCalls_append, Call.replaceCalls_map_inl, replaceCalls_parts _ _ hparts hcalls]
  simp only [bind_assoc, pure_bind, List.append_assoc]

/-- From a source of random numbers every part is expanded. -/
theorem exists_expandParts (context : Context) (parts : List Part) {desk : Desk}
    (hfair : desk.source.Fair) :
    ∃ texts after, (parts.mapM (expandPart context)).outcome desk = (.ok texts, after) ∧
      texts.length = parts.length := by
  have hcalls (pattern : String) :
      Settles Source.Fair (expandCalls context pattern) (fun _ => True) fun _ => False := by
    refine (settles_expandCallsWith ?_ _).bind fun _ _ => .pure trivial
    rintro compile ⟨⟩
    exact soft_compiler context _
  have hparts : Settles Source.Fair (parts.mapM (expandPart context))
      (List.Forall₂ (fun _ _ => True) parts) fun fault => ∃ part ∈ parts, False :=
    .mapM fun part _ => (hcalls _).bind fun _ _ => .pure trivial
  obtain ⟨texts, after, hok, hlength, -⟩ := (hparts.mono (fun _ h => h)
    fun _ ⟨_, _, hfalse⟩ => hfalse).exists_ok desk hfair
  exact ⟨texts, after, hok, hlength.length_eq.symm⟩

/-- **Calls in succession are expanded one after the other.**  In a text without `E(`, the plain
texts stay in their places and every call becomes what it expands to by itself, with its draws and
its notices in the order of the calls.  A call that is never closed at the end of the text stays as
it stands, with a warning.  From a source of random numbers every call expands. -/
theorem expandCalls_succession (context : Context) {first : List Char} {parts : List Part}
    (hfirst : Plain first) (hparts : ∀ part ∈ parts, part.Proper) :
    (¬ ['E', '('] <:+: succession first parts →
      expandCalls context (.ofList (succession first parts)) = do
        let texts ← parts.mapM (expandPart context)
        return .ofList (first ++ texts.flatten)) ∧
      (∀ body, Unclosed body → ¬ ['E', '('] <:+: succession first parts ++ (spreadHead ++ body) →
        expandCalls context (.ofList (succession first parts ++ (spreadHead ++ body))) = do
          let texts ← parts.mapM (expandPart context)
          Play.notify .warning .pattern
            (s!"Unbalanced spread call at offset {(succession first parts).length}: " ++
              Text.quoted (.ofList (spreadHead ++ body)))
          return .ofList (first ++ texts.flatten ++ (spreadHead ++ body))) ∧
      ∀ desk : Desk, desk.source.Fair →
        ∃ texts after, (parts.mapM (expandPart context)).outcome desk = (.ok texts, after) ∧
          texts.length = parts.length := by
  refine ⟨fun heuclid => ?_, fun body hbody heuclid => ?_,
    fun desk => exists_expandParts context parts⟩
  · have h := expandCalls_append context hfirst hparts (.inl rfl)
      (by rwa [List.append_nil])
    rw [List.append_nil, Call.pieces_nil] at h
    rw [h]
    simp [Call.replaceCalls]
  · rw [expandCalls_append context hfirst hparts (.inr (List.prefix_append _ _)) heuclid,
      Call.pieces_of_whole (Call.found?_spread?_unclosed hbody), Call.replaceCalls_singleton,
      expandSpreadPiece, List.length_append, Nat.add_sub_cancel]
    simp only [bind_assoc, pure_bind]

/-- The parts of a text with a call inside a call, and with one that has a single argument. -/
def twoParts : List Part :=
  [⟨"? spread(2 ?<5-9>,3),2".toList, " - s".toList⟩, ⟨"(1,2)".toList, []⟩]

/-- The first call is expanded with the call in it, the second is left, and the third is never
closed.  Before the calls stand letters with which a call could begin. -/
theorem expandCalls_succession_nested :
    Plain "sprea".toList ∧ (∀ part ∈ twoParts, part.Proper) ∧ Unclosed "4,(5)".toList ∧
      ¬ ['E', '('] <:+: succession "sprea".toList twoParts ++ (spreadHead ++ "4,(5)".toList) ∧
      ((expandCalls .standard
        "spreaspread(? spread(2 ?<5-9>,3),2) - sspread((1,2))spread(4,(5)").outcome
          ⟨.script ⟨#[], 0⟩, #[]⟩).1 = .ok "sprea1 2 - sspread((1,2))spread(4,(5)" := by
  have hfirst : Plain "sprea".toList := by decide +kernel
  have hparts : ∀ part ∈ twoParts, part.Proper := by
    have h : ∀ part ∈ twoParts, Call.WellNested part.arguments ∧ Plain part.behind := by
      decide +kernel
    exact fun part hpart => ⟨(h part hpart).1, (h part hpart).2⟩
  have hbody : Unclosed "4,(5)".toList := by decide +kernel
  have heuclid : ¬ ['E', '('] <:+:
      succession "sprea".toList twoParts ++ (spreadHead ++ "4,(5)".toList) := by
    decide +kernel
  refine ⟨hfirst, hparts, hbody, heuclid, ?_⟩
  have htext : "spreaspread(? spread(2 ?<5-9>,3),2) - sspread((1,2))spread(4,(5)" =
      String.ofList (succession "sprea".toList twoParts ++ (spreadHead ++ "4,(5)".toList)) := by
    decide +kernel
  obtain ⟨-, hunclosed, -⟩ := expandCalls_succession .standard hfirst hparts
  rw [htext, hunclosed _ hbody heuclid]
  decide +kernel

end Pattern
end NoteTape
