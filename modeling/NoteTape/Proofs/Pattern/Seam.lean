import NoteTape.Proofs.Pattern.Nesting

/-!
# Calls on the two sides of a space

A text is *closing* when every opening parenthesis in it is closed behind it.  Behind such a text,
and a space, another one may be put, and the calls of the two are expanded one text after the
other: no call that begins in the first one reaches over its end.  A Euclidean call does not since
it ends at its first closing parenthesis, and a spread call does not since its parenthesis is
closed before.  This is `alike_expandCallsWith_append`.

The pass over the Euclidean calls comes first, so a closing text must stay one in it,
`Closing.replaceEuclids`: it can lose a pair of parentheses, a whole call at a time.
-/

namespace NoteTape

open Play (Alike)

namespace Call

open Text (isBlank isDigit)

/-- Behind every place at least as many parentheses are closed as are opened. -/
def Closing (text : List Char) : Prop := ∀ x, x <:+ text → x.count '(' ≤ x.count ')'

theorem closing_of_not_mem {text : List Char} (h : '(' ∉ text) : Closing text := by
  intro x hx
  rw [List.count_eq_zero.mpr fun hmem => h (hx.subset hmem)]
  exact Nat.zero_le _

theorem WellNested.closing {text : List Char} (h : WellNested text) : Closing text :=
  fun _ hx => h.opens_le hx

theorem Closing.of_suffix {text x : List Char} (h : Closing text) (hx : x <:+ text) : Closing x :=
  fun y hy => h y (hy.trans hx)

/-! ## Spread calls at a seam -/

/-- A parenthesis is closed where more are closed than opened. -/
theorem isSome_closeFrom {depth : Nat} {cs : List Char}
    (h : cs.count '(' + depth < cs.count ')') (inside : List Char) :
    (closeFrom depth inside cs).isSome = true := by
  induction cs generalizing depth inside with
  | nil => simp at h
  | cons c cs ih =>
    by_cases hopen : c = '('
    · subst hopen
      rw [List.count_cons_self, List.count_cons_of_ne (by decide)] at h
      rw [closeFrom_open]
      exact ih (by omega) _
    by_cases hclose : c = ')'
    · subst hclose
      rw [List.count_cons_self, List.count_cons_of_ne (by decide)] at h
      cases depth with
      | zero => rw [closeFrom_end, Option.isSome_some]
      | succ outer =>
        rw [closeFrom_close]
        exact ih (by omega) _
    rw [List.count_cons_of_ne hopen, List.count_cons_of_ne hclose] at h
    rw [closeFrom_of_ne hopen hclose]
    exact ih h _

/-- What stands behind the closing parenthesis does not matter. -/
theorem closeFrom_append_rest {depth : Nat} {inside cs arguments behind : List Char}
    (h : closeFrom depth inside cs = some (arguments, behind)) (rest : List Char) :
    closeFrom depth inside (cs ++ rest) = some (arguments, behind ++ rest) := by
  induction cs generalizing depth inside with
  | nil => simp [closeFrom] at h
  | cons c cs ih =>
    rw [List.cons_append]
    by_cases hopen : c = '('
    · subst hopen
      rw [closeFrom_open] at h ⊢
      exact ih h
    by_cases hclose : c = ')'
    · subst hclose
      cases depth with
      | zero =>
        rw [closeFrom_end] at h ⊢
        obtain ⟨rfl, rfl⟩ := Prod.mk.inj (Option.some.inj h)
        rfl
      | succ outer =>
        rw [closeFrom_close] at h ⊢
        exact ih h
    rw [closeFrom_of_ne hopen hclose] at h ⊢
    exact ih h

theorem found?_spread?_of_not_begins {cs : List Char} (h : ¬ spreadHead <+: cs) :
    found? spread? cs = none := by
  have hafter : Text.after? spreadHead cs = none := by
    rw [Option.eq_none_iff_forall_ne_some]
    intro body hbody
    exact h ⟨body, (Text.after?_eq_some_iff.mp hbody).symm⟩
  rw [found?_eq_none_iff, spread?]
  split
  · rfl
  · next body hbody =>
    rw [hafter] at hbody
    simp at hbody

theorem found?_spread?_of_closed {body arguments rest : List Char}
    (h : closeFrom 0 [] body = some (arguments, rest)) :
    found? spread? (spreadHead ++ body) = some (.closed arguments, rest) := by
  have hafter : Text.after? spreadHead (spreadHead ++ body) = some body :=
    Text.after?_eq_some_iff.mpr rfl
  rw [found?, spread?]
  split
  · next hnone =>
    rw [hafter] at hnone
    simp at hnone
  · next body' hbody =>
    obtain rfl := Option.some.inj (hafter.symm.trans hbody)
    split
    · next hsome =>
      obtain ⟨rfl, rfl⟩ := Prod.mk.inj (Option.some.inj (h.symm.trans hsome))
      rfl
    · next hnone =>
      rw [h] at hnone
      simp at hnone

/-- A closing text in front of a space is searched for a spread call as by itself. -/
theorem found?_spread?_append {x : List Char} (hx : Closing x) (rest : List Char) :
    found? spread? (x ++ ' ' :: rest) =
      (found? spread? x).map fun found => (found.1, found.2 ++ ' ' :: rest) := by
  by_cases hhead : spreadHead <+: x
  · obtain ⟨body, rfl⟩ := hhead
    have hcount := hx _ List.suffix_rfl
    rw [List.count_append, List.count_append] at hcount
    have hopen : spreadHead.count '(' = 1 ∧ spreadHead.count ')' = 0 := by decide
    obtain ⟨⟨arguments, behind⟩, hclose⟩ :=
      Option.isSome_iff_exists.mp (isSome_closeFrom (by omega : body.count '(' + 0 < _) [])
    rw [List.append_assoc, found?_spread?_of_closed (closeFrom_append_rest hclose _),
      found?_spread?_of_closed hclose, Option.map_some]
  · rw [found?_spread?_of_not_begins hhead, found?_spread?_of_not_begins, Option.map_none]
    intro hlong
    have hspace : ' ' ∉ spreadHead := by decide
    have hcut : x ++ [' '] <+: x ++ ' ' :: rest := ⟨rest, by simp⟩
    rcases List.prefix_or_prefix_of_prefix hlong hcut with h | h
    · rcases List.prefix_concat_iff.mp h with h | h
      · exact hspace (h ▸ List.mem_append_right x (List.mem_singleton_self ' '))
      · exact hhead h
    · exact hspace (h.subset (List.mem_append_right x (List.mem_singleton_self ' ')))

/-! ## Euclidean calls at a seam -/

theorem found?_euclid?_append_space {x : List Char} (hne : x ≠ []) (hx : Closing x)
    (rest : List Char) :
    found? euclid? (x ++ ' ' :: rest) =
      (found? euclid? x).map fun found => (found.1, found.2 ++ ' ' :: rest) :=
  found?_euclid?_append hne (hx x List.suffix_rfl) (by simp)

/-! ## Both passes at a seam -/

section

variable {β : Type} {call? : (cs : List Char) → Option (β × Shorter cs)} {text : β → List Char}

/-- A space divides the pieces of a text when no call reaches over it and none begins with it. -/
theorem pieces_append_space (hfaithful : Faithful call? text) {cs rest : List Char}
    (hspace : found? call? (' ' :: rest) = none)
    (h : ∀ x, x <:+ cs → x ≠ [] → found? call? (x ++ ' ' :: rest) =
      (found? call? x).map fun found => (found.1, found.2 ++ ' ' :: rest)) :
    pieces call? (cs ++ ' ' :: rest) = pieces call? cs ++ .inl ' ' :: pieces call? rest := by
  rw [pieces_append hfaithful h, pieces_of_none hspace]

theorem pieces_eq_map_inl {cs : List Char} (h : ∀ x, x <:+ cs → found? call? x = none) :
    pieces call? cs = cs.map .inl := by
  induction cs using pieces_induction call? with
  | nil => rw [pieces_nil, List.map_nil]
  | char c tail hnone ih =>
    rw [pieces_of_none hnone, List.map_cons, ih fun x hx => h x (hx.trans (List.suffix_cons c tail))]
  | call cs call rest hsome ih =>
    rw [h cs List.suffix_rfl] at hsome
    simp at hsome

end

theorem pieces_euclid_append_space {cs : List Char} (h : Closing cs) (rest : List Char) :
    pieces euclid? (cs ++ ' ' :: rest) = pieces euclid? cs ++ .inl ' ' :: pieces euclid? rest :=
  pieces_append_space faithful_euclid? (found?_eq_none_iff.mpr (euclid?_of_ne (by decide) rest))
    fun _ hx hne => found?_euclid?_append_space hne (h.of_suffix hx) rest

theorem pieces_spread_append_space {cs : List Char} (h : Closing cs) (rest : List Char) :
    pieces spread? (cs ++ ' ' :: rest) = pieces spread? cs ++ .inl ' ' :: pieces spread? rest :=
  pieces_append_space faithful_spread? (found?_eq_none_iff.mpr (spread?_of_ne (by decide) rest))
    fun _ hx _ => found?_spread?_append (h.of_suffix hx) rest

theorem replaceEuclids_append_space {cs : List Char} (h : Closing cs) (rest : List Char) :
    replaceEuclids (cs ++ ' ' :: rest) = replaceEuclids cs ++ ' ' :: replaceEuclids rest := by
  rw [replaceEuclids, pieces_euclid_append_space h, List.flatMap_append, List.flatMap_cons,
    ← replaceEuclids, ← replaceEuclids, pieceText_inl, List.singleton_append]

/-! ## Closing texts and the pass over Euclidean calls -/

theorem Closing.append {y z : List Char} (hy : Closing y) (hz : Closing z) : Closing (y ++ z) := by
  rintro x ⟨front, hfront⟩
  rcases List.append_eq_append_iff.mp hfront with ⟨more, hmore, rfl⟩ | ⟨more, -, hmore⟩
  · have hinside := hy more ⟨front, hmore.symm⟩
    have hbehind := hz z List.suffix_rfl
    rw [List.count_append, List.count_append]
    omega
  · exact hz x ⟨more, hmore.symm⟩

/-- The parenthesis of a spread call is closed behind its arguments. -/
theorem closing_spreadText {arguments : List Char} (h : WellNested arguments) :
    Closing (spreadText arguments) := by
  have hend : Closing (arguments ++ [')']) :=
    h.closing.append (closing_of_not_mem (by decide))
  rw [spreadText, List.append_assoc]
  rintro x ⟨front, hfront⟩
  rcases List.append_eq_append_iff.mp hfront with ⟨more, hmore, rfl⟩ | ⟨more, -, hmore⟩
  · have hopen : more.count '(' ≤ 1 := by
      have hpart : more <:+ spreadHead := ⟨front, hmore.symm⟩
      exact hpart.sublist.count_le '('
    have hbalance := h.closes_eq
    have hlast : [')'].count '(' = 0 ∧ [')'].count ')' = 1 := by decide
    simp only [List.count_append]
    omega
  · exact hend x ⟨more, hmore.symm⟩

/-- A call has as many parentheses of the one kind as of the other, and so has its rhythm. -/
theorem Euclid.Written.wellNested {call : Euclid} {before after : List Char}
    (h : call.Written before after) : WellNested call.text ∧ WellNested call.replacement :=
  ⟨(levelAfter_eq_zero_iff.mp (h.levelAfter 0)).1,
    (levelAfter_eq_zero_iff.mp (h.levelAfter_replacement 0)).1⟩

/-- The pass takes away as many parentheses of the one kind as of the other. -/
theorem count_replaceEuclids (text : List Char) :
    (replaceEuclids text).count '(' + text.count ')' =
      text.count '(' + (replaceEuclids text).count ')' := by
  unfold replaceEuclids
  induction text using pieces_induction euclid? with
  | nil => simp
  | char c tail hnone ih =>
    rw [pieces_of_none hnone, List.flatMap_cons, pieceText_inl, List.count_append,
      List.count_append, ← List.singleton_append (x := c) (l := tail), List.count_append,
      List.count_append]
    omega
  | call cs call rest hsome ih =>
    obtain ⟨⟨before, after, hwritten⟩, rfl⟩ := found?_euclid?_iff.mp hsome
    obtain ⟨htext, hreplacement⟩ := hwritten.wellNested
    have htext := htext.closes_eq
    have hreplacement := hreplacement.closes_eq
    rw [pieces_of_some hsome, List.flatMap_cons, pieceText_inr, List.count_append,
      List.count_append, List.count_append, List.count_append]
    omega

/-- **A closing text stays one** in the pass over its Euclidean calls. -/
theorem Closing.replaceEuclids {text : List Char} (h : Closing text) :
    Closing (replaceEuclids text) := by
  induction text using pieces_induction euclid? with
  | nil => simpa using h
  | char c tail hnone ih =>
    have htail := ih (h.of_suffix (List.suffix_cons c tail))
    have heq : Call.replaceEuclids (c :: tail) = c :: Call.replaceEuclids tail := by
      rw [Call.replaceEuclids, pieces_of_none hnone]
      rfl
    rw [heq]
    intro x hx
    rcases List.suffix_cons_iff.mp hx with rfl | hx
    · -- the whole text, where the pass has kept the difference
      have hwhole := h (c :: tail) List.suffix_rfl
      have hcount := count_replaceEuclids tail
      rw [← List.singleton_append, List.count_append, List.count_append] at hwhole ⊢
      omega
    · exact htail x hx
  | call cs call rest hsome ih =>
    obtain ⟨⟨before, after, hwritten⟩, rfl⟩ := found?_euclid?_iff.mp hsome
    have heq : Call.replaceEuclids (call.text ++ rest) =
        call.replacement ++ Call.replaceEuclids rest := by
      rw [Call.replaceEuclids, pieces_of_some hsome]
      rfl
    rw [heq]
    exact hwritten.wellNested.2.closing.append (ih (h.of_suffix (List.suffix_append _ rest)))

/-! ## Replacing the calls -/

theorem replaceCalls_append {β : Type} (expand : β → Play (List Char)) (front back : List (Char ⊕ β)) :
    replaceCalls expand (front ++ back) = (do
      let text ← replaceCalls expand front
      let text' ← replaceCalls expand back
      return text ++ text') := by
  simp [replaceCalls, List.mapM_append]

/-- A text without `E(` has no Euclidean calls. -/
theorem expandEuclids_of_not_infix {text : List Char} (h : ¬ ['E', '('] <:+: text) :
    expandEuclids text = pure text := by
  rw [expandEuclids, pieces_eq_map_inl, replaceCalls_map_inl]
  intro x hx
  rw [Option.eq_none_iff_forall_ne_some]
  rintro ⟨call, rest⟩ hfound
  obtain ⟨⟨before, after, hwritten⟩, rfl⟩ := found?_euclid?_iff.mp hfound
  refine h (List.IsInfix.trans ?_ hx.isInfix)
  rw [hwritten.text_eq]
  exact List.IsPrefix.isInfix ⟨_, rfl⟩

end Call

namespace Pattern

open Call (Closing replaceEuclids pieces spread?)

/-- At the last level every call is left. -/
theorem alike_expandSpread_none (arguments : List Char) :
    Alike (expandSpread none arguments) (expandSpread none arguments) := by
  unfold expandSpread
  simp only
  split
  · exact (Call.alike_leave _ _).self
  · split
    · exact (Call.alike_leave _ _).self
    · unfold expandSpreadTo
      split
      · exact (Call.alike_leave _ _).self
      · exact (Call.alike_leave _ _).self

/-- The compilers at all levels look at no notices. -/
theorem alike_compiler (context : Context) (levels : Nat) (text : List Char) :
    Alike (compiler context levels text) (compiler context levels text) := by
  induction levels generalizing text with
  | zero =>
    exact (alike_expandCallsWith rfl fun arguments _ => alike_expandSpread_none arguments).bind
      (alike_assemble context)
  | succ levels ih =>
    refine (alike_expandCallsWith rfl fun arguments _ => ?_).bind (alike_assemble context)
    exact alike_expandSpread fun pattern _ => ih pattern

theorem alike_compile (context : Context) (pattern : String) :
    Alike (compile context pattern) (compile context pattern) :=
  alike_compiler context nestingLimit pattern.toList

/-- Spread calls come to the same with every number of notices before them. -/
def Quiet (inner : Option Compiler) : Prop :=
  ∀ arguments, Alike (expandSpread inner arguments) (expandSpread inner arguments)

theorem quiet_innerCompiler (context : Context) : Quiet (innerCompiler context) :=
  fun _ => alike_expandSpread fun pattern _ => alike_compiler context _ pattern

/-- The length of the whole text is only in a notice. -/
theorem Quiet.piece {inner : Option Compiler} (h : Quiet inner) (size size' : Nat)
    (call : Call.Spread) :
    Alike (expandSpreadPiece inner size call) (expandSpreadPiece inner size' call) := by
  cases call with
  | closed arguments => exact h arguments
  | unclosed text =>
    exact .notify_bind (.symm (.notify_bind (f := fun _ => pure text) (.pure text)))

/-- What becomes of a text in one pass over its spread calls. -/
theorem Quiet.replaceCalls {inner : Option Compiler} (h : Quiet inner) (size size' : Nat)
    (parts : List (Char ⊕ Call.Spread)) :
    Alike (Call.replaceCalls (expandSpreadPiece inner size) parts)
      (Call.replaceCalls (expandSpreadPiece inner size') parts) :=
  Call.alike_replaceCalls fun call _ => h.piece size size' call

/-- The Euclidean calls of a text may be replaced before its calls are expanded. -/
theorem Quiet.expandCallsWith {inner : Option Compiler} (h : Quiet inner) (size : Nat)
    (text : List Char) :
    Alike (expandCallsWith inner text)
      (Call.replaceCalls (expandSpreadPiece inner size) (pieces spread? (replaceEuclids text))) :=
  .pure_bind (Call.alike_expandEuclids text) (h.replaceCalls _ size _)

/-- **The calls of two texts with a space between are expanded one text after the other,** when
every parenthesis of the first one is closed in it. -/
theorem alike_expandCallsWith_append {inner : Option Compiler} (h : Quiet inner)
    {front : List Char} (hfront : Closing front) (back : List Char) :
    Alike (expandCallsWith inner (front ++ ' ' :: back)) (do
      let text ← expandCallsWith inner front
      let text' ← expandCallsWith inner back
      return text ++ ' ' :: text') := by
  refine (h.expandCallsWith 0 _).trans ?_
  have hspace : Call.replaceCalls (expandSpreadPiece inner 0) [.inl ' '] = pure [' '] := by
    simpa using Call.replaceCalls_map_inl (expandSpreadPiece inner 0) [' ']
  rw [Call.replaceEuclids_append_space hfront,
    Call.pieces_spread_append_space hfront.replaceEuclids, Call.replaceCalls_append,
    ← List.singleton_append, Call.replaceCalls_append, hspace]
  refine ((h.expandCallsWith 0 front).symm).bind fun text => ?_
  simp only [pure_bind, bind_assoc, List.singleton_append]
  exact ((h.expandCallsWith 0 back).symm).bind fun text' => .pure _

/-- What the two sides of a space expand to, the whole expands to. -/
theorem exists_expandCallsWith_append {inner : Option Compiler} (h : Quiet inner)
    {front back text text' : List Char} (hfront : Closing front) {desk middle after : Desk}
    (htext : (expandCallsWith inner front).outcome desk = (.ok text, middle))
    (htext' : (expandCallsWith inner back).outcome middle = (.ok text', after)) :
    ∃ last, (expandCallsWith inner (front ++ ' ' :: back)).outcome desk =
      (.ok (text ++ ' ' :: text'), last) ∧ last.source = after.source := by
  refine (alike_expandCallsWith_append h hfront back).exists_ok rfl ?_
  rw [Play.outcome_bind_ok htext, Play.outcome_bind_ok htext', Play.outcome_pure]

/-- A text without an opening parenthesis has no calls to expand. -/
theorem expandCallsWith_of_no_parenthesis (inner : Option Compiler) {text : List Char}
    (h : '(' ∉ text) : expandCallsWith inner text = pure text := by
  have heuclid : ¬['E', '('] <:+: text := fun hhead => h (hhead.subset (by decide))
  have hspread : pieces spread? text = text.map .inl := by
    refine Call.pieces_eq_map_inl fun x hx => Call.found?_spread?_of_not_begins fun hhead => ?_
    exact h (hx.subset (hhead.subset (by decide)))
  rw [expandCallsWith, Call.expandEuclids_of_not_infix heuclid, pure_bind, hspread,
    Call.replaceCalls_map_inl]

end Pattern
end NoteTape
