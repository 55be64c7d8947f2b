import NoteTape.Proofs.Pattern.Euclid
import NoteTape.Proofs.Pattern.Expansion

/-!
# Levels of spread calls

The pattern of a spread call is compiled one level deeper, and at the last level spread calls are
left as they stand.  So a pattern may come out differently at different levels, but only when it
is nested as deeply as there are levels.  A call is longer than the pattern in it by a
`spread(` at least, so the number of these, `spreadCount`, bounds the nesting, and a pattern with
no more of them than there are levels does not depend on the level: `alike_compiler_succ`.

The comparison is up to notices, since a Euclidean call that cannot be expanded is warned about in
every pass.  It needs that a pattern is not changed by a further pass over its Euclidean calls,
because the deeper of the two compilers makes one more.
-/

namespace NoteTape

open Play (Alike)

/-! ## The last two stages look at no notices -/

theorem Token.alike_ofLexeme (lexeme : String) : Alike (ofLexeme lexeme) (ofLexeme lexeme) := by
  refine (Alike.lift (read lexeme.toList)).bind fun reading => ?_
  cases reading.remark with
  | none => exact .pure reading.token
  | some remark => exact (Alike.notify_bind (f := fun _ => pure reading.token) (.pure _)).self

theorem Token.alike_ofText (text : String) : Alike (ofText text) (ofText text) :=
  Alike.mapM fun lexeme _ => alike_ofLexeme lexeme

namespace Expansion

theorem alike_leaf (context : Context) (token : Token) :
    Alike (leaf context token) (leaf context token) := by
  cases token with
  | rest count => exact (Alike.lift _).bind fun n => .pure (List.replicate n "")
  | random => exact (Alike.pick _ _).bind fun text => .pure [text]
  | randomRange low high =>
    exact (Alike.integer low high).bind fun n => (Alike.lift (decimal n)).bind fun text =>
      .pure [text]
  | note text => exact .pure [text]
  | groupStart => exact .pure []
  | groupEnd => exact .pure []
  | groupRepeat count => exact .pure []
  | unknown raw => exact .pure []

theorem alike_warnReplays (size : Nat) (count : Int) :
    Alike (warnReplays size count) (warnReplays size count) := by
  unfold warnReplays
  split
  · exact .pure ()
  · exact (Alike.lift (decimal count)).bind fun text =>
      (Alike.notify _ _ _).self

theorem alike_replayed (scope : List String) (count : Int) :
    Alike (replayed scope count) (replayed scope count) :=
  (alike_warnReplays _ _).bind fun _ => (Alike.lift _).bind fun times =>
    .pure (List.replicate times scope).flatten

theorem alike_warnUnread (tokens : List Token) : Alike (warnUnread tokens) (pure ()) := by
  unfold warnUnread
  split
  · exact .pure ()
  · exact Alike.notify _ _ _

/-- **A run looks at no notices.** -/
theorem alike_run (context : Context) (tokens : List Token) (scope : List String)
    (scopes : List (List String)) :
    Alike (run context tokens scope scopes) (run context tokens scope scopes) := by
  induction tokens generalizing scope scopes with
  | nil =>
    rw [run]
    exact .pure _
  | cons token tokens ih =>
    have hend (closed : List String) : Alike (do warnUnread tokens; return closed.reverse)
        (do warnUnread tokens; return closed.reverse) :=
      (alike_warnUnread tokens).self.bind fun _ => .pure _
    cases token using leaf_or_bracket with
    | leaf token hl =>
      rw [run_leaf context hl]
      exact (alike_leaf context token).bind fun elements => ih _ _
    | groupStart =>
      rw [run]
      exact ih _ _
    | groupEnd =>
      cases scopes with
      | nil =>
        rw [run]
        exact hend scope
      | cons outer scopes =>
        rw [run]
        exact ih _ _
    | groupRepeat count =>
      cases scopes with
      | nil =>
        rw [run]
        exact (alike_replayed scope count).bind hend
      | cons outer scopes =>
        rw [run]
        exact (alike_replayed scope count).bind fun group => ih _ _

end Expansion

namespace Pattern

theorem alike_assemble (context : Context) (text : List Char) :
    Alike (assemble context text) (assemble context text) :=
  (Token.alike_ofText _).bind fun tokens => (Expansion.alike_run context tokens [] []).bind
    fun elements => .pure (tapeOf elements)

end Pattern

/-! ## The text of a call -/

namespace Call

/-- How often `spread(` stands in a text. -/
def spreadCount (text : List Char) : Nat :=
  text.tails.countP fun tail => spreadHead.isPrefixOf tail

theorem spreadCount_cons (c : Char) (cs : List Char) :
    spreadCount (c :: cs) =
      spreadCount cs + if spreadHead.isPrefixOf (c :: cs) = true then 1 else 0 := by
  rw [spreadCount, List.tails, List.countP_cons, ← spreadCount]

theorem spreadCount_le_append_left (front text : List Char) :
    spreadCount text ≤ spreadCount (front ++ text) := by
  induction front with
  | nil => exact Nat.le_refl _
  | cons c front ih =>
    rw [List.cons_append, spreadCount_cons]
    omega

theorem spreadCount_le_append_right (text back : List Char) :
    spreadCount text ≤ spreadCount (text ++ back) := by
  induction text with
  | nil => exact Nat.zero_le _
  | cons c text ih =>
    rw [List.cons_append, spreadCount_cons, spreadCount_cons]
    by_cases hhead : spreadHead.isPrefixOf (c :: text) = true
    · have hlong : spreadHead.isPrefixOf (c :: (text ++ back)) = true := by
        rw [List.isPrefixOf_iff_prefix] at hhead ⊢
        exact hhead.trans (List.prefix_append (c :: text) back)
      rw [if_pos hhead, if_pos hlong]
      omega
    · rw [if_neg hhead]
      omega

theorem spreadCount_mono {part text : List Char} (h : part <:+: text) :
    spreadCount part ≤ spreadCount text := by
  obtain ⟨front, back, rfl⟩ := h
  calc spreadCount part ≤ spreadCount (front ++ part) := spreadCount_le_append_left front part
    _ ≤ spreadCount (front ++ part ++ back) := spreadCount_le_append_right _ back

/-- A call has one `spread(` more than its arguments at least. -/
theorem spreadCount_lt_spreadText (arguments : List Char) :
    spreadCount arguments < spreadCount (spreadText arguments) := by
  have htext : spreadText arguments =
      's' :: (['p', 'r', 'e', 'a', 'd', '('] ++ arguments ++ [')']) := rfl
  have hhead : spreadHead.isPrefixOf ('s' :: (['p', 'r', 'e', 'a', 'd', '('] ++ arguments ++ [')'])) =
      true := by
    rw [List.isPrefixOf_iff_prefix, ← htext, spreadText, List.append_assoc]
    exact List.prefix_append _ _
  have hinside : spreadCount arguments ≤
      spreadCount (['p', 'r', 'e', 'a', 'd', '('] ++ arguments ++ [')']) :=
    spreadCount_mono ⟨_, _, rfl⟩
  rw [htext, spreadCount_cons, if_pos hhead]
  omega

/-- The text of a piece that starts like a spread call. -/
def Spread.text : Spread → List Char
  | closed arguments => spreadText arguments
  | unclosed text => text

/-- A piece that starts like a spread call is what was read. -/
theorem faithful_spread? : Faithful spread? Spread.text := by
  intro cs call rest h
  obtain ⟨shorter, hcall⟩ := exists_of_found? h
  unfold spread? at hcall
  split at hcall
  · simp at hcall
  · next body hbody =>
    split at hcall
    · next arguments behind hclose =>
      obtain ⟨rfl, hrest⟩ := Prod.mk.inj (Option.some.inj hcall)
      obtain rfl : behind = rest := congrArg Subtype.val hrest
      have hsplit := closeFrom_eq_some hclose
      rw [List.reverse_nil, List.nil_append] at hsplit
      rw [Text.after?_eq_some_iff.mp hbody, hsplit, Spread.text, spreadText]
      simp
    · obtain ⟨rfl, hrest⟩ := Prod.mk.inj (Option.some.inj hcall)
      obtain rfl : [] = rest := congrArg Subtype.val hrest
      exact (List.append_nil cs).symm

/-- The arguments of a call among the pieces are part of the text, and have fewer `spread(`. -/
theorem arguments_of_mem {text arguments : List Char}
    (h : .inr (.closed arguments) ∈ pieces spread? text) :
    arguments <:+: text ∧ spreadCount arguments < spreadCount text := by
  obtain ⟨x, rest, ⟨front, rfl⟩, hfound⟩ := exists_suffix_of_mem faithful_spread? h
  have htext := faithful_spread? _ _ _ hfound
  have hcall : spreadText arguments <:+: front ++ x := by
    refine ⟨front, rest, ?_⟩
    rw [htext, List.append_assoc]
    rfl
  have harguments : arguments <:+: spreadText arguments := ⟨spreadHead, [')'], rfl⟩
  exact ⟨harguments.trans hcall, Nat.lt_of_lt_of_le (spreadCount_lt_spreadText arguments)
    (spreadCount_mono hcall)⟩

/-- The pattern of a call is the beginning of its arguments. -/
theorem prefix_of_twoArguments? {arguments pattern length : List Char}
    (h : twoArguments? arguments = some (pattern, length)) : pattern <+: arguments := by
  unfold twoArguments? at h
  split at h
  · next place _ =>
    obtain ⟨rfl, -⟩ := Prod.mk.inj (Option.some.inj h)
    exact List.take_prefix place arguments
  · simp at h

end Call

/-! ## Calls at two levels -/

namespace Pattern

open Call (replaceEuclids Unexpandable spreadCount pieces spread?)

/-- A call comes to the same with two compilers that make the same of its pattern. -/
theorem alike_expandSpread {compile compile' : Compiler} {arguments : List Char}
    (h : ∀ pattern, pattern <+: arguments → Alike (compile pattern) (compile' pattern)) :
    Alike (expandSpread (some compile) arguments) (expandSpread (some compile') arguments) := by
  unfold expandSpread
  simp only
  split
  · exact (Call.alike_leave _ _).self
  · next pattern lengthText htwo =>
    split
    · exact (Call.alike_leave _ _).self
    · next length _ =>
      unfold expandSpreadTo
      split
      · exact (Call.alike_leave _ _).self
      · have hcompile := h pattern (Call.prefix_of_twoArguments? htwo)
        refine (hcompile.bind fun tape => .lift (Call.spreadTape tape length)).attempt.bind
          fun result => ?_
        cases result with
        | ok tape => exact .pure tape.toList
        | error fault =>
          simp only
          split
          · exact (Call.alike_leave _ _).self
          · exact .lift (.error fault)

/-- Texts that are the same after one pass over their Euclidean calls come to the same when their
spread calls do. -/
theorem alike_expandCallsWith {inner inner' : Option Compiler} {text text' : List Char}
    (htext : replaceEuclids text = replaceEuclids text')
    (h : ∀ arguments, .inr (.closed arguments) ∈ pieces spread? (replaceEuclids text) →
      Alike (expandSpread inner arguments) (expandSpread inner' arguments)) :
    Alike (expandCallsWith inner text) (expandCallsWith inner' text') := by
  refine Alike.pure_bind (Call.alike_expandEuclids text) (Alike.symm ?_)
  refine Alike.pure_bind (Call.alike_expandEuclids text') (Alike.symm ?_)
  rw [← htext]
  refine Call.alike_replaceCalls fun piece hpiece => ?_
  cases piece with
  | closed arguments => exact h arguments hpiece
  | unclosed text => exact (Alike.notify_bind (f := fun _ => pure text) (.pure _)).self

/-- **Levels beyond the number of calls make no difference.**  The two texts may be a pattern and
what one pass over its Euclidean calls makes of it. -/
theorem alike_compiler_succ (context : Context) {levels : Nat} {text text' : List Char}
    (htext : replaceEuclids text = replaceEuclids text')
    (hrhythms : Unexpandable (replaceEuclids text))
    (hlevels : spreadCount (replaceEuclids text) ≤ levels) :
    Alike (compiler context (levels + 1) text) (compiler context levels text') := by
  -- on the levels: the pattern of a call has fewer calls, and is not changed by a further pass
  induction levels generalizing text text' with
  | zero =>
    refine (alike_expandCallsWith htext fun arguments hmem => ?_).bind (alike_assemble context)
    have hlt := (Call.arguments_of_mem hmem).2
    omega
  | succ levels ih =>
    refine (alike_expandCallsWith htext fun arguments hmem => ?_).bind (alike_assemble context)
    obtain ⟨hinside, hlt⟩ := Call.arguments_of_mem hmem
    refine alike_expandSpread fun pattern hpattern => ?_
    have hpart : Unexpandable pattern :=
      hrhythms.of_part (hpattern.isInfix.trans hinside)
    have hcount := Call.spreadCount_mono hpattern.isInfix
    have hsame := Call.replaceEuclids_of_unexpandable hpart
    refine ih rfl ?_ ?_
    · rw [hsame]
      exact hpart
    · rw [hsame]
      omega

end Pattern
end NoteTape
