import NoteTape.Proofs.Chance.Share
import NoteTape.Proofs.Melody.Development
import NoteTape.Proofs.Melody.Walk
import NoteTape.Proofs.Number.Comparison

/-!
# Fragmentation

Fragmentation leaves out the rests and cuts what sounds into blocks of one size.  A block starts at each
multiple of the size that is followed by a whole block, so there are as many blocks as the size goes into
the number of notes, `blockStarts_eq`.  Put together they are the notes up to a remnant that is shorter
than a block, `isCut_blocks`.  There is a size for every setting, `exists_fragmentSize`.

What is drawn for a block does not depend on its notes.  So the draws may be taken together, before any
block is played, `mapM_draw`, and they are the draws of as many integers as there are blocks.

The main result is `developTape_wholeBlocks`.
-/

namespace NoteTape

open Play (Alike)
open Text (unwords words)

/-! ## Draws for the items of a list -/

namespace Play

variable {α β γ : Type}

/-- Draws that do not look at the items may be taken first. -/
theorem mapM_draw (draw : Play γ) (f : α → γ → β) (items : List α) :
    (items.mapM fun item => draw >>= fun c => pure (f item c)) =
      ((List.range items.length).mapM fun _ => draw) >>= fun cs => pure (List.zipWith f items cs) := by
  induction items with
  | nil => rfl
  | cons item items ih =>
    rw [List.length_cons, List.range_succ_eq_map, List.mapM_cons, List.mapM_cons, List.mapM_map, ih]
    simp only [bind_assoc, pure_bind, Function.comp_def, List.zipWith_cons_cons]

end Play

namespace Melody

variable {α : Type} {spec : DevelopmentSpec} {text : String} {items : List α} {size : Nat}

/-! ## The size of a block -/

/-- **There is a block size for every setting.**  Half the setting is taken from ten, the rest is
rounded to the nearest integer, and a block has two notes at least. -/
theorem exists_fragmentSize (setting : Quantity) :
    ∃ size nearest,
      fragmentSize setting.clamp = .ok size ∧ (size : Int) = max 2 nearest ∧
      (do
        let half ← setting.clamp.div (.whole 2)
        let rest ← Quantity.sub 10 (.real half)
        rest.roundAway) = .ok nearest := by
  obtain ⟨hfinite, hnonneg, hten⟩ := setting.clamp_mem
  have hbound : setting.clamp.value ≤ 2 ^ 4 := hten.trans (by norm_num)
  obtain ⟨half, hhalf, hwithin⟩ := Quantity.exists_div_natCast (n := 2) (k := 4) (by omega) (by omega)
    (by omega) hfinite hnonneg hbound
  obtain ⟨rest, hrest, hwithin'⟩ :=
    Quantity.exists_natCast_sub (n := 10) (by omega) (by omega) hwithin
  obtain ⟨nearest, hnearest⟩ := Quantity.exists_roundAway hwithin' (by omega)
  refine ⟨(max 2 nearest).toNat, nearest, ?_, by omega, ?_⟩
  · change ((setting.clamp.div (.whole (2 : Nat)) >>= fun half => pure (.real half)) >>= fun share =>
      Quantity.sub (.whole (10 : Nat)) share >>= fun rest =>
        rest.roundAway >>= fun nearest => pure (max 2 nearest).toNat) = _
    rw [hhalf, Play.ok_bind, pure_bind, hrest, Play.ok_bind, hnearest]
    rfl
  · change (setting.clamp.div (.whole (2 : Nat)) >>= fun half =>
      Quantity.sub (.whole (10 : Nat)) (.real half) >>= Quantity.roundAway) = _
    rw [hhalf, Play.ok_bind, hrest, Play.ok_bind, hnearest]

/-! ## Blocks -/

/-- The multiples of a size below a bound. -/
theorem filter_range_mod (hsize : 0 < size) (bound : Nat) :
    (List.range bound).filter (· % size = 0) =
      (List.range ((bound + size - 1) / size)).map (· * size) := by
  induction bound with
  | zero =>
    rw [Nat.zero_add, Nat.div_eq_of_lt (Nat.sub_lt hsize Nat.one_pos)]
    rfl
  | succ bound ih =>
    have hcount : (bound + 1 + size - 1) / size = bound / size + 1 := by
      rw [Nat.add_right_comm, Nat.add_sub_cancel, Nat.add_div_right bound hsize]
    rw [List.range_succ, List.filter_append, ih, hcount]
    by_cases hmod : bound % size = 0
    · obtain ⟨i, rfl⟩ := Nat.dvd_of_mod_eq_zero hmod
      have hbelow : (size * i + size - 1) / size = i := by
        rw [Nat.add_sub_assoc hsize, Nat.mul_add_div hsize,
          Nat.div_eq_of_lt (Nat.sub_lt hsize Nat.one_pos), Nat.add_zero]
      rw [hbelow, Nat.mul_div_cancel_left i hsize, List.range_succ, List.map_append,
        List.filter_singleton, decide_eq_true hmod, Nat.mul_comm size i]
      rfl
    · have hbelow : (bound + size - 1) / size = bound / size + 1 := by
        have hlt := Nat.mod_lt bound hsize
        have hrest : bound % size - 1 < size := by omega
        have hsplit : bound + size - 1 = size * (bound / size + 1) + (bound % size - 1) := by
          have hdiv := Nat.div_add_mod bound size
          have hmul := Nat.mul_add_one size (bound / size)
          omega
        rw [hsplit, Nat.mul_add_div hsize, Nat.div_eq_of_lt hrest, Nat.add_zero]
      rw [hbelow, List.filter_singleton, decide_eq_false hmod]
      exact List.append_nil _

/-- **There are as many blocks as the size goes into the length.** -/
theorem blockStarts_eq (hsize : 0 < size) (length : Nat) :
    blockStarts length size = (List.range (length / size)).map (· * size) := by
  rw [blockStarts, filter_range_mod hsize]
  rcases Nat.lt_or_ge length size with hlt | hge
  · have hbound : length + 1 - size = 0 := by omega
    rw [hbound, Nat.zero_add, Nat.div_eq_of_lt (Nat.sub_lt hsize Nat.one_pos), Nat.div_eq_of_lt hlt]
  · have hbound : length + 1 - size + size - 1 = length := by omega
    rw [hbound]

theorem flatten_take_drop (size : Nat) (items : List α) (count : Nat) :
    ((List.range count).map fun i => (items.drop (i * size)).take size).flatten =
      items.take (count * size) := by
  induction count with
  | zero => rw [Nat.zero_mul, List.take_zero, List.range_zero, List.map_nil, List.flatten_nil]
  | succ count ih =>
    rw [List.range_succ, List.map_append, List.flatten_append, ih, Nat.succ_mul, List.take_add,
      List.map_singleton, List.flatten_singleton]

/-- Parts of one size, which put together are a list up to a remnant that is too short for another
one. -/
structure IsCut (size : Nat) (items : List α) (parts : List (List α)) (rest : List α) : Prop where
  append_eq : parts.flatten ++ rest = items
  length_eq : ∀ part ∈ parts, part.length = size
  rest_lt : rest.length < size

/-- The number of parts follows from their size. -/
theorem IsCut.length_parts {parts : List (List α)} {rest : List α} (h : IsCut size items parts rest) :
    parts.length = items.length / size := by
  have hflatten : parts.flatten.length = parts.length * size := by
    rw [List.length_flatten, List.map_congr_left h.length_eq, List.map_const', List.sum_replicate_nat]
  have hlength : items.length = size * parts.length + rest.length := by
    rw [← h.append_eq, List.length_append, hflatten, Nat.mul_comm]
  rw [hlength, Nat.mul_add_div (Nat.zero_lt_of_lt h.rest_lt), Nat.div_eq_of_lt h.rest_lt, Nat.add_zero]

/-- **The blocks of a list cut it.** -/
theorem isCut_blocks (hsize : 0 < size) (items : List α) :
    IsCut size items (blocks size items) (items.drop (items.length / size * size)) := by
  have hblocks : blocks size items =
      (List.range (items.length / size)).map fun i => (items.drop (i * size)).take size := by
    rw [blocks, blockStarts_eq hsize, List.map_map]
    rfl
  rw [hblocks]
  refine ⟨?_, fun part hpart => ?_, ?_⟩
  · rw [flatten_take_drop, List.take_append_drop]
  · obtain ⟨i, hi, rfl⟩ := List.mem_map.mp hpart
    have hle : (i + 1) * size ≤ items.length :=
      (Nat.mul_le_mul_right size (List.mem_range.mp hi)).trans (Nat.div_mul_le_self _ _)
    rw [Nat.succ_mul] at hle
    rw [List.length_take, List.length_drop]
    omega
  · rw [List.length_drop, Nat.mul_comm]
    have hdiv := Nat.div_add_mod items.length size
    have hlt := Nat.mod_lt items.length hsize
    omega

/-! ## Playing the blocks -/

/-- The notes without the rests. -/
def sounding (notes : Notes) : List Int := notes.filterMap id

/-- Parts in order, each a number of times. -/
def playedTimes (parts : List (List α)) (times : List Int) : List α :=
  (List.zipWith (fun part n => (List.replicate n.toNat part).flatten) parts times).flatten

/-- How often each of a number of blocks is played. -/
def drawTimes (count : Nat) : Play (List Int) := (List.range count).mapM fun _ => Play.integer 1 2

theorem mem_of_mem_playedTimes {parts : List (List α)} {times : List Int} {a : α}
    (h : a ∈ playedTimes parts times) : a ∈ parts.flatten := by
  obtain ⟨played, hplayed, ha⟩ := List.mem_flatten.mp h
  rw [← List.map_uncurry_zip_eq_zipWith] at hplayed
  obtain ⟨⟨part, n⟩, hpair, rfl⟩ := List.mem_map.mp hplayed
  obtain ⟨copy, hcopy, ha⟩ := List.mem_flatten.mp ha
  rw [List.eq_of_mem_replicate hcopy] at ha
  exact List.mem_flatten_of_mem (List.of_mem_zip hpair).1 ha

/-- From every source of the format a block is played once or twice. -/
theorem settles_drawTimes (count : Nat) {bad : Fault → Prop} :
    Play.Settles Source.InFormat (drawTimes count) (fun times => ∀ n ∈ times, n = 1 ∨ n = 2) bad := by
  refine Play.Settles.mapM_forall fun _ _ => Play.settles_integer fun s hs => ⟨hs.integer 1 2, ?_⟩
  obtain ⟨n, hn, hlow, hhigh⟩ := hs.exists_integer_mem (show (1 : Int) ≤ 2 by omega) (by omega)
  exact ⟨n, hn, by omega⟩

/-- **Blocks are drawn for, and then played.** -/
theorem alike_fragment_drawTimes (notes : Notes) (size : Nat) :
    Alike (fragment notes size) (drawTimes (blocks size (sounding notes)).length >>= fun times =>
      pure ((playedTimes (blocks size (sounding notes)) times).map some)) := by
  rw [fragment]
  dsimp only
  rw [Play.mapM_draw, bind_assoc]
  refine Alike.bind (.mapM fun _ _ => .integer 1 2) fun times => ?_
  rw [pure_bind]
  split
  · exact Alike.notify_bind (.pure _)
  · exact .pure _

theorem mapM_noteText {notes : List Int} (h : ∀ n ∈ notes, n.natAbs < decimalBound) :
    ((notes.map some).mapM fun note => (liftM (noteText note) : Play String)) =
      pure (notes.map toString) := by
  have htext : ∀ n ∈ notes, (noteText ∘ some) n = .ok (toString n) := fun n hn => by
    rw [Function.comp_apply, noteText, decimal_of_lt (h n hn)]
  rw [Play.liftM_mapM, List.mapM_map, Play.mapM_congr htext]
  exact congrArg liftM List.mapM_pure

/-- The notes of a text can be written again, so those of its parts can. -/
theorem IsCut.natAbs_lt {parts : List (List Int)} {rest : List Int}
    (h : IsCut size (sounding (notesOf text)) parts rest) {n : Int} (hn : n ∈ parts.flatten) :
    n.natAbs < decimalBound := by
  have hmem : n ∈ sounding (notesOf text) := h.append_eq ▸ List.mem_append_left rest hn
  obtain ⟨note, hnote, hsome⟩ := List.mem_filterMap.mp hmem
  obtain ⟨word, -, hword⟩ := List.mem_map.mp hnote
  exact natAbs_lt_of_integer? (hword.trans hsome)

/-- **A fragmentation is the draws for its blocks,** and nothing else is drawn. -/
theorem alike_developTape_drawTimes (hname : spec.technique = "fragmentation")
    (hsize : fragmentSize spec.amount.clamp = .ok size) (hpos : 0 < size) :
    Alike (developTape text spec) (drawTimes (blocks size (sounding (notesOf text))).length >>= fun times =>
      pure (unwords ((playedTimes (blocks size (sounding (notesOf text))) times).map toString))) := by
  have htechnique : Technique.named spec.technique = .ok .fragmentation := by rw [hname]; rfl
  have happly : applyTechnique .fragmentation spec (notesOf text) = fragment (notesOf text) size := by
    change (liftM (fragmentSize spec.amount.clamp) >>= fragment (notesOf text)) = _
    rw [hsize, Play.liftM_ok, pure_bind]
  rw [developTape, htechnique, Play.liftM_ok, pure_bind, happly]
  have hwrite (times : List Int) :
      (((playedTimes (blocks size (sounding (notesOf text))) times).map some).mapM fun note =>
        (liftM (noteText note) : Play String)) =
          pure ((playedTimes (blocks size (sounding (notesOf text))) times).map toString) :=
    mapM_noteText fun n hn => (isCut_blocks hpos _).natAbs_lt (mem_of_mem_playedTimes hn)
  refine ((alike_fragment_drawTimes (notesOf text) size).bind fun notes =>
    Alike.bind (.mapM fun _ _ => .lift _) fun texts => .pure (unwords texts)).trans ?_
  rw [bind_assoc]
  refine Alike.bind (.mapM fun _ _ => .integer 1 2) fun times => ?_
  rw [pure_bind, hwrite, pure_bind]
  exact .pure _

/-- **Fragmentation keeps whole blocks only.**  The block size is ten less half the setting, rounded to
the nearest integer and two at least; there is one for every setting.  The notes that sound are cut
into blocks of this size, and what is left over is dropped.  From a source of the format an integer is
drawn for each block, and nothing else is drawn.  It is one or two, and the tape has the blocks in
order, each as often as it says. -/
theorem developTape_wholeBlocks (text : String) (hname : spec.technique = "fragmentation")
    (origin : Origin) (desk : Desk) (hsource : (origin.source desk.source).InFormat) :
    ∃ size nearest parts rest times tape after,
      fragmentSize spec.amount.clamp = .ok size ∧ 2 ≤ size ∧ (size : Int) = max 2 nearest ∧
      (do
        let half ← spec.amount.clamp.div (.whole 2)
        let rest ← Quantity.sub 10 (.real half)
        rest.roundAway) = .ok nearest ∧
      IsCut size (sounding (notesOf text)) parts rest ∧
      parts.length = (sounding (notesOf text)).length / size ∧
      (drawTimes parts.length).outcome ⟨origin.source desk.source, desk.notices⟩ = (.ok times, after) ∧
      times.length = parts.length ∧ (∀ n ∈ times, n = 1 ∨ n = 2) ∧
      (origin.run (developTape text spec) desk).1 = (.ok tape, after.source) ∧
      words tape = (playedTimes parts times).map toString := by
  obtain ⟨size, nearest, hsize, hmax, hnearest⟩ := exists_fragmentSize spec.amount
  have htwo : 2 ≤ size := by omega
  have hpos : 0 < size := by omega
  have hcut := isCut_blocks hpos (sounding (notesOf text))
  have halike : Alike (developTape text spec) _ := alike_developTape_drawTimes hname hsize hpos
  generalize blocks size (sounding (notesOf text)) = parts at hcut halike
  obtain ⟨times, after, htimes, honce, -⟩ := (settles_drawTimes parts.length).exists_ok
    ⟨origin.source desk.source, desk.notices⟩ hsource
  have hlength := (Play.length_of_outcome_mapM htimes).trans List.length_range
  obtain ⟨after', htape, hafter⟩ := halike.exists_ok rfl (Play.outcome_bind_ok htimes)
  have hwords : words (unwords ((playedTimes parts times).map toString)) =
      (playedTimes parts times).map toString := by
    refine Text.words_unwords (List.forall_mem_map.mpr fun n hn => ?_)
    exact (isElement_of_decimal (decimal_of_lt (hcut.natAbs_lt (mem_of_mem_playedTimes hn)))).isWord
  refine ⟨size, nearest, parts, _, times, unwords ((playedTimes parts times).map toString), after,
    hsize, htwo, hmax, hnearest, hcut, hcut.length_parts, htimes, hlength, honce, ?_, hwords⟩
  rw [Origin.run, htape, ← hafter]

/-- The shortest blocks, of five notes. -/
def shortFragments : DevelopmentSpec where
  technique := "fragmentation"
  amount := 10
  pivotIndex := 0
  count := 2
  interval := 2

/-- Eleven notes with a rest and a word between them. -/
def elevenNotes : String := "60 62 - 64 65 67 69 x 71 72 74 76 77"

/-- Zero and one half in turn. -/
def zeroAndHalf : Source := .script ⟨#[.zero, .finite false 1 (-1)], 0⟩

/-- Of eleven notes the last one is left over.  The first block is played once and the second one
twice. -/
theorem developTape_wholeBlocks_eleven :
    zeroAndHalf.InFormat ∧
      (Origin.run (.own zeroAndHalf) (developTape elevenNotes shortFragments) ⟨zeroAndHalf, #[]⟩).1.1 =
        .ok "60 62 64 65 67 69 71 72 74 76 69 71 72 74 76" ∧
      ∃ parts rest, IsCut 5 [(60 : Int), 62, 64, 65, 67, 69, 71, 72, 74, 76, 77] parts rest ∧
        parts.length = 2 ∧
        words "60 62 64 65 67 69 71 72 74 76 69 71 72 74 76" =
          (playedTimes parts [1, 2]).map toString := by
  have hformat : zeroAndHalf.InFormat := by
    have hhalf : Binary64.IsFraction (.finite false 1 (-1)) := ⟨rfl, by decide⟩
    have hrepresentable : Binary64.IsRepresentable (.finite false 1 (-1)) := ⟨by decide, by decide⟩
    simp [zeroAndHalf, Source.InFormat, Binary64.isFraction_zero, Binary64.isRepresentable_zero, hhalf,
      hrepresentable]
  have hsize : fragmentSize shortFragments.amount.clamp = .ok 5 := by decide +kernel
  have hsounding : sounding (notesOf elevenNotes) = [60, 62, 64, 65, 67, 69, 71, 72, 74, 76, 77] := by
    decide +kernel
  have htimes : ((drawTimes 2).outcome ⟨zeroAndHalf, #[]⟩).1 = .ok [1, 2] := by decide +kernel
  have htape : (Origin.run (.own zeroAndHalf) (developTape elevenNotes shortFragments)
      ⟨zeroAndHalf, #[]⟩).1.1 = .ok "60 62 64 65 67 69 71 72 74 76 69 71 72 74 76" := by
    decide +kernel
  obtain ⟨size, -, parts, rest, times, tape, after, hfragment, -, -, -, hcut, hlength, hdrawn, -, -,
    hrun, hwords⟩ := developTape_wholeBlocks elevenNotes (show shortFragments.technique = _ from rfl)
      (.own zeroAndHalf) ⟨zeroAndHalf, #[]⟩ hformat
  obtain rfl := Except.ok.inj (hfragment.symm.trans hsize)
  rw [hsounding] at hcut hlength
  rw [hlength] at hdrawn
  obtain rfl := Except.ok.inj ((congrArg Prod.fst hdrawn).symm.trans htimes)
  obtain rfl := Except.ok.inj ((congrArg Prod.fst hrun).symm.trans htape)
  exact ⟨hformat, htape, parts, rest, hcut, hlength, hwords⟩

end Melody
end NoteTape
