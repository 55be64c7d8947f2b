import NoteTape.Proofs.Track.Midi
import NoteTape.Track.File

/-!
# Reading files back

The library of a running program can be relied on.  It makes messages, `Midi.makesMessages_standard`,
it fails inside, `Midi.failsInside_standard`, and what it has written is read back by
`Track.ofFile?`, `Midi.isReadBy_standard`.

A file is read from its beginning, and every part of it says where it ends: a quantity in the high
bit of its bytes, a message by its status, a chunk by the length before it.  So a part is read back
whatever follows it, which is left alone, and there is one lemma for each sort of part.  The messages
of a track follow by induction; the running status is handed on from one to the next, and it is the
same for the reader as it was for the writer.
-/

namespace NoteTape

open Play (Verdict)

/-! ## Numbers -/

theorem length_bigEndian (count n : Nat) : (bigEndian count n).length = count := by
  induction count generalizing n with
  | zero => rfl
  | succ count ih => rw [bigEndian, List.length_append, ih, List.length_singleton]

theorem ofBigEndian_concat (bytes : List UInt8) (b : UInt8) :
    ofBigEndian (bytes ++ [b]) = 256 * ofBigEndian bytes + b.toNat := by
  rw [ofBigEndian, List.foldl_append]
  rfl

theorem ofBigEndian_bigEndian {count n : Nat} (h : n < 256 ^ count) :
    ofBigEndian (bigEndian count n) = n := by
  induction count generalizing n with
  | zero =>
    rw [Nat.pow_zero, Nat.lt_one_iff] at h
    rw [h]
    rfl
  | succ count ih =>
    have hdiv : n / 256 < 256 ^ count := by
      rw [Nat.div_lt_iff_lt_mul (by decide), ← Nat.pow_succ]
      exact h
    rw [bigEndian, ofBigEndian_concat, ih hdiv, UInt8.toNat_ofNat']
    omega

namespace Track

/-- Read a variable-length quantity of which `sum` has been read. -/
def readQuantity (sum : Nat) : List UInt8 → Option (Nat × List UInt8)
  | [] => none
  | b :: bytes =>
      let sum := 128 * sum + b.toNat % 128
      if b.toNat < 128 then some (sum, bytes) else readQuantity sum bytes

theorem continued_append (n : Nat) (bytes rest : List UInt8) :
    continued n bytes ++ rest = continued n (bytes ++ rest) := by
  induction n, bytes using continued.induct with
  | case1 bytes =>
    rw [continued, if_pos rfl]
    conv_rhs => rw [continued, if_pos rfl]
  | case2 n bytes hn ih =>
    rw [continued, if_neg hn, ih, List.cons_append]
    conv_rhs => rw [continued, if_neg hn]

/-- The bytes of a number that are followed by others add up to the number. -/
theorem readQuantity_continued (n : Nat) (bytes : List UInt8) :
    readQuantity 0 (continued n bytes) = readQuantity n bytes := by
  induction n, bytes using continued.induct with
  | case1 bytes => rw [continued, if_pos rfl]
  | case2 n bytes hn ih =>
    have hbyte : (UInt8.ofNat (n % 128 + 128)).toNat = n % 128 + 128 := by
      rw [UInt8.toNat_ofNat']
      omega
    have hsum : 128 * (n / 128) + (n % 128 + 128) % 128 = n := by omega
    rw [continued, if_neg hn, ih, readQuantity, hbyte, if_neg (by omega), hsum]

theorem readQuantity_variableLength (n : Nat) (rest : List UInt8) :
    readQuantity 0 (variableLength n ++ rest) = some (n, rest) := by
  have hbyte : (UInt8.ofNat (n % 128)).toNat = n % 128 := by
    rw [UInt8.toNat_ofNat']
    omega
  have hsum : 128 * (n / 128) + n % 128 % 128 = n := by omega
  rw [variableLength, continued_append, readQuantity_continued, List.singleton_append, readQuantity,
    hbyte, if_pos (Nat.mod_lt n (by decide)), hsum]

/-! ## Messages -/

/-- The status of a message: its first byte, or the running one where that byte is no status. -/
def readStatus (running : Option UInt8) : List UInt8 → Option (UInt8 × List UInt8)
  | [] => none
  | b :: bytes => if b.toNat < 128 then running.map (·, b :: bytes) else some (b, bytes)

/-- Read the message about a track that follows its status. -/
def readMeta : List UInt8 → Option (Message × List UInt8)
  | 0x51 :: 3 :: bytes => some (.tempo (ofBigEndian (bytes.take 3)), bytes.drop 3)
  | 0x2F :: 0 :: bytes => some (.endOfTrack, bytes)
  | _ => none

/-- Read the message of a note that follows its status. -/
def readNote (status : UInt8) : List UInt8 → Option (Message × List UInt8)
  | pitch :: velocity :: bytes =>
      let channel : Int := (status.toNat % 16 : Nat)
      if h : pitch.toNat < 128 then
        if status.toNat / 16 = 9 then
          some (.noteOn channel ⟨pitch.toNat, h⟩ velocity.toNat, bytes)
        else if status.toNat / 16 = 8 then some (.noteOff channel ⟨pitch.toNat, h⟩, bytes)
        else none
      else none
  | _ => none

/-- Read a message behind a running status; the answer has the running status behind the message. -/
def readMessage (running : Option UInt8) (bytes : List UInt8) :
    Option (Message × Option UInt8 × List UInt8) := do
  let (status, bytes) ← readStatus running bytes
  if status = 0xFF then
    let (message, rest) ← readMeta bytes
    return (message, none, rest)
  else
    let (message, rest) ← readNote status bytes
    return (message, some status, rest)

/-- Read a message with the ticks before it. -/
def readTimed (running : Option UInt8) (bytes : List UInt8) :
    Option (Timed × Option UInt8 × List UInt8) := do
  let (delta, bytes) ← readQuantity 0 bytes
  let (message, running, rest) ← readMessage running bytes
  return (⟨delta, message⟩, running, rest)

theorem inRange_eq_ok_iff {least greatest n : Int} (fault : Fault) :
    inRange least greatest fault n = .ok () ↔ least ≤ n ∧ n ≤ greatest := by
  unfold inRange
  split
  next h => exact ⟨fun _ => h, fun _ => rfl⟩
  next h => exact ⟨nofun, fun hrange => absurd hrange h⟩

/-- The values of a note that is made are in their ranges. -/
theorem checked_noteOn_eq_ok_iff {channel velocity : Int} (pitch : Fin 128) :
    checked (.noteOn channel pitch velocity) = .ok () ↔
      (0 ≤ channel ∧ channel ≤ 15) ∧ 0 ≤ velocity ∧ velocity ≤ 127 := by
  rw [← inRange_eq_ok_iff .channelRange, ← inRange_eq_ok_iff .dataByteRange]
  change (inRange 0 15 .channelRange channel >>= fun _ => inRange 0 127 .dataByteRange velocity) =
    .ok () ↔ _
  cases inRange 0 15 .channelRange channel with
  | error fault => exact ⟨(nomatch ·), (nomatch ·.1)⟩
  | ok u => exact ⟨fun h => ⟨rfl, h⟩, And.right⟩

theorem toNat_status {kind : Nat} {channel : Int} (hkind : kind < 16)
    (hchannel : 0 ≤ channel ∧ channel ≤ 15) :
    (status kind channel).toNat = 16 * kind + channel.toNat := by
  rw [status, UInt8.toNat_ofNat']
  omega

theorem toNat_ofNat {n : Nat} (h : n < 128) : (UInt8.ofNat n).toNat = n := by
  rw [UInt8.toNat_ofNat']
  omega

theorem readNote_noteOn {channel velocity : Int} (hchannel : 0 ≤ channel ∧ channel ≤ 15)
    (hvelocity : 0 ≤ velocity ∧ velocity ≤ 127) (pitch : Fin 128) (rest : List UInt8) :
    readNote (status 9 channel) (UInt8.ofNat pitch.val :: UInt8.ofNat velocity.toNat :: rest) =
      some (.noteOn channel pitch velocity, rest) := by
  have hvelocity' : (velocity.toNat : Int) = velocity := Int.toNat_of_nonneg hvelocity.1
  have hstatus := toNat_status (show 9 < 16 by decide) hchannel
  have hchannel' : (((status 9 channel).toNat % 16 : Nat) : Int) = channel := by omega
  unfold readNote
  simp only [hchannel', toNat_ofNat pitch.isLt, toNat_ofNat (show velocity.toNat < 128 by omega),
    hvelocity', dif_pos pitch.isLt, if_pos (show (status 9 channel).toNat / 16 = 9 by omega)]

theorem readNote_noteOff {channel : Int} (hchannel : 0 ≤ channel ∧ channel ≤ 15) (pitch : Fin 128)
    (rest : List UInt8) :
    readNote (status 8 channel) (UInt8.ofNat pitch.val :: 0 :: rest) =
      some (.noteOff channel pitch, rest) := by
  have hstatus := toNat_status (show 8 < 16 by decide) hchannel
  have hchannel' : (((status 8 channel).toNat % 16 : Nat) : Int) = channel := by omega
  have hkind : (status 8 channel).toNat / 16 = 8 := by omega
  unfold readNote
  simp only [hchannel', toNat_ofNat pitch.isLt, dif_pos pitch.isLt, hkind, if_true,
    if_neg (show ¬8 = 9 by decide)]

/-- The message of a note is read whether its status is shown or is the running one. -/
theorem readMessage_of_readNote {running : Option UInt8} {status pitch : UInt8}
    (hstatus : 128 ≤ status.toNat ∧ status.toNat < 255) (hpitch : pitch.toNat < 128)
    {bytes rest : List UInt8} {message : Message}
    (h : readNote status (pitch :: bytes) = some (message, rest)) :
    readMessage running (shownStatus running (some status) ++ pitch :: bytes) =
      some (message, some status, rest) := by
  have hread : readStatus running (shownStatus running (some status) ++ pitch :: bytes) =
      some (status, pitch :: bytes) := by
    unfold shownStatus
    split
    next hrunning =>
      rw [List.nil_append, readStatus, if_pos hpitch, ← hrunning]
      rfl
    next => rw [Option.toList_some, List.singleton_append, readStatus, if_neg (by omega)]
  have hnote : status ≠ 0xFF := by
    rintro rfl
    exact absurd hstatus.2 (by decide)
  simp only [readMessage, hread, Option.bind_eq_bind, Option.bind_some, if_neg hnote, h]
  rfl

/-- A message about the track leaves no running status. -/
theorem readMessage_of_readMeta {running : Option UInt8} {bytes rest : List UInt8}
    {message : Message} (h : readMeta bytes = some (message, rest)) :
    readMessage running (shownStatus running none ++ 0xFF :: bytes) =
      some (message, none, rest) := by
  have hshown : shownStatus running none = [] := by
    unfold shownStatus
    split
    · rfl
    · rfl
  have hread : readStatus running (0xFF :: bytes) = some (0xFF, bytes) := rfl
  simp only [readMessage, hshown, List.nil_append, hread, Option.bind_eq_bind, Option.bind_some,
    if_true, h]
  rfl

/-- **A message is read back,** and the running status behind it is that of the writer. -/
theorem readMessage_messageBytes (running : Option UInt8) {message : Message}
    (hmade : checked message = .ok ()) (rest : List UInt8) :
    readMessage running (shownStatus running (messageBytes message).1 ++
        ((messageBytes message).2 ++ rest)) =
      some (message, (messageBytes message).1, rest) := by
  cases message with
  | tempo n =>
    obtain ⟨hnonneg, hle⟩ := (inRange_eq_ok_iff _).mp hmade
    have hroom : n.toNat < 256 ^ 3 := by
      unfold greatestTempo at hle
      omega
    have hlength := length_bigEndian 3 n.toNat
    refine readMessage_of_readMeta ?_
    change some (Message.tempo (ofBigEndian ((bigEndian 3 n.toNat ++ rest).take 3)),
      (bigEndian 3 n.toNat ++ rest).drop 3) = _
    rw [List.take_left' hlength, List.drop_left' hlength, ofBigEndian_bigEndian hroom,
      Int.toNat_of_nonneg hnonneg]
  | noteOn channel pitch velocity =>
    obtain ⟨hchannel, hvelocity⟩ := (checked_noteOn_eq_ok_iff pitch).mp hmade
    have hstatus := toNat_status (show 9 < 16 by decide) hchannel
    exact readMessage_of_readNote (by omega) (by rw [toNat_ofNat pitch.isLt]; exact pitch.isLt)
      (readNote_noteOn hchannel hvelocity pitch rest)
  | noteOff channel pitch =>
    have hchannel := (inRange_eq_ok_iff _).mp hmade
    have hstatus := toNat_status (show 8 < 16 by decide) hchannel
    exact readMessage_of_readNote (by omega) (by rw [toNat_ofNat pitch.isLt]; exact pitch.isLt)
      (readNote_noteOff hchannel pitch rest)
  | endOfTrack => exact readMessage_of_readMeta rfl

/-! ## Tracks -/

/-- Read messages until the bytes are used up, at most as many as `fuel`. -/
def readMessages : Nat → Option UInt8 → List UInt8 → Option (List Timed)
  | _, _, [] => some []
  | 0, _, _ :: _ => none
  | fuel + 1, running, b :: bytes => do
      let (timed, running, rest) ← readTimed running (b :: bytes)
      return timed :: (← readMessages fuel running rest)

/-- Read a chunk of a name. -/
def readChunk (name : String) (bytes : List UInt8) : Option (List UInt8 × List UInt8) :=
  let size := ofBigEndian ((bytes.drop 4).take 4)
  let rest := bytes.drop 8
  if bytes.take 4 = name.toUTF8.toList ∧ size ≤ rest.length then
    some (rest.take size, rest.drop size)
  else none

/-- The track in the bytes of a file. -/
def ofFile? (bytes : List UInt8) : Option Track := do
  let (head, bytes) ← readChunk "MThd" bytes
  let (data, _) ← readChunk "MTrk" bytes
  let messages ← readMessages data.length none data
  return ⟨ofBigEndian (head.drop 4), messages⟩

theorem messagesBytes_cons (running : Option UInt8) (timed : Timed) (rest : List Timed) :
    messagesBytes running (timed :: rest) = variableLength timed.delta.toNat ++
      (shownStatus running (messageBytes timed.message).1 ++ ((messageBytes timed.message).2 ++
        messagesBytes (messageBytes timed.message).1 rest)) := by
  rw [← List.append_assoc, ← List.append_assoc]
  rfl

/-- The first message is read back, and its status runs on. -/
theorem readTimed_messagesBytes (running : Option UInt8) {timed : Timed}
    (hmade : checked timed.message = .ok ()) (hdelta : 0 ≤ timed.delta) (rest : List Timed) :
    readTimed running (messagesBytes running (timed :: rest)) =
      some (timed, (messageBytes timed.message).1,
        messagesBytes (messageBytes timed.message).1 rest) := by
  simp only [readTimed, messagesBytes_cons, readQuantity_variableLength, Option.bind_eq_bind,
    Option.bind_some, readMessage_messageBytes running hmade, Int.toNat_of_nonneg hdelta]
  rfl

/-- Every message has its bytes. -/
theorem length_le_length_messagesBytes (running : Option UInt8) (messages : List Timed) :
    messages.length ≤ (messagesBytes running messages).length := by
  induction messages generalizing running with
  | nil => exact Nat.zero_le _
  | cons timed messages ih =>
    have htail := ih (messageBytes timed.message).1
    have hdelta : variableLength timed.delta.toNat ≠ [] := by
      intro h
      have hread := readQuantity_variableLength timed.delta.toNat []
      rw [h] at hread
      exact nomatch hread
    have hpos := List.length_pos_iff.mpr hdelta
    rw [messagesBytes_cons, List.length_append, List.length_append, List.length_append,
      List.length_cons]
    omega

/-- **Messages are read back.** -/
theorem readMessages_messagesBytes {messages : List Timed}
    (hmade : ∀ timed ∈ messages, checked timed.message = .ok ())
    (hdelta : ∀ timed ∈ messages, 0 ≤ timed.delta) (running : Option UInt8) {fuel : Nat}
    (hfuel : messages.length ≤ fuel) :
    readMessages fuel running (messagesBytes running messages) = some messages := by
  -- on the messages, for every running status: the reader hands on the one of the writer
  induction messages generalizing running fuel with
  | nil =>
    cases fuel with
    | zero => rfl
    | succ fuel => rfl
  | cons timed messages ih =>
    obtain ⟨hfirst, hlater⟩ := List.forall_mem_cons.mp hmade
    obtain ⟨hnonneg, hrest⟩ := List.forall_mem_cons.mp hdelta
    obtain ⟨fuel, rfl⟩ := Nat.exists_eq_add_one_of_ne_zero (Nat.ne_zero_of_lt hfuel)
    have htail := ih hlater hrest (messageBytes timed.message).1 (Nat.le_of_succ_le_succ hfuel)
    have hread := readTimed_messagesBytes running hfirst hnonneg messages
    cases hbytes : messagesBytes running (timed :: messages) with
    | nil =>
      have hlength := length_le_length_messagesBytes running (timed :: messages)
      rw [hbytes] at hlength
      exact absurd hlength (Nat.not_succ_le_zero _)
    | cons b bytes =>
      rw [hbytes] at hread
      simp only [readMessages, hread, htail, Option.bind_eq_bind, Option.bind_some]
      rfl

/-- A chunk is read back. -/
theorem readChunk_chunk (name : String) (hname : name.toUTF8.toList.length = 4)
    {data : List UInt8} (hdata : data.length < 2 ^ 32) (rest : List UInt8) :
    readChunk name (chunk name data ++ rest) = some (data, rest) := by
  have hsize : (bigEndian 4 data.length).length = 4 := length_bigEndian 4 data.length
  have hhead : (name.toUTF8.toList ++ bigEndian 4 data.length).length = 8 := by
    rw [List.length_append, hname, hsize]
  have hname' : (chunk name data ++ rest).take 4 = name.toUTF8.toList := by
    rw [chunk, List.append_assoc, List.append_assoc, List.take_left' hname]
  have hsize' : ((chunk name data ++ rest).drop 4).take 4 = bigEndian 4 data.length := by
    rw [chunk, List.append_assoc, List.append_assoc, List.drop_left' hname, List.take_left' hsize]
  have hrest : (chunk name data ++ rest).drop 8 = data ++ rest := by
    rw [chunk, List.append_assoc, List.drop_left' hhead]
  have hroom : ofBigEndian (bigEndian 4 data.length) = data.length := ofBigEndian_bigEndian hdata
  simp only [readChunk, hname', hsize', hrest, hroom, List.length_append, List.take_left,
    List.drop_left]
  exact if_pos ⟨trivial, Nat.le_add_right _ _⟩

/-- **A track is read back from its file.** -/
theorem ofFile?_bytes {track : Track} (hresolution : 0 < track.resolution ∧ track.resolution < 2 ^ 15)
    (hmade : ∀ timed ∈ track.messages, checked timed.message = .ok ())
    (hdelta : ∀ timed ∈ track.messages, 0 ≤ timed.delta) (hroom : track.bytes.length < 2 ^ 32) :
    ofFile? track.bytes = some track := by
  obtain ⟨resolution, messages⟩ := track
  obtain ⟨hpos, hlt⟩ := hresolution
  have hdata : (messagesBytes none messages).length < 2 ^ 32 := by
    refine Nat.lt_of_le_of_lt ?_ hroom
    simp only [bytes, chunk, List.length_append]
    omega
  have hn : (((resolution % 65536).toNat : Nat) : Int) = resolution := by
    change 0 < resolution at hpos
    change resolution < 2 ^ 15 at hlt
    omega
  have hmessages := readMessages_messagesBytes hmade hdelta none
    (length_le_length_messagesBytes none messages)
  have hresolution : ofBigEndian ((bigEndian 2 1 ++ bigEndian 2 1 ++
      bigEndian 2 (resolution % 65536).toNat).drop 4) = (resolution % 65536).toNat := by
    rw [List.drop_left' (by decide), ofBigEndian_bigEndian (by omega)]
  have hheader (rest : List UInt8) : readChunk "MThd" (header ⟨resolution, messages⟩ ++ rest) =
      some (bigEndian 2 1 ++ bigEndian 2 1 ++ bigEndian 2 (resolution % 65536).toNat, rest) :=
    readChunk_chunk "MThd" (by decide +kernel) (by
      simp only [List.length_append, length_bigEndian]
      decide) rest
  have htrack := readChunk_chunk "MTrk" (by decide +kernel) hdata []
  rw [List.append_nil] at htrack
  simp only [ofFile?, bytes, hheader, htrack, hmessages, hresolution, hn, Option.bind_eq_bind,
    Option.bind_some]
  rfl

end Track

namespace Midi

/-! ## The library of a running program -/

theorem makesMessages_standard : standard.MakesMessages where
  tempo hnonneg hlt := (Track.inRange_eq_ok_iff _).mpr ⟨hnonneg, Int.le_of_lt_add_one hlt⟩
  noteOn pitch hchannel hchannel' hvelocity hvelocity' :=
    (Track.checked_noteOn_eq_ok_iff pitch).mpr
      ⟨⟨hchannel, Int.le_of_lt_add_one hchannel'⟩, hvelocity, Int.le_of_lt_add_one hvelocity'⟩
  noteOff _ hchannel hchannel' :=
    (Track.inRange_eq_ok_iff _).mpr ⟨hchannel, Int.le_of_lt_add_one hchannel'⟩
  endOfTrack := rfl

/-- **What the library has written is read back.** -/
theorem isReadBy_standard : standard.IsReadBy Track.ofFile? :=
  fun _ h => Track.ofFile?_bytes ⟨h.resolution_pos, h.resolution_lt⟩ h.made h.delta_nonneg h.room

theorem verdict_toReal (x : Quantity) : Verdict (fun _ => True) InnerFault x.toReal := by
  unfold Quantity.toReal
  split
  · trivial
  · split
    · trivial
    · exact (by decide : InnerFault .integerPastReals)

theorem verdict_div (x y : Quantity) : Verdict (fun _ => True) InnerFault (x.div y) := by
  unfold Quantity.div
  split
  · split
    · exact (by decide : InnerFault .integerDivisionByZero)
    · split
      · trivial
      · exact (by decide : InnerFault .quotientPastReals)
  · refine (verdict_toReal x).bind fun a _ => (verdict_toReal y).bind fun b _ => ?_
    split
    · exact (by decide : InnerFault .realDivisionByZero)
    · trivial

theorem verdict_integral (answer : Binary64 → Option Int) (x : Binary64) :
    Verdict (fun _ => True) InnerFault (Quantity.integral answer x) := by
  unfold Quantity.integral
  split
  · trivial
  · split
    · exact (by decide : InnerFault .roundingNaN)
    · exact (by decide : InnerFault .roundingInfinity)

theorem verdict_inRange {least greatest n : Int} {fault : Fault} (hfault : InnerFault fault) :
    Verdict (fun _ => True) InnerFault (Track.inRange least greatest fault n) := by
  unfold Track.inRange
  split
  · trivial
  · exact hfault

theorem failsInside_standard : standard.FailsInside where
  beat tempo := (verdict_div Track.minute tempo).bind fun beat _ => verdict_integral _ _
  make message := by
    cases message with
    | tempo n => exact verdict_inRange (by decide)
    | noteOn channel pitch velocity =>
      exact (verdict_inRange (by decide)).bind fun _ _ => verdict_inRange (by decide)
    | noteOff channel pitch => exact verdict_inRange (by decide)
    | endOfTrack => trivial

end Midi
end NoteTape
