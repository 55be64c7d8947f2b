import NoteTape.Proofs.Tape.Timed
import NoteTape.Proofs.Transport.Wire

/-!
# Datagrams of the plain wire

A text is *plain* when it is ASCII and holds no terminator.  From a plain target and a plain tape
the plain wire makes one datagram, `datagram`: nothing of the two is cut off, for there is nothing
in them that looks like an end, `wireBytes_eq_datagram`, and a wire puts that datagram on the network
once, whatever the network answers, `Wire.run_send_recording`.

The receiver takes the terminators off and cuts at the first space.  When there is no space in the
target it has the target and the tape again, `received_datagram`, so two datagrams that are equal
carry the same tape to the same target.
-/

namespace NoteTape

open Text (isAscii)

/-- A text that goes over the wire as it is. -/
structure IsPlain (text : String) : Prop where
  ascii : ∀ c ∈ text.toList, isAscii c = true
  open_ended : ∀ c ∈ text.toList, isTerminator c = false

instance (text : String) : Decidable (IsPlain text) :=
  decidable_of_iff (text.toList.all isAscii = true ∧ text.toList.any isTerminator = false)
    ⟨fun h => ⟨List.all_eq_true.mp h.1, fun c hc => by simpa using List.any_eq_false.mp h.2 c hc⟩,
      fun h => ⟨List.all_eq_true.mpr h.ascii,
        List.any_eq_false.mpr fun c hc => by simp [h.open_ended c hc]⟩⟩

/-! ## Bytes -/

/-- The ASCII byte of a character. -/
def byteOf (c : Char) : UInt8 := UInt8.ofNat c.toNat

/-- The character of an ASCII byte. -/
def charOf (byte : UInt8) : Char := Char.ofNat byte.toNat

theorem charOf_byteOf {c : Char} (h : isAscii c = true) : charOf (byteOf c) = c := by
  have hlt : c.toNat < 128 := of_decide_eq_true h
  rw [charOf, byteOf, UInt8.toNat_ofNat', Nat.mod_eq_of_lt (by omega), Char.ofNat_toNat]

theorem map_charOf_byteOf {cs : List Char} (h : ∀ c ∈ cs, isAscii c = true) :
    (cs.map byteOf).map charOf = cs := by
  rw [List.map_map]
  exact (List.map_congr_left fun c hc => charOf_byteOf (h c hc)).trans (List.map_id cs)

/-- A character that is not in a text has no byte there either. -/
theorem count_map_byteOf {cs : List Char} (h : ∀ c ∈ cs, isAscii c = true) {d : Char}
    (hd : isAscii d = true) (hmem : d ∉ cs) : (cs.map byteOf).count (byteOf d) = 0 := by
  refine List.count_eq_zero_of_not_mem fun hbyte => hmem ?_
  obtain ⟨c, hc, heq⟩ := List.mem_map.mp hbyte
  have hchar := congrArg charOf heq
  rw [charOf_byteOf (h c hc), charOf_byteOf hd] at hchar
  exact hchar ▸ hc

/-! ## Datagrams -/

/-- The datagram of a target and a tape: both in ASCII with a space between them, then a semicolon
and a line feed. -/
def datagram (target tape : String) : List UInt8 :=
  target.toList.map byteOf ++ byteOf ' ' :: tape.toList.map byteOf ++ [byteOf ';', byteOf '\n']

/-- What a receiver makes of a datagram: without its last two bytes, cut at the first space. -/
def received (bytes : List UInt8) : String × Option String :=
  let (target, tape?) := Text.cutAt ' ' ((bytes.take (bytes.length - 2)).map charOf)
  (String.ofList target, tape?.map String.ofList)

variable {target tape : String}

/-- **Plain texts go over the wire as they are.** -/
theorem wireBytes_eq_datagram (hne : target ≠ "") (htarget : IsPlain target) (htape : IsPlain tape) :
    wireBytes (wireMessage target tape) = .ok (datagram target tape) := by
  have hmessage : (wireMessage target tape).toList = target.toList ++ ' ' :: tape.toList := by
    rw [toList_wireMessage, if_neg hne, List.append_assoc, List.singleton_append]
  have hopen : ∀ c ∈ target.toList ++ ' ' :: tape.toList, isTerminator c = false :=
    List.forall_mem_append.mpr ⟨htarget.open_ended,
      List.forall_mem_cons.mpr ⟨by decide, htape.open_ended⟩⟩
  have htrim : Text.trimEnd isTerminator (target.toList ++ ' ' :: tape.toList) =
      target.toList ++ ' ' :: tape.toList := by
    rw [Text.trimEnd, List.dropWhile_eq_self_iff.mpr, List.reverse_reverse]
    intro hpos
    rw [hopen _ (List.mem_reverse.mp (List.getElem_mem hpos))]
    exact Bool.false_ne_true
  have hascii : ∀ c ∈ target.toList ++ ' ' :: tape.toList ++ [';', '\n'], isAscii c = true := by
    refine List.forall_mem_append.mpr ⟨List.forall_mem_append.mpr ⟨htarget.ascii,
      List.forall_mem_cons.mpr ⟨by decide, htape.ascii⟩⟩, ?_⟩
    simp [isAscii]
  rw [wireBytes, hmessage, htrim, Text.asciiBytes?_eq_ok hascii, List.map_append, List.map_append]
  rfl

/-- An empty tape leaves the space behind the target. -/
example : wireBytes (wireMessage "lead" "") = .ok (datagram "lead" "") := by decide

/-- The terminators of a datagram are its last two bytes. -/
theorem count_datagram (htarget : IsPlain target) (htape : IsPlain tape) {d : Char}
    (hd : d ∈ [';', '\n']) : (datagram target tape).count (byteOf d) = 1 := by
  have hends : ∀ d ∈ [';', '\n'], isAscii d = true ∧ isTerminator d = true ∧
      (byteOf ' ' :: [byteOf ';', byteOf '\n']).count (byteOf d) = 1 :=
    List.forall_mem_cons.mpr ⟨by decide, List.forall_mem_singleton.mpr (by decide)⟩
  obtain ⟨hascii, hterminator, hcount⟩ := hends d hd
  have hnone {text : String} (h : IsPlain text) : (text.toList.map byteOf).count (byteOf d) = 0 := by
    refine count_map_byteOf h.ascii hascii fun hmem => ?_
    exact absurd (h.open_ended d hmem) (by simp [hterminator])
  rw [datagram, List.append_assoc, List.cons_append, List.count_append, List.count_cons,
    List.count_append, hnone htarget, hnone htape]
  rw [List.count_cons] at hcount
  omega

/-- **The receiver has the target and the tape again.** -/
theorem received_datagram (htarget : IsPlain target) (hspace : ' ' ∉ target.toList)
    (htape : IsPlain tape) : received (datagram target tape) = (target, some tape) := by
  have hbody : (datagram target tape).take ((datagram target tape).length - 2) =
      target.toList.map byteOf ++ byteOf ' ' :: tape.toList.map byteOf := by
    have hlength : [byteOf ';', byteOf '\n'].length = 2 := rfl
    rw [datagram, List.length_append, hlength, Nat.add_sub_cancel, List.take_left]
  rw [received, hbody, List.map_append, List.map_cons, map_charOf_byteOf htarget.ascii,
    map_charOf_byteOf htape.ascii, charOf_byteOf (by decide), Text.cutAt_append_cons hspace]
  simp only [Option.map_some, String.ofList_toList]

/-! ## On the network -/

/-- A network that records the datagrams it is given, and answers as it likes. -/
def Network.recording (answer : Destination → List UInt8 → Except Fault Unit) :
    Network (StateM (List (Destination × List UInt8))) where
  openSocket := pure ()
  closeSocket := pure ()
  transmit destination bytes := fun sent =>
    (answer destination bytes, sent ++ [(destination, bytes)])

namespace Wire

/-- **A wire puts one datagram on the network.** -/
theorem run_send_recording {bytes : List UInt8} (h : wireBytes (wireMessage target tape) = .ok bytes)
    (answer : Destination → List UInt8 → Except Fault Unit) (wire : Wire)
    (sent : List (Destination × List UInt8)) :
    ((send (.recording answer) target tape wire).run sent).2 =
      sent ++ [(wire.destination, bytes)] := by
  have htransmit (opened : Wire) : ((transmit (.recording answer) target tape opened).run sent).2 =
      sent ++ [(opened.destination, bytes)] := by
    have hrecorded : StateT.run ((Network.recording answer).transmit opened.destination bytes) sent =
        (answer opened.destination bytes, sent ++ [(opened.destination, bytes)]) := rfl
    rw [transmit, h]
    simp only [StateT.run_bind, hrecorded]
    -- recorded is what is asked for, and then the answer is looked at
    cases answer opened.destination bytes with
    | error fault => rfl
    | ok answered => rfl
  obtain ⟨destination, isOpen⟩ := wire
  rw [send]
  -- the rest of the action only looks at the wire that it is given
  generalize transmit (.recording answer) target tape = action at htransmit ⊢
  cases isOpen with
  | false => exact htransmit ⟨destination, true⟩
  | true => exact htransmit ⟨destination, true⟩

end Wire
end NoteTape
