import BonfireCore.Rsp
import Mathlib.Data.List.Chain

/-! How far the packets depend on the cuts of the stream. Every character of a packet is
worth one, every packet and break one more; a chunk never yields more than its bytes are
worth, and it yields just that much only when nothing in it is lost. -/
namespace BonfireCore

/-- A byte of the stream with its role. -/
inductive Mark
  | start
  | raw (b : Byte) (plain : b ≠ 0x23 ∧ b ≠ 0x24 ∧ b ≠ 0x7d)
  | escape
  | escaped (b : Byte)
  | stop
  | quiet (b : Byte) (quiet : b ≠ 0x03 ∧ b ≠ 0x24)
  | break

namespace Mark

def byte : Mark → Byte
  | start => 0x24
  | raw b _ => b
  | escape => 0x7d
  | escaped b => b
  | stop => 0x23
  | quiet b _ => b
  | .break => 0x03

def worth : Mark → ℕ
  | start | raw _ _ | escaped _ | .break => 1
  | escape | stop | quiet _ _ => 0

/-- The next byte of the packet is a character of its own, an escape or the end. -/
def inBody : Mark → Bool
  | start | raw _ _ | escaped _ => true
  | _ => false

def continues : Mark → Bool
  | raw _ _ | escape | stop => true
  | _ => false

def Follows (m m' : Mark) : Prop :=
  (m.inBody → m'.continues) ∧ (m = escape → ∃ b, m' = escaped b)

end Mark

def worth (ms : List Mark) : ℕ := (ms.map Mark.worth).sum

@[simp] theorem worth_nil : worth [] = 0 := rfl

@[simp] theorem worth_cons (m : Mark) (ms : List Mark) : worth (m :: ms) = m.worth + worth ms :=
  rfl

@[simp] theorem worth_append (ms ms' : List Mark) : worth (ms ++ ms') = worth ms + worth ms' := by
  simp [worth]

def RspCommand.worth : RspCommand → ℕ
  | .packet payload => payload.length + 1
  | .break => 1

/-- What a chunk yields. -/
def Received.worth : Received → ℕ
  | .good packet => packet.length + 1
  | .break => 1
  | _ => 0

/-- What `receive` reports for a command, and without one. -/
def Received.ofCommand : Option RspCommand → Received
  | some (.packet payload) => .good payload
  | some .break => .break
  | none => .eof

@[simp] theorem Received.command_ofCommand (cmd : Option RspCommand) :
    (Received.ofCommand cmd).command = cmd := by
  rcases cmd with _ | ⟨_ | _⟩ <;> rfl

@[simp] theorem Received.raises_ofCommand (cmd : Option RspCommand) :
    (Received.ofCommand cmd).raises = false := by
  rcases cmd with _ | ⟨_ | _⟩ <;> rfl

theorem Received.worth_eq (r : Received) : r.worth = (r.command.map RspCommand.worth).getD 0 := by
  cases r <;> rfl

namespace RSPHandler

theorem endOfPacket_worth (csum : Byte) (packet netin : List Byte) :
    (endOfPacket csum packet netin).worth ≤ packet.length + 1 := by
  unfold endOfPacket
  cases parseChecksum (netin.take 2) with
  | none => simp [Received.worth]
  | some v =>
    dsimp only
    split_ifs <;> simp [Received.worth]

/-- Inside a packet, real or not: the characters taken so far are all it adds. -/
theorem findingEop_worth {m : Mark} {ms : List Mark} (hm : m.inBody ∨ m = .escape)
    (hchain : List.IsChain Mark.Follows (m :: ms)) (csum : Byte) (packet : List Byte) :
    (findingEop (!m.inBody) csum packet (ms.map Mark.byte)).worth ≤
      packet.length + 1 + worth ms := by
  induction ms generalizing m csum packet with
  | nil => simp [findingEop, Received.worth]
  | cons m' ms ih =>
    obtain ⟨hfollows, hrest⟩ := List.isChain_cons_cons.mp hchain
    rcases hm with hm | rfl
    · rw [hm]
      cases m' with
      | raw b plain =>
        have hnext := ih (.inl rfl) hrest (csum + b) (packet ++ [b])
        rw [List.length_append, List.length_singleton] at hnext
        rw [List.map_cons, Mark.byte, Bool.not_true, findingEop_raw _ _ _ ⟨plain.1, plain.2.2⟩,
          worth_cons, Mark.worth]
        exact hnext.trans (by omega)
      | escape =>
        have hnext := ih (.inr rfl) hrest (csum + 0x7d) packet
        rw [List.map_cons, Mark.byte, Bool.not_true, findingEop_escape, worth_cons, Mark.worth]
        exact hnext.trans (by omega)
      | stop =>
        rw [List.map_cons, Mark.byte, Bool.not_true, findingEop_stop]
        exact (endOfPacket_worth _ _ _).trans (by omega)
      | start | escaped | quiet | «break» =>
        have := hfollows.1 hm
        cases this
    · obtain ⟨b, rfl⟩ := hfollows.2 rfl
      have hnext := ih (.inl rfl) hrest (csum + b) (packet ++ [b ^^^ 0x20])
      rw [List.length_append, List.length_singleton] at hnext
      have hescape : (!Mark.escape.inBody) = true := rfl
      rw [List.map_cons, Mark.byte, hescape, findingEop_escaped, worth_cons, Mark.worth]
      exact hnext.trans (by omega)

/-- A piece of the stream yields no more than it is worth, wherever it is cut out. -/
theorem receive_worth {ms : List Mark} (hchain : List.IsChain Mark.Follows ms) :
    (receive (ms.map Mark.byte)).worth ≤ worth ms := by
  unfold receive
  induction ms with
  | nil => simp [findingSop, Received.worth]
  | cons m ms ih =>
    have hrest := ih hchain.tail
    -- a byte that could be a break or a start is worth one
    have hbreak : m.byte = 0x03 → m.worth = 1 := by
      cases m <;> simp [Mark.byte, Mark.worth]
      all_goals tauto
    have hstart : m.byte = 0x24 → m.worth = 1 ∧ m.inBody = true := by
      cases m <;> simp [Mark.byte, Mark.worth, Mark.inBody]
      all_goals tauto
    simp only [List.map_cons, findingSop, worth_cons]
    split_ifs with h1 h2
    · simp [Received.worth, hbreak h1]
    · obtain ⟨hw, hbody⟩ := hstart h2
      have := findingEop_worth (.inl hbody) hchain 0 []
      simp only [hbody, Bool.not_true, List.length_nil] at this
      omega
    · omega

end RSPHandler

/-- What all chunks yield together. -/
def yields (chunks : List (List Byte)) : ℕ :=
  (chunks.map fun c => (RSPHandler.receive c).worth).sum

@[simp] theorem yields_cons (c : List Byte) (chunks : List (List Byte)) :
    yields (c :: chunks) = (RSPHandler.receive c).worth + yields chunks := rfl

theorem yields_le {ms : List Mark} (hchain : List.IsChain Mark.Follows ms)
    {chunks : List (List Byte)} (h : chunks.flatten = ms.map Mark.byte) :
    yields chunks ≤ worth ms := by
  induction chunks generalizing ms with
  | nil => exact Nat.zero_le _
  | cons c chunks ih =>
    rw [List.flatten_cons] at h
    obtain ⟨front, back, rfl, rfl, hback⟩ := List.map_eq_append_iff.mp h.symm
    have hfront := RSPHandler.receive_worth hchain.left_of_append
    have hrest := ih hchain.right_of_append hback.symm
    rw [yields_cons, worth_append]
    omega

/-- A part of the stream that no cut may go through. The second digit of a checksum `00` is
a part of its own: `receive` takes the first alone for a zero. -/
inductive Piece
  | packet (p : RspPacket) (nonzero : p.checksum ≠ 0#8)
  | short (p : RspPacket) (zero : p.checksum = 0#8)
  | zero
  | ack (positive : Bool)
  | break

def RspItem.pieces : RspItem → List Piece
  | .packet p => if h : p.checksum = 0#8 then [.short p h, .zero] else [.packet p h]
  | .ack positive => [.ack positive]
  | .break => [.break]

namespace Piece

def bytes : Piece → List Byte
  | packet p _ => p.bytes
  | short p _ => p.bytes.dropLast
  | zero => [0x30]
  | ack positive => [if positive then 0x2b else 0x2d]
  | .break => [0x03]

def command : Piece → Option RspCommand
  | packet p _ | short p _ => some (.packet p.payload)
  | zero | ack _ => none
  | .break => some .break

/-- After a short packet its other zero follows. -/
def Follows : Piece → Piece → Prop
  | short _ _, q => q = zero
  | _, _ => True

end Piece

theorem RspPacket.digits_of_zero {p : RspPacket} (h : p.checksum = 0#8) :
    p.digits = [0x30, 0x30] := by
  have hhi : p.hi = 0 := by simp [hi, h]
  have hlo : p.lo = 0 := by simp [lo, h]
  simp [digits, hhi, hlo, hexDigit]

theorem RspPacket.bytes_dropLast {p : RspPacket} (h : p.checksum = 0#8) :
    p.bytes.dropLast = 0x24 :: p.chars.flatMap WireChar.bytes ++ [0x23, 0x30] := by
  have hbytes : p.bytes = (0x24 :: p.chars.flatMap WireChar.bytes ++ [0x23, 0x30]) ++ [0x30] := by
    simp [bytes, digits_of_zero h]
  rw [hbytes, List.dropLast_concat]

theorem RspItem.pieces_of_zero {p : RspPacket} (h : p.checksum = 0#8) :
    (RspItem.packet p).pieces = [.short p h, .zero] := dif_pos h

theorem RspItem.pieces_of_nonzero {p : RspPacket} (h : p.checksum ≠ 0#8) :
    (RspItem.packet p).pieces = [.packet p h] := dif_neg h

theorem RspItem.pieces_bytes (item : RspItem) : item.pieces.flatMap Piece.bytes = item.bytes := by
  cases item with
  | packet p =>
    by_cases h : p.checksum = 0#8
    · have hbytes : p.bytes.dropLast ++ [0x30] = p.bytes := by
        rw [RspPacket.bytes_dropLast h]
        simp [RspPacket.bytes, RspPacket.digits_of_zero h]
      simpa [pieces_of_zero h, Piece.bytes, RspItem.bytes] using hbytes
    · simp [pieces_of_nonzero h, Piece.bytes, RspItem.bytes]
  | ack | «break» => simp [pieces, Piece.bytes, RspItem.bytes]

theorem RspItem.pieces_command (item : RspItem) :
    item.pieces.filterMap Piece.command = item.command.toList := by
  cases item with
  | packet p =>
    by_cases h : p.checksum = 0#8
    · simp [pieces_of_zero h, Piece.command, RspItem.command]
    · simp [pieces_of_nonzero h, Piece.command, RspItem.command]
  | ack | «break» => simp [pieces, Piece.command, RspItem.command]

theorem pieces_chain (items : List RspItem) :
    List.IsChain Piece.Follows (items.flatMap RspItem.pieces) := by
  induction items with
  | nil => exact List.isChain_nil
  | cons item items ih =>
    rw [List.flatMap_cons]
    cases item with
    | packet p =>
      by_cases h : p.checksum = 0#8
      · rw [RspItem.pieces_of_zero h]
        exact List.isChain_cons_cons.mpr ⟨rfl, ih.cons fun _ _ => trivial⟩
      · rw [RspItem.pieces_of_nonzero h]
        exact ih.cons fun _ _ => trivial
    | ack | «break» => exact ih.cons fun _ _ => trivial

def WireChar.marks : WireChar → List Mark
  | raw b plain => [.raw b plain]
  | escaped b => [.escape, .escaped b]

namespace Piece

def marks : Piece → List Mark
  | packet p _ => .start :: p.chars.flatMap WireChar.marks ++
      [.stop, .quiet (hexDigit p.upperHi p.hi) (hexDigit_quiet ..),
        .quiet (hexDigit p.upperLo p.lo) (hexDigit_quiet ..)]
  | short p _ => .start :: p.chars.flatMap WireChar.marks ++ [.stop, .quiet 0x30 (by decide)]
  | zero => [.quiet 0x30 (by decide)]
  | ack positive => [.quiet (if positive then 0x2b else 0x2d) (by cases positive <;> decide)]
  | .break => [.break]

theorem charMarks_byte (chars : List WireChar) :
    (chars.flatMap WireChar.marks).map Mark.byte = chars.flatMap WireChar.bytes := by
  induction chars with
  | nil => rfl
  | cons ch chars ih => cases ch <;> simp [WireChar.marks, WireChar.bytes, Mark.byte, ih]

theorem charMarks_worth (chars : List WireChar) :
    BonfireCore.worth (chars.flatMap WireChar.marks) = chars.length := by
  induction chars with
  | nil => rfl
  | cons ch chars ih => cases ch <;> simp [WireChar.marks, Mark.worth, ih] <;> omega

theorem marks_byte (q : Piece) : q.marks.map Mark.byte = q.bytes := by
  cases q with
  | packet p nonzero =>
    simp [marks, bytes, charMarks_byte, Mark.byte, RspPacket.bytes, RspPacket.digits]
  | short p zero =>
    simp [marks, bytes, charMarks_byte, Mark.byte, RspPacket.bytes_dropLast zero]
  | zero | ack | «break» => simp [marks, bytes, Mark.byte]

theorem marks_worth (q : Piece) :
    BonfireCore.worth q.marks = (q.command.map RspCommand.worth).getD 0 := by
  cases q with
  | packet p | short p =>
    simp [marks, command, charMarks_worth, Mark.worth, RspCommand.worth, RspPacket.payload]
    omega
  | zero | ack | «break» => simp [marks, command, Mark.worth, RspCommand.worth]

theorem charMarks_chain {m : Mark} (hm : m.inBody = true) (chars : List WireChar) {ms : List Mark}
    (hms : List.IsChain Mark.Follows (.stop :: ms)) :
    List.IsChain Mark.Follows (m :: (chars.flatMap WireChar.marks ++ .stop :: ms)) := by
  induction chars generalizing m with
  | nil => exact List.isChain_cons_cons.mpr ⟨⟨fun _ => rfl, by rintro rfl; cases hm⟩, hms⟩
  | cons ch chars ih =>
    have hne : m ≠ .escape := by
      rintro rfl
      cases hm
    cases ch with
    | raw b plain =>
      exact List.isChain_cons_cons.mpr ⟨⟨fun _ => rfl, fun h => absurd h hne⟩, ih rfl⟩
    | escaped b =>
      refine List.isChain_cons_cons.mpr ⟨⟨fun _ => rfl, fun h => absurd h hne⟩, ?_⟩
      exact List.isChain_cons_cons.mpr ⟨⟨nofun, fun _ => ⟨b, rfl⟩⟩, ih rfl⟩

theorem marks_chain_append (q : Piece) {ms : List Mark} (h : List.IsChain Mark.Follows ms) :
    List.IsChain Mark.Follows (q.marks ++ ms) := by
  cases q with
  | packet p =>
    have hend : List.IsChain Mark.Follows (.stop :: .quiet (hexDigit p.upperHi p.hi)
        (hexDigit_quiet ..) :: .quiet (hexDigit p.upperLo p.lo) (hexDigit_quiet ..) :: ms) := by
      refine List.isChain_cons_cons.mpr ⟨⟨nofun, nofun⟩, ?_⟩
      refine List.isChain_cons_cons.mpr ⟨⟨nofun, nofun⟩, ?_⟩
      exact h.cons fun _ _ => ⟨nofun, nofun⟩
    simpa [marks] using charMarks_chain rfl p.chars hend
  | short p =>
    have hend : List.IsChain Mark.Follows (.stop :: .quiet 0x30 (by decide) :: ms) :=
      List.isChain_cons_cons.mpr ⟨⟨nofun, nofun⟩, h.cons fun _ _ => ⟨nofun, nofun⟩⟩
    simpa [marks] using charMarks_chain rfl p.chars hend
  | zero | ack | «break» => exact h.cons fun _ _ => ⟨nofun, nofun⟩

theorem marks_chain (ps : List Piece) : List.IsChain Mark.Follows (ps.flatMap marks) := by
  induction ps with
  | nil => exact List.isChain_nil
  | cons q ps ih => exact marks_chain_append q ih

theorem flatMap_marks_byte (ps : List Piece) :
    (ps.flatMap marks).map Mark.byte = ps.flatMap bytes := by
  rw [List.map_flatMap]
  exact congrArg (ps.flatMap ·) (funext marks_byte)

theorem bytes_ne_nil (q : Piece) : q.bytes ≠ [] := by
  cases q with
  | short p zero => simp [bytes, RspPacket.bytes_dropLast zero]
  | packet | zero | ack | «break» => simp [bytes, RspPacket.bytes]

/-- Noise is skipped. -/
theorem receive_noise {q : Piece} (h : q.command = none) (netin : List Byte) :
    RSPHandler.receive (q.bytes ++ netin) = RSPHandler.receive netin := by
  cases q with
  | packet | short | «break» => cases h
  | zero => rfl
  | ack positive => cases positive <;> rfl

theorem receive_short {p : RspPacket} (h : p.checksum = 0#8) {netin : List Byte}
    (hnetin : netin = [] ∨ ∃ rest, netin = 0x30 :: rest) :
    RSPHandler.receive (p.bytes.dropLast ++ netin) = .good p.payload := by
  rcases hnetin with rfl | ⟨rest, rfl⟩
  · have hend : RSPHandler.endOfPacket p.checksum p.payload [0x30] = .good p.payload := by
      simp [RSPHandler.endOfPacket, h, parseChecksum, isSpace, List.rdropWhile, hexValue]
    have hstart : RSPHandler.receive (p.bytes.dropLast ++ []) =
        RSPHandler.findingEop false 0 []
          (p.chars.flatMap WireChar.bytes ++ 0x23 :: [0x30]) := by
      rw [RspPacket.bytes_dropLast h]
      simp [RSPHandler.receive, RSPHandler.findingSop]
    rw [hstart, RspPacket.findingEop_chars, RSPHandler.findingEop_stop, List.nil_append, zero_add]
    exact hend
  · have hbytes : p.bytes.dropLast ++ 0x30 :: rest = p.bytes ++ rest := by
      rw [RspPacket.bytes_dropLast h]
      simp [RspPacket.bytes, RspPacket.digits_of_zero h]
    rw [hbytes, p.receive_bytes]

/-- A command is taken, whatever follows it in the chunk. -/
theorem receive_command {q : Piece} {cmd : RspCommand} (h : q.command = some cmd)
    {ps : List Piece} (hchain : List.IsChain Follows (q :: ps)) {netin rest : List Byte}
    (hps : netin ++ rest = ps.flatMap bytes) :
    RSPHandler.receive (q.bytes ++ netin) = .ofCommand (some cmd) := by
  cases q with
  | packet p =>
    obtain rfl := Option.some.inj h
    exact p.receive_bytes netin
  | short p zero =>
    obtain rfl := Option.some.inj h
    apply receive_short zero
    cases netin with
    | nil => exact .inl rfl
    | cons b netin =>
      refine .inr ⟨netin, ?_⟩
      cases ps with
      | nil => cases hps
      | cons q' ps =>
        obtain rfl : q' = .zero := (List.isChain_cons_cons.mp hchain).1
        exact congrArg (· :: netin) (List.cons.inj hps).1
  | zero | ack => cases h
  | «break» =>
    obtain rfl := Option.some.inj h
    rfl

/-- Within a packet the parser stays there or gets to its end. -/
theorem findingEop_prefix (csum : Byte) (packet : List Byte) (chars : List WireChar)
    {ending netin rest : List Byte}
    (h : netin ++ rest = chars.flatMap WireChar.bytes ++ 0x23 :: ending) :
    RSPHandler.findingEop false csum packet netin = .eof ∨
      ∃ t, ending = t ++ rest ∧ RSPHandler.findingEop false csum packet netin =
        RSPHandler.endOfPacket (csum + (chars.flatMap WireChar.bytes).sum)
          (packet ++ chars.map WireChar.char) t := by
  induction chars generalizing csum packet netin with
  | nil =>
    cases netin with
    | nil => exact .inl rfl
    | cons b netin =>
      obtain ⟨rfl, hrest⟩ := List.cons.inj h
      refine .inr ⟨netin, hrest.symm, ?_⟩
      rw [RSPHandler.findingEop_stop]
      simp
  | cons ch chars ih =>
    cases netin with
    | nil => exact .inl rfl
    | cons b netin =>
      cases ch with
      | raw b' plain =>
        obtain ⟨rfl, hrest⟩ := List.cons.inj h
        rw [RSPHandler.findingEop_raw _ _ _ ⟨plain.1, plain.2.2⟩]
        simpa [WireChar.bytes, WireChar.char, add_assoc] using ih (csum + b) (packet ++ [b]) hrest
      | escaped b' =>
        obtain ⟨rfl, hrest⟩ := List.cons.inj h
        rw [RSPHandler.findingEop_escape]
        cases netin with
        | nil => exact .inl rfl
        | cons b netin =>
          have htail : b :: (netin ++ rest) =
              b' :: (chars.flatMap WireChar.bytes ++ 0x23 :: ending) := hrest
          obtain ⟨rfl, hrest'⟩ := List.cons.inj htail
          rw [RSPHandler.findingEop_escaped]
          simpa [WireChar.bytes, WireChar.char, add_assoc] using
            ih (csum + 0x7d + b) (packet ++ [b ^^^ 0x20]) hrest'

theorem receive_cut_chars {chars : List WireChar} {ending netin rest : List Byte}
    (h : netin ++ rest = 0x24 :: (chars.flatMap WireChar.bytes ++ 0x23 :: ending))
    (hnetin : netin ≠ [])
    (hending : ∀ t packet, ending = t ++ rest → (RSPHandler.endOfPacket
      (chars.flatMap WireChar.bytes).sum packet t).command = none) :
    (RSPHandler.receive netin).command = none := by
  obtain ⟨b, netin, rfl⟩ := List.exists_cons_of_ne_nil hnetin
  obtain ⟨rfl, htail⟩ := List.cons.inj h
  have hstart : RSPHandler.receive (0x24 :: netin) = RSPHandler.findingEop false 0 [] netin := rfl
  rw [hstart]
  rcases findingEop_prefix 0 [] chars htail with heof | ⟨t, ht, hend⟩
  · rw [heof]
    rfl
  · rw [hend, zero_add]
    exact hending t _ ht

/-- A packet that is cut is not received. -/
theorem receive_cut {q : Piece} {netin rest : List Byte} (h : q.bytes = netin ++ rest)
    (hnetin : netin ≠ []) (hrest : rest ≠ []) :
    (RSPHandler.receive netin).command = none := by
  have hsingle (x : Byte) (hx : q.bytes = [x]) : False := by
    have hlen := congrArg List.length (hx.symm.trans h)
    have hpos := List.length_pos_of_ne_nil hrest
    have hpos' := List.length_pos_of_ne_nil hnetin
    simp only [List.length_cons, List.length_nil, List.length_append] at hlen
    omega
  cases q with
  | packet p nonzero =>
    refine receive_cut_chars h.symm hnetin fun t packet ht => ?_
    obtain _ | ⟨d, _ | ⟨d', t⟩⟩ := t
    · rfl
    · -- one digit is the checksum of the packet only if that is zero
      obtain ⟨rfl, -⟩ := List.cons.inj ht
      have hne : ((p.chars.flatMap WireChar.bytes).sum.toNat : ℤ) ≠ p.hi.val := by
        intro heq
        have hd := p.checksum_digits
        have heq' : p.checksum.toNat = p.hi.val := by exact_mod_cast heq
        have hzero : p.checksum.toNat = 0 := by omega
        exact nonzero (BitVec.eq_of_toNat_eq hzero)
      simp [RSPHandler.endOfPacket, parseChecksum_one, hne, Received.command]
    · have hnil : t ++ rest = [] := (List.cons.inj (List.cons.inj ht).2).2.symm
      exact absurd (List.append_eq_nil_iff.mp hnil).2 hrest
  | short p zero =>
    rw [bytes, RspPacket.bytes_dropLast zero] at h
    refine receive_cut_chars h.symm hnetin fun t packet ht => ?_
    obtain _ | ⟨d, t⟩ := t
    · rfl
    · have hnil : t ++ rest = [] := (List.cons.inj ht).2.symm
      exact absurd (List.append_eq_nil_iff.mp hnil).2 hrest
  | zero => exact (hsingle _ rfl).elim
  | ack => exact (hsingle _ rfl).elim
  | «break» => exact (hsingle _ rfl).elim

/-- The start of a packet that is cut is lost. -/
theorem worth_cut {q : Piece} {front back : List Mark} (h : q.marks = front ++ back)
    (hfront : front ≠ []) (hback : back ≠ []) :
    BonfireCore.worth back < BonfireCore.worth q.marks := by
  obtain ⟨m, front, rfl⟩ := List.exists_cons_of_ne_nil hfront
  have hsingle (x : Mark) (hx : q.marks = [x]) : False := by
    have hlen := congrArg List.length (hx.symm.trans h)
    have hpos := List.length_pos_of_ne_nil hback
    simp only [List.length_cons, List.length_nil, List.length_append] at hlen
    omega
  cases q with
  | packet | short =>
    have hm := (List.cons.inj h).1
    rw [h, ← hm, List.cons_append, worth_cons, worth_append, Mark.worth]
    omega
  | zero => exact (hsingle _ rfl).elim
  | ack => exact (hsingle _ rfl).elim
  | «break» => exact (hsingle _ rfl).elim

end Piece

/-- What the commands of some pieces are worth. -/
def commandsWorth (ps : List Piece) : ℕ := ((ps.filterMap Piece.command).map RspCommand.worth).sum

theorem worth_pieces (ps : List Piece) : worth (ps.flatMap Piece.marks) = commandsWorth ps := by
  induction ps with
  | nil => rfl
  | cons q ps ih =>
    rw [List.flatMap_cons, worth_append, ih, Piece.marks_worth]
    cases h : q.command <;> simp [commandsWorth, h]

theorem commandsWorth_cons (q : Piece) (ps : List Piece) :
    commandsWorth (q :: ps) = (q.command.map RspCommand.worth).getD 0 + commandsWorth ps := by
  cases h : q.command <;> simp [commandsWorth, h]

/-- The next chunk of a stream: whole pieces, of which it yields the first command, or with a
packet cut at its end, which is lost. -/
theorem chunk_cases {ps : List Piece} (hchain : List.IsChain Piece.Follows ps)
    {c rest : List Byte} (h : c ++ rest = ps.flatMap Piece.bytes) :
    (∃ front back, ps = front ++ back ∧ c = front.flatMap Piece.bytes ∧
      rest = back.flatMap Piece.bytes ∧
      RSPHandler.receive c = .ofCommand (front.filterMap Piece.command).head?) ∨
    ∃ ms, List.IsChain Mark.Follows ms ∧ rest = ms.map Mark.byte ∧
      (RSPHandler.receive c).worth + worth ms < commandsWorth ps := by
  induction ps generalizing c with
  | nil =>
    obtain ⟨rfl, rfl⟩ := List.append_eq_nil_iff.mp h
    exact .inl ⟨[], [], rfl, rfl, rfl, rfl⟩
  | cons q ps ih =>
    -- `q` and whole pieces after it
    have hwhole {front : List Piece} {c' : List Byte} (hc' : c' ++ rest = ps.flatMap Piece.bytes)
        (hfront : RSPHandler.receive c' = .ofCommand (front.filterMap Piece.command).head?) :
        RSPHandler.receive (q.bytes ++ c') =
          .ofCommand ((q :: front).filterMap Piece.command).head? := by
      cases hq : q.command with
      | none => simpa [hq, Piece.receive_noise hq] using hfront
      | some cmd => simp [hq, Piece.receive_command hq hchain hc']
    rcases List.append_eq_append_iff.mp h with ⟨y, hq, hrest⟩ | ⟨c', rfl, hrest⟩
    · by_cases hc : c = []
      · subst hc
        exact .inl ⟨[], q :: ps, rfl, rfl, h, rfl⟩
      · by_cases hy : y = []
        · subst hy
          rw [List.append_nil] at hq
          refine .inl ⟨[q], ps, rfl, by simp [hq], hrest, ?_⟩
          rw [← hq, ← List.append_nil q.bytes]
          exact hwhole hrest rfl
        · refine .inr ?_
          have hmarks := q.marks_byte.trans hq
          obtain ⟨front, back, hsplit, rfl, rfl⟩ := List.map_eq_append_iff.mp hmarks
          have hchain' := Piece.marks_chain (q :: ps)
          rw [List.flatMap_cons, hsplit, List.append_assoc] at hchain'
          refine ⟨back ++ ps.flatMap Piece.marks, hchain'.right_of_append, ?_, ?_⟩
          · rw [hrest, List.map_append, Piece.flatMap_marks_byte]
            rfl
          · have hlt := Piece.worth_cut hsplit (by simpa using hc) (by simpa using hy)
            rw [Received.worth_eq, Piece.receive_cut hq hc hy, worth_append, worth_pieces,
              commandsWorth_cons, ← Piece.marks_worth]
            simpa using hlt
    · rcases ih hchain.tail hrest.symm with ⟨front, back, rfl, rfl, rfl, hcmd⟩ | ⟨ms, hms, rfl, hlt⟩
      · exact .inl ⟨q :: front, back, rfl, rfl, rfl, hwhole hrest.symm hcmd⟩
      · refine .inr ⟨ms, hms, rfl, ?_⟩
        rw [commandsWorth_cons]
        cases hq : q.command with
        | none => simpa [Piece.receive_noise hq] using hlt
        | some cmd =>
          rw [Received.worth_eq, Piece.receive_command hq hchain hrest.symm,
            Received.command_ofCommand, Option.map_some, Option.getD_some]
          omega

/-- Every chunk holds whole pieces of the stream, and at most one packet or break. -/
def Whole (ps : List Piece) (chunks : List (List Byte)) : Prop :=
  ∃ groups : List (List Piece), groups.flatten = ps ∧
    chunks = groups.map (List.flatMap Piece.bytes) ∧
    ∀ g ∈ groups, (g.filterMap Piece.command).length ≤ 1

theorem RspCommand.worth_pos (cmd : RspCommand) : 0 < cmd.worth := by
  cases cmd <;> simp [worth]

/-- A chunk of whole pieces yields what they are worth only with at most one command. -/
theorem head_worth (cmds : List RspCommand) :
    (Received.ofCommand cmds.head?).worth ≤ (cmds.map RspCommand.worth).sum ∧
      ((cmds.map RspCommand.worth).sum ≤ (Received.ofCommand cmds.head?).worth →
        cmds.length ≤ 1) := by
  rw [Received.worth_eq, Received.command_ofCommand]
  match cmds with
  | [] => simp
  | [cmd] => simp
  | cmd :: cmd' :: cmds =>
    have := cmd'.worth_pos
    simp
    omega

theorem whole_of_yields {ps : List Piece} (hchain : List.IsChain Piece.Follows ps)
    {chunks : List (List Byte)} (h : chunks.flatten = ps.flatMap Piece.bytes)
    (hyields : commandsWorth ps ≤ yields chunks) : Whole ps chunks := by
  induction chunks generalizing ps with
  | nil =>
    cases ps with
    | nil => exact ⟨[], rfl, rfl, nofun⟩
    | cons q ps => exact absurd (List.append_eq_nil_iff.mp h.symm).1 q.bytes_ne_nil
  | cons c chunks ih =>
    rw [List.flatten_cons] at h
    rw [yields_cons] at hyields
    rcases chunk_cases hchain h with ⟨front, back, rfl, rfl, hrest, hcmd⟩ | ⟨ms, hms, hrest, hlt⟩
    · have hfront := head_worth (front.filterMap Piece.command)
      rw [← hcmd] at hfront
      have hback : yields chunks ≤ commandsWorth back := by
        rw [← worth_pieces]
        exact yields_le (Piece.marks_chain back) (hrest.trans (Piece.flatMap_marks_byte back).symm)
      have hsum : commandsWorth (front ++ back) = commandsWorth front + commandsWorth back := by
        simp [commandsWorth]
      have hfront' : (RSPHandler.receive (front.flatMap Piece.bytes)).worth ≤
        commandsWorth front := hfront.1
      obtain ⟨groups, rfl, rfl, hone⟩ := ih hchain.right_of_append hrest (by omega)
      refine ⟨front :: groups, rfl, rfl, List.forall_mem_cons.mpr ⟨hfront.2 ?_, hone⟩⟩
      change commandsWorth front ≤ _
      omega
    · have := yields_le hms hrest
      omega

theorem receive_group {g ps : List Piece} (hchain : List.IsChain Piece.Follows (g ++ ps)) :
    RSPHandler.receive (g.flatMap Piece.bytes) =
      .ofCommand (g.filterMap Piece.command).head? := by
  induction g with
  | nil => rfl
  | cons q g ih =>
    have hg := ih hchain.tail
    rw [List.flatMap_cons]
    cases hq : q.command with
    | none => simpa [hq, Piece.receive_noise hq] using hg
    | some cmd =>
      have hps : g.flatMap Piece.bytes ++ ps.flatMap Piece.bytes = (g ++ ps).flatMap Piece.bytes :=
        List.flatMap_append.symm
      simp [hq, Piece.receive_command hq hchain hps]

/-- The commands of the stream, one by one. -/
theorem Whole.received {ps : List Piece} (hchain : List.IsChain Piece.Follows ps)
    {chunks : List (List Byte)} (h : Whole ps chunks) :
    (∀ c ∈ chunks, (RSPHandler.receive c).raises = false) ∧
      chunks.filterMap (fun c => (RSPHandler.receive c).command) =
        ps.filterMap Piece.command := by
  obtain ⟨groups, rfl, rfl, hone⟩ := h
  induction groups with
  | nil => exact ⟨nofun, rfl⟩
  | cons g groups ih =>
    rw [List.flatten_cons] at hchain
    have hg := receive_group hchain
    obtain ⟨hraises, hcmds⟩ := ih hchain.right_of_append
      fun g' hg' => hone g' (List.mem_cons_of_mem g hg')
    refine ⟨?_, ?_⟩
    · rw [List.map_cons]
      refine List.forall_mem_cons.mpr ⟨?_, hraises⟩
      rw [hg, Received.raises_ofCommand]
    · have hsingle := hone g (List.mem_cons_self ..)
      rw [List.map_cons, List.flatten_cons, List.filterMap_append, ← hcmds, List.filterMap_cons,
        hg, Received.command_ofCommand]
      match hc : g.filterMap Piece.command with
      | [] => rfl
      | [cmd] => rfl
      | cmd :: cmd' :: cmds =>
        rw [hc, List.length_cons, List.length_cons] at hsingle
        omega

section Server
variable {σ ρ : Type*} (body : CommandBody σ ρ)

/-- The commands one after another, as long as they return. -/
def execute (s : σ) : List RspCommand → Option σ × List (RspCommand × ρ)
  | [] => (some s, [])
  | cmd :: cmds =>
    let r := body s cmd
    match r.1 with
    | none => (none, [(cmd, r.2)])
    | some s' => ((execute s' cmds).1, (cmd, r.2) :: (execute s' cmds).2)

theorem server_eq_execute (s : σ) {chunks : List (List Byte)}
    (h : ∀ c ∈ chunks, (RSPHandler.receive c).raises = false) :
    server body s chunks =
      execute body s (chunks.filterMap fun c => (RSPHandler.receive c).command) := by
  induction chunks generalizing s with
  | nil => rfl
  | cons c chunks ih =>
    obtain ⟨hc, hchunks⟩ := List.forall_mem_cons.mp h
    cases hcmd : (RSPHandler.receive c).command with
    | none => simp [server, runCmd, hcmd, hc, ih s hchunks]
    | some cmd =>
      cases hb : (body s cmd).1 with
      | none => simp [server, runCmd, execute, hcmd, hb]
      | some s' => simp [server, runCmd, execute, hcmd, hb, ih s' hchunks]

/-- A server that is still there has executed what the chunks yielded. -/
theorem server_log {s : σ} {chunks : List (List Byte)}
    (h : (server body s chunks).1.isSome) :
    (server body s chunks).2.map Prod.fst =
      chunks.filterMap fun c => (RSPHandler.receive c).command := by
  induction chunks generalizing s with
  | nil => rfl
  | cons c chunks ih =>
    cases hcmd : (RSPHandler.receive c).command with
    | none =>
      cases hc : (RSPHandler.receive c).raises with
      | true => simp [server, runCmd, hcmd, hc] at h
      | false =>
        simp only [server, runCmd, hcmd, hc] at h ⊢
        simpa [hcmd] using ih h
    | some cmd =>
      cases hb : (body s cmd).1 with
      | none => simp [server, runCmd, hcmd, hb] at h
      | some s' =>
        simp only [server, runCmd, hcmd, hb] at h ⊢
        simpa [hcmd] using ih h

end Server

theorem yields_eq (chunks : List (List Byte)) :
    yields chunks = ((chunks.filterMap fun c => (RSPHandler.receive c).command).map
      RspCommand.worth).sum := by
  induction chunks with
  | nil => rfl
  | cons c chunks ih =>
    rw [yields_cons, ih, Received.worth_eq]
    cases h : (RSPHandler.receive c).command <;> simp [h]

theorem pieces_bytes (items : List RspItem) :
    (items.flatMap RspItem.pieces).flatMap Piece.bytes = items.flatMap RspItem.bytes := by
  rw [List.flatMap_assoc]
  exact congrArg (items.flatMap ·) (funext RspItem.pieces_bytes)

/-- Each item in a chunk of its own. -/
theorem whole_alone (items : List RspItem) :
    Whole (items.flatMap RspItem.pieces) (items.map RspItem.bytes) := by
  refine ⟨items.map RspItem.pieces, rfl, ?_, ?_⟩
  · rw [List.map_map]
    exact congrArg (items.map ·) (funext fun item => item.pieces_bytes.symm)
  · intro g hg
    obtain ⟨item, -, rfl⟩ := List.mem_map.mp hg
    rw [RspItem.pieces_command]
    cases item.command <;> simp

/-- The cuts do not matter as long as no packet is cut, but for the last zero of a checksum
`00`, and no chunk holds more than one packet or break; with commands that all return they
matter otherwise. -/
theorem chunks_transparent_iff {σ ρ : Type*} (body : CommandBody σ ρ) (s : σ)
    (items : List RspItem) (stream : Segmentation (items.flatMap RspItem.bytes)) :
    (Whole (items.flatMap RspItem.pieces) stream.chunks →
      server body s stream.chunks = server body s (items.map RspItem.bytes)) ∧
    ((server body s (items.map RspItem.bytes)).1.isSome →
      server body s stream.chunks = server body s (items.map RspItem.bytes) →
      Whole (items.flatMap RspItem.pieces) stream.chunks) := by
  have hchain := pieces_chain items
  obtain ⟨hquiet, halone⟩ := (whole_alone items).received hchain
  refine ⟨fun hwhole => ?_, fun hall hsame => ?_⟩
  · obtain ⟨hraises, hcmds⟩ := hwhole.received hchain
    rw [server_eq_execute body s hraises, server_eq_execute body s hquiet, hcmds, halone]
  · have hlog := server_log body (hsame ▸ hall)
    have hlog' := server_log body hall
    have hcmds := hlog.symm.trans ((congrArg (fun r => r.2.map Prod.fst) hsame :).trans hlog')
    apply whole_of_yields hchain (stream.flatten_eq.trans (pieces_bytes items).symm)
    rw [yields_eq, hcmds, halone]
    exact le_rfl

def getRegisters : RspPacket where
  chars := [.raw 0x67 (by decide)]

def interrupted : List RspItem := [.packet getRegisters, .ack true, .break]

def interruptedStream : Segmentation (interrupted.flatMap RspItem.bytes) where
  chunks := [[0x24, 0x67, 0x23, 0x36, 0x37, 0x2b], [0x03]]
  flatten_eq := by decide
  size := by decide

/-- Counts the commands. -/
def counting : CommandBody ℕ Unit := fun n _ => (some (n + 1), ())

theorem chunks_transparent_interrupted :
    server counting 0 interruptedStream.chunks =
      server counting 0 (interrupted.map RspItem.bytes) := by
  have hwhole : Whole (interrupted.flatMap RspItem.pieces) interruptedStream.chunks := by
    refine ⟨[[.packet getRegisters (by decide), .ack true], [.break]], ?_, ?_, ?_⟩
    · have hpieces := RspItem.pieces_of_nonzero (p := getRegisters) (by decide)
      rw [interrupted, List.flatMap_cons, hpieces]
      rfl
    · decide
    · decide
  exact (chunks_transparent_iff counting 0 interrupted interruptedStream).1 hwhole

def cutStream : Segmentation ([RspItem.packet getRegisters].flatMap RspItem.bytes) where
  chunks := [[0x24, 0x67], [0x23, 0x36, 0x37]]
  flatten_eq := by decide
  size := by decide

def joinedStream : Segmentation (interrupted.flatMap RspItem.bytes) where
  chunks := [[0x24, 0x67, 0x23, 0x36, 0x37, 0x2b, 0x03]]
  flatten_eq := by decide
  size := by decide

/-- A packet in two chunks is not executed; a break behind one in the same chunk is not
seen. -/
theorem cut_packet_lost :
    server counting 0 cutStream.chunks ≠
        server counting 0 ([RspItem.packet getRegisters].map RspItem.bytes) ∧
      server counting 0 joinedStream.chunks ≠
        server counting 0 (interrupted.map RspItem.bytes) := by
  exact ⟨by decide, by decide⟩

/-- Among the packets that the advertised size admits, those longer than a chunk are lost. -/
theorem long_packet_lost {items : List RspItem}
    (stream : Segmentation (items.flatMap RspItem.bytes)) {p : RspPacket}
    (hmem : .packet p ∈ items) (hlong : 1025 < p.bytes.length) :
    ¬ Whole (items.flatMap RspItem.pieces) stream.chunks := by
  rintro ⟨groups, hflat, hchunks, -⟩
  obtain ⟨q, hq, hlen⟩ : ∃ q ∈ (RspItem.packet p).pieces, 1024 < q.bytes.length := by
    by_cases h : p.checksum = 0#8
    · refine ⟨.short p h, by simp [RspItem.pieces_of_zero h], ?_⟩
      rw [Piece.bytes, List.length_dropLast]
      omega
    · refine ⟨.packet p h, by simp [RspItem.pieces_of_nonzero h], ?_⟩
      rw [Piece.bytes]
      omega
  have hqmem : q ∈ groups.flatten := hflat ▸ List.mem_flatMap.mpr ⟨_, hmem, hq⟩
  obtain ⟨g, hg, hqg⟩ := List.mem_flatten.mp hqmem
  have hsize := (stream.size (g.flatMap Piece.bytes) (hchunks ▸ List.mem_map_of_mem hg)).2
  obtain ⟨front, back, rfl⟩ := List.append_of_mem hqg
  simp only [List.flatMap_append, List.flatMap_cons, List.length_append] at hsize
  omega

end BonfireCore
