import BonfireCore.Breakpoints
import BonfireCore.RegisterPackets
import BonfireCore.RspFraming

/-! One reply to a packet, and no effect behind an error. What a handler parses before its
first check raises on arguments that are not of its form; everything that it checks is checked
before anything is written. -/
namespace BonfireCore

/-- The resume commands, and `k`. -/
def letsRun : List Byte → Bool
  | 0x63#8 :: _ | 0x73#8 :: _ | 0x6b#8 :: _ => true
  | 0x76#8 :: subcmd =>
    startsWith subcmd (ascii "Cont;") &&
      (vContAction (subcmd.drop 5) = ascii "c" || vContAction (subcmd.drop 5) = ascii "s")
  | _ => false

/-- Two numbers around one separator. -/
def TwoNumbers (sep : Byte) (text : List Byte) : Prop :=
  ∃ a b, text.splitOn sep = [a, b] ∧ (int16 a).isSome = true ∧ (int16 b).isSome = true

/-- Two numbers around one comma, and anything without a colon behind one colon. -/
def TwoNumbersAndText (text : List Byte) : Prop :=
  ∃ a tail b rest, text.splitOn 0x2c = [a, tail] ∧ tail.splitOn 0x3a = [b, rest] ∧
    (int16 a).isSome = true ∧ (int16 b).isSome = true

/-- What the handlers of `g`, `m`, `M`, `X` and `P` take for granted. -/
def ArgumentsParse (cmd : Byte) (subcmd : List Byte) : Prop :=
  if cmd = 0x67#8 then subcmd = []
  else if cmd = 0x6d#8 then TwoNumbers 0x2c subcmd
  else if cmd = 0x4d#8 then TwoNumbersAndText subcmd
  else if cmd = 0x58#8 then
    ∀ colon, subcmd.idxOf? 0x3a = some colon → TwoNumbers 0x2c (subcmd.take colon)
  else if cmd = 0x50#8 then TwoNumbers 0x3d subcmd
  else True

def PayloadParses : List Byte → Prop
  | [] => False
  | cmd :: subcmd => ArgumentsParse cmd subcmd

/-- An error or an empty reply. -/
def Rejects (msg : List Byte) : Prop := msg = ascii "E01" ∨ msg = []

namespace GdbState

/-- Registers, memory, CSRs and breakpoints are as in `s`. -/
def SameTarget (s s' : GdbState) : Prop :=
  s'.hart.regs = s.hart.regs ∧ s'.hart.mem = s.hart.mem ∧ s'.hart.debug = s.hart.debug ∧
    s'.breakpoints = s.breakpoints

/-- `run_cmd` on the packet returns, with `+` and one reply, and nothing is changed if that is a
rejection. -/
def Answered (core : CoreControl) (s : GdbState) (p : RspPacket) : Prop :=
  ∃ msg s', runCmd (gdbBody core) s p.bytes =
      (some s', [(.packet p.payload, [ascii "+", send msg])]) ∧
    (Rejects msg → s.SameTarget s')

/-- A handler sends one message. -/
def Answers (s : GdbState) (r : Replies) : Prop :=
  ∃ msg s', r = some ([msg], s') ∧ (Rejects msg → s.SameTarget s')

/-- A handler raises, or sends nothing. -/
def Silent (r : Replies) : Prop := r = none ∨ ∃ s', r = some ([], s')

theorem SameTarget.refl (s : GdbState) : s.SameTarget s := ⟨rfl, rfl, rfl, rfl⟩

variable {s : GdbState} {core : CoreControl}

theorem not_rejects_ok : ¬ Rejects (ascii "OK") := by
  unfold Rejects
  decide

theorem answers_reply (msg : List Byte) : s.Answers (s.reply msg) :=
  ⟨msg, s, rfl, fun _ => SameTarget.refl s⟩

/-- A message that is no rejection comes with any state. -/
theorem answers_accept {msg : List Byte} (h : ¬ Rejects msg) (s' : GdbState) :
    s.Answers (s'.reply msg) :=
  ⟨msg, s', rfl, fun h' => absurd h' h⟩

/-- `run_cmd` answers as the handler does. -/
theorem answered_of_answers {p : RspPacket} {cmd : Byte} {subcmd : List Byte}
    (hp : p.payload = cmd :: subcmd)
    (h : s.Answers ((s.dispatchers core subcmd cmd).getD (s.reply []))) : Answered core s p := by
  obtain ⟨msg, s', hr, hsame⟩ := h
  refine ⟨msg, s', ?_, hsame⟩
  have hreceive : RSPHandler.receive p.bytes = .good p.payload := by
    rw [← List.append_nil p.bytes]
    exact p.receive_bytes []
  simp only [runCmd, hreceive, Received.command, hp, gdbBody, hr, List.map_cons, List.map_nil]

theorem not_answered_of_silent {p : RspPacket} {cmd : Byte} {subcmd : List Byte}
    (hp : p.payload = cmd :: subcmd)
    (h : Silent ((s.dispatchers core subcmd cmd).getD (s.reply []))) : ¬ Answered core s p := by
  rintro ⟨msg, s', hrun, -⟩
  have hreceive : RSPHandler.receive p.bytes = .good p.payload := by
    rw [← List.append_nil p.bytes]
    exact p.receive_bytes []
  simp only [runCmd, hreceive, Received.command, hp, gdbBody] at hrun
  rcases h with h | ⟨s'', h⟩ <;> simp [h] at hrun

theorem not_answered_empty {p : RspPacket} (hp : p.payload = []) : ¬ Answered core s p := by
  rintro ⟨msg, s', hrun, -⟩
  have hreceive : RSPHandler.receive p.bytes = .good p.payload := by
    rw [← List.append_nil p.bytes]
    exact p.receive_bytes []
  simp only [runCmd, hreceive, Received.command, hp, gdbBody] at hrun
  exact absurd (congrArg Prod.fst hrun) (by simp)

/-- `int` on both sides of a separator. -/
def twoNumbers (sep : Byte) (text : List Byte) : Option (ℤ × ℤ) :=
  match text.splitOn sep with
  | [a, b] => do return (← int16 a, ← int16 b)
  | _ => none

theorem twoNumbers_isSome_iff (sep : Byte) (text : List Byte) :
    (twoNumbers sep text).isSome = true ↔ TwoNumbers sep text := by
  unfold twoNumbers TwoNumbers
  split
  · rename_i a b hsplit
    rw [hsplit]
    cases ha : int16 a <;> cases hb : int16 b <;> simp [ha, hb]
  · rename_i hsplit
    refine iff_of_false Bool.false_ne_true ?_
    rintro ⟨a, b, hab, -⟩
    exact hsplit a b hab

theorem addrSizeHex_isSome_iff (text : List Byte) :
    (RspState.addrSizeHex text).isSome = true ↔ TwoNumbersAndText text := by
  unfold RspState.addrSizeHex TwoNumbersAndText
  split
  · rename_i a tail hsplit
    rw [hsplit]
    split
    · rename_i b rest hsplit'
      have hcolon : tail.splitOn 0x3a#8 = [b, rest] := hsplit'
      cases ha : int16 a <;> cases hb : int16 b <;> simp [hcolon, ha, hb]
    · rename_i hsplit'
      refine iff_of_false Bool.false_ne_true ?_
      rintro ⟨a', tail', b, rest, hab, htail, -⟩
      obtain ⟨rfl, rfl⟩ : a = a' ∧ tail = tail' := by simpa using hab
      exact hsplit' b rest htail
  · rename_i hsplit
    refine iff_of_false Bool.false_ne_true ?_
    rintro ⟨a, tail, b, rest, hab, -⟩
    exact hsplit a tail hab

theorem answers_lift {handled : RspState.Handled} {msg : List Byte} {r : RspState}
    (h : handled = some (msg, r)) (hr : Rejects msg → r = s.toRspState) :
    s.Answers (s.lift handled) := by
  refine ⟨msg, { s with toRspState := r }, by rw [h]; rfl, fun hmsg => ?_⟩
  rw [hr hmsg]
  exact SameTarget.refl s

theorem answers_lift_error {handled : RspState.Handled}
    (h : handled = some (ascii "E01", s.toRspState)) : s.Answers (s.lift handled) :=
  answers_lift h fun _ => rfl

theorem answers_lift_empty {handled : RspState.Handled} (h : handled = some ([], s.toRspState)) :
    s.Answers (s.lift handled) :=
  answers_lift h fun _ => rfl

theorem answers_lift_ok {handled : RspState.Handled} {r : RspState}
    (h : handled = some (ascii "OK", r)) : s.Answers (s.lift handled) :=
  answers_lift h fun hmsg => absurd hmsg not_rejects_ok

theorem silent_lift {handled : RspState.Handled} (h : handled = none) :
    Silent (s.lift handled) := by
  rw [h]
  exact .inl rfl

variable (s) (subcmd : List Byte)

theorem hexBytes_not_rejects {values : List Word} (h : values ≠ []) :
    ¬ Rejects (values.flatMap hexByte) := by
  have hlength : (values.flatMap hexByte).length = 2 * values.length := by
    induction values with
    | nil => rfl
    | cons v values ih =>
      cases values with
      | nil => rfl
      | cons v' values =>
        rw [List.flatMap_cons, List.length_append, ih (List.cons_ne_nil _ _), List.length_cons,
          Nat.mul_succ, Nat.add_comm]
        rfl
  have hpos := List.length_pos_of_ne_nil h
  rintro (heq | heq)
  · have hthree := congrArg List.length heq
    rw [hlength] at hthree
    have h3 : (ascii "E01").length = 3 := rfl
    omega
  · have hzero := congrArg List.length heq
    rw [hlength, List.length_nil] at hzero
    omega

theorem handle_m_answers (h : TwoNumbers 0x2c subcmd) :
    s.Answers (s.lift (s.handle_m subcmd)) := by
  obtain ⟨⟨addr, size⟩, hfields⟩ :=
    Option.isSome_iff_exists.mp ((twoNumbers_isSome_iff _ _).mpr h)
  have hfields' : RspState.addrSize subcmd = some (addr, size) := hfields
  cases hvalid : s.memoryRangeValid addr size with
  | false => exact answers_lift_error (by simp [RspState.handle_m, hfields', hvalid])
  | true =>
    obtain ⟨values, hart, hread, -, hvalues⟩ :=
      RspState.readMemoryBytes_bytes s.hart addr.toNat size.toNat
    have hhandle : s.handle_m subcmd =
        some (values.flatMap hexByte, { s.toRspState with hart }) := by
      simp [RspState.handle_m, hfields', hvalid, hread]
    refine answers_lift hhandle fun hmsg => ?_
    by_cases hnil : values = []
    · have hsize : size.toNat = 0 := by
        have hlength := congrArg List.length hvalues
        rw [List.length_map, bytesAt_length, hnil] at hlength
        exact hlength.symm
      rw [hsize] at hread
      obtain ⟨-, rfl⟩ := Prod.mk.inj (Option.some.inj hread)
      rfl
    · exact absurd hmsg (hexBytes_not_rejects hnil)

theorem handle_m_silent (h : ¬ TwoNumbers 0x2c subcmd) :
    Silent (s.lift (s.handle_m subcmd)) := by
  have hnone : RspState.addrSize subcmd = none :=
    Option.not_isSome_iff_eq_none.mp fun hsome => h ((twoNumbers_isSome_iff _ _).mp hsome)
  exact silent_lift (by simp [RspState.handle_m, hnone])

theorem handle_M_answers (h : TwoNumbersAndText subcmd) :
    s.Answers (s.lift (s.handle_M subcmd)) := by
  obtain ⟨⟨addr, size, hexstring⟩, hfields⟩ :=
    Option.isSome_iff_exists.mp ((addrSizeHex_isSome_iff _).mpr h)
  cases hvalid : s.memoryRangeValid addr size with
  | false => exact answers_lift_error (by simp [RspState.handle_M, hfields, hvalid])
  | true =>
    by_cases hlength : size * 2 = hexstring.length
    · cases hdata : fromHex hexstring with
      | none =>
        exact answers_lift_error (by simp [RspState.handle_M, hfields, hvalid, hlength, hdata])
      | some data =>
        have hwrite := RspState.writeMemoryBytes_eq s.hart addr.toNat data
        refine answers_lift_ok (r := { s.toRspState with
          hart := (ByteAccess.writes addr.toNat data).foldl ByteAccess.perform s.hart }) ?_
        simp [RspState.handle_M, hfields, hvalid, hlength, hdata, hwrite]
    · exact answers_lift_error (by simp [RspState.handle_M, hfields, hvalid, hlength])

theorem handle_M_silent (h : ¬ TwoNumbersAndText subcmd) :
    Silent (s.lift (s.handle_M subcmd)) := by
  have hnone : RspState.addrSizeHex subcmd = none :=
    Option.not_isSome_iff_eq_none.mp fun hsome => h ((addrSizeHex_isSome_iff _).mp hsome)
  exact silent_lift (by simp [RspState.handle_M, hnone])

theorem handle_X_answers
    (h : ∀ colon, subcmd.idxOf? 0x3a = some colon → TwoNumbers 0x2c (subcmd.take colon)) :
    s.Answers (s.lift (s.handle_X subcmd)) := by
  cases hcolon : subcmd.idxOf? 0x3a#8 with
  | none => exact answers_lift_error (by simp [RspState.handle_X, hcolon])
  | some colon =>
    obtain ⟨⟨addr, size⟩, hfields⟩ :=
      Option.isSome_iff_exists.mp ((twoNumbers_isSome_iff _ _).mpr (h colon hcolon))
    have hfields' : RspState.addrSize (subcmd.take colon) = some (addr, size) := hfields
    by_cases hzero : size = 0
    · refine answers_lift_ok (r := s.toRspState) ?_
      simp [RspState.handle_X, hcolon, hfields', hzero]
    · cases hvalid : s.memoryRangeValid addr size with
      | false =>
        exact answers_lift_error (by simp [RspState.handle_X, hcolon, hfields', hzero, hvalid])
      | true =>
        by_cases hshort : ((subcmd.length - (colon + 1) : ℕ) : ℤ) < size
        · refine answers_lift_error ?_
          simp [RspState.handle_X, hcolon, hfields', hzero, hvalid, hshort]
        · have hwrite := RspState.writeMemoryBytes_eq s.hart addr.toNat
            ((subcmd.drop (colon + 1)).take size.toNat)
          obtain ⟨r, hr⟩ : ∃ r, s.handle_X subcmd = some (ascii "OK", r) := by
            simp [RspState.handle_X, hcolon, hfields', hzero, hvalid, hshort, hwrite]
          exact answers_lift_ok hr

theorem handle_X_silent
    (h : ¬ ∀ colon, subcmd.idxOf? 0x3a = some colon → TwoNumbers 0x2c (subcmd.take colon)) :
    Silent (s.lift (s.handle_X subcmd)) := by
  push Not at h
  obtain ⟨colon, hcolon, hnumbers⟩ := h
  have hcolon' : subcmd.idxOf? 0x3a#8 = some colon := hcolon
  have hnone : RspState.addrSize (subcmd.take colon) = none :=
    Option.not_isSome_iff_eq_none.mp fun hsome =>
      hnumbers ((twoNumbers_isSome_iff _ _).mp hsome)
  exact silent_lift (by simp [RspState.handle_X, hcolon', hnone])

theorem handle_Z_answers : s.Answers (s.lift (s.handle_Z subcmd)) := by
  cases hfields : RspState.kindAddrSize subcmd with
  | none => exact answers_lift_error (by simp [RspState.handle_Z, hfields])
  | some fields =>
    obtain ⟨kind, addr, size⟩ := fields
    by_cases hkind : kind = ascii "0"
    · cases hvalid : s.memoryRangeValid addr size with
      | false => exact answers_lift_error (by simp [RspState.handle_Z, hfields, hkind, hvalid])
      | true =>
        cases hentry : s.breakpoints.lookup addr.toNat with
        | some original =>
          refine answers_lift_ok (r := s.toRspState) ?_
          simp [RspState.handle_Z, hfields, hkind, hvalid, hentry]
        | none =>
          obtain ⟨values, hart, hread, -⟩ :=
            RspState.readMemoryBytes_bytes s.hart addr.toNat size.toNat
          have hwrite := RspState.writeMemoryBytes_eq hart addr.toNat (ebreakBytes.take size.toNat)
          obtain ⟨r, hr⟩ : ∃ r, s.handle_Z subcmd = some (ascii "OK", r) := by
            simp [RspState.handle_Z, hfields, hkind, hvalid, hentry, hread, hwrite]
          exact answers_lift_ok hr
    · exact answers_lift_empty (by simp [RspState.handle_Z, hfields, hkind])

theorem handle_z_answers : s.Answers (s.lift (s.handle_z subcmd)) := by
  cases hfields : RspState.kindAddrSize subcmd with
  | none => exact answers_lift_error (by simp [RspState.handle_z, hfields])
  | some fields =>
    obtain ⟨kind, addr, size⟩ := fields
    by_cases hkind : kind = ascii "0"
    · cases hvalid : s.memoryRangeValid addr size with
      | false => exact answers_lift_error (by simp [RspState.handle_z, hfields, hkind, hvalid])
      | true =>
        have hwrite := RspState.writeMemoryBytes_eq s.hart addr.toNat
          ((s.breakpoints.lookup addr.toNat).getD [])
        generalize (ByteAccess.writes addr.toNat
          ((s.breakpoints.lookup addr.toNat).getD [])).foldl ByteAccess.perform s.hart = hart
          at hwrite
        obtain ⟨hart', hdcsr, -⟩ := RspState.updateDcsr_keeps hart (some false) none
        obtain ⟨r, hr⟩ : ∃ r, s.handle_z subcmd = some (ascii "OK", r) := by
          simp only [RspState.handle_z, hfields, hkind, hvalid, hwrite, ne_eq, not_true, if_false,
            Bool.not_true, Bool.false_eq_true, Option.bind_eq_bind, Option.bind_some]
          split_ifs
          · exact ⟨_, by rw [hdcsr]; rfl⟩
          · exact ⟨_, rfl⟩
        exact answers_lift_ok hr
    · exact answers_lift_empty (by simp [RspState.handle_z, hfields, hkind])

theorem handle_P_answers (h : TwoNumbers 0x3d subcmd) : s.Answers (s.handle_P subcmd) := by
  obtain ⟨⟨regnum, value⟩, hfields⟩ :=
    Option.isSome_iff_exists.mp ((twoNumbers_isSome_iff _ _).mpr h)
  have hfields' : regnumValue subcmd = some (regnum, value) := hfields
  unfold handle_P
  rw [hfields', Option.bind_eq_bind, Option.bind_some]
  dsimp only
  split_ifs
  · rw [DebugApi.writeReg_eq]
    exact answers_accept not_rejects_ok _
  · obtain ⟨hart, hwrite, -⟩ := register_writeCSR s.hart (BitVec.ofInt 32 value)
    rw [hwrite]
    exact answers_accept not_rejects_ok _
  · exact answers_reply _

theorem handle_P_silent (h : ¬ TwoNumbers 0x3d subcmd) : Silent (s.handle_P subcmd) := by
  have hnone : regnumValue subcmd = none :=
    Option.not_isSome_iff_eq_none.mp fun hsome => h ((twoNumbers_isSome_iff _ _).mp hsome)
  exact .inl (by simp [handle_P, hnone])

theorem writeGprs_total (h : HaltedHart) (l : List (BitVec 5 × ℕ)) :
    ∃ h', writeGprs h l = some h' := by
  induction l generalizing h with
  | nil => exact ⟨h, rfl⟩
  | cons w l ih =>
    rw [writeGprs, DebugApi.writeReg_eq]
    exact ih _

theorem handle_G_answers : s.Answers (s.handle_G subcmd) := by
  unfold handle_G
  split_ifs
  · exact answers_reply _
  · cases registerValues subcmd with
    | none => exact answers_reply _
    | some values =>
      obtain ⟨hart, hwrite⟩ := writeGprs_total s.hart (gprs.zip values.tail)
      obtain ⟨hart', hcsr, -⟩ := register_writeCSR hart (BitVec.ofNat 32 (values.getD 32 0))
      dsimp only
      rw [hwrite, Option.bind_eq_bind, Option.bind_some, hcsr]
      exact answers_accept not_rejects_ok _

theorem handle_g_answers : s.Answers (s.handle_g []) := by
  obtain ⟨hart, hg⟩ := s.handle_g_eq
  rw [hg]
  refine answers_accept ?_ { s with hart }
  have hlength : (registerText s.hart).length = 264 := by
    simp [registerText, List.length_flatMap]
  rintro (heq | heq)
  · exact absurd (hlength.symm.trans (congrArg List.length heq)) (by decide)
  · exact absurd (hlength.symm.trans (congrArg List.length heq)) (by decide)

theorem handle_q_answers : s.Answers (s.handle_q core subcmd) := by
  have hresumed : ¬ Rejects (hexEncodeText "Core resumed\n".toList) := by
    unfold Rejects
    decide
  unfold handle_q
  split_ifs
  · exact answers_reply _
  · exact answers_reply _
  · exact answers_reply _
  · cases fromHex (subcmd.drop 5) with
    | none => exact answers_reply _
    | some data =>
      dsimp only
      split_ifs
      · exact answers_reply _
      · exact answers_accept hresumed _
      · exact answers_accept not_rejects_ok _
      · exact answers_reply _
  · exact answers_reply _

theorem handle_v_answers (h : letsRun (0x76#8 :: subcmd) = false) :
    s.Answers (s.handle_v core subcmd) := by
  unfold handle_v
  split_ifs with hquery hcont
  · exact answers_reply _
  · obtain ⟨hc, hs⟩ : vContAction (subcmd.drop 5) ≠ ascii "c" ∧
        vContAction (subcmd.drop 5) ≠ ascii "s" := by
      simpa [letsRun, hcont] using h
    dsimp only
    rw [if_neg hc, if_neg hs]
    exact answers_reply _
  · exact answers_reply _

theorem dispatchers_answers {cmd : Byte} (hrun : letsRun (cmd :: subcmd) = false)
    (h : ArgumentsParse cmd subcmd) :
    s.Answers ((s.dispatchers core subcmd cmd).getD (s.reply [])) := by
  unfold dispatchers
  split
  case h_1 => exact s.handle_q_answers subcmd
  case h_2 => exact answers_reply _
  case h_3 => exact answers_reply _
  case h_4 =>
    have hnil : subcmd = [] := by simpa [ArgumentsParse] using h
    subst hnil
    rw [Option.getD_some]
    exact s.handle_g_answers
  case h_5 => exact s.handle_G_answers subcmd
  case h_6 => exact s.handle_m_answers subcmd (by simpa [ArgumentsParse] using h)
  case h_7 => simp [letsRun] at hrun
  case h_8 => simp [letsRun] at hrun
  case h_9 => exact s.handle_M_answers subcmd (by simpa [ArgumentsParse] using h)
  case h_10 => exact s.handle_X_answers subcmd (by simpa [ArgumentsParse] using h)
  case h_11 => exact s.handle_P_answers subcmd (by simpa [ArgumentsParse] using h)
  case h_12 => exact s.handle_Z_answers subcmd
  case h_13 => exact s.handle_z_answers subcmd
  case h_14 => exact answers_reply _
  case h_15 => exact s.handle_v_answers subcmd hrun
  case h_16 => exact answers_reply _

theorem dispatchers_silent {cmd : Byte} (h : ¬ ArgumentsParse cmd subcmd) :
    Silent ((s.dispatchers core subcmd cmd).getD (s.reply [])) := by
  unfold ArgumentsParse at h
  split_ifs at h with hg hm hM hX hP
  · subst hg
    exact .inr ⟨s, if_neg h⟩
  · subst hm
    exact s.handle_m_silent subcmd h
  · subst hM
    exact s.handle_M_silent subcmd h
  · subst hX
    exact s.handle_X_silent subcmd h
  · subst hP
    exact s.handle_P_silent subcmd h
  · exact absurd trivial h

end GdbState

/-- Every packet but the resume commands and `k` is answered once, and is without effect where
that is an error, just when it is not empty and its arguments have the form that the handler
takes for granted. -/
theorem answered_iff (core : CoreControl) (s : GdbState) (p : RspPacket)
    (hrun : letsRun p.payload = false) : GdbState.Answered core s p ↔ PayloadParses p.payload := by
  cases hp : p.payload with
  | nil => exact iff_of_false (GdbState.not_answered_empty hp) not_false
  | cons cmd subcmd =>
    rw [hp] at hrun
    constructor
    · intro h
      by_contra hparse
      exact GdbState.not_answered_of_silent hp (s.dispatchers_silent subcmd hparse) h
    · intro hparse
      exact GdbState.answered_of_answers hp (s.dispatchers_answers subcmd hrun hparse)

/-- A core that does nothing. -/
def stoppedCore : CoreControl := ⟨id, id, fun _ _ _ => none⟩

def packetOf (payload : List Byte) : RspPacket := ⟨payload.map WireChar.ofByte, false, false⟩

/-- Two bytes at `0x10` are read. -/
theorem answered_read : GdbState.Answered stoppedCore {} (packetOf (ascii "m10,2")) := by
  refine (answered_iff stoppedCore {} (packetOf (ascii "m10,2")) (by decide)).mpr ?_
  exact ⟨ascii "10", ascii "2", by decide, by decide, by decide⟩

/-- No payload, `g` with an argument, and `m` without a size. -/
theorem malformed_unanswered :
    ¬ GdbState.Answered stoppedCore {} (packetOf []) ∧
      ¬ GdbState.Answered stoppedCore {} (packetOf (ascii "g0")) ∧
      ¬ GdbState.Answered stoppedCore {} (packetOf (ascii "m10")) := by
  have hread : ¬ TwoNumbers 0x2c (ascii "10") := by
    rw [← GdbState.twoNumbers_isSome_iff]
    decide
  have hpayload : (packetOf (ascii "m10")).payload = 0x6d#8 :: ascii "10" := by decide
  have hpayload' : (packetOf (ascii "g0")).payload = 0x67#8 :: ascii "0" := by decide
  refine ⟨GdbState.not_answered_empty rfl, ?_, ?_⟩
  · have hparse : ¬ ArgumentsParse 0x67#8 (ascii "0") :=
      fun h => absurd (show ascii "0" = [] from h) (by decide)
    exact GdbState.not_answered_of_silent hpayload' (GdbState.dispatchers_silent {} _ hparse)
  · exact GdbState.not_answered_of_silent hpayload (GdbState.handle_m_silent {} _ hread)

end BonfireCore
