import BonfireCore.HostScan

/-! The debugger of the test bench: the calls of `JtagDebugAPI`, made of scans at the pins. -/
namespace BonfireCore.DmiTransport

variable {abits : ℕ}

namespace JtagHost
section Api
variable (clocks : ℕ → CycleClock)

def setIr (instruction : BitVec 5) (s : JtagHost abits) : JtagHost abits :=
  (s.scanIr clocks instruction.toNat 5).2

def readIdcode (s : JtagHost abits) : Option (BitVec 32) × JtagHost abits :=
  let (lastScan, s) := (s.setIr clocks JTAG_INSTR_IDCODE).scanDr clocks 0 32
  (if lastScan = JTAG_IDCODE.toNat then some (BitVec.ofNat 32 lastScan) else none, s)

def readDtmcs (s : JtagHost abits) : Option (BitVec 32) × JtagHost abits :=
  let (lastScan, s) := (s.setIr clocks JTAG_INSTR_DTMCS).scanDr clocks 0 32
  let dtmcs := BitVec.ofNat 32 lastScan
  (if dtmcs.extractLsb' 0 3 = DTM_VERSION ∧ (dtmcs.extractLsb' 4 5).toNat = abits ∧
      dtmcs.extractLsb' 10 2 = 0 ∧ dtmcs.extractLsb' 12 3 = DTM_IDLE then some dtmcs else none, s)

def dmiRead (adr : ℕ) (s : JtagHost abits) : Option (BitVec 32) × JtagHost abits :=
  let request := adr <<< 34 ||| DMI_OP_READ.toNat
  let (_, s) := (s.setIr clocks JTAG_INSTR_DMI).scanDr clocks request (abits + 34)
  let (lastScan, s) := (s.idle clocks 2).scanDr clocks 0 (abits + 34)
  let response : DmiPayload abits := BitVec.ofNat (abits + 34) lastScan
  (if response.op = 0 then some response.data else none, s)

def dmiWrite (adr data : ℕ) (s : JtagHost abits) : Option Unit × JtagHost abits :=
  let request := adr <<< 34 ||| data <<< 2 ||| DMI_OP_WRITE.toNat
  let (lastScan, s) := (s.setIr clocks JTAG_INSTR_DMI).scanDr clocks request (abits + 34)
  let response : DmiPayload abits := BitVec.ofNat (abits + 34) lastScan
  if response.op = 0 then (some (), s.idle clocks 2) else (none, s)

end Api
end JtagHost

inductive DebugCall
  | readIdcode
  | readDtmcs
  | dmiRead (adr : ℕ)
  | dmiWrite (adr data : ℕ)
  deriving DecidableEq, Repr

namespace DebugCall

/-- What a call returns; `none` when an assertion in it fails. -/
def run (clocks : ℕ → CycleClock) (s : JtagHost abits) :
    DebugCall → Option (List (BitVec 32)) × JtagHost abits
  | readIdcode => let (r, s) := s.readIdcode clocks; (r.map ([·]), s)
  | readDtmcs => let (r, s) := s.readDtmcs clocks; (r.map ([·]), s)
  | dmiRead adr => let (r, s) := s.dmiRead clocks adr; (r.map ([·]), s)
  | dmiWrite adr data => let (r, s) := s.dmiWrite clocks adr data; (r.map fun _ => [], s)

/-- Calls in a row, with all that they return; a failed assertion ends them. -/
def session (clocks : ℕ → CycleClock) :
    List DebugCall → JtagHost abits → Option (List (BitVec 32)) × JtagHost abits
  | [], s => (some [], s)
  | call :: calls, s =>
    match call.run clocks s with
    | (none, s) => (none, s)
    | (some r, s) =>
      let (rs, s) := session clocks calls s
      (rs.map (r ++ ·), s)

/-- The data of a write are a 32 bit word. -/
def Fits : DebugCall → Prop
  | dmiWrite _ data => data < 2 ^ 32
  | _ => True

instance decidableFits (call : DebugCall) : Decidable call.Fits :=
  match call with
  | dmiWrite _ data => inferInstanceAs (Decidable (data < 2 ^ 32))
  | readIdcode | readDtmcs | dmiRead _ => inferInstanceAs (Decidable True)

/-- The accesses at the DMI port that a call asks for. -/
def accesses (abits : ℕ) : DebugCall → List (Access abits)
  | dmiRead adr => [⟨BitVec.ofNat abits adr, 0, false⟩]
  | dmiWrite adr data => [⟨BitVec.ofNat abits adr, BitVec.ofNat 32 data, true⟩]
  | _ => []

/-- What the calls return, given the words that the read accesses among them produce. -/
def results (abits : ℕ) : List DebugCall → List (BitVec 32) → List (BitVec 32)
  | [], _ => []
  | readIdcode :: calls, words => JTAG_IDCODE :: results abits calls words
  | readDtmcs :: calls, words => captureDtmcs abits false :: results abits calls words
  | dmiRead _ :: calls, words => words.take 1 ++ results abits calls (words.drop 1)
  | dmiWrite _ _ :: calls, words => results abits calls words

end DebugCall

section Payload

/-- The request that the debugger scans in. -/
theorem request_fields (adr : ℕ) {data : ℕ} (hdata : data < 2 ^ 32) (op : BitVec 2) :
    let r : DmiPayload abits := BitVec.ofNat (abits + 34) (adr <<< 34 ||| data <<< 2 ||| op.toNat)
    r.op = op ∧ r.data = BitVec.ofNat 32 data ∧ r.address = BitVec.ofNat abits adr := by
  have hop (j : ℕ) (hj : 2 ≤ j) : op.toNat.testBit j = false :=
    Nat.testBit_lt_two_pow (op.isLt.trans_le (Nat.pow_le_pow_right (by decide) hj))
  have hdata' (j : ℕ) (hj : 32 ≤ j) : data.testBit j = false :=
    Nat.testBit_lt_two_pow (hdata.trans_le (Nat.pow_le_pow_right (by decide) hj))
  refine ⟨?_, ?_, ?_⟩
  · apply BitVec.eq_of_getLsbD_eq
    intro j hj
    simp only [DmiPayload.op, BitVec.getLsbD_extractLsb', BitVec.getLsbD_ofNat, Nat.testBit_or,
      Nat.testBit_shiftLeft]
    rw [BitVec.testBit_toNat]
    simp [hj, show ¬ 34 ≤ j by omega, show ¬ 2 ≤ j by omega, show j < abits + 34 by omega]
  · apply BitVec.eq_of_getLsbD_eq
    intro j hj
    simp only [DmiPayload.data, BitVec.getLsbD_extractLsb', BitVec.getLsbD_ofNat, Nat.testBit_or,
      Nat.testBit_shiftLeft, hop (2 + j) (by omega)]
    simp [hj, show ¬ 34 ≤ 2 + j by omega, show 2 + j < abits + 34 by omega]
  · apply BitVec.eq_of_getLsbD_eq
    intro j hj
    simp only [DmiPayload.address, BitVec.getLsbD_extractLsb', BitVec.getLsbD_ofNat,
      Nat.testBit_or, Nat.testBit_shiftLeft, hop (34 + j) (by omega),
      hdata' (34 + j - 2) (by omega)]
    simp [hj, show 34 + j < abits + 34 by omega]

/-- A register of the bits of a number is the number again. -/
theorem ofNat_whole {w : ℕ} (v : BitVec w) : BitVec.ofNat w v.toNat = v :=
  (BitVec.ofNat_toNat _ _).trans (BitVec.setWidth_eq _)

theorem read_accesses (adr : ℕ) :
    let r : DmiPayload abits := BitVec.ofNat (abits + 34) (adr <<< 34 ||| DMI_OP_READ.toNat)
    r.accesses = DebugCall.accesses abits (.dmiRead adr) ∧ r.op = DMI_OP_READ := by
  have hzero : adr <<< 34 ||| DMI_OP_READ.toNat = adr <<< 34 ||| 0 <<< 2 ||| DMI_OP_READ.toNat := by
    rw [Nat.zero_shiftLeft, Nat.or_zero]
  obtain ⟨hop, hdata, haddress⟩ : let r : DmiPayload abits := _
      r.op = _ ∧ r.data = _ ∧ r.address = _ :=
    request_fields adr (by decide : 0 < 2 ^ 32) DMI_OP_READ
  rw [← hzero] at hop hdata haddress
  refine ⟨?_, hop⟩
  rw [DmiPayload.accesses, if_pos hop, hdata, haddress]
  rfl

theorem write_accesses (adr : ℕ) {data : ℕ} (hdata : data < 2 ^ 32) :
    let r : DmiPayload abits :=
      BitVec.ofNat (abits + 34) (adr <<< 34 ||| data <<< 2 ||| DMI_OP_WRITE.toNat)
    r.accesses = DebugCall.accesses abits (.dmiWrite adr data) ∧ r.op ≠ DMI_OP_READ := by
  obtain ⟨hop, hword, haddress⟩ : let r : DmiPayload abits := _
      r.op = _ ∧ r.data = _ ∧ r.address = _ := request_fields adr hdata DMI_OP_WRITE
  have hread : _ ≠ DMI_OP_READ := fun h =>
    absurd (hop.symm.trans h) (by decide : DMI_OP_WRITE ≠ DMI_OP_READ)
  refine ⟨?_, hread⟩
  rw [DmiPayload.accesses, if_neg hread, if_pos hop, hword, haddress]
  rfl

theorem nop_accesses : let r : DmiPayload abits := BitVec.ofNat (abits + 34) 0
    r.accesses = [] ∧ r.op ≠ DMI_OP_READ := by
  have hop : DmiPayload.op (BitVec.ofNat (abits + 34) 0) = 0 := BitVec.extractLsb'_zero
  have hread : ¬ (0 : BitVec 2) = DMI_OP_READ := by decide
  have hwrite : ¬ (0 : BitVec 2) = DMI_OP_WRITE := by decide
  refine ⟨?_, hop ▸ hread⟩
  rw [DmiPayload.accesses, hop, if_neg hread, if_neg hwrite]

end Payload

/-- The log tells of the accesses `accesses`, and of the words that the reads produced. -/
structure Told (accesses : List (Access abits)) (words : List (BitVec 32))
    (log : List (Transaction abits)) : Prop where
  accesses : log.reverse.flatMap (·.accesses) = accesses
  words : (log.reverse.filter (·.request.op = DMI_OP_READ)).map (·.produced) = words.map some

namespace Told
variable {accs : List (Access abits)} {words : List (BitVec 32)}
  {past log : List (Transaction abits)} {r : DmiPayload abits}

theorem serve (h : Told accs words past) (hs : Served r past log) (hop : r.op ≠ DMI_OP_READ) :
    Told (accs ++ r.accesses) words log := by
  obtain ⟨tr, resp, rfl, hrequest, haccesses, -, -⟩ := hs
  constructor
  · simp [h.accesses, haccesses]
  · rw [List.reverse_cons, List.filter_append, List.map_append, h.words]
    simp [hrequest, hop]

theorem serve_read (h : Told accs words past) (hs : Served r past log)
    (hop : r.op = DMI_OP_READ) :
    Told (accs ++ r.accesses) (words ++ [(lastResponse log).data]) log := by
  obtain ⟨tr, resp, rfl, hrequest, haccesses, hresp, hanswers⟩ := hs
  have hproduced : tr.produced = some resp.data := by
    have hread := hanswers.2.2
    rwa [hrequest, if_pos hop] at hread
  constructor
  · simp [h.accesses, haccesses]
  · rw [List.reverse_cons, List.filter_append, List.map_append, h.words]
    simp [hrequest, hop, hproduced, lastResponse, hresp]

end Told

namespace JtagHost
section Calls
variable {clocks : ℕ → CycleClock} {s s' : JtagHost abits} {n : ℕ}
  {P : List (Transaction abits) → Prop} (hclocks : ∀ n, (clocks n).Settles)

/-- What a scan captures when nothing is pending. -/
theorem captured_settled {w : ℕ} (R : ScanReg abits w) (h : s.Linked) (hcalm : Calm s.dmi)
    (hp : s.dmi.link.pending = false) :
    capturedAt R clocks s = R.captured false (lastResponse s.dmi.log) := by
  have hlink : (s.lowered (clocks s.cycles)).dmi.link =
      (s.lowered (clocks s.cycles)).sys.watched.link := coreEdges_link _ h.link
  have hdmi : (s.lowered (clocks s.cycles)).dmi =
      (observed abits).runFrom s.dmi (coreTicks (clocks s.cycles).low) := coreEdges_dmi _
  have hstill : ∀ t ∈ (coreTicks (clocks s.cycles).low : List (Tick abits)), t.Still :=
    coreTicks_still _
  obtain ⟨hidle, hlog⟩ := hcalm.run_idle hstill hp
  have hshown := (hcalm.run hstill).shown hidle
  rw [← hdmi] at hidle hlog hshown
  rw [hlog] at hshown
  rw [capturedAt, ← hlink, hidle]
  exact congrArg (R.captured false) ((congrArg (·.bridge.responsePayload) hlink).symm.trans hshown)

/-- What the bits of a register are followed by when it is read as a whole. -/
theorem stream_low {w : ℕ} (v : BitVec w) (bits : List Bool) :
    (stream v bits).toNat % 2 ^ w = v.toNat := by
  apply Nat.eq_of_testBit_eq
  intro j
  rw [Nat.testBit_mod_two_pow, BitVec.testBit_toNat, BitVec.testBit_toNat, getLsbD_stream]
  by_cases hj : j < w
  · simp [hj]
  · simp [hj, BitVec.getLsbD_of_ge v j (by omega)]

include hclocks

/-- Update-DR of the DMI register with nothing pending. -/
theorem At.update_dmi (h : s.At .updateDr JTAG_INSTR_DMI) (hcalm : Calm s.dmi)
    (hp : s.dmi.link.pending = false) :
    (s.jtagCycle clocks false false).At .runTestIdle JTAG_INSTR_DMI ∧
      Settling (Served s.sys.dtm.dmiShiftReg s.dmi.log) (s.jtagCycle clocks false false).dmi := by
  refine ⟨h.cycle false (by decide) (fun _ => rfl) false, ?_⟩
  have hlow : ∀ t ∈ (coreTicks (clocks s.cycles).low : List (Tick abits)), t.Still :=
    coreTicks_still _
  obtain ⟨hidle, hlog⟩ := hcalm.run_idle hlow hp
  have hk : 3 ≤ (clocks s.cycles).settle.length := hclocks s.cycles
  have hdmi : (s.jtagCycle clocks false false).dmi = _ := cycle_update h.state h.instruction
  rw [hdmi, ← hlog]
  refine Settling.post (hcalm.run hlow) hidle rfl rfl rfl ?_ ?_
  · exact fun t ht => (List.mem_append.1 ht).elim (coreTicks_still _ t) (coreTicks_still _ t)
  · rw [List.countP_append, count_coreTicks, count_coreTicks]
    omega

/-- A scan of the DMI register: it reads the last response, and posts its own bits. -/
theorem At.scan_dmi (value : ℕ) (hsettle : Settling P s.dmi) (hn : 1 ≤ n) (hpass : Passes n s s')
    (h : s'.At .runTestIdle JTAG_INSTR_DMI) : ∃ log s'', P log ∧ (lastResponse log).op = 0 ∧
      s'.scanDr clocks value (abits + 34) = ((lastResponse log).toNat, s'') ∧
      s''.At .runTestIdle JTAG_INSTR_DMI ∧
      Settling (Served (BitVec.ofNat (abits + 34) value) log) s''.dmi := by
  obtain ⟨s₁, s₂, -, hpass₁, hupdate, hpass₂, hget, hrun⟩ :=
    h.scanDr hclocks (ScanReg.dmi abits) rfl value (by omega : 0 < abits + 34)
  obtain ⟨hcalm, hp, hlog⟩ := hsettle.settled (by omega) (hpass.trans hpass₁).cycles
  have hcaptured : capturedAt (ScanReg.dmi abits) clocks s₁ = lastResponse s₁.dmi.log :=
    captured_settled _ hpass₁.linked hcalm hp
  obtain ⟨hcalm₂, hp₂, hlog₂⟩ := hpass₂.cycles.idle hcalm hp
  have hreg : s₂.sys.dtm.dmiShiftReg = BitVec.ofNat (abits + 34) value :=
    hget.trans (scanned_bitsLsbFirst _ value)
  obtain ⟨hidle, hpost⟩ := hupdate.update_dmi hclocks hcalm₂ hp₂
  rw [hreg, hlog₂] at hpost
  refine ⟨s₁.dmi.log, _, hlog, hcalm.success hp, ?_, hidle, hpost⟩
  rw [hrun, stream_low]
  exact congrArg (·.toNat, _) hcaptured

/-- A scan of zeros through another register. -/
theorem At.scan_reg {w : ℕ} (R : ScanReg abits w) (hc : R.column = .dr)
    (hasks : ∀ d : JtagDtm abits, d.instruction = R.instruction → R.get d = 0 →
      ¬ JtagSystem.Asks d)
    (hsettle : Settling P s.dmi) (hn : 1 ≤ n) (hpass : Passes n s s')
    (h : s'.At .runTestIdle R.instruction) : ∃ log s'', P log ∧
      s'.scanDr clocks 0 w = ((R.captured false (lastResponse log)).toNat, s'') ∧
      s''.At .runTestIdle R.instruction ∧ Settling P s''.dmi := by
  obtain ⟨s₁, s₂, -, hpass₁, hupdate, hpass₂, hget, hrun⟩ := h.scanDr hclocks R hc 0 R.pos
  obtain ⟨hcalm, hp, hlog⟩ := hsettle.settled (by omega) (hpass.trans hpass₁).cycles
  have hcaptured : capturedAt R clocks s₁ = _ := captured_settled R hpass₁.linked hcalm hp
  have hzero : R.get s₂.sys.dtm = 0 := hget.trans (scanned_bitsLsbFirst _ 0)
  have hlast := still_passes false hclocks hupdate.linked
    (hasks _ hupdate.instruction hzero) false
  have hall := ((hpass.trans hpass₁).trans hpass₂).trans hlast
  refine ⟨s₁.dmi.log, _, hlog, ?_, hupdate.cycle false (by decide) (fun _ => rfl) false,
    hsettle.more hall.cycles⟩
  rw [hrun, stream_low, hcaptured]

end Calls

/-- The host between two calls. -/
structure Between (accs : List (Access abits)) (words : List (BitVec 32)) (s : JtagHost abits) :
    Prop where
  parked : ∃ instruction, s.At .runTestIdle instruction
  told : Settling (Told accs words) s.dmi

section Between
variable {clocks : ℕ → CycleClock} {s : JtagHost abits} {accs : List (Access abits)}
  {words : List (BitVec 32)} (hclocks : ∀ n, (clocks n).Settles) (h : Between accs words s)
include hclocks h

theorem Between.setIr (instruction : BitVec 5) :
    (s.setIr clocks instruction).At .runTestIdle instruction ∧
      Passes 11 s (s.setIr clocks instruction) := by
  obtain ⟨_, hat⟩ := h.parked
  exact hat.setIr hclocks instruction

theorem Between.readIdcode : ∃ s', s.readIdcode clocks = (some JTAG_IDCODE, s') ∧
    Between accs words s' := by
  obtain ⟨hir, hpass⟩ := h.setIr hclocks JTAG_INSTR_IDCODE
  have hasks : ∀ d : JtagDtm abits, d.instruction = JTAG_INSTR_IDCODE → ¬ JtagSystem.Asks d := by
    rintro d hi ⟨-, hj⟩
    rw [hi] at hj
    exact absurd hj (by simp [JTAG_INSTR_IDCODE, JTAG_INSTR_DMI, JTAG_INSTR_DTMCS])
  obtain ⟨_, s', -, hscan, hat, hsettle⟩ := hir.scan_reg hclocks (ScanReg.idcode abits) rfl
    (fun d hi _ => hasks d hi) h.told (by decide) hpass
  refine ⟨s', ?_, ⟨_, hat⟩, hsettle⟩
  rw [JtagHost.readIdcode, hscan]
  rfl

omit hclocks h in
theorem captureDtmcs_valid (habits : abits < 32) :
    let dtmcs := captureDtmcs abits false
    dtmcs.extractLsb' 0 3 = DTM_VERSION ∧ (dtmcs.extractLsb' 4 5).toNat = abits ∧
      dtmcs.extractLsb' 10 2 = 0 ∧ dtmcs.extractLsb' 12 3 = DTM_IDLE := by
  have hfields : ∀ width : BitVec 5,
      let dtmcs := setSlice (setSlice (setSlice (0 : BitVec 32) 0 DTM_VERSION) 4 width) 12 DTM_IDLE
      dtmcs.extractLsb' 0 3 = DTM_VERSION ∧ dtmcs.extractLsb' 4 5 = width ∧
        dtmcs.extractLsb' 10 2 = 0 ∧ dtmcs.extractLsb' 12 3 = DTM_IDLE := by
    decide
  obtain ⟨hversion, hwidth, hstat, hidle⟩ := hfields (BitVec.ofNat 5 abits)
  refine ⟨hversion, ?_, hstat, hidle⟩
  calc _ = (BitVec.ofNat 5 abits).toNat := congrArg BitVec.toNat hwidth
    _ = abits := (BitVec.toNat_ofNat ..).trans (Nat.mod_eq_of_lt habits)

theorem Between.readDtmcs (habits : abits < 32) : ∃ s',
    s.readDtmcs clocks = (some (captureDtmcs abits false), s') ∧ Between accs words s' := by
  obtain ⟨hir, hpass⟩ := h.setIr hclocks JTAG_INSTR_DTMCS
  have hasks : ∀ d : JtagDtm abits, d.instruction = JTAG_INSTR_DTMCS → d.dtmcsShiftReg = 0 →
      ¬ JtagSystem.Asks d := by
    rintro d hi hzero ⟨-, hj⟩
    rw [hi, hzero] at hj
    exact absurd hj (by simp [JTAG_INSTR_DMI, JTAG_INSTR_DTMCS])
  obtain ⟨_, s', -, hscan, hat, hsettle⟩ := hir.scan_reg hclocks (ScanReg.dtmcs abits) rfl hasks
    h.told (by decide) hpass
  refine ⟨s', ?_, ⟨_, hat⟩, hsettle⟩
  have hscan : (s.setIr clocks JTAG_INSTR_DTMCS).scanDr clocks 0 32 =
      ((captureDtmcs abits false).toNat, s') := hscan
  rw [JtagHost.readDtmcs, hscan]
  dsimp only
  rw [ofNat_whole, if_pos (captureDtmcs_valid habits)]

theorem Between.dmiRead (adr : ℕ) : ∃ word s', s.dmiRead clocks adr = (some word, s') ∧
    Between (accs ++ DebugCall.accesses abits (.dmiRead adr)) (words ++ [word]) s' := by
  obtain ⟨hir, hpass⟩ := h.setIr hclocks JTAG_INSTR_DMI
  obtain ⟨log, s₁, htold, -, hrequest, hat, hsettle⟩ :=
    hir.scan_dmi hclocks (adr <<< 34 ||| DMI_OP_READ.toNat) h.told (by decide) hpass
  obtain ⟨hidle, hpass'⟩ := hat.idle hclocks 2
  obtain ⟨log', s₂, hserved, hop, hscan, hat', hsettle'⟩ :=
    hidle.scan_dmi hclocks 0 hsettle (by decide) hpass'
  refine ⟨(lastResponse log').data, s₂, ?_, ⟨_, hat'⟩, hsettle'.mono fun log'' hnop => ?_⟩
  · rw [JtagHost.dmiRead, hrequest]
    dsimp only
    rw [hscan]
    dsimp only
    rw [ofNat_whole, if_pos hop]
  · obtain ⟨haccesses, hread⟩ : _ ∧ _ := read_accesses adr
    have hserve := (htold.serve_read hserved hread).serve hnop nop_accesses.2
    rwa [haccesses, nop_accesses.1, List.append_nil] at hserve

theorem Between.dmiWrite (adr : ℕ) {data : ℕ} (hdata : data < 2 ^ 32) : ∃ s',
    s.dmiWrite clocks adr data = (some (), s') ∧
      Between (accs ++ DebugCall.accesses abits (.dmiWrite adr data)) words s' := by
  obtain ⟨hir, hpass⟩ := h.setIr hclocks JTAG_INSTR_DMI
  obtain ⟨log, s₁, htold, hop, hscan, hat, hsettle⟩ := hir.scan_dmi hclocks
    (adr <<< 34 ||| data <<< 2 ||| DMI_OP_WRITE.toNat) h.told (by decide) hpass
  obtain ⟨hidle, hpass'⟩ := hat.idle hclocks 2
  refine ⟨s₁.idle clocks 2, ?_, ⟨_, hidle⟩,
    (hsettle.more hpass'.cycles).mono fun log' hserved => ?_⟩
  · rw [JtagHost.dmiWrite, hscan]
    dsimp only
    rw [ofNat_whole, if_pos hop]
  · obtain ⟨haccesses, hwrite⟩ := write_accesses adr hdata
    have hserve := htold.serve hserved hwrite
    rwa [haccesses] at hserve

end Between
end JtagHost

namespace DebugCall
section Session
variable {clocks : ℕ → CycleClock} {s : JtagHost abits} {accs : List (Access abits)}
  {words : List (BitVec 32)} (hclocks : ∀ n, (clocks n).Settles) (habits : abits < 32)
include hclocks habits

/-- No assertion in a call fails, and it returns what its accesses produced. -/
theorem run_between (call : DebugCall) (hfits : call.Fits) (h : JtagHost.Between accs words s) :
    ∃ rs more s', call.run clocks s = (some rs, s') ∧
      (∀ calls rest, results abits (call :: calls) (more ++ rest) =
        rs ++ results abits calls rest) ∧
      JtagHost.Between (accs ++ call.accesses abits) (words ++ more) s' := by
  cases call with
  | readIdcode =>
    obtain ⟨s', hrun, hbetween⟩ := h.readIdcode hclocks
    refine ⟨[JTAG_IDCODE], [], s', ?_, fun _ _ => rfl, ?_⟩
    · rw [run, hrun]
      rfl
    · simpa [accesses] using hbetween
  | readDtmcs =>
    obtain ⟨s', hrun, hbetween⟩ := h.readDtmcs hclocks habits
    refine ⟨[captureDtmcs abits false], [], s', ?_, fun _ _ => rfl, ?_⟩
    · rw [run, hrun]
      rfl
    · simpa [accesses] using hbetween
  | dmiRead adr =>
    obtain ⟨word, s', hrun, hbetween⟩ := h.dmiRead hclocks adr
    refine ⟨[word], [word], s', ?_, fun _ _ => rfl, hbetween⟩
    rw [run, hrun]
    rfl
  | dmiWrite adr data =>
    obtain ⟨s', hrun, hbetween⟩ := h.dmiWrite hclocks adr hfits
    refine ⟨[], [], s', ?_, fun _ _ => rfl, ?_⟩
    · rw [run, hrun]
      rfl
    · simpa using hbetween

theorem session_between (calls : List DebugCall) (hfits : ∀ call ∈ calls, call.Fits)
    (h : JtagHost.Between accs words s) :
    ∃ more s', session clocks calls s = (some (results abits calls more), s') ∧
      JtagHost.Between (accs ++ calls.flatMap (accesses abits)) (words ++ more) s' := by
  induction calls generalizing s accs words with
  | nil => exact ⟨[], s, rfl, by simpa using h⟩
  | cons call calls ih =>
    obtain ⟨hcall, hcalls⟩ := List.forall_mem_cons.1 hfits
    obtain ⟨rs, more, s', hrun, hresults, hbetween⟩ := run_between hclocks habits call hcall h
    obtain ⟨more', s'', hsession, hbetween'⟩ := ih hcalls hbetween
    refine ⟨more ++ more', s'', ?_, ?_⟩
    · rw [session, hrun]
      dsimp only
      rw [hsession, hresults]
      rfl
    · simpa [List.append_assoc] using hbetween'

/-- From power on: the assertions of no call fail; the accesses at the DMI port are those that
the calls ask for, in order; and every call returns what is due to it, a read the word that its
own access produced. The host's log is that of the frontend, with nothing left over. -/
theorem session_delivers (calls : List DebugCall) (hfits : ∀ call ∈ calls, call.Fits) :
    let r := session clocks calls (({} : JtagHost abits).resetTap clocks)
    let s := r.2.idle clocks 3
    ∃ words, r.1 = some (results abits calls words) ∧
      s.dmi.strobes = calls.flatMap (accesses abits) ∧
      (s.dmi.log.reverse.filter (·.request.op = DMI_OP_READ)).map (·.produced) = words.map some ∧
      s.dmi.link = s.sys.watched.link ∧ s.dmi.link.pending = false := by
  have hlinked : ({} : JtagHost abits).Linked := ⟨rfl, rfl⟩
  have hstart : ({} : JtagHost abits).At .testLogicReset JTAG_INSTR_IDCODE :=
    ⟨hlinked, rfl, rfl⟩
  have hidle : Settling (Told [] []) ({} : JtagHost abits).dmi :=
    .of_idle calm_init rfl ⟨rfl, rfl⟩
  have hbetween : JtagHost.Between [] [] (({} : JtagHost abits).resetTap clocks) :=
    ⟨⟨_, JtagHost.resetTap_at hlinked.link⟩, hidle.more (hstart.resetTap hclocks).cycles⟩
  obtain ⟨words, s, hsession, hend⟩ := session_between hclocks habits calls hfits hbetween
  obtain ⟨_, hparked⟩ := hend.parked
  obtain ⟨-, hpass⟩ := hparked.idle hclocks 3
  obtain ⟨hcalm, hp, htold⟩ := hend.told _ hpass.cycles
  rw [hsession]
  exact ⟨words, rfl, hcalm.accounted.trans htold.accesses, htold.words, hpass.linked.link, hp⟩

end Session

/-- A halt request and a look at `dmstatus`. -/
theorem session_delivers_halt :
    let clocks : ℕ → CycleClock := fun _ => { low := [0x382], settle := [0x382, 0x382, 0x382] }
    let calls := [readIdcode, readDtmcs, dmiWrite 0x10 0x80000001, dmiRead 0x11]
    let r := session clocks calls (({} : JtagHost 7).resetTap clocks)
    let s := r.2.idle clocks 3
    ∃ words, r.1 = some (results 7 calls words) ∧
      s.dmi.strobes = [⟨0x10, 0x80000001, true⟩, ⟨0x11, 0, false⟩] ∧
      (s.dmi.log.reverse.filter (·.request.op = DMI_OP_READ)).map (·.produced) = words.map some ∧
      s.dmi.link = s.sys.watched.link ∧ s.dmi.link.pending = false :=
  session_delivers (fun _ => le_rfl) (by decide)
    [readIdcode, readDtmcs, dmiWrite 0x10 0x80000001, dmiRead 0x11] (by decide)

end DebugCall

end BonfireCore.DmiTransport
