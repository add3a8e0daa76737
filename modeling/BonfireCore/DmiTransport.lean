import BonfireCore.BitSlice
import BonfireCore.Clocked

/-! The clock-domain crossing shared by the debug transport frontends. The scan side
owns `request_payload`, `request_toggle` and `dtmhardreset_toggle`; the bridge answers in
the core clock domain and hands its own toggle back through two scan-clock registers. -/
namespace BonfireCore.DmiTransport

def DMI_OP_READ : BitVec 2 := 1
def DMI_OP_WRITE : BitVec 2 := 2
def DMI_OP_SUCCESS : BitVec 2 := 0
def DMI_OP_BUSY : BitVec 2 := 3

/-- `{address, data, op}`, `dmi_width = abits + 34` bits. -/
abbrev DmiPayload (abits : ℕ) := BitVec (abits + 34)

variable {abits : ℕ}

def DmiPayload.op (p : DmiPayload abits) : BitVec 2 := p.extractLsb' 0 2
def DmiPayload.data (p : DmiPayload abits) : BitVec 32 := p.extractLsb' 2 32
def DmiPayload.address (p : DmiPayload abits) : BitVec abits := p.extractLsb' 34 abits

/-- The master side of the DMI register port. -/
structure DmiBundle (abits : ℕ) where
  adr : BitVec abits := 0
  en : Bool := false
  we : Bool := false
  dbi : BitVec 32 := 0
  deriving DecidableEq, Repr

structure DmiCdcBridge (abits : ℕ) where
  responseToggle : Bool := false
  responseToggleMeta : Bool := false
  responseToggleSync : Bool := false
  requestToggleMeta : Bool := false
  requestToggleSync : Bool := false
  requestToggleSeen : Bool := false
  dtmhardresetToggleMeta : Bool := false
  dtmhardresetToggleSync : Bool := false
  dtmhardresetToggleSeen : Bool := false
  requestActive : Bool := false
  readPending : Bool := false
  readCapture : Bool := false
  responsePayload : DmiPayload abits := 0
  dtm : DmiBundle abits := {}
  deriving DecidableEq, Repr

/-- The registers a scan frontend drives into the bridge. -/
structure ScanSide (abits : ℕ) where
  requestPayload : DmiPayload abits := 0
  requestToggle : Bool := false
  dtmhardresetToggle : Bool := false
  deriving DecidableEq, Repr

def pending (scan : ScanSide abits) (b : DmiCdcBridge abits) : Bool :=
  scan.requestToggle != b.responseToggleSync

/-- Rising scan-clock edge. -/
def responseSynchronizer (reset scanResetn : Bool) (b : DmiCdcBridge abits) :
    DmiCdcBridge abits :=
  if reset || !scanResetn then
    { b with responseToggleMeta := false, responseToggleSync := false }
  else
    { b with
      responseToggleMeta := b.responseToggle
      responseToggleSync := b.responseToggleMeta }

/-- The two synchronizer stages of the core clock domain. -/
def synchronizeRequest (scan : ScanSide abits) (b : DmiCdcBridge abits) :
    DmiCdcBridge abits :=
  { b with
    requestToggleMeta := scan.requestToggle
    requestToggleSync := b.requestToggleMeta
    dtmhardresetToggleMeta := scan.dtmhardresetToggle
    dtmhardresetToggleSync := b.dtmhardresetToggleMeta }

/-- A hard reset has crossed and is not yet acted on. -/
def hardresetSeen (b : DmiCdcBridge abits) : Bool :=
  b.dtmhardresetToggleSync != b.dtmhardresetToggleSeen

/-- The transaction engine at a rising core-clock edge: `b` are the registers before the
edge, `s` the same registers after the synchronizers of this edge. -/
def transact (scan : ScanSide abits) (dbo : BitVec 32) (b s : DmiCdcBridge abits) :
    DmiCdcBridge abits :=
  if hardresetSeen b then
    -- aborts any request in flight and acknowledges the scan side at once
    { s with
      dtmhardresetToggleSeen := b.dtmhardresetToggleSync
      requestToggleSeen := b.requestToggleSync
      requestActive := false
      readPending := false
      readCapture := false
      responsePayload := 0
      responseToggle := b.requestToggleSync
      dtm := { b.dtm with en := false, we := false } }
  else if b.requestActive then
    let s := { s with
      dtm := { b.dtm with en := false, we := false }
      requestActive := false }
    if b.readPending then
      { s with readPending := false, readCapture := true }
    else
      { s with responseToggle := b.requestToggleSeen }
  else if b.readCapture then
    { s with
      responsePayload := setSlice (setSlice b.responsePayload 0 DMI_OP_SUCCESS) 2 dbo
      responseToggle := b.requestToggleSeen
      readCapture := false }
  else if b.requestToggleSync != b.requestToggleSeen then
    let request := scan.requestPayload
    let s := { s with
      requestToggleSeen := b.requestToggleSync
      responsePayload := setSlice
        (setSlice (setSlice b.responsePayload 0 DMI_OP_SUCCESS) 2 (0 : BitVec 32))
        34 request.address
      dtm := { b.dtm with adr := request.address, dbi := request.data } }
    if request.op = DMI_OP_READ then
      { s with
        dtm := { s.dtm with we := false, en := true }
        requestActive := true
        readPending := true }
    else if request.op = DMI_OP_WRITE then
      { s with dtm := { s.dtm with we := true, en := true }, requestActive := true }
    else
      { s with
        dtm := { s.dtm with en := false, we := false }
        responseToggle := b.requestToggleSync }
  else s

/-- Rising core-clock edge; `dbo` is what the DMI target drives in the cycle it ends. -/
def coreClockDomain (reset : Bool) (scan : ScanSide abits) (dbo : BitVec 32)
    (b : DmiCdcBridge abits) : DmiCdcBridge abits :=
  if reset then
    { responseToggleMeta := b.responseToggleMeta
      responseToggleSync := b.responseToggleSync }
  else transact scan dbo b (synchronizeRequest scan b)

/-- The core clock domain leaves the scan-clock registers alone. -/
@[simp] theorem coreClockDomain_responseToggleSync (reset : Bool) (scan : ScanSide abits)
    (dbo : BitVec 32) (b : DmiCdcBridge abits) :
    (coreClockDomain reset scan dbo b).responseToggleSync = b.responseToggleSync := by
  simp only [coreClockDomain, transact]
  split_ifs <;> rfl

@[simp] theorem coreClockDomain_responseToggleMeta (reset : Bool) (scan : ScanSide abits)
    (dbo : BitVec 32) (b : DmiCdcBridge abits) :
    (coreClockDomain reset scan dbo b).responseToggleMeta = b.responseToggleMeta := by
  simp only [coreClockDomain, transact]
  split_ifs <;> rfl

/-- Both domains, with the clock edges that fall at one instant: each process reads the
registers as they were before it. -/
def DmiCdcBridge.edges (scanResetn scanEdge coreEdge : Bool) (scan : ScanSide abits)
    (dbo : BitVec 32) (b : DmiCdcBridge abits) : DmiCdcBridge abits :=
  let c := if coreEdge then coreClockDomain false scan dbo b else b
  if scanEdge then
    let r := responseSynchronizer false scanResetn b
    { c with
      responseToggleMeta := r.responseToggleMeta
      responseToggleSync := r.responseToggleSync }
  else c

/-- One instant: which clocks rise, and what the scan side changes with it. -/
structure Tick (abits : ℕ) where
  scanEdge : Bool := false
  coreEdge : Bool := false
  dbo : BitVec 32 := 0
  payload : Option (DmiPayload abits) := none
  flip : Bool := false
  hardreset : Bool := false
  deriving DecidableEq, Repr

structure Link (abits : ℕ) where
  scan : ScanSide abits := {}
  bridge : DmiCdcBridge abits := {}
  deriving DecidableEq, Repr

def Link.pending (s : Link abits) : Bool := DmiTransport.pending s.scan s.bridge

def ScanSide.change (t : Tick abits) (scan : ScanSide abits) : ScanSide abits :=
  { requestPayload := t.payload.getD scan.requestPayload
    requestToggle := scan.requestToggle ^^ t.flip
    dtmhardresetToggle := scan.dtmhardresetToggle ^^ t.hardreset }

def Link.step (s : Link abits) (t : Tick abits) : Link abits :=
  { scan := s.scan.change t
    bridge := s.bridge.edges true t.scanEdge t.coreEdge s.scan t.dbo }

/-- The scan side touches the request only while nothing is pending. -/
def Tick.Polite (s : Link abits) (t : Tick abits) : Prop :=
  t.payload.isSome ∨ t.flip → s.pending = false

instance (s : Link abits) (t : Tick abits) : Decidable (t.Polite s) :=
  inferInstanceAs (Decidable (_ → _))

def link (abits : ℕ) : Clocked (Link abits) (Tick abits) where
  init := {}
  step := Link.step

end BonfireCore.DmiTransport
