import BonfireCore.ByteMerge
import BonfireCore.Dbus
import Mathlib.Logic.Function.Basic

/-! The one-way write-back cache: bus interface, tag way, cache RAM and the five-state engine
of its Wishbone side. -/
namespace BonfireCore

/-- The parameters the constructor accepts, by the powers of two it computes from them:
`master_data_width = 32 * 2 ^ wordSelectBits`, `line_size = 2 ^ clBits`,
`cache_size_m_words = 2 ^ (lineSelectAdrBits + clBits)`. -/
structure CacheConfig where
  wordSelectBits : ℕ
  clBits : ℕ
  lineSelectAdrBits : ℕ
  tagRamBits : ℕ
  wordSelectBits_le : wordSelectBits ≤ 3
  clBits_pos : 0 < clBits
  lineSelectAdrBits_pos : 0 < lineSelectAdrBits

namespace CacheConfig
variable (c : CacheConfig)

def muxSize : ℕ := 2 ^ c.wordSelectBits
abbrev masterDataWidth : ℕ := 32 * c.muxSize
abbrev masterWidthBytes : ℕ := 4 * c.muxSize
abbrev masterAdrBits : ℕ := c.tagRamBits + c.lineSelectAdrBits + c.clBits
abbrev addressBits : ℕ := c.masterAdrBits + c.wordSelectBits

abbrev Address := BitVec c.addressBits
abbrev MasterAddress := BitVec c.masterAdrBits
abbrev MasterWord := BitVec c.masterDataWidth

variable {c}

/-- `adr[address_bits : tag_value_adr_bit_low]`. -/
def tagValue (adr : c.Address) : BitVec c.tagRamBits :=
  adr.extractLsb' (c.lineSelectAdrBits + c.clBits + c.wordSelectBits) c.tagRamBits

/-- `adr[tag_value_adr_bit_low : cl_bits_slave]`. -/
def tagIndex (adr : c.Address) : BitVec c.lineSelectAdrBits :=
  adr.extractLsb' (c.clBits + c.wordSelectBits) c.lineSelectAdrBits

/-- `word_index[wi_high : wi_low]`. -/
def lineOffset (adr : c.Address) : BitVec c.clBits := adr.extractLsb' c.wordSelectBits c.clBits

/-- `adr[mx_high : mx_low]`; no bits when the bus is as wide as the CPU's. -/
def wordSelect (adr : c.Address) : BitVec c.wordSelectBits := adr.extractLsb' 0 c.wordSelectBits

/-- `concat(tag_value, index, offset)`. -/
def masterAdr (tag : BitVec c.tagRamBits) (index : BitVec c.lineSelectAdrBits)
    (offset : BitVec c.clBits) : c.MasterAddress :=
  tag ++ index ++ offset

end CacheConfig

open CacheConfig

structure TagData (c : CacheConfig) where
  valid : Bool := false
  dirty : Bool := false
  address : BitVec c.tagRamBits := 0
  deriving DecidableEq

inductive WbmState
  | wbIdle | wbBurstRead | wbBurstWrite | wbFinish | wbRetire
  deriving DecidableEq, Repr

/-- The registers of `cache_dbslave_connect`. -/
structure CacheInterface (c : CacheConfig) where
  slaveAdrReg : c.Address := 0
  enR : Bool := false
  slaveWeR : BitVec 4 := 0
  slaveWriteR : BitVec 32 := 0
  slaveAck : Bool := false

structure CacheWay (c : CacheConfig) where
  tagRam : BitVec c.lineSelectAdrBits → TagData c := fun _ => {}
  tagBuffer : TagData c := {}
  bufferIndex : BitVec c.lineSelectAdrBits := 0

structure CacheRam (c : CacheConfig) where
  array : BitVec (c.lineSelectAdrBits + c.clBits) → c.MasterWord := fun _ => 0
  slaveDbRd : c.MasterWord := 0
  masterDbRd : c.MasterWord := 0
  slaveDbMuxReg : BitVec c.wordSelectBits := 0

/-- The registers of `master_rw`. -/
structure CacheEngine (c : CacheConfig) where
  wbmState : WbmState := .wbIdle
  wbmEnable : Bool := false
  wbmWe : Bool := false
  wbmSel : BitVec c.masterWidthBytes := 0
  cacheOffsetCounter : BitVec c.clBits := 0
  masterOffsetCounter : BitVec c.clBits := 0

structure Cache (c : CacheConfig) where
  bus : CacheInterface c := {}
  way : CacheWay c := {}
  ram : CacheRam c := {}
  engine : CacheEngine c := {}

/-- What the outer memory drives. -/
structure WishboneResponse (c : CacheConfig) where
  ack : Bool := false
  db : c.MasterWord := 0

namespace Cache
variable {c : CacheConfig}

/-- `adr_o[slave_adr_high : slave_adr_low]`. -/
def slaveAdr (m : DbusRequest 32) : c.Address := m.adr.extractLsb' 2 c.addressBits

section Signals
variable (s : Cache c) (m : DbusRequest 32)

def slaveEn : Bool := s.bus.enR || m.en
def stall : Bool := s.bus.enR && m.en
def adrSlice : c.Address := if s.bus.enR then s.bus.slaveAdrReg else slaveAdr m
def slaveWe : BitVec 4 := if s.bus.enR then s.bus.slaveWeR else m.we
def slaveWrite : BitVec 32 := if s.bus.enR then s.bus.slaveWriteR else m.dbWr

def indexMatch : Bool := s.way.bufferIndex == tagIndex (s.adrSlice m)
def tagMatch : Bool :=
  s.way.tagBuffer.valid && s.way.tagBuffer.address == tagValue (s.adrSlice m)
def hit : Bool := s.indexMatch m && s.tagMatch m && s.slaveEn m
def miss : Bool := s.slaveEn m && s.indexMatch m && !s.tagMatch m
def dirtyMiss : Bool := s.miss m && s.way.tagBuffer.dirty

def slaveCacheWe : Bool := s.slaveEn m && s.slaveWe m ≠ 0 && s.hit m

def tagWe (r : WishboneResponse c) : Bool :=
  r.ack && s.engine.wbmState = .wbFinish || s.slaveCacheWe m

def tagIn : TagData c where
  valid := !s.dirtyMiss m
  dirty := s.slaveCacheWe m
  address := tagValue (s.adrSlice m)

def masterEn (r : WishboneResponse c) : Bool :=
  r.ack && s.engine.wbmEnable || s.dirtyMiss m && s.engine.wbmState = .wbIdle

def masterWe (r : WishboneResponse c) : Bool := r.ack && !s.dirtyMiss m

def ramMasterAdr : BitVec (c.lineSelectAdrBits + c.clBits) :=
  if s.dirtyMiss m then s.way.bufferIndex ++ s.engine.cacheOffsetCounter
  else tagIndex (s.adrSlice m) ++ s.engine.masterOffsetCounter

def ramSlaveAdr : BitVec (c.lineSelectAdrBits + c.clBits) :=
  tagIndex (s.adrSlice m) ++ lineOffset (s.adrSlice m)

def wbmAdr : c.MasterAddress :=
  if s.dirtyMiss m then
    masterAdr s.way.tagBuffer.address s.way.bufferIndex s.engine.masterOffsetCounter
  else
    masterAdr (tagValue (s.adrSlice m)) (tagIndex (s.adrSlice m)) s.engine.masterOffsetCounter

end Signals

def toMaster (s : Cache c) (m : DbusRequest 32) : DbusResponse 32 where
  ack := s.bus.slaveAck
  stall := s.stall m
  dbRd := wordLane s.ram.slaveDbRd s.ram.slaveDbMuxReg.toNat

/-- `proc_reg_slave` and `proc_slave_control`. -/
def busNext (s : Cache c) (m : DbusRequest 32) : CacheInterface c :=
  let capture := m.en && !(s.bus.enR || s.hit m)
  { slaveAdrReg := if capture then slaveAdr m else s.bus.slaveAdrReg
    slaveWeR := if capture then m.we else s.bus.slaveWeR
    slaveWriteR := if capture then m.dbWr else s.bus.slaveWriteR
    enR := if s.hit m then false else if capture then true else s.bus.enR
    slaveAck := s.hit m }

/-- The tag RAM with its output buffer, which sees a write at once. -/
def wayNext (s : Cache c) (m : DbusRequest 32) (r : WishboneResponse c) : CacheWay c :=
  let index := tagIndex (s.adrSlice m)
  { tagRam :=
      if s.tagWe m r then Function.update s.way.tagRam index (s.tagIn m) else s.way.tagRam
    tagBuffer := if s.tagWe m r then s.tagIn m else s.way.tagRam index
    bufferIndex := index }

/-- Both ports of the cache RAM; the slave port writes the selected 32-bit slice only. -/
def ramNext (s : Cache c) (m : DbusRequest 32) (r : WishboneResponse c) : CacheRam c :=
  let adr := s.ramSlaveAdr m
  let we := laneEnable c.masterWidthBytes (wordSelect (s.adrSlice m)).toNat (s.slaveWe m)
  let slaveWritten :=
    if s.hit m && s.slaveEn m then
      Function.update s.ram.array adr
        (byteMerge we (s.ram.array adr) ((s.slaveWrite m).replicate c.muxSize))
    else s.ram.array
  { array :=
      if s.masterEn m r && s.masterWe m r then
        Function.update slaveWritten (s.ramMasterAdr m) r.db
      else slaveWritten
    slaveDbRd := s.ram.array adr
    masterDbRd :=
      if s.masterEn m r then s.ram.array (s.ramMasterAdr m) else s.ram.masterDbRd
    slaveDbMuxReg :=
      if s.hit m && s.slaveEn m then wordSelect (s.adrSlice m) else s.ram.slaveDbMuxReg }

/-- `master_rw`. -/
def engineNext (s : Cache c) (m : DbusRequest 32) (r : WishboneResponse c) : CacheEngine c :=
  let e := s.engine
  match e.wbmState with
  | .wbIdle =>
    if s.miss m && !s.hit m then
      if s.dirtyMiss m then
        { e with
          wbmEnable := true, wbmSel := BitVec.allOnes _
          cacheOffsetCounter := e.masterOffsetCounter + 1
          wbmWe := true, wbmState := .wbBurstWrite }
      else
        { e with
          wbmEnable := true, wbmSel := BitVec.allOnes _
          wbmWe := false, wbmState := .wbBurstRead }
    else e
  | .wbBurstRead | .wbBurstWrite =>
    if r.ack then
      { e with
        wbmState :=
          if e.masterOffsetCounter.toNat + 1 = 2 ^ c.clBits - 1 then .wbFinish else e.wbmState
        masterOffsetCounter := e.masterOffsetCounter + 1
        cacheOffsetCounter := e.masterOffsetCounter + 1 + 1 }
    else e
  | .wbFinish =>
    if r.ack then
      { e with
        wbmEnable := false, wbmWe := false, masterOffsetCounter := 0, cacheOffsetCounter := 0
        wbmState := .wbRetire }
    else e
  | .wbRetire => { e with wbmState := .wbIdle }

/-- One clock edge: every process reads the registers before it. -/
def step (s : Cache c) (m : DbusRequest 32) (r : WishboneResponse c) : Cache c where
  bus := s.busNext m
  way := s.wayNext m r
  ram := s.ramNext m r
  engine := s.engineNext m r

end Cache
end BonfireCore
