import BonfireCore.Cache
import Mathlib.Tactic.SplitIfs

/-! The cache in front of a Wishbone memory answers like a flat memory. The requests accepted
and the answers given are logged; the outer memory overlaid with the dirty lines is what the
log says. -/
namespace BonfireCore
open CacheConfig

theorem append_inj {k l : ℕ} {x x' : BitVec k} {y y' : BitVec l} :
    x ++ y = x' ++ y' ↔ x = x' ∧ y = y' := by
  constructor
  · intro h
    have hx := congrArg (BitVec.extractLsb' l k) h
    have hy := congrArg (BitVec.extractLsb' 0 l) h
    rw [BitVec.extractLsb'_append_eq_left, BitVec.extractLsb'_append_eq_left] at hx
    rw [BitVec.extractLsb'_append_eq_right, BitVec.extractLsb'_append_eq_right] at hy
    exact ⟨hx, hy⟩
  · rintro ⟨rfl, rfl⟩
    rfl

variable {c : CacheConfig}

theorem masterAdr_inj {t t' : BitVec c.tagRamBits} {i i' : BitVec c.lineSelectAdrBits}
    {o o' : BitVec c.clBits} :
    masterAdr t i o = masterAdr t' i' o' ↔ t = t' ∧ i = i' ∧ o = o' := by
  exact append_inj.trans ((and_congr_left' append_inj).trans and_assoc)

/-- An address is its tag, index, offset and word select. -/
theorem address_ext {a b : c.Address} (ht : tagValue a = tagValue b)
    (hi : tagIndex a = tagIndex b) (ho : lineOffset a = lineOffset b)
    (hw : wordSelect a = wordSelect b) : a = b := by
  apply BitVec.eq_of_getLsbD_eq
  intro j hj
  have hpart {n m : ℕ} (h : a.extractLsb' n m = b.extractLsb' n m) (h1 : n ≤ j)
      (h2 : j < n + m) : a.getLsbD j = b.getLsbD j := by
    have hbit := congrArg (fun v => v.getLsbD (j - n)) h
    have h3 : j - n < m := by omega
    have h4 : n + (j - n) = j := by omega
    simpa [h3, h4] using hbit
  have hlen : c.addressBits =
      c.tagRamBits + c.lineSelectAdrBits + c.clBits + c.wordSelectBits := rfl
  by_cases h1 : j < c.wordSelectBits
  · exact hpart hw (by omega) (by omega)
  · by_cases h2 : j < c.clBits + c.wordSelectBits
    · exact hpart ho (by omega) (by omega)
    · by_cases h3 : j < c.lineSelectAdrBits + c.clBits + c.wordSelectBits
      · exact hpart hi (by omega) (by omega)
      · exact hpart ht (by omega) (by omega)

theorem wordSelect_lt (a : c.Address) : (wordSelect a).toNat < c.muxSize :=
  (wordSelect a).isLt

structure CacheRequest (c : CacheConfig) where
  adr : c.Address
  we : BitVec 4
  data : BitVec 32
  deriving DecidableEq

/-- The flat reference memory: one 32-bit word at each address. -/
abbrev FlatMemory (c : CacheConfig) := c.Address → BitVec 32

def FlatMemory.perform (ref : FlatMemory c) (r : CacheRequest c) : FlatMemory c :=
  Function.update ref r.adr (byteMerge r.we (ref r.adr) r.data)

def FlatMemory.replay (ref : FlatMemory c) (l : List (CacheRequest c)) : FlatMemory c :=
  l.foldl FlatMemory.perform ref

/-- The answers a flat memory gives to the first requests, one each and in order; what comes
with the answer to a write does not matter. -/
def Answered : FlatMemory c → List (CacheRequest c) → List (BitVec 32) → Prop
  | _, _, [] => True
  | _, [], _ :: _ => False
  | ref, r :: rs, d :: ds => (r.we = 0 → d = ref r.adr) ∧ Answered (ref.perform r) rs ds

theorem Answered.append_request {ref : FlatMemory c} {rs : List (CacheRequest c)}
    {ds : List (BitVec 32)} (h : Answered ref rs ds) (r : CacheRequest c) :
    Answered ref (rs ++ [r]) ds := by
  induction rs generalizing ref ds with
  | nil =>
    cases ds with
    | nil => trivial
    | cons d ds => exact h.elim
  | cons r' rs ih =>
    cases ds with
    | nil => trivial
    | cons d ds => exact ⟨h.1, ih h.2⟩

theorem Answered.append_answer {ref : FlatMemory c} {rs : List (CacheRequest c)}
    {ds : List (BitVec 32)} {r : CacheRequest c} {d : BitVec 32}
    (h : Answered ref (rs ++ [r]) ds) (hlen : ds.length = rs.length)
    (hd : r.we = 0 → d = ref.replay rs r.adr) :
    Answered ref (rs ++ [r]) (ds ++ [d]) := by
  induction rs generalizing ref ds with
  | nil =>
    cases ds with
    | nil => exact ⟨hd, trivial⟩
    | cons d ds => cases hlen
  | cons r' rs ih =>
    cases ds with
    | nil => cases hlen
    | cons d' ds => exact ⟨h.1, ih h.2 (Nat.succ.inj hlen) hd⟩

/-- One cycle: what the DBus master drives, and whether the Wishbone memory acknowledges. -/
structure CacheCycle where
  request : DbusRequest 32 := {}
  ack : Bool := false

/-- The cache, the memory behind it, and the log. `age`: for how many cycles the request in
progress has not been waiting for the memory. -/
structure CacheBench (c : CacheConfig) where
  cache : Cache c := {}
  mem : c.MasterAddress → c.MasterWord
  accepted : List (CacheRequest c) := []
  acks : List (BitVec 32) := []
  age : ℕ := 0

namespace CacheBench

/-- The memory drives the word addressed. -/
def wishbone (b : CacheBench c) (cyc : CacheCycle) : WishboneResponse c where
  ack := cyc.ack
  db := b.mem (b.cache.wbmAdr cyc.request)

def memStep (b : CacheBench c) (cyc : CacheCycle) : c.MasterAddress → c.MasterWord :=
  let adr := b.cache.wbmAdr cyc.request
  if cyc.ack && b.cache.engine.wbmEnable && b.cache.engine.wbmWe then
    Function.update b.mem adr (byteMerge b.cache.engine.wbmSel (b.mem adr) b.cache.ram.masterDbRd)
  else b.mem

def step (b : CacheBench c) (cyc : CacheCycle) : CacheBench c :=
  let m := cyc.request
  { cache := b.cache.step m (b.wishbone cyc)
    mem := b.memStep cyc
    accepted :=
      if m.en && !b.cache.stall m then b.accepted ++ [⟨Cache.slaveAdr m, m.we, m.dbWr⟩]
      else b.accepted
    acks :=
      if b.cache.bus.slaveAck then b.acks ++ [(b.cache.toMaster m).dbRd] else b.acks
    age :=
      if b.cache.bus.slaveAck || b.accepted.length == b.acks.length then 0
      else if b.cache.engine.wbmEnable && !cyc.ack then b.age
      else b.age + 1 }

/-- The memory acknowledges data phases only. -/
def Legal (b : CacheBench c) (cyc : CacheCycle) : Prop := cyc.ack → b.cache.engine.wbmEnable

instance (b : CacheBench c) (cyc : CacheCycle) : Decidable (b.Legal cyc) :=
  inferInstanceAs (Decidable (_ → _))

end CacheBench

def cached (c : CacheConfig) (mem : c.MasterAddress → c.MasterWord) :
    Clocked (CacheBench c) CacheCycle where
  init := { mem }
  step := CacheBench.step

/-- A memory of master words, read 32 bits at a time. -/
def flat (mem : c.MasterAddress → c.MasterWord) : FlatMemory c := fun adr =>
  wordLane (mem (masterAdr (tagValue adr) (tagIndex adr) (lineOffset adr))) (wordSelect adr).toNat

namespace Cache

/-- The master word at an address: from the line if it is dirty, else from the memory. -/
def overlay (s : Cache c) (mem : c.MasterAddress → c.MasterWord) (tag : BitVec c.tagRamBits)
    (index : BitVec c.lineSelectAdrBits) (offset : BitVec c.clBits) : c.MasterWord :=
  let e := s.way.tagRam index
  if e.valid && e.dirty && e.address == tag then s.ram.array (index ++ offset)
  else mem (masterAdr tag index offset)

def view (s : Cache c) (mem : c.MasterAddress → c.MasterWord) : FlatMemory c := fun adr =>
  wordLane (s.overlay mem (tagValue adr) (tagIndex adr) (lineOffset adr)) (wordSelect adr).toNat

/-- What the tag RAM and its buffer keep to, in any state. -/
structure Tagged (s : Cache c) : Prop where
  buffer : s.way.tagBuffer = s.way.tagRam s.way.bufferIndex
  dirty : ∀ i, (s.way.tagRam i).dirty = true → (s.way.tagRam i).valid = true

/-- Line `i`, if it is valid and clean, is a copy of the memory. -/
def CleanAt (s : Cache c) (mem : c.MasterAddress → c.MasterWord)
    (i : BitVec c.lineSelectAdrBits) : Prop :=
  (s.way.tagRam i).valid = true → (s.way.tagRam i).dirty = false → ∀ o,
    s.ram.array (i ++ o) = mem (masterAdr (s.way.tagRam i).address i o)

variable {s : Cache c} {m : DbusRequest 32} {r : WishboneResponse c}
  {mem : c.MasterAddress → c.MasterWord}

theorem hit_iff : s.hit m = true ↔ s.slaveEn m = true ∧
    s.way.bufferIndex = tagIndex (s.adrSlice m) ∧
    s.way.tagBuffer.valid = true ∧ s.way.tagBuffer.address = tagValue (s.adrSlice m) := by
  simp only [hit, indexMatch, tagMatch, Bool.and_eq_true, beq_iff_eq]
  tauto

theorem miss_of_hit (h : s.hit m = true) : s.miss m = false := by
  have hit := hit_iff.mp h
  simp [miss, indexMatch, tagMatch, hit]

theorem dirtyMiss_of_hit (h : s.hit m = true) : s.dirtyMiss m = false := by
  simp [dirtyMiss, miss_of_hit h]

/-- The request at the cache: the held one, or what the master drives. -/
def requestOf (s : Cache c) (m : DbusRequest 32) : CacheRequest c :=
  ⟨s.adrSlice m, s.slaveWe m, s.slaveWrite m⟩

theorem step_enR : (s.step m r).bus.enR = (s.slaveEn m && !s.hit m) := by
  simp only [step, busNext, slaveEn]
  cases s.hit m <;> cases s.bus.enR <;> cases m.en <;> rfl

/-- A request that has not hit is held. -/
theorem step_held (hen : s.slaveEn m = true) (h : s.hit m = false) (m' : DbusRequest 32) :
    (s.step m r).requestOf m' = s.requestOf m := by
  have henr : (s.step m r).bus.enR = true := by simp [step_enR, hen, h]
  simp only [requestOf, adrSlice, slaveWe, slaveWrite, henr, if_true]
  cases hr : s.bus.enR with
  | true => simp [step, busNext, hr]
  | false =>
    have : m.en = true := by simpa [slaveEn, hr] using hen
    simp [step, busNext, hr, h, this]

/-- The tag invariants hold after any edge. -/
theorem Tagged.step (h : s.Tagged) : (s.step m r).Tagged := by
  constructor
  · simp only [Cache.step, wayNext]
    split_ifs <;> simp
  · intro i
    simp only [Cache.step, wayNext]
    split_ifs with hwe
    · by_cases hi : i = tagIndex (s.adrSlice m)
      · subst i
        simp only [Function.update_self, tagIn]
        intro hd
        have hhit : s.hit m = true := by
          simp only [slaveCacheWe, Bool.and_eq_true] at hd
          exact hd.2
        simp [dirtyMiss_of_hit hhit]
      · rw [Function.update_of_ne hi]
        exact h.dirty i
    · exact h.dirty i

theorem overlay_of_valid {i : BitVec c.lineSelectAdrBits} (hc : s.CleanAt mem i)
    (hv : (s.way.tagRam i).valid = true) (o : BitVec c.clBits) :
    s.overlay mem (s.way.tagRam i).address i o = s.ram.array (i ++ o) := by
  cases hd : (s.way.tagRam i).dirty with
  | true => simp [overlay, hv, hd]
  | false => simp [overlay, hd, hc hv hd o]

theorem laneEnable_zero (k i : ℕ) : laneEnable k i 0 = 0 := by
  simp [laneEnable]

theorem perform_read {ref : FlatMemory c} {q : CacheRequest c} (h : q.we = 0) :
    ref.perform q = ref := by
  rw [FlatMemory.perform, h]
  exact (congrArg _ (byteMerge_zero _ _)).trans (Function.update_eq_self _ _)

/-- What a hit does to the arrays. -/
theorem step_hit_arrays (h : s.hit m = true) (hack : r.ack = false) :
    (s.step m r).way.tagRam =
      (if s.slaveWe m = 0 then s.way.tagRam
      else Function.update s.way.tagRam (tagIndex (s.adrSlice m))
        ⟨true, true, tagValue (s.adrSlice m)⟩) ∧
    (s.step m r).ram.array = Function.update s.ram.array (s.ramSlaveAdr m)
      (byteMerge (laneEnable c.masterWidthBytes (wordSelect (s.adrSlice m)).toNat (s.slaveWe m))
        (s.ram.array (s.ramSlaveAdr m)) ((s.slaveWrite m).replicate c.muxSize)) := by
  have hen := (hit_iff.mp h).1
  have hdm := dirtyMiss_of_hit h
  constructor
  · by_cases hwe : s.slaveWe m = 0#4 <;>
      simp [step, wayNext, tagWe, tagIn, slaveCacheWe, hack, hdm, h, hen, hwe]
  · simp [step, ramNext, masterEn, masterWe, hack, hdm, h, hen]

/-- A hit serves the request: the memory behind the cache is as a flat memory would be, and
the word read is ready. -/
theorem step_hit (ht : s.Tagged) (hc : ∀ i, s.CleanAt mem i) (h : s.hit m = true)
    (hack : r.ack = false) (m' : DbusRequest 32) :
    (s.step m r).view mem = (s.view mem).perform (s.requestOf m) ∧
      (∀ i, (s.step m r).CleanAt mem i) ∧
      ((s.step m r).toMaster m').dbRd = s.view mem (s.requestOf m).adr := by
  obtain ⟨hen, hindex, hvalid, htag⟩ := hit_iff.mp h
  obtain ⟨htags, harray⟩ := step_hit_arrays h hack
  have hentry : s.way.tagRam (tagIndex (s.adrSlice m)) = s.way.tagBuffer := by
    rw [ht.buffer, hindex]
  rw [ht.buffer, hindex] at hvalid htag
  have hword (o : BitVec c.clBits) :
      s.overlay mem (tagValue (s.adrSlice m)) (tagIndex (s.adrSlice m)) o =
        s.ram.array (tagIndex (s.adrSlice m) ++ o) := by
    rw [← htag]
    exact overlay_of_valid (hc _) hvalid o
  have hread : ((s.step m r).toMaster m').dbRd = s.view mem (s.requestOf m).adr := by
    simp [toMaster, step, ramNext, view, requestOf, hword, h, hen, ramSlaveAdr]
  refine ⟨?_, ?_, hread⟩
  · by_cases hwe : s.slaveWe m = 0
    · rw [perform_read hwe]
      rw [hwe, laneEnable_zero, byteMerge_zero, Function.update_eq_self] at harray
      rw [if_pos hwe] at htags
      funext adr
      simp [view, overlay, htags, harray]
    · rw [if_neg hwe] at htags
      funext adr
      simp only [FlatMemory.perform, requestOf]
      by_cases hadr : adr = s.adrSlice m
      · subst hadr
        rw [Function.update_self]
        have hnew : (s.step m r).overlay mem (tagValue (s.adrSlice m)) (tagIndex (s.adrSlice m))
            (lineOffset (s.adrSlice m)) = (s.step m r).ram.array (s.ramSlaveAdr m) := by
          simp [overlay, htags, ramSlaveAdr]
        rw [view, hnew, harray, Function.update_self]
        refine (wordLane_byteMerge (wordSelect_lt _) _ _ _).trans ?_
        rw [if_pos rfl, view, hword]
        rfl
      · rw [Function.update_of_ne hadr]
        simp only [view]
        by_cases hi : tagIndex adr = tagIndex (s.adrSlice m)
        · by_cases htv : tagValue adr = tagValue (s.adrSlice m)
          · have hnew : (s.step m r).overlay mem (tagValue adr) (tagIndex adr) (lineOffset adr) =
                (s.step m r).ram.array (tagIndex (s.adrSlice m) ++ lineOffset adr) := by
              simp [overlay, htags, hi, htv]
            rw [hnew, htv, hi, hword, harray]
            by_cases ho : lineOffset adr = lineOffset (s.adrSlice m)
            · -- the same master word, another 32-bit slice of it
              have hlane : (wordSelect adr).toNat ≠ (wordSelect (s.adrSlice m)).toNat := by
                intro hw
                exact hadr (address_ext htv hi ho (BitVec.eq_of_toNat_eq hw))
              rw [ho, show tagIndex (s.adrSlice m) ++ lineOffset (s.adrSlice m) =
                s.ramSlaveAdr m from rfl, Function.update_self]
              refine (wordLane_byteMerge (wordSelect_lt _) _ _ _).trans ?_
              rw [if_neg hlane]
            · rw [Function.update_of_ne]
              intro heq
              exact ho (append_inj.mp heq).2
          · simp [overlay, htags, hi, htag, Ne.symm htv]
        · have hne (o : BitVec c.clBits) : tagIndex adr ++ o ≠ s.ramSlaveAdr m := fun heq =>
            hi (append_inj.mp heq).1
          simp [overlay, htags, harray, Function.update_of_ne hi, hne]
  · intro i hv hd o
    by_cases hwe : s.slaveWe m = 0
    · rw [hwe, laneEnable_zero, byteMerge_zero, Function.update_eq_self] at harray
      rw [if_pos hwe] at htags
      rw [htags] at hv hd ⊢
      rw [harray]
      exact hc i hv hd o
    · rw [if_neg hwe] at htags
      rw [htags] at hv hd ⊢
      by_cases hi : i = tagIndex (s.adrSlice m)
      · subst i
        simp at hd
      · rw [Function.update_of_ne hi] at hv hd ⊢
        have hne : i ++ o ≠ s.ramSlaveAdr m := fun heq => hi (append_inj.mp heq).1
        rw [harray, Function.update_of_ne hne]
        exact hc i hv hd o

/-- Without a hit and without an acknowledge the arrays keep their contents. -/
theorem step_quiet_arrays (h : s.hit m = false) (hack : r.ack = false) :
    (s.step m r).way.tagRam = s.way.tagRam ∧ (s.step m r).ram.array = s.ram.array := by
  constructor
  · simp [step, wayNext, tagWe, slaveCacheWe, h, hack]
  · simp [step, ramNext, masterWe, h, hack]

def heldRequest (s : Cache c) : CacheRequest c := ⟨s.bus.slaveAdrReg, s.bus.slaveWeR, s.bus.slaveWriteR⟩

theorem requestOf_held (h : s.bus.enR = true) (m : DbusRequest 32) :
    s.requestOf m = s.heldRequest := by
  simp [requestOf, heldRequest, adrSlice, slaveWe, slaveWrite, h]

/-- The engine between two bursts. -/
structure Resting (e : CacheEngine c) (state : WbmState) : Prop where
  state : e.wbmState = state
  enable : e.wbmEnable = false
  masterOffset : e.masterOffsetCounter = 0
  cacheOffset : e.cacheOffsetCounter = 0

/-- The engine in a burst, `k` words into the line. -/
structure Bursting (e : CacheEngine c) (state : WbmState) (k : ℕ) : Prop where
  enable : e.wbmEnable = true
  sel : e.wbmSel = BitVec.allOnes _
  offset : e.masterOffsetCounter.toNat = k
  cacheOffset : state = .wbBurstWrite → e.cacheOffsetCounter = e.masterOffsetCounter + 1
  state : e.wbmState = state ∧ k + 1 < 2 ^ c.clBits ∨
    e.wbmState = .wbFinish ∧ k + 1 = 2 ^ c.clBits

/-- Two states show the same memory if the dirty lines and the words behind the others agree. -/
theorem view_congr {s s' : Cache c} {mem mem' : c.MasterAddress → c.MasterWord}
    (h : ∀ t i o, s'.overlay mem' t i o = s.overlay mem t i o) :
    s'.view mem' = s.view mem := by
  funext adr
  rw [view, view, h]

/-- Writing a word of a dirty line back shows nothing new. -/
theorem overlay_flush {i : BitVec c.lineSelectAdrBits} {o : BitVec c.clBits} {w : c.MasterWord}
    (hd : (s.way.tagRam i).dirty = true) (hv : (s.way.tagRam i).valid = true)
    (t : BitVec c.tagRamBits) (j : BitVec c.lineSelectAdrBits) (p : BitVec c.clBits) :
    s.overlay (Function.update mem (masterAdr (s.way.tagRam i).address i o) w) t j p =
      s.overlay mem t j p := by
  by_cases hsame : masterAdr t j p = masterAdr (s.way.tagRam i).address i o
  · obtain ⟨rfl, rfl, rfl⟩ := masterAdr_inj.mp hsame
    simp [overlay, hd, hv]
  · simp [overlay, Function.update_of_ne hsame]

theorem cleanAt_flush {i : BitVec c.lineSelectAdrBits} {o : BitVec c.clBits} {w : c.MasterWord}
    (hd : (s.way.tagRam i).dirty = true) {j : BitVec c.lineSelectAdrBits}
    (hc : s.CleanAt mem j) :
    s.CleanAt (Function.update mem (masterAdr (s.way.tagRam i).address i o) w) j := by
  intro hv hnd p
  have hne : masterAdr (s.way.tagRam j).address j p ≠
      masterAdr (s.way.tagRam i).address i o := by
    intro heq
    obtain ⟨-, rfl, -⟩ := masterAdr_inj.mp heq
    rw [hd] at hnd
    cases hnd
  rw [Function.update_of_ne hne]
  exact hc hv hnd p

end Cache

namespace CacheBench
open Cache

variable {ref : FlatMemory c} {b : CacheBench c} {cyc : CacheCycle}
  {done : List (CacheRequest c)} {q : CacheRequest c}

/-- The request `q`, accepted after those in `done`, is in progress. -/
structure Pending (ref : FlatMemory c) (b : CacheBench c) (done : List (CacheRequest c))
    (q : CacheRequest c) : Prop where
  accepted : b.accepted = done ++ [q]
  acks : b.acks.length = done.length
  enR : b.cache.bus.enR = true
  slaveAck : b.cache.bus.slaveAck = false
  held : b.cache.heldRequest = q
  index : b.cache.way.bufferIndex = tagIndex q.adr
  view : b.cache.view b.mem = ref.replay done

/-- The tag RAM entry of the line that `q` maps to. -/
def entry (b : CacheBench c) (q : CacheRequest c) : TagData c :=
  b.cache.way.tagRam (tagIndex q.adr)

/-- The phases of a run. In the bursts `k` words of the line have been transferred. -/
inductive Phase (ref : FlatMemory c) (b : CacheBench c) : Prop
  | idle (engine : Resting b.cache.engine .wbIdle) (enR : b.cache.bus.enR = false)
    (clean : ∀ i, b.cache.CleanAt b.mem i)
    (view : b.cache.view b.mem = ref.replay b.accepted)
    (log : b.cache.bus.slaveAck = false ∧ b.acks.length = b.accepted.length ∨
      b.cache.bus.slaveAck = true ∧ ∃ done q, b.accepted = done ++ [q] ∧
        b.acks.length = done.length ∧
        (q.we = 0 → ∀ m, (b.cache.toMaster m).dbRd = ref.replay done q.adr))
    (age : b.age ≤ 2 * 2 ^ c.clBits + 4)
  | waiting (done : List (CacheRequest c)) (q : CacheRequest c) (pending : Pending ref b done q)
    (engine : Resting b.cache.engine .wbIdle) (clean : ∀ i, b.cache.CleanAt b.mem i)
    (age : b.age = 0 ∨ (b.entry q).dirty = false ∧ b.age ≤ 2 ^ c.clBits + 2)
  | write (done : List (CacheRequest c)) (q : CacheRequest c) (k : ℕ)
    (pending : Pending ref b done q) (engine : Bursting b.cache.engine .wbBurstWrite k)
    (we : b.cache.engine.wbmWe = true) (clean : ∀ i, b.cache.CleanAt b.mem i)
    (dirty : (b.entry q).dirty = true) (tag : (b.entry q).address ≠ tagValue q.adr)
    (word : b.cache.ram.masterDbRd =
      b.cache.ram.array (tagIndex q.adr ++ b.cache.engine.masterOffsetCounter))
    (flushed : ∀ o : BitVec c.clBits, o.toNat < k →
      b.mem (masterAdr (b.entry q).address (tagIndex q.adr) o) =
        b.cache.ram.array (tagIndex q.adr ++ o))
    (age : b.age ≤ k + 1)
  | read (done : List (CacheRequest c)) (q : CacheRequest c) (k : ℕ)
    (pending : Pending ref b done q) (engine : Bursting b.cache.engine .wbBurstRead k)
    (we : b.cache.engine.wbmWe = false)
    (clean : ∀ i, i ≠ tagIndex q.adr → b.cache.CleanAt b.mem i)
    (dirty : (b.entry q).dirty = false)
    (tag : (b.entry q).valid = true → (b.entry q).address ≠ tagValue q.adr)
    (filled : ∀ o : BitVec c.clBits, o.toNat < k →
      b.cache.ram.array (tagIndex q.adr ++ o) =
        b.mem (masterAdr (tagValue q.adr) (tagIndex q.adr) o))
    (age : b.age ≤ 2 ^ c.clBits + 3 + k)
  | retire (done : List (CacheRequest c)) (q : CacheRequest c) (pending : Pending ref b done q)
    (engine : Resting b.cache.engine .wbRetire) (clean : ∀ i, b.cache.CleanAt b.mem i)
    (dirty : (b.entry q).dirty = false)
    (age : b.age ≤ 2 ^ c.clBits + 1 ∨ (b.entry q).valid = true ∧
      (b.entry q).address = tagValue q.adr ∧ b.age ≤ 2 * 2 ^ c.clBits + 3)

theorem step_mem_of_not_ack (h : cyc.ack = false) : (b.step cyc).mem = b.mem := by
  simp [step, memStep, h]

theorem Pending.accepted_length (h : Pending ref b done q) :
    b.accepted.length = b.acks.length + 1 := by
  simp [h.accepted, h.acks]

/-- While a request is in progress nothing new is accepted or answered. -/
theorem Pending.step_log (h : Pending ref b done q) (cyc : CacheCycle) :
    (b.step cyc).accepted = done ++ [q] ∧ (b.step cyc).acks.length = done.length ∧
      (b.step cyc).age = if b.cache.engine.wbmEnable && !cyc.ack then b.age else b.age + 1 := by
  have hlen := h.accepted_length
  refine ⟨?_, ?_, ?_⟩
  · simp [step, stall, h.enR, h.accepted]
  · simp [step, h.slaveAck, h.acks]
  · simp [step, h.slaveAck, hlen]

theorem Pending.request (h : Pending ref b done q) (m : DbusRequest 32) :
    b.cache.requestOf m = q ∧ b.cache.slaveEn m = true ∧ b.cache.adrSlice m = q.adr := by
  have hq := (requestOf_held h.enR m).trans h.held
  exact ⟨hq, by simp [slaveEn, h.enR], congrArg CacheRequest.adr hq⟩

theorem Pending.buffer (h : Pending ref b done q) (ht : b.cache.Tagged) :
    b.cache.way.tagBuffer = b.entry q := by
  rw [ht.buffer, h.index]
  rfl

theorem Pending.hit_iff (h : Pending ref b done q) (ht : b.cache.Tagged) (m : DbusRequest 32) :
    b.cache.hit m = true ↔ (b.entry q).valid = true ∧ (b.entry q).address = tagValue q.adr := by
  obtain ⟨-, hen, hadr⟩ := h.request m
  rw [Cache.hit_iff, h.buffer ht, hadr]
  simp [hen, h.index]

theorem Pending.miss_eq (h : Pending ref b done q) (m : DbusRequest 32) :
    b.cache.miss m = !b.cache.hit m := by
  obtain ⟨-, hen, hadr⟩ := h.request m
  simp [miss, hit, indexMatch, hadr, hen, h.index]

theorem Pending.dirtyMiss_eq (h : Pending ref b done q) (ht : b.cache.Tagged)
    (m : DbusRequest 32) : b.cache.dirtyMiss m = (!b.cache.hit m && (b.entry q).dirty) := by
  rw [dirtyMiss, h.miss_eq, h.buffer ht]

/-- The request is still in progress after an edge without a hit. -/
theorem pending_step {done : List (CacheRequest c)} (hen : b.cache.slaveEn cyc.request = true)
    (hhit : b.cache.hit cyc.request = false)
    (haccepted : (b.step cyc).accepted = done ++ [b.cache.requestOf cyc.request])
    (hacks : (b.step cyc).acks.length = done.length)
    (hview : (b.step cyc).cache.view (b.step cyc).mem = ref.replay done) :
    Pending ref (b.step cyc) done (b.cache.requestOf cyc.request) := by
  have henR : (b.step cyc).cache.bus.enR = true := step_enR.trans (by simp [hen, hhit])
  refine ⟨haccepted, hacks, henR, hhit, ?_, rfl, hview⟩
  rw [← requestOf_held henR cyc.request]
  exact step_held hen hhit cyc.request

/-- A hit ends the request. -/
theorem Phase.of_hit {done : List (CacheRequest c)} (ht : b.cache.Tagged)
    (hc : ∀ i, b.cache.CleanAt b.mem i) (hhit : b.cache.hit cyc.request = true)
    (hack : cyc.ack = false) (hview : b.cache.view b.mem = ref.replay done)
    (haccepted : (b.step cyc).accepted = done ++ [b.cache.requestOf cyc.request])
    (hacks : (b.step cyc).acks.length = done.length)
    (hengine : Resting (b.step cyc).cache.engine .wbIdle)
    (hage : (b.step cyc).age ≤ 2 * 2 ^ c.clBits + 4) : Phase ref (b.step cyc) := by
  have hmem := step_mem_of_not_ack (b := b) hack
  have hserve := step_hit (r := b.wishbone cyc) ht hc hhit hack
  have henR : (b.step cyc).cache.bus.enR = false := step_enR.trans (by simp [hhit])
  refine .idle hengine henR ?_ ?_ (.inr ⟨hhit, done, _, haccepted, hacks, fun _ m => ?_⟩) hage
  · rw [hmem]
    exact (hserve cyc.request).2.1
  · rw [hmem, haccepted, FlatMemory.replay, List.foldl_append]
    refine (hserve cyc.request).1.trans ?_
    rw [hview]
    rfl
  · rw [← hview]
    exact (hserve m).2.2

/-- A request that does not hit waits for the tag, or the engine starts on its line. -/
theorem Phase.of_launch {done : List (CacheRequest c)} (ht : b.cache.Tagged)
    (hc : ∀ i, b.cache.CleanAt b.mem i) (hen : b.cache.slaveEn cyc.request = true)
    (hhit : b.cache.hit cyc.request = false) (hack : cyc.ack = false)
    (hview : b.cache.view b.mem = ref.replay done)
    (haccepted : (b.step cyc).accepted = done ++ [b.cache.requestOf cyc.request])
    (hacks : (b.step cyc).acks.length = done.length)
    (hengine : Resting b.cache.engine .wbIdle)
    (hage : (b.step cyc).age = 0 ∨ b.cache.miss cyc.request = true ∧ ((b.step cyc).age ≤ 1 ∨
      (b.entry (b.cache.requestOf cyc.request)).dirty = false ∧
        (b.step cyc).age ≤ 2 ^ c.clBits + 3)) : Phase ref (b.step cyc) := by
  have hmem := step_mem_of_not_ack (b := b) hack
  obtain ⟨htags, harray⟩ := step_quiet_arrays (r := b.wishbone cyc) hhit hack
  change (b.step cyc).cache.way.tagRam = _ at htags
  change (b.step cyc).cache.ram.array = _ at harray
  have hclean : ∀ i, (b.step cyc).cache.CleanAt (b.step cyc).mem i := by
    intro i
    unfold CleanAt
    rw [htags, harray, hmem]
    exact hc i
  have hpending := pending_step hen hhit haccepted hacks (by
    rw [hmem, ← hview]
    funext adr
    simp only [view, overlay, htags, harray])
  have hentry : (b.step cyc).entry (b.cache.requestOf cyc.request) =
      b.entry (b.cache.requestOf cyc.request) := by
    rw [entry, htags, entry]
  have hcl : 1 < 2 ^ c.clBits := Nat.one_lt_two_pow c.clBits_pos.ne'
  cases hmiss : b.cache.miss cyc.request with
  | false =>
    have hrest : (b.step cyc).cache.engine = b.cache.engine := by
      simp [step, Cache.step, engineNext, hengine.state, hmiss]
    rw [hmiss] at hage
    have hzero : (b.step cyc).age = 0 := by simpa using hage
    exact .waiting _ _ hpending (hrest ▸ hengine) hclean (.inl hzero)
  | true =>
    have hindex : b.cache.way.bufferIndex = tagIndex (b.cache.adrSlice cyc.request) := by
      simp only [miss, indexMatch, Bool.and_eq_true, beq_iff_eq] at hmiss
      exact hmiss.1.2
    have hbuffer : b.cache.way.tagBuffer = b.entry (b.cache.requestOf cyc.request) := by
      rw [ht.buffer, hindex]
      rfl
    have hoff : b.cache.engine.masterOffsetCounter.toNat = 0 := by simp [hengine.masterOffset]
    cases hd : (b.entry (b.cache.requestOf cyc.request)).dirty with
    | true =>
      have hdm : b.cache.dirtyMiss cyc.request = true := by simp [dirtyMiss, hmiss, hbuffer, hd]
      have htag : (b.entry (b.cache.requestOf cyc.request)).address ≠
          tagValue (b.cache.requestOf cyc.request).adr := by
        intro heq
        have hv : (b.entry (b.cache.requestOf cyc.request)).valid = true := ht.dirty _ hd
        have : b.cache.tagMatch cyc.request = true := by
          simp only [tagMatch, hbuffer, hv, Bool.true_and, beq_iff_eq]
          exact heq
        simp [miss, this] at hmiss
      have heng : (b.step cyc).cache.engine = { b.cache.engine with
          wbmEnable := true, wbmSel := BitVec.allOnes _
          cacheOffsetCounter := b.cache.engine.masterOffsetCounter + 1
          wbmWe := true, wbmState := .wbBurstWrite } := by
        simp [step, Cache.step, engineNext, hengine.state, hmiss, hhit, hdm]
      refine .write _ _ 0 hpending ⟨?_, ?_, ?_, ?_, .inl ⟨?_, by omega⟩⟩ ?_ hclean ?_ ?_ ?_ ?_ ?_
      · rw [heng]
      · rw [heng]
      · rw [heng]
        exact hoff
      · intro _
        rw [heng]
      · rw [heng]
      · rw [heng]
      · rw [hentry, hd]
      · rw [hentry]
        exact htag
      · rw [heng, harray]
        simp only [step, Cache.step, ramNext, masterEn, hdm, hengine.state, ramMasterAdr,
          hengine.cacheOffset, hengine.masterOffset, hindex]
        simp
        rfl
      · intro o ho
        omega
      · rcases hage with h | ⟨-, h | ⟨hclean, -⟩⟩
        · omega
        · exact h
        · rw [hd] at hclean
          cases hclean
    | false =>
      have hdm : b.cache.dirtyMiss cyc.request = false := by simp [dirtyMiss, hbuffer, hd]
      have heng : (b.step cyc).cache.engine = { b.cache.engine with
          wbmEnable := true, wbmSel := BitVec.allOnes _
          wbmWe := false, wbmState := .wbBurstRead } := by
        simp [step, Cache.step, engineNext, hengine.state, hmiss, hhit, hdm]
      refine .read _ _ 0 hpending ⟨?_, ?_, ?_, ?_, .inl ⟨?_, by omega⟩⟩ ?_ (fun i _ => hclean i)
        ?_ ?_ ?_ ?_
      · rw [heng]
      · rw [heng]
      · rw [heng]
        exact hoff
      · intro h
        cases h
      · rw [heng]
      · rw [heng]
      · rw [hentry, hd]
      · rw [hentry]
        intro hv heq
        have : b.cache.tagMatch cyc.request = true := by
          simp only [tagMatch, hbuffer, hv, Bool.true_and, beq_iff_eq]
          exact heq
        simp [miss, this] at hmiss
      · intro o ho
        omega
      · omega

/-- Waiting for the memory changes nothing in a burst. -/
theorem burst_stall {k : ℕ} {state : WbmState} (h : Pending ref b done q)
    (hstate : state = .wbBurstRead ∨ state = .wbBurstWrite)
    (he : Bursting b.cache.engine state k) (hmiss : b.cache.hit cyc.request = false)
    (hack : cyc.ack = false) :
    Pending ref (b.step cyc) done q ∧ (b.step cyc).mem = b.mem ∧
      (b.step cyc).cache.way.tagRam = b.cache.way.tagRam ∧
      (b.step cyc).cache.ram.array = b.cache.ram.array ∧
      (b.step cyc).cache.ram.masterDbRd = b.cache.ram.masterDbRd ∧
      (b.step cyc).cache.engine = b.cache.engine ∧ (b.step cyc).age = b.age := by
  obtain ⟨haccepted, hacks, hage⟩ := h.step_log cyc
  obtain ⟨hq, hen, -⟩ := h.request cyc.request
  have hmem := step_mem_of_not_ack (b := b) hack
  obtain ⟨htags, harray⟩ := step_quiet_arrays (r := b.wishbone cyc) hmiss hack
  have hview : (b.step cyc).cache.view (b.step cyc).mem = ref.replay done := by
    rw [hmem, ← h.view]
    funext adr
    simp only [view, overlay, step, htags, harray]
  have hpending := pending_step hen hmiss (by rw [haccepted, hq])
    hacks hview
  rw [hq] at hpending
  have hnidle : b.cache.engine.wbmState ≠ .wbIdle := by
    rcases he.state with ⟨hs, -⟩ | ⟨hs, -⟩ <;> rcases hstate with rfl | rfl <;> simp [hs]
  refine ⟨hpending, hmem, htags, harray, ?_, ?_, ?_⟩
  · simp [step, Cache.step, ramNext, masterEn, wishbone, hack, hnidle]
  · rcases he.state with ⟨hs, -⟩ | ⟨hs, -⟩ <;> rcases hstate with rfl | rfl <;>
      simp [step, Cache.step, engineNext, wishbone, hs, hack]
  · rw [hage, he.enable, hack]
    rfl

/-- An acknowledge takes the engine to the next word, or ends the burst. -/
theorem burst_ack {k : ℕ} {state : WbmState}
    (hstate : state = .wbBurstRead ∨ state = .wbBurstWrite)
    (he : Bursting b.cache.engine state k) (hack : cyc.ack = true) :
    (k + 1 < 2 ^ c.clBits ∧ b.cache.engine.wbmState = state ∧
      Bursting (b.step cyc).cache.engine state (k + 1) ∧
      (b.step cyc).cache.engine.wbmWe = b.cache.engine.wbmWe ∧
      (b.step cyc).cache.engine.masterOffsetCounter =
        b.cache.engine.masterOffsetCounter + 1) ∨
    (k + 1 = 2 ^ c.clBits ∧ b.cache.engine.wbmState = .wbFinish ∧
      Resting (b.step cyc).cache.engine .wbRetire) := by
  have hcl : 1 < 2 ^ c.clBits := Nat.one_lt_two_pow c.clBits_pos.ne'
  rcases he.state with ⟨hs, hk⟩ | ⟨hs, hk⟩
  · have hnext : (b.step cyc).cache.engine = { b.cache.engine with
        wbmState := if k + 1 = 2 ^ c.clBits - 1 then .wbFinish else state
        masterOffsetCounter := b.cache.engine.masterOffsetCounter + 1
        cacheOffsetCounter := b.cache.engine.masterOffsetCounter + 1 + 1 } := by
      rcases hstate with rfl | rfl <;>
        simp [step, Cache.step, engineNext, wishbone, hs, hack, he.offset]
    have hoff : (b.cache.engine.masterOffsetCounter + 1).toNat = k + 1 := by
      have hone : (1 : BitVec c.clBits).toNat = 1 := by
        rw [BitVec.ofNat_eq_ofNat, BitVec.toNat_ofNat, Nat.mod_eq_of_lt hcl]
      rw [BitVec.toNat_add, he.offset, hone, Nat.mod_eq_of_lt hk]
    refine .inl ⟨hk, hs, ⟨?_, ?_, ?_, ?_, ?_⟩, ?_, ?_⟩
    · rw [hnext]
      exact he.enable
    · rw [hnext]
      exact he.sel
    · rw [hnext]
      exact hoff
    · intro _
      rw [hnext]
    · rw [hnext]
      by_cases hlast : k + 1 = 2 ^ c.clBits - 1
      · exact .inr ⟨if_pos hlast, by omega⟩
      · exact .inl ⟨if_neg hlast, by omega⟩
    · rw [hnext]
    · rw [hnext]
  · refine .inr ⟨hk, hs, ?_⟩
    have hnext : (b.step cyc).cache.engine = { b.cache.engine with
        wbmEnable := false, wbmWe := false, masterOffsetCounter := 0, cacheOffsetCounter := 0
        wbmState := .wbRetire } := by
      simp [step, Cache.step, engineNext, wishbone, hs, hack]
    rw [hnext]
    exact ⟨rfl, rfl, rfl, rfl⟩

theorem byteMerge_sel (old new : c.MasterWord) :
    byteMerge (BitVec.allOnes c.masterWidthBytes) old new = new := by
  apply byteMerge_allOnes
  simp only [masterDataWidth, masterWidthBytes]
  omega

theorem Pending.write_step {k : ℕ} (h : Pending ref b done q) (ht : b.cache.Tagged)
    (he : Bursting b.cache.engine .wbBurstWrite k) (hwe : b.cache.engine.wbmWe = true)
    (hc : ∀ i, b.cache.CleanAt b.mem i) (hd : (b.entry q).dirty = true)
    (htag : (b.entry q).address ≠ tagValue q.adr)
    (hword : b.cache.ram.masterDbRd =
      b.cache.ram.array (tagIndex q.adr ++ b.cache.engine.masterOffsetCounter))
    (hflushed : ∀ o : BitVec c.clBits, o.toNat < k →
      b.mem (masterAdr (b.entry q).address (tagIndex q.adr) o) =
        b.cache.ram.array (tagIndex q.adr ++ o))
    (hage : b.age ≤ k + 1) : Phase ref (b.step cyc) := by
  have hv : (b.entry q).valid = true := ht.dirty _ hd
  have hhit : b.cache.hit cyc.request = false := by
    rw [Bool.eq_false_iff]
    intro hhit
    exact htag ((h.hit_iff ht _).mp hhit).2
  cases hack : cyc.ack with
  | false =>
    obtain ⟨hp, hmem, htags, harray, hdb, heng, hage'⟩ := burst_stall h (.inr rfl) he hhit hack
    have hentry : (b.step cyc).entry q = b.entry q := by rw [entry, htags, entry]
    refine .write done q k hp (heng ▸ he) (heng ▸ hwe) ?_ (hentry ▸ hd) (hentry ▸ htag) ?_ ?_
      (hage' ▸ hage)
    · intro i
      unfold CleanAt
      rw [htags, harray, hmem]
      exact hc i
    · rw [hdb, harray, heng, hword]
    · rw [hentry, hmem, harray]
      exact hflushed
  | true =>
    obtain ⟨haccepted, hacks, hage'⟩ := h.step_log cyc
    obtain ⟨hq, hen, hadr⟩ := h.request cyc.request
    have hdm : b.cache.dirtyMiss cyc.request = true := by
      rw [h.dirtyMiss_eq ht, hhit, hd]
      rfl
    have hage'' : (b.step cyc).age ≤ k + 2 := by
      rw [hage', hack]
      simpa using hage
    -- the word addressed goes to the memory
    have hmem : (b.step cyc).mem = Function.update b.mem
        (masterAdr (b.entry q).address (tagIndex q.adr) b.cache.engine.masterOffsetCounter)
        (b.cache.ram.array (tagIndex q.adr ++ b.cache.engine.masterOffsetCounter)) := by
      have hwb : b.cache.wbmAdr cyc.request = masterAdr (b.entry q).address (tagIndex q.adr)
          b.cache.engine.masterOffsetCounter := by
        simp [wbmAdr, hdm, h.buffer ht, h.index]
      simp only [step, memStep, hack, he.enable, hwe, he.sel, hwb, Bool.and_self, if_true,
        byteMerge_sel, hword]
    have harray : (b.step cyc).cache.ram.array = b.cache.ram.array := by
      simp [step, Cache.step, ramNext, masterWe, hhit, hdm]
    have hview (htags : (b.step cyc).cache.way.tagRam = b.cache.way.tagRam) :
        (b.step cyc).cache.view (b.step cyc).mem = ref.replay done := by
      rw [← h.view]
      refine view_congr fun t i o => ?_
      rw [hmem, ← overlay_flush (s := b.cache) hd hv t i o]
      simp only [overlay, htags, harray]
      rfl
    have hflushed' (o : BitVec c.clBits) (ho : o.toNat < k + 1) :
        (b.step cyc).mem (masterAdr (b.entry q).address (tagIndex q.adr) o) =
          b.cache.ram.array (tagIndex q.adr ++ o) := by
      rw [hmem]
      by_cases heq : o = b.cache.engine.masterOffsetCounter
      · rw [heq, Function.update_self]
      · have hne : o.toNat ≠ k := by
          intro hk
          exact heq (BitVec.eq_of_toNat_eq (hk.trans he.offset.symm))
        rw [Function.update_of_ne fun h => heq (masterAdr_inj.mp h).2.2]
        exact hflushed o (by omega)
    rcases burst_ack (.inr rfl) he hack with
      ⟨hk, hs, heng, hwe', hoff⟩ | ⟨hk, hs, heng⟩
    · have htags : (b.step cyc).cache.way.tagRam = b.cache.way.tagRam := by
        simp [step, Cache.step, wayNext, tagWe, slaveCacheWe, hs, hhit]
      have hentry : (b.step cyc).entry q = b.entry q := by rw [entry, htags, entry]
      have hp := pending_step hen hhit (by rw [haccepted, hq]) hacks
        (hview htags)
      rw [hq] at hp
      refine .write done q (k + 1) hp heng (hwe'.trans hwe) ?_ (hentry ▸ hd) (hentry ▸ htag) ?_
        (fun o ho => ?_) hage''
      · intro i
        have hci := cleanAt_flush (s := b.cache) (w := b.cache.ram.array
          (tagIndex q.adr ++ b.cache.engine.masterOffsetCounter))
          (o := b.cache.engine.masterOffsetCounter) hd (hc i)
        unfold CleanAt at hci ⊢
        rw [htags, harray, hmem]
        exact hci
      · rw [harray, hoff]
        simp [step, Cache.step, ramNext, masterEn, wishbone, hack, he.enable, ramMasterAdr, hdm,
          h.index, he.cacheOffset rfl]
      · rw [hentry, harray]
        exact hflushed' o ho
    · have htags : (b.step cyc).cache.way.tagRam = Function.update b.cache.way.tagRam
          (tagIndex q.adr) ⟨false, false, tagValue q.adr⟩ := by
        simp [step, Cache.step, wayNext, tagWe, tagIn, slaveCacheWe, wishbone, hs, hack, hhit, hdm,
          hadr]
      have hline (o : BitVec c.clBits) :
          (b.step cyc).mem (masterAdr (b.entry q).address (tagIndex q.adr) o) =
            b.cache.ram.array (tagIndex q.adr ++ o) :=
        hflushed' o (by rw [hk]; exact o.isLt)
      have hview' : (b.step cyc).cache.view (b.step cyc).mem = ref.replay done := by
        rw [← h.view]
        refine view_congr fun t i o => ?_
        by_cases hi : i = tagIndex q.adr
        · subst hi
          by_cases htv : t = (b.entry q).address
          · subst htv
            have hold : b.cache.overlay b.mem (b.entry q).address (tagIndex q.adr) o =
                b.cache.ram.array (tagIndex q.adr ++ o) := overlay_of_valid (hc _) hv o
            rw [hold, ← hline o]
            simp [overlay, htags]
          · have hne : masterAdr t (tagIndex q.adr) o ≠ masterAdr (b.entry q).address
                (tagIndex q.adr) b.cache.engine.masterOffsetCounter := fun heq =>
              htv (masterAdr_inj.mp heq).1
            have hold : b.cache.overlay b.mem t (tagIndex q.adr) o =
                b.mem (masterAdr t (tagIndex q.adr) o) := by
              have : (b.cache.way.tagRam (tagIndex q.adr)).address ≠ t := Ne.symm htv
              simp [overlay, this]
            rw [hold]
            simp [overlay, htags, hmem, Function.update_of_ne hne]
        · have hne : masterAdr t i o ≠ masterAdr (b.entry q).address (tagIndex q.adr)
              b.cache.engine.masterOffsetCounter := fun heq => hi (masterAdr_inj.mp heq).2.1
          simp [overlay, htags, harray, hmem, Function.update_of_ne hi, Function.update_of_ne hne]
      have hp := pending_step hen hhit (by rw [haccepted, hq]) hacks
        hview'
      rw [hq] at hp
      refine .retire done q hp heng (fun i => ?_) ?_ (.inl (by omega))
      · by_cases hi : i = tagIndex q.adr
        · subst hi
          intro hvalid
          rw [htags, Function.update_self] at hvalid
          cases hvalid
        · have hci := cleanAt_flush (s := b.cache) (w := b.cache.ram.array
            (tagIndex q.adr ++ b.cache.engine.masterOffsetCounter))
            (o := b.cache.engine.masterOffsetCounter) hd (hc i)
          unfold CleanAt at hci ⊢
          rw [htags, harray, hmem, Function.update_of_ne hi]
          exact hci
      · rw [entry, htags, Function.update_self]

theorem Pending.read_step {k : ℕ} (h : Pending ref b done q) (ht : b.cache.Tagged)
    (he : Bursting b.cache.engine .wbBurstRead k) (hwe : b.cache.engine.wbmWe = false)
    (hc : ∀ i, i ≠ tagIndex q.adr → b.cache.CleanAt b.mem i) (hd : (b.entry q).dirty = false)
    (htag : (b.entry q).valid = true → (b.entry q).address ≠ tagValue q.adr)
    (hfilled : ∀ o : BitVec c.clBits, o.toNat < k →
      b.cache.ram.array (tagIndex q.adr ++ o) =
        b.mem (masterAdr (tagValue q.adr) (tagIndex q.adr) o))
    (hage : b.age ≤ 2 ^ c.clBits + 3 + k) : Phase ref (b.step cyc) := by
  have hhit : b.cache.hit cyc.request = false := by
    rw [Bool.eq_false_iff]
    intro hhit
    obtain ⟨hv, heq⟩ := (h.hit_iff ht _).mp hhit
    exact htag hv heq
  cases hack : cyc.ack with
  | false =>
    obtain ⟨hp, hmem, htags, harray, -, heng, hage'⟩ := burst_stall h (.inl rfl) he hhit hack
    have hentry : (b.step cyc).entry q = b.entry q := by rw [entry, htags, entry]
    refine .read done q k hp (heng ▸ he) (heng ▸ hwe) ?_ (hentry ▸ hd) (hentry ▸ htag) ?_
      (hage' ▸ hage)
    · intro i hi
      unfold CleanAt
      rw [htags, harray, hmem]
      exact hc i hi
    · rw [hmem, harray]
      exact hfilled
  | true =>
    obtain ⟨haccepted, hacks, hage'⟩ := h.step_log cyc
    obtain ⟨hq, hen, hadr⟩ := h.request cyc.request
    have hdm : b.cache.dirtyMiss cyc.request = false := by
      rw [h.dirtyMiss_eq ht, hd, Bool.and_false]
    have hage'' : (b.step cyc).age ≤ 2 ^ c.clBits + 3 + (k + 1) := by
      rw [hage', hack]
      simp only [Bool.not_true, Bool.and_false, Bool.false_eq_true, if_false]
      omega
    have hmem : (b.step cyc).mem = b.mem := by simp [step, memStep, hwe]
    -- the word that the memory drives goes into the line
    have harray : (b.step cyc).cache.ram.array = Function.update b.cache.ram.array
        (tagIndex q.adr ++ b.cache.engine.masterOffsetCounter)
        (b.mem (masterAdr (tagValue q.adr) (tagIndex q.adr)
          b.cache.engine.masterOffsetCounter)) := by
      simp [step, Cache.step, ramNext, masterEn, masterWe, ramMasterAdr, wishbone, wbmAdr, hhit,
        hdm, hack, he.enable, hadr]
    have hother {i : BitVec c.lineSelectAdrBits} (hi : i ≠ tagIndex q.adr) (o : BitVec c.clBits) :
        (b.step cyc).cache.ram.array (i ++ o) = b.cache.ram.array (i ++ o) := by
      rw [harray, Function.update_of_ne fun heq => hi (append_inj.mp heq).1]
    have hfilled' (o : BitVec c.clBits) (ho : o.toNat < k + 1) :
        (b.step cyc).cache.ram.array (tagIndex q.adr ++ o) =
          b.mem (masterAdr (tagValue q.adr) (tagIndex q.adr) o) := by
      rw [harray]
      by_cases heq : o = b.cache.engine.masterOffsetCounter
      · rw [heq, Function.update_self]
      · have hne : o.toNat ≠ k := by
          intro hk
          exact heq (BitVec.eq_of_toNat_eq (hk.trans he.offset.symm))
        rw [Function.update_of_ne fun h => heq (append_inj.mp h).2]
        exact hfilled o (by omega)
    rcases burst_ack (.inl rfl) he hack with
      ⟨hk, hs, heng, hwe', hoff⟩ | ⟨hk, hs, heng⟩
    · have htags : (b.step cyc).cache.way.tagRam = b.cache.way.tagRam := by
        simp [step, Cache.step, wayNext, tagWe, slaveCacheWe, hs, hhit]
      have hentry : (b.step cyc).entry q = b.entry q := by rw [entry, htags, entry]
      have hview : (b.step cyc).cache.view (b.step cyc).mem = ref.replay done := by
        rw [← h.view]
        refine view_congr fun t i o => ?_
        by_cases hi : i = tagIndex q.adr
        · subst hi
          have hdi : (b.cache.way.tagRam (tagIndex q.adr)).dirty = false := hd
          simp [overlay, htags, hmem, hdi]
        · simp [overlay, htags, hmem, hother hi o]
      have hp := pending_step hen hhit (by rw [haccepted, hq]) hacks
        hview
      rw [hq] at hp
      refine .read done q (k + 1) hp heng (hwe'.trans hwe) (fun i hi => ?_) (hentry ▸ hd)
        (hentry ▸ htag) (fun o ho => ?_) hage''
      · intro hv hnd o
        rw [htags] at hv hnd ⊢
        rw [hother hi o, hmem]
        exact hc i hi hv hnd o
      · rw [hmem]
        exact hfilled' o ho
    · have htags : (b.step cyc).cache.way.tagRam = Function.update b.cache.way.tagRam
          (tagIndex q.adr) ⟨true, false, tagValue q.adr⟩ := by
        simp [step, Cache.step, wayNext, tagWe, tagIn, slaveCacheWe, wishbone, hs, hack, hhit, hdm,
          hadr]
      have hview : (b.step cyc).cache.view (b.step cyc).mem = ref.replay done := by
        rw [← h.view]
        refine view_congr fun t i o => ?_
        by_cases hi : i = tagIndex q.adr
        · subst hi
          have hdi : (b.cache.way.tagRam (tagIndex q.adr)).dirty = false := hd
          simp [overlay, htags, hmem, hdi]
        · simp [overlay, htags, hmem, hother hi o, Function.update_of_ne hi]
      have hp := pending_step hen hhit (by rw [haccepted, hq]) hacks
        hview
      rw [hq] at hp
      refine .retire done q hp heng (fun i => ?_) ?_ (.inr ⟨?_, ?_, by omega⟩)
      · by_cases hi : i = tagIndex q.adr
        · subst hi
          intro _ _ o
          rw [htags, Function.update_self, hmem]
          exact hfilled' o (by rw [hk]; exact o.isLt)
        · intro hv hnd o
          rw [htags, Function.update_of_ne hi] at hv hnd ⊢
          rw [hother hi o, hmem]
          exact hc i hi hv hnd o
      · rw [entry, htags, Function.update_self]
      · rw [entry, htags, Function.update_self]
      · rw [entry, htags, Function.update_self]

/-- Outside the bursts the memory has nothing to acknowledge. -/
theorem Legal.not_ack (h : b.Legal cyc) {state : WbmState} (he : Resting b.cache.engine state) :
    cyc.ack = false := by
  cases hack : cyc.ack with
  | false => rfl
  | true =>
    have := h hack
    rw [he.enable] at this
    cases this

theorem Phase.step (h : Phase ref b) (ht : b.cache.Tagged) (hl : b.Legal cyc) :
    Phase ref (b.step cyc) := by
  have hcl : 1 < 2 ^ c.clBits := Nat.one_lt_two_pow c.clBits_pos.ne'
  cases h with
  | idle engine enR clean view log age =>
    have hack := hl.not_ack engine
    have hacks : (b.step cyc).acks.length = b.accepted.length ∧
        (b.step cyc).age = 0 := by
      rcases log with ⟨hno, hlen⟩ | ⟨hyes, done, q, hacc, hlen, -⟩
      · simp [CacheBench.step, hno, hlen]
      · simp [CacheBench.step, hyes, hacc, hlen]
    cases hen : cyc.request.en with
    | true =>
      have hslave : b.cache.slaveEn cyc.request = true := by simp [slaveEn, hen]
      have haccepted : (b.step cyc).accepted =
          b.accepted ++ [b.cache.requestOf cyc.request] := by
        simp [CacheBench.step, stall, enR, hen, requestOf, adrSlice, slaveWe, slaveWrite]
      cases hhit : b.cache.hit cyc.request with
      | true =>
        refine Phase.of_hit ht clean hhit hack view haccepted hacks.1 ?_ (by omega)
        have hmiss := miss_of_hit hhit
        have heng : (b.step cyc).cache.engine = b.cache.engine := by
          simp [CacheBench.step, Cache.step, engineNext, engine.state, hmiss]
        exact heng ▸ engine
      | false =>
        exact Phase.of_launch ht clean hslave hhit hack view haccepted hacks.1 engine
          (.inl hacks.2)
    | false =>
      have hslave : b.cache.slaveEn cyc.request = false := by simp [slaveEn, hen, enR]
      have hhit : b.cache.hit cyc.request = false := by simp [hit, hslave]
      have hmem := step_mem_of_not_ack (b := b) hack
      obtain ⟨htags, harray⟩ := step_quiet_arrays (r := b.wishbone cyc) hhit hack
      have haccepted : (b.step cyc).accepted = b.accepted := by simp [CacheBench.step, hen]
      refine .idle ?_ ?_ ?_ ?_ (.inl ⟨hhit, ?_⟩) (by omega)
      · have heng : (b.step cyc).cache.engine = b.cache.engine := by
          simp [CacheBench.step, Cache.step, engineNext, engine.state, miss, hslave]
        exact heng ▸ engine
      · exact step_enR.trans (by simp [hslave])
      · intro i
        have hci := clean i
        unfold CleanAt at hci ⊢
        rw [hmem]
        simp only [CacheBench.step, htags, harray]
        exact hci
      · rw [haccepted, ← view, hmem]
        refine view_congr fun t i o => ?_
        simp only [overlay, CacheBench.step, htags, harray]
      · rw [haccepted, hacks.1]
  | waiting done q pending engine clean age =>
    have hack := hl.not_ack engine
    obtain ⟨haccepted, hacks, hage⟩ := pending.step_log cyc
    obtain ⟨hq, hen, -⟩ := pending.request cyc.request
    rw [engine.enable] at hage
    simp only [Bool.false_and, Bool.false_eq_true, if_false] at hage
    rw [← hq] at haccepted
    cases hhit : b.cache.hit cyc.request with
    | true =>
      refine Phase.of_hit ht clean hhit hack pending.view haccepted hacks ?_ (by omega)
      have hmiss := miss_of_hit hhit
      have heng : (b.step cyc).cache.engine = b.cache.engine := by
        simp [CacheBench.step, Cache.step, engineNext, engine.state, hmiss]
      exact heng ▸ engine
    | false =>
      have hmiss : b.cache.miss cyc.request = true := by rw [pending.miss_eq, hhit]; rfl
      refine Phase.of_launch ht clean hen hhit hack pending.view haccepted hacks engine
        (.inr ⟨hmiss, ?_⟩)
      rw [hq]
      rcases age with hzero | ⟨hd, hle⟩
      · exact .inl (by omega)
      · exact .inr ⟨hd, by omega⟩
  | write done q k pending engine we clean dirty tag word flushed age =>
    exact pending.write_step ht engine we clean dirty tag word flushed age
  | read done q k pending engine we clean dirty tag filled age =>
    exact pending.read_step ht engine we clean dirty tag filled age
  | retire done q pending engine clean dirty age =>
    have hack := hl.not_ack engine
    obtain ⟨haccepted, hacks, hage⟩ := pending.step_log cyc
    obtain ⟨hq, hen, -⟩ := pending.request cyc.request
    rw [engine.enable] at hage
    simp only [Bool.false_and, Bool.false_eq_true, if_false] at hage
    rw [← hq] at haccepted
    have heng : (b.step cyc).cache.engine = { b.cache.engine with wbmState := .wbIdle } := by
      simp [CacheBench.step, Cache.step, engineNext, engine.state]
    have hrest : Resting (b.step cyc).cache.engine .wbIdle := by
      rw [heng]
      exact ⟨rfl, engine.enable, engine.masterOffset, engine.cacheOffset⟩
    cases hhit : b.cache.hit cyc.request with
    | true =>
      refine Phase.of_hit ht clean hhit hack pending.view haccepted hacks hrest ?_
      rcases age with h | ⟨-, -, h⟩ <;> omega
    | false =>
      have hmem := step_mem_of_not_ack (b := b) hack
      obtain ⟨htags, harray⟩ := step_quiet_arrays (r := b.wishbone cyc) hhit hack
      change (b.step cyc).cache.way.tagRam = _ at htags
      change (b.step cyc).cache.ram.array = _ at harray
      have hp := pending_step hen hhit haccepted hacks (by
        rw [hmem, ← pending.view]
        refine view_congr fun t i o => ?_
        simp only [overlay, htags, harray])
      rw [hq] at hp
      refine .waiting done q hp hrest (fun i => ?_) (.inr ⟨?_, ?_⟩)
      · unfold CleanAt
        rw [htags, harray, hmem]
        exact clean i
      · rw [entry, htags]
        exact dirty
      · rcases age with h | ⟨hv, htag, -⟩
        · omega
        · rw [(pending.hit_iff ht _).mpr ⟨hv, htag⟩] at hhit
          cases hhit

theorem Phase.answered_step (h : Phase ref b) (ha : Answered ref b.accepted b.acks)
    (cyc : CacheCycle) : Answered ref (b.step cyc).accepted (b.step cyc).acks := by
  have hacks : Answered ref b.accepted (b.step cyc).acks := by
    cases hack : b.cache.bus.slaveAck with
    | false => simpa [CacheBench.step, hack] using ha
    | true =>
      cases h with
      | idle engine enR clean view log age =>
        rcases log with ⟨hno, -⟩ | ⟨-, done, q, hacc, hlen, hdata⟩
        · rw [hack] at hno
          cases hno
        · rw [hacc] at ha ⊢
          simpa [CacheBench.step, hack] using
            ha.append_answer hlen fun hwe => hdata hwe cyc.request
      | waiting _ _ pending | write _ _ _ pending | read _ _ _ pending | retire _ _ pending =>
        rw [pending.slaveAck] at hack
        cases hack
  have haccepted : (b.step cyc).accepted = b.accepted ∨
      ∃ q, (b.step cyc).accepted = b.accepted ++ [q] := by
    simp only [CacheBench.step]
    split_ifs
    · exact .inr ⟨_, rfl⟩
    · exact .inl rfl
  rcases haccepted with heq | ⟨q, heq⟩
  · rw [heq]
    exact hacks
  · rw [heq]
    exact hacks.append_request q

theorem Phase.init (mem : c.MasterAddress → c.MasterWord) :
    Phase (flat mem) (cached c mem).init := by
  refine .idle ⟨rfl, rfl, rfl, rfl⟩ rfl (fun i hv => ?_) ?_ (.inl ⟨rfl, rfl⟩) (Nat.zero_le _)
  · cases hv
  · funext adr
    simp [view, overlay, cached, flat, FlatMemory.replay]

/-- What a run owes the master: the answers are those of a flat memory, in order and one for
each request; at most one request is open, and it has waited a bounded number of cycles for
anything but the memory; at rest the memory with the dirty lines over it is the flat memory. -/
structure Transparent (ref : FlatMemory c) (b : CacheBench c) : Prop where
  answered : Answered ref b.accepted b.acks
  one_open : b.accepted.length ≤ b.acks.length + 1
  age_le : b.age ≤ 2 * 2 ^ c.clBits + 4
  memory : b.cache.engine.wbmState = .wbIdle → b.cache.bus.enR = false →
    b.cache.view b.mem = ref.replay b.accepted

theorem Phase.transparent (h : Phase ref b) (ha : Answered ref b.accepted b.acks) :
    Transparent ref b := by
  have hpow : 0 < 2 ^ c.clBits := Nat.two_pow_pos _
  have hbusy {done : List (CacheRequest c)} {q : CacheRequest c} (p : Pending ref b done q)
      (hage : b.age ≤ 2 * 2 ^ c.clBits + 4) : Transparent ref b := by
    refine ⟨ha, p.accepted_length.le, hage, fun _ henR => ?_⟩
    rw [p.enR] at henR
    cases henR
  cases h with
  | idle engine enR clean view log age =>
    refine ⟨ha, ?_, age, fun _ _ => view⟩
    rcases log with ⟨-, hlen⟩ | ⟨-, done, q, hacc, hlen, -⟩
    · omega
    · simp [hacc, hlen]
  | waiting _ _ p _ _ age => exact hbusy p (by omega)
  | write _ _ k p engine _ _ _ _ _ _ age =>
    exact hbusy p (by rcases engine.state with ⟨-, h⟩ | ⟨-, h⟩ <;> omega)
  | read _ _ k p engine _ _ _ _ _ age =>
    exact hbusy p (by rcases engine.state with ⟨-, h⟩ | ⟨-, h⟩ <;> omega)
  | retire _ _ p _ _ _ age => exact hbusy p (by omega)

end CacheBench

/-- **The cache is transparent.** From power-on, whatever the master drives and however the
memory delays its acknowledges. -/
theorem cache_transparent (c : CacheConfig) (mem : c.MasterAddress → c.MasterWord)
    (cycs : List CacheCycle)
    (h : (cached c mem).Along CacheBench.Legal (cached c mem).init cycs) :
    CacheBench.Transparent (flat mem) ((cached c mem).run cycs) := by
  have hinv := h.invariant
    (fun b => CacheBench.Phase (flat mem) b ∧ b.cache.Tagged ∧
      Answered (flat mem) b.accepted b.acks)
    (fun b cyc hb hl => ⟨hb.1.step hb.2.1 hl, hb.2.1.step, hb.1.answered_step hb.2.2 cyc⟩)
    ⟨CacheBench.Phase.init mem, ⟨rfl, fun _ h => h⟩, trivial⟩
  exact hinv.1.transparent hinv.2.2

/-- A 64-bit bus, two lines of two words. -/
def smallCache : CacheConfig where
  wordSelectBits := 1
  clBits := 1
  lineSelectAdrBits := 1
  tagRamBits := 2
  wordSelectBits_le := by decide
  clBits_pos := by decide
  lineSelectAdrBits_pos := by decide

/-- A byte is written to a line fetched for it; a read with another tag evicts the line. -/
def evictingRun : List CacheCycle :=
  [{ request := { en := true, adr := 4, we := 2, dbWr := 0xab00 } }, {}, { ack := true },
    { ack := true }, {}, { request := { en := true, adr := 0x24 } }, {}, { ack := true },
    { ack := true }, {}, {}, { ack := true }, { ack := true }, {}, {}]

theorem cache_transparent_evicting :
    CacheBench.Transparent (flat fun _ => (5 : smallCache.MasterWord))
      ((cached smallCache fun _ => 5).run evictingRun) :=
  cache_transparent smallCache (fun _ => 5) evictingRun (by decide +kernel)

end BonfireCore
