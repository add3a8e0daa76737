import BonfireCore.ByteMerge
import BonfireCore.Clocked
import Mathlib.Logic.Function.Basic

/-! The dual-port RAM in one array and in four byte arrays. -/
namespace BonfireCore

/-- The signals that drive a `RamPort`; a read-only port has neither `wren` nor `dbin`. -/
structure RamPort (a w : ℕ) where
  en : Bool := false
  adrbus : BitVec a := 0
  wren : BitVec (w / 8) := 0
  dbin : BitVec w := 0
  deriving DecidableEq, Repr

variable {a w : ℕ}

/-- The words of a hex image, the rest of the array cleared. -/
def createRam (a w : ℕ) (image : List ℕ) : BitVec a → BitVec w :=
  fun adr => BitVec.ofNat w (image.getD adr.toNat 0)

namespace RamPort
variable (readOnly : Bool) (p : RamPort a w) (ram : BitVec a → BitVec w)

/-- The write of `port_instance`, one slice assignment for each byte. -/
def write : BitVec a → BitVec w :=
  if p.en && !readOnly then
    Function.update ram p.adrbus (byteMerge p.wren (ram p.adrbus) p.dbin)
  else ram

/-- Its registered output: the word before the edge. -/
def dbout (old : BitVec w) : BitVec w := if p.en then ram p.adrbus else old

end RamPort

/-- An array behind two ports. -/
structure DualportedRam (a w : ℕ) where
  ram : BitVec a → BitVec w
  dboutA : BitVec w := 0
  dboutB : BitVec w := 0

/-- Which of the two ports are read-only, and whether A's process runs before B's. -/
structure RamPorts where
  readOnlyA : Bool := false
  readOnlyB : Bool := false
  aFirst : Bool := true
  deriving DecidableEq, Repr

namespace DualportedRam
variable (r : RamPorts) (s : DualportedRam a w) (pa pb : RamPort a w)

/-- Both processes read before the edge; their slice writes go into the same words. -/
def step : DualportedRam a w where
  ram :=
    if r.aFirst then pb.write r.readOnlyB (pa.write r.readOnlyA s.ram)
    else pa.write r.readOnlyA (pb.write r.readOnlyB s.ram)
  dboutA := pa.dbout s.ram s.dboutA
  dboutB := pb.dbout s.ram s.dboutB

/-- `ram_instance`. -/
def machine (image : List ℕ) :
    Clocked (DualportedRam a w) (RamPort a w × RamPort a w) where
  init := { ram := createRam a w image }
  step s p := s.step r p.1 p.2

end DualportedRam

/-- Four byte-wide arrays. -/
structure DualportedRamLaned (a : ℕ) where
  lane : Fin 4 → DualportedRam a 8

namespace DualportedRamLaned
variable (r : Fin 4 → RamPorts) (s : DualportedRamLaned a)

/-- `port_map`. -/
def portMap (k : Fin 4) (p : RamPort a 32) : RamPort a 8 where
  en := p.en
  adrbus := p.adrbus
  wren := BitVec.ofBool (p.wren.getLsbD k)
  dbin := p.dbin.extractLsb' (8 * k) 8

def createRam (image : List ℕ) (k : Fin 4) : BitVec a → BitVec 8 :=
  fun adr => (BitVec.ofNat 32 (image.getD adr.toNat 0)).extractLsb' (8 * k) 8

def step (pa pb : RamPort a 32) : DualportedRamLaned a where
  lane k := (s.lane k).step (r k) (portMap k pa) (portMap k pb)

/-- `ram_instance`. -/
def machine (image : List ℕ) :
    Clocked (DualportedRamLaned a) (RamPort a 32 × RamPort a 32) where
  init := { lane := fun k => { ram := createRam image k } }
  step s p := s.step r p.1 p.2

/-- `map_dbout`. -/
def dboutA : BitVec 32 :=
  (s.lane 3).dboutA ++ (s.lane 2).dboutA ++ (s.lane 1).dboutA ++ (s.lane 0).dboutA

def dboutB : BitVec 32 :=
  (s.lane 3).dboutB ++ (s.lane 2).dboutB ++ (s.lane 1).dboutB ++ (s.lane 0).dboutB

end DualportedRamLaned

namespace RamPort

/-- The two ports do not write the same byte of the same word. -/
def Apart (roA roB : Bool) (pa pb : RamPort a w) : Prop :=
  ∀ k < w / 8, ¬ ((pa.en && !roA && pa.wren.getLsbD k) = true ∧
    (pb.en && !roB && pb.wren.getLsbD k) = true ∧ pa.adrbus = pb.adrbus)

instance (roA roB : Bool) (pa pb : RamPort a w) : Decidable (Apart roA roB pa pb) :=
  inferInstanceAs (Decidable (∀ k < w / 8, _))

theorem getLsbD_write {readOnly : Bool} {p : RamPort a w} {ram : BitVec a → BitVec w}
    (adr : BitVec a) (i : ℕ) :
    (p.write readOnly ram adr).getLsbD i =
      if (p.en && !readOnly && p.wren.getLsbD (i / 8)) = true ∧ p.adrbus = adr then
        p.dbin.getLsbD i
      else (ram adr).getLsbD i := by
  unfold write
  cases hw : p.en && !readOnly with
  | false => simp
  | true =>
    by_cases hadr : p.adrbus = adr
    · subst hadr
      simp [getLsbD_byteMerge]
    · simp [Function.update_of_ne (Ne.symm hadr), hadr]

/-- The order of the two processes does not matter then. -/
theorem write_comm {roA roB : Bool} {pa pb : RamPort a w} (h : Apart roA roB pa pb)
    (ram : BitVec a → BitVec w) :
    pa.write roA (pb.write roB ram) = pb.write roB (pa.write roA ram) := by
  funext adr
  apply BitVec.eq_of_getLsbD_eq
  intro i hi
  rw [getLsbD_write, getLsbD_write, getLsbD_write, getLsbD_write]
  by_cases hb : (pb.en && !roB && pb.wren.getLsbD (i / 8)) = true ∧ pb.adrbus = adr
  · have hlane : i / 8 < w / 8 := BitVec.lt_of_getLsbD (Bool.and_eq_true _ _ ▸ hb.1).2
    have ha : ¬ ((pa.en && !roA && pa.wren.getLsbD (i / 8)) = true ∧ pa.adrbus = adr) :=
      fun ha => h (i / 8) hlane ⟨ha.1, hb.1, ha.2.trans hb.2.symm⟩
    rw [if_neg ha, if_pos hb, if_pos hb]
  · rw [if_neg hb, if_neg hb]

end RamPort

namespace DualportedRam
variable {r : RamPorts} {s : DualportedRam a w} {pa pb : RamPort a w}

theorem step_ram (h : RamPort.Apart r.readOnlyA r.readOnlyB pa pb) :
    (s.step r pa pb).ram = pb.write r.readOnlyB (pa.write r.readOnlyA s.ram) := by
  show (if _ then _ else _) = _
  split_ifs
  · rfl
  · exact RamPort.write_comm h s.ram

end DualportedRam

namespace DualportedRamLaned
variable {r : RamPorts} {order : Fin 4 → Bool} {s : DualportedRamLaned a}
  {t : DualportedRam a 32} {pa pb : RamPort a 32}

theorem extract_write (readOnly : Bool) (p : RamPort a 32) (ram : BitVec a → BitVec 32)
    (k : Fin 4) :
    (fun adr => (p.write readOnly ram adr).extractLsb' (8 * k) 8) =
      (portMap k p).write readOnly fun adr => (ram adr).extractLsb' (8 * k) 8 := by
  funext adr
  apply BitVec.eq_of_getLsbD_eq
  intro i hi
  have hlane : (8 * (k : ℕ) + i) / 8 = k := by omega
  have hzero : i / 8 = 0 := by omega
  rw [BitVec.getLsbD_extractLsb', RamPort.getLsbD_write, RamPort.getLsbD_write, hlane, hzero]
  simp [portMap, hi]

theorem extract_dbout (p : RamPort a 32) (ram : BitVec a → BitVec 32) (old : BitVec 32)
    (k : Fin 4) :
    (p.dbout ram old).extractLsb' (8 * k) 8 =
      (portMap k p).dbout (fun adr => (ram adr).extractLsb' (8 * k) 8)
        (old.extractLsb' (8 * k) 8) := by
  show (if p.en then _ else _ : BitVec 32).extractLsb' _ _ = if p.en then _ else _
  cases p.en <;> rfl

theorem apart_portMap {roA roB : Bool} (h : RamPort.Apart roA roB pa pb) (k : Fin 4) :
    RamPort.Apart roA roB (portMap k pa) (portMap k pb) := by
  intro j hj
  obtain rfl : j = 0 := by omega
  simpa [portMap] using h k k.isLt

/-- Byte `k` of the one array is the array of lane `k`, in the contents and in both outputs. -/
structure Lanes (s : DualportedRamLaned a) (t : DualportedRam a 32) : Prop where
  ram : ∀ k, (s.lane k).ram = fun adr => (t.ram adr).extractLsb' (8 * k) 8
  dboutA : ∀ k, (s.lane k).dboutA = t.dboutA.extractLsb' (8 * k) 8
  dboutB : ∀ k, (s.lane k).dboutB = t.dboutB.extractLsb' (8 * k) 8

theorem Lanes.step (h : Lanes s t) (hp : RamPort.Apart r.readOnlyA r.readOnlyB pa pb) :
    Lanes (s.step (fun k => { r with aFirst := order k }) pa pb) (t.step r pa pb) := by
  constructor
  · intro k
    have hk := apart_portMap hp k
    show ((s.lane k).step _ _ _).ram = _
    rw [DualportedRam.step_ram hp, extract_write, extract_write, ← h.ram]
    exact DualportedRam.step_ram (r := { r with aFirst := order k }) hk
  · intro k
    show (portMap k pa).dbout (s.lane k).ram (s.lane k).dboutA = _
    rw [h.ram, h.dboutA]
    exact (extract_dbout pa t.ram t.dboutA k).symm
  · intro k
    show (portMap k pb).dbout (s.lane k).ram (s.lane k).dboutB = _
    rw [h.ram, h.dboutB]
    exact (extract_dbout pb t.ram t.dboutB k).symm

theorem concat_lanes (x : BitVec 32) :
    x.extractLsb' 24 8 ++ x.extractLsb' 16 8 ++ x.extractLsb' 8 8 ++ x.extractLsb' 0 8 = x := by
  apply BitVec.eq_of_getLsbD_eq
  intro i hi
  simp only [BitVec.getLsbD_append, BitVec.getLsbD_extractLsb']
  split_ifs with h0 h1 h2
  · simp [h0]
  · have h8 : 8 + (i - 8) = i := by omega
    simp [h1, h8]
  · have h16 : 16 + (i - 8 - 8) = i := by omega
    simp [h2, h16]
  · have h24 : 24 + (i - 8 - 8 - 8) = i := by omega
    have hlt : i - 8 - 8 - 8 < 8 := by omega
    simp [hlt, h24]

theorem Lanes.dbout (h : Lanes s t) : s.dboutA = t.dboutA ∧ s.dboutB = t.dboutB := by
  constructor
  · rw [DualportedRamLaned.dboutA, h.dboutA, h.dboutA, h.dboutA, h.dboutA]
    exact concat_lanes t.dboutA
  · rw [DualportedRamLaned.dboutB, h.dboutB, h.dboutB, h.dboutB, h.dboutB]
    exact concat_lanes t.dboutB

theorem Lanes.run (h : Lanes s t) (image : List ℕ) {is : List (RamPort a 32 × RamPort a 32)}
    (hp : ∀ p ∈ is, RamPort.Apart r.readOnlyA r.readOnlyB p.1 p.2) :
    Lanes ((machine (fun k => { r with aFirst := order k }) image).runFrom s is)
      ((DualportedRam.machine r image).runFrom t is) := by
  induction is generalizing s t with
  | nil => exact h
  | cons p is ih =>
    exact ih (h.step (hp p List.mem_cons_self)) fun q hq => hp q (List.mem_cons_of_mem p hq)

/-- Laned or not, the ports read the same in every cycle of a run, whatever order the processes
of the five arrays run in. -/
theorem dbout_eq (image : List ℕ) (r : RamPorts) (order : Fin 4 → Bool)
    {is : List (RamPort a 32 × RamPort a 32)}
    (h : ∀ p ∈ is, RamPort.Apart r.readOnlyA r.readOnlyB p.1 p.2) :
    let s := (machine (fun k => { r with aFirst := order k }) image).run is
    let t := (DualportedRam.machine r image).run is
    s.dboutA = t.dboutA ∧ s.dboutB = t.dboutB := by
  have hinit : Lanes (machine (fun k => { r with aFirst := order k }) image).init
      (DualportedRam.machine r image : Clocked (DualportedRam a 32) _).init := by
    refine ⟨fun _ => rfl, fun k => ?_, fun k => ?_⟩
    all_goals
      show 0#8 = (0#32).extractLsb' (8 * k) 8
      simp
  exact (hinit.run image h).dbout

/-- A word written through port A in two steps while port B reads it. -/
theorem dbout_eq_bytes :
    let is : List (RamPort 4 32 × RamPort 4 32) :=
      [(⟨true, 2, 0b0101, 0x11223344⟩, ⟨true, 2, 0b1000, 0xff000000⟩),
        (⟨true, 2, 0b0010, 0x00005500⟩, ⟨true, 2, 0, 0⟩), (⟨false, 0, 0, 0⟩, ⟨true, 2, 0, 0⟩)]
    let s := (machine (fun k => ⟨false, false, k = 0⟩) [1, 2, 0xdeadbeef]).run is
    let t := (DualportedRam.machine {} [1, 2, 0xdeadbeef]).run is
    s.dboutA = t.dboutA ∧ s.dboutB = t.dboutB := by
  exact dbout_eq [1, 2, 0xdeadbeef] {} (fun k => k = 0) (by decide)

end DualportedRamLaned
end BonfireCore
