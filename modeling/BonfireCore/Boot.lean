import BonfireCore.ExtendedCoreRun
import BonfireCore.Startup

/-! The extended core boots: from reset it runs the startup code of a program in its block RAM,
up to the call of the C program. -/
namespace BonfireCore

open Rv32i (Instr Access bytesOf byteLane)
open Hart (label Holds AtCode Leads Apart)

namespace ExtendedCore
variable {n a : ℕ}

/-- The code is in the image from `start` on, in one image of the RAM; Fetch may ask for three
more words. -/
structure Placed (base : ℕ) (text : BitVec a → Prop) (image : BitVec a → Word) (start : Word)
    (code : List Instr) : Prop where
  aligned : start.toNat % 4 = 0
  window : ∀ k < code.length, InWindow a base (label start k)
  text : ∀ k < code.length + 3, text (index a (label start k))
  image : ∀ k ins, code[k]? = some ins → image (index a (label start k)) = ins.encode

section Placed
variable {c : CoreConfig} {base : ℕ} {text : BitVec a → Prop} {image : BitVec a → Word}
  {start : Word} {code : List Instr} {may : Access → Prop}

theorem label_aligned (h : start.toNat % 4 = 0) (k : ℕ) : (label start k).toNat % 4 = 0 := by
  rw [label, BitVec.toNat_add, BitVec.toNat_ofNat]
  omega

theorem Placed.holds (ha : a ≤ 30) (h : Placed base text image start code) :
    Holds (hart c image).mem start code := fun k ins hk =>
  (word_image ha (label_aligned h.aligned k)).trans (h.image k ins hk)

/-- A hart at its code stays in its RAM. -/
theorem Placed.stays (h : Placed base text image start code)
    (hmay : ∀ acc, may acc → KeepsTo base text acc) {g : Hart} (hg : AtCode start code may g) :
    Stays base text g := by
  obtain ⟨k, ins, hk, hpc, hinstr, hin, hacc⟩ := hg
  have hlt := (List.getElem?_eq_some_iff.1 hk).1
  constructor
  · rw [hpc]
    exact label_aligned h.aligned k
  · rw [hpc]
    exact h.window k hlt
  · intro j hj
    have hnear : g.pc + BitVec.ofNat 32 (4 * j) = label start (k + j) := by
      rw [hpc, label, label, Nat.mul_add, BitVec.ofNat_add, BitVec.add_assoc]
    rw [hnear]
    exact h.text (k + j) (by omega)
  · exact ⟨ins, hinstr, hin⟩
  · intro ins' hins' acc ha
    obtain rfl := Option.some.inj (hinstr.symm.trans hins')
    exact hmay acc (hacc acc ha)

/-- A section without text is not where the code is. -/
theorem Placed.apart (h : Placed base text image start code) {first stop : Word}
    (hsec : Startup.Section first stop)
    (hdata : ∀ adr, Startup.Within first stop adr → ¬ text (index a adr)) :
    Apart start code first (Startup.bytes first stop) := by
  intro k hk j hj hlt
  have hal := label_aligned h.aligned k
  have hbelow := (label start k).isLt
  have hfirst := hsec.start_aligned
  have hwords := hsec.words
  have hbyte : (label start k + BitVec.ofNat 32 j - first).toNat =
      (2 ^ 32 - first.toNat + ((label start k).toNat + j)) % 2 ^ 32 := by
    rw [BitVec.toNat_sub, Hart.toNat_add_word (by omega)]
  have hword : (label start k - first).toNat =
      (2 ^ 32 - first.toNat + (label start k).toNat) % 2 ^ 32 := BitVec.toNat_sub _ _
  exact hdata _ (hsec.within hal (by omega)) (h.text k (Nat.lt_add_right 3 hk))

/-- The bytes of the image. -/
theorem hart_mem (ha : a ≤ 30) (adr : Word) :
    (hart c image).mem adr = byteLane (image (index a adr)) (adr.toNat % 4) := by
  show byteLane (image ((adr.extractLsb' 2 30).extractLsb' 0 a)) (adr.toNat % 4) = _
  rw [index_word ha]

end Placed

section Image
variable (code : List Instr)

/-- An image with the code at its begin; a `j .` stands everywhere else. -/
def imageOf : BitVec a → Word := fun w =>
  match code[w.toNat]? with
  | some ins => ins.encode
  | none => (Instr.jal 0 0).encode

/-- The code, and the words behind it that Fetch may ask for. -/
def textOf : BitVec a → Prop := fun w => w.toNat < code.length + 3

theorem decodes_imageOf (text : BitVec a → Prop) : Decodes (imageOf code) text := by
  intro w _
  show (opClass (match code[w.toNat]? with
    | some ins => ins.encode
    | none => (Instr.jal 0 0).encode)).isSome = true
  cases code[w.toNat]? with
  | some ins => exact congrArg Option.isSome (opClass_encode ins)
  | none => exact congrArg Option.isSome (opClass_encode (.jal 0 0))

/-- Code that fits into the RAM has its place there. -/
theorem placed_imageOf (ha : a ≤ 30) (start : Word) (hstart : start.toNat % 2 ^ (a + 2) = 0)
    (hfit : code.length + 3 ≤ 2 ^ a) :
    Placed (start.toNat / 2 ^ (a + 2)) (textOf code) (imageOf code (a := a)) start code := by
  have hpow : 2 ^ (a + 2) = 4 * 2 ^ a := by
    rw [Nat.pow_add, Nat.mul_comm]
  rw [hpow] at hstart
  obtain ⟨q, hq⟩ := Nat.dvd_of_mod_eq_zero hstart
  have hroom : start.toNat + 4 * 2 ^ a ≤ 2 ^ 32 := by
    obtain ⟨r, hr⟩ : 4 * 2 ^ a ∣ 2 ^ 32 := by
      rw [← hpow]
      exact Nat.pow_dvd_pow 2 (by omega)
    have hlt : 4 * 2 ^ a * q < 4 * 2 ^ a * r := by
      rw [← hq, ← hr]
      exact start.isLt
    calc start.toNat + 4 * 2 ^ a
        = 4 * 2 ^ a * (q + 1) := by rw [Nat.mul_succ, ← hq]
      _ ≤ 4 * 2 ^ a * r := Nat.mul_le_mul_left _ (Nat.lt_of_mul_lt_mul_left hlt)
      _ = 2 ^ 32 := hr.symm
  have hlabel {k : ℕ} (hk : k < 2 ^ a) : (label start k).toNat = 4 * (2 ^ a * q + k) := by
    rw [label, Hart.toNat_add_word (by omega), hq, Nat.mul_assoc, ← Nat.mul_add]
  have hindex {k : ℕ} (hk : k < 2 ^ a) : (index a (label start k)).toNat = k := by
    rw [index, BitVec.extractLsb'_toNat, Nat.shiftRight_eq_div_pow, hlabel hk,
      show 2 ^ 2 = 4 from rfl, Nat.mul_div_cancel_left _ (by decide), Nat.mul_add_mod,
      Nat.mod_eq_of_lt hk]
  constructor
  · rw [hq, Nat.mul_assoc, Nat.mul_mod_right]
  · intro k hk
    show (label start k).toNat / 2 ^ (a + 2) = start.toNat / 2 ^ (a + 2)
    rw [hlabel (by omega), hq, hpow, Nat.mul_div_cancel_left _ (by positivity),
      Nat.mul_div_mul_left _ _ (by decide), Nat.mul_add_div (by positivity),
      Nat.div_eq_of_lt (by omega), Nat.add_zero]
  · intro k hk
    show (index a (label start k)).toNat < code.length + 3
    rwa [hindex (by omega)]
  · intro k ins hk
    have hlt := (List.getElem?_eq_some_iff.1 hk).1
    rw [imageOf, hindex (by omega), hk]

end Image

/-- With `m` words taken the hart is `g`, and the RAM holds its memory. -/
structure Arrives (c : CoreConfig) (base : ℕ) (image : BitVec a → Word) (m : ℕ) (g : Hart)
    (s : ExtendedCore n a) : Prop where
  words : s.executed.words.length = m
  follows : s.executed.FollowsHart c (hart c image)
  hart : (hart c image).after m = g
  ram : ∀ adr, InWindow a base adr →
    byteLane (s.ram.ram (index a adr)) (adr.toNat % 4) = g.mem adr

section Reach
variable (c : CoreConfig) (hregistered : c.registeredReadStage = true)
  (hshifter : c.shifterMode ≠ .behavioral) (ha : a ≤ 30) (map : AddressMap n 32) (bram : Fin n)
  (hdirect : map.registered bram = false) (base : ℕ)
  (hwindow : ∀ adr, InWindow a base adr → (map.adrmask bram).selects adr = true)
  (text : BitVec a → Prop) (image : BitVec a → Word) (htext : Decodes image text)
include hregistered hshifter ha hdirect hwindow htext

/-- A long enough run comes to the end of a piece of code. -/
theorem reaches {code : List Instr} {may : Access → Prop} {m : ℕ} {g : Hart}
    (hplaced : Placed base text image c.resetAddress code)
    (hmay : ∀ acc, may acc → KeepsTo base text acc)
    (hleads : (hart c image).Leads (AtCode c.resetAddress code may) m g)
    (is : List (Fin n → DbusResponse 32)) (hlen : 11 * (m + 1) ≤ is.length) :
    ∃ js ks, is = js ++ ks ∧ js.length ≤ 11 * (m + 1) ∧
      ((machine c map bram image).run js).executed.words.length = m ∧
      ((machine c map bram image).run js).Runs c base image js.length := by
  have hs : ∀ k < m, Stays base text ((hart c image).after k) := fun k hk =>
    hplaced.stays hmay (hleads.ok k hk)
  have hruns (js : List (Fin n → DbusResponse 32))
      (hbelow : (machine c map bram image).Along (fun t _ => ¬ m ≤ t.executed.words.length)
        (machine c map bram image).init js) :=
    runs_below c hregistered hshifter ha map bram hdirect base hwindow text image htext hs js
      (Clocked.Along.mono (fun _ => True) (fun _ _ _ _ => trivial)
        (fun _ _ _ hlt => Nat.lt_of_not_le hlt) trivial hbelow)
  have hone (t : ExtendedCore n a) (i : Fin n → DbusResponse 32) :
      (t.step c map bram i).executed.words.length ≤ t.executed.words.length + 1 :=
    words_run c map bram image t [i]
  rcases (machine c map bram image).exists_first (fun t => m ≤ t.executed.words.length)
    (machine c map bram image).init is with ⟨hbelow, hend⟩ | ⟨js, ks, hsplit, hbelow, hend⟩
  · have hprogress := (hruns is hbelow).progress
    have hend : ¬ m ≤ ((machine c map bram image).run is).executed.words.length := hend
    omega
  · have hle : ((machine c map bram image).run js).executed.words.length ≤ m :=
      hbelow.invariant (fun t => t.executed.words.length ≤ m)
        (fun t i _ hlt => (hone t i).trans (Nat.lt_of_not_le hlt)) (Nat.zero_le m)
    have heq := Nat.le_antisymm hle hend
    have hprogress := (hruns js hbelow).progress
    rw [heq] at hprogress
    exact ⟨js, ks, hsplit, hprogress, heq, hruns js hbelow⟩

/-- And to a call behind it, before which nothing more is written to the RAM. -/
theorem reaches_call {code : List Instr} {may : Access → Prop} {m k : ℕ} {g : Hart} {sym : Word}
    (hplaced : Placed base text image c.resetAddress code)
    (hmay : ∀ acc, may acc → KeepsTo base text acc)
    (hleads : (hart c image).Leads (AtCode c.resetAddress code may) m g)
    (hm : Holds g.mem c.resetAddress code) (hpc : g.pc = label c.resetAddress k)
    (heven : sym.getLsbD 0 = false)
    (h0 : code[k]? = some (.auipc 1 (Hart.pcrelHi (label c.resetAddress k) sym)))
    (h1 : code[k + 1]? = some (.jalr 1 1 (Hart.pcrelLo (label c.resetAddress k) sym)))
    (is : List (Fin n → DbusResponse 32)) (hlen : 11 * (m + 3) ≤ is.length) :
    ∃ js ks, is = js ++ ks ∧ js.length ≤ 11 * (m + 3) ∧
      ((machine c map bram image).run js).Arrives c base image (m + 2)
        ((g.set 1 (label c.resetAddress (k + 2))).goto sym) := by
  have hcall := Hart.leads_call may g hm hpc sym heven h0 h1
  have hmem := Hart.call_mem g hm hpc sym heven h0 h1
  have hall := hleads.trans hcall
  obtain ⟨js, ks, hsplit, hcycles, hwords, hruns⟩ := reaches c hregistered hshifter ha map bram
    hdirect base hwindow text image htext hplaced hmay hall is hlen
  refine ⟨js, ks, hsplit, hcycles, hwords, hruns.follows, hall.after, fun adr hadr => ?_⟩
  obtain ⟨j, hj, hnear, hram⟩ := hruns.ram
  rw [hwords] at hj hnear
  rw [hram adr hadr]
  have hcases : j = m + 1 ∨ j = m + 2 := by omega
  rcases hcases with rfl | rfl
  · rw [Hart.after_add, hleads.after, hmem.1]
    rfl
  · rw [Hart.after_add, hleads.after, hmem.2]
    rfl

/-- `crt0.S`: the block RAM shows the image with a clear bss section when `main` is called. -/
theorem crt0_boots (s : Startup.Symbols)
    (hplaced : Placed base text image c.resetAddress (Startup.crt0 c.resetAddress s))
    (hbss : Startup.Section s.fbss s.ebss)
    (hram : ∀ adr, Startup.Within s.fbss s.ebss adr → InWindow a base adr ∧ ¬ text (index a adr))
    (hmain : s.main.getLsbD 0 = false) (is : List (Fin n → DbusResponse 32))
    (hlen : 11 * (Startup.crt0Count s + 3) ≤ is.length) :
    ∃ js ks, is = js ++ ks ∧ js.length ≤ 11 * (Startup.crt0Count s + 3) ∧
      ((machine c map bram image).run js).Arrives c base image (Startup.crt0Count s + 2)
        (((Startup.crt0Ready s (hart c image)).set Startup.ra (label c.resetAddress 12)).goto
          s.main) ∧
      ∀ adr, InWindow a base adr →
        byteLane (((machine c map bram image).run js).ram.ram (index a adr)) (adr.toNat % 4) =
          if (adr - s.fbss).toNat < Startup.bytes s.fbss s.ebss then 0
          else byteLane (image (index a adr)) (adr.toNat % 4) := by
  have hmay : ∀ acc, Startup.Touches (fun _ => False) (Startup.Within s.fbss s.ebss) acc →
      KeepsTo base text acc
    | .load _ _, hload => hload.elim
    | .store _ adr _, hstore => hram adr hstore
  obtain ⟨hleads, hm⟩ := Startup.leads_crt0 (h := hart c image) (hplaced.holds ha) rfl hbss
    (hplaced.apart hbss fun adr hin => (hram adr hin).2)
  obtain ⟨js, ks, hsplit, hcycles, harrives⟩ := reaches_call c hregistered hshifter ha map bram
    hdirect base hwindow text image htext hplaced hmay hleads hm rfl hmain rfl rfl is hlen
  refine ⟨js, ks, hsplit, hcycles, harrives, fun adr hadr => ?_⟩
  rw [harrives.ram adr hadr, ← hart_mem ha]
  rfl

/-- `crt0_runtime.S`: so it is with the data section when `__libc_init_array` is called. -/
theorem crt0Runtime_boots (s : Startup.RuntimeSymbols)
    (hplaced : Placed base text image c.resetAddress (Startup.crt0Runtime c.resetAddress s))
    (hlinked : Startup.Linked s)
    (hram : ∀ acc, Startup.RuntimeTouches s acc → KeepsTo base text acc)
    (hinit : s.libcInitArray.getLsbD 0 = false) (is : List (Fin n → DbusResponse 32))
    (hlen : 11 * (Startup.runtimeCount s + 3) ≤ is.length) :
    ∃ js ks m g, is = js ++ ks ∧ js.length ≤ 11 * (m + 3) ∧ m ≤ Startup.runtimeCount s ∧
      ((machine c map bram image).run js).Arrives c base image (m + 2) g ∧
      g.pc = s.libcInitArray ∧ g.reg Startup.ra = label c.resetAddress 27 ∧
      g.reg Startup.gp = s.globalPointer ∧ g.reg Startup.sp = s.stacktop ∧
      g.mem = Startup.runtimeMemory s (hart c image).mem := by
  have hdata : ∀ adr, Startup.Within s.dataStart s.dataEnd adr → ¬ text (index a adr) :=
    fun adr hin => (hram (.store .sw adr 0) (.inl hin)).2
  have hbss : ∀ adr, Startup.Within s.bssStart s.bssEnd adr → ¬ text (index a adr) :=
    fun adr hin => (hram (.store .sw adr 0) (.inr hin)).2
  obtain ⟨m, g, hleads, hle, hpc, hgp, hsp, hmem, hm⟩ := Startup.leads_crt0Runtime
    (h := hart c image) (hplaced.holds ha) rfl hlinked (hplaced.apart hlinked.data hdata)
    (hplaced.apart hlinked.bss hbss)
  obtain ⟨js, ks, hsplit, hcycles, harrives⟩ := reaches_call c hregistered hshifter ha map bram
    hdirect base hwindow text image htext hplaced hram hleads hm hpc hinit rfl rfl is (by omega)
  refine ⟨js, ks, m, _, hsplit, hcycles, hle, harrives, rfl, ?_, ?_, ?_, hmem⟩
  · exact (Hart.set_reg g 1 _ (by decide) 1).trans (if_pos rfl)
  · rw [Hart.goto_reg, Hart.set_reg _ 1 _ (by decide), if_neg (by decide), hgp]
  · rw [Hart.goto_reg, Hart.set_reg _ 1 _ (by decide), if_neg (by decide), hsp]

end Reach

/-- A RAM of 64 words in one image of the block RAM's range. -/
theorem soc_window (adr : Word) (h : InWindow 6 (0xc0000000 / 2 ^ (6 + 2)) adr) :
    (soc.adrmask 0).selects adr = true := by
  have hadr : adr.toNat / 256 = 0xc0000000 / 256 := h
  have hlt := adr.isLt
  show ((adr.extractLsb' 28 4).toNat == 0xc) = true
  rw [beq_iff_eq, BitVec.extractLsb'_toNat, Nat.shiftRight_eq_div_pow]
  omega

/-- An address behind the text. -/
theorem soc_data (code : List Instr) {adr : Word}
    (hlow : 0xc0000000 + 4 * (code.length + 3) ≤ adr.toNat) (hhigh : adr.toNat < 0xc0000100) :
    InWindow 6 (0xc0000000 / 2 ^ (6 + 2)) adr ∧ ¬ textOf code (index 6 adr) := by
  constructor
  · show adr.toNat / 256 = 0xc0000000 / 256
    omega
  · show ¬ (adr.extractLsb' 2 6).toNat < code.length + 3
    rw [BitVec.extractLsb'_toNat, Nat.shiftRight_eq_div_pow]
    omega

/-- Two words of bss. -/
def crt0Symbols : Startup.Symbols :=
  { stacktop := 0xc00000f0, fbss := 0xc0000080, ebss := 0xc0000088, main := 0xc0000040 }

theorem crt0_boots_clear :
    let c : CoreConfig := { resetAddress := 0xc0000000 }
    let image : BitVec 6 → Word := imageOf (Startup.crt0 0xc0000000 crt0Symbols)
    ∃ js ks, List.replicate 176 (fun _ => {}) = js ++ ks ∧ js.length ≤ 176 ∧
      ((machine c soc 0 image).run js).Arrives c (0xc0000000 / 2 ^ (6 + 2)) image 15
        (((Startup.crt0Ready crt0Symbols (hart c image)).set Startup.ra 0xc0000030).goto
          0xc0000040) ∧
      ∀ adr, InWindow 6 (0xc0000000 / 2 ^ (6 + 2)) adr →
        byteLane (((machine c soc 0 image).run js).ram.ram (index 6 adr)) (adr.toNat % 4) =
          if (adr - 0xc0000080).toNat < 8 then 0
          else byteLane (image (index 6 adr)) (adr.toNat % 4) := by
  intro c image
  have hram (adr : Word) (h : Startup.Within 0xc0000080 0xc0000088 adr) :=
    soc_data (Startup.crt0 0xc0000000 crt0Symbols) (Nat.le_trans (by decide) h.1)
      (Nat.lt_of_lt_of_le (Nat.lt_add_of_pos_right (by decide)) (h.2.trans (by decide)))
  have hplaced := placed_imageOf (a := 6) (Startup.crt0 c.resetAddress crt0Symbols) (by decide)
    c.resetAddress (by decide) (by decide)
  exact crt0_boots c rfl (by decide) (by decide) soc 0 rfl _ soc_window (textOf _) image
    (decodes_imageOf _ _) crt0Symbols hplaced ⟨by decide, by decide, by decide⟩ hram (by decide) _
    (by rw [List.length_replicate]; decide)

/-- Two words of data that are copied, and two of bss. -/
def runtimeSymbols : Startup.RuntimeSymbols :=
  { globalPointer := 0xc0000890, stacktop := 0xc0000100, dataSource := 0xc00000a0,
    dataStart := 0xc0000090, dataEnd := 0xc0000098, bssStart := 0xc00000b0,
    bssEnd := 0xc00000b8, libcInitArray := 0xc00000c0, main := 0xc00000c4 }

theorem crt0Runtime_boots_copy :
    let c : CoreConfig := { resetAddress := 0xc0000000 }
    let image : BitVec 6 → Word := imageOf (Startup.crt0Runtime 0xc0000000 runtimeSymbols)
    ∃ js ks m g, List.replicate 418 (fun _ => {}) = js ++ ks ∧ js.length ≤ 11 * (m + 3) ∧
      m ≤ 35 ∧ ((machine c soc 0 image).run js).Arrives c (0xc0000000 / 2 ^ (6 + 2)) image
        (m + 2) g ∧
      g.pc = 0xc00000c0 ∧ g.reg Startup.ra = 0xc000006c ∧ g.reg Startup.gp = 0xc0000890 ∧
      g.reg Startup.sp = 0xc0000100 ∧
      g.mem = Startup.runtimeMemory runtimeSymbols (hart c image).mem := by
  intro c image
  have hram : ∀ acc, Startup.RuntimeTouches runtimeSymbols acc →
      KeepsTo (0xc0000000 / 2 ^ (6 + 2)) (textOf (Startup.crt0Runtime 0xc0000000 runtimeSymbols))
        acc
    | .load _ adr, h => (soc_data (Startup.crt0Runtime 0xc0000000 runtimeSymbols)
        (Nat.le_trans (by decide) h.1)
        (Nat.lt_of_lt_of_le (Nat.lt_add_of_pos_right (by decide)) (h.2.trans (by decide)))).1
    | .store _ adr _, .inl h => soc_data _ (Nat.le_trans (by decide) h.1)
        (Nat.lt_of_lt_of_le (Nat.lt_add_of_pos_right (by decide)) (h.2.trans (by decide)))
    | .store _ adr _, .inr h => soc_data _ (Nat.le_trans (by decide) h.1)
        (Nat.lt_of_lt_of_le (Nat.lt_add_of_pos_right (by decide)) (h.2.trans (by decide)))
  have hplaced := placed_imageOf (a := 6) (Startup.crt0Runtime c.resetAddress runtimeSymbols)
    (by decide) c.resetAddress (by decide) (by decide)
  have hsource : Hart.Disjoint 0xc00000a0 0xc0000090 8 := by
    unfold Hart.Disjoint
    decide
  exact crt0Runtime_boots c rfl (by decide) (by decide) soc 0 rfl _ soc_window (textOf _) image
    (decodes_imageOf _ _) runtimeSymbols hplaced
    ⟨⟨by decide, by decide, by decide⟩, ⟨by decide, by decide, by decide⟩, by decide, by decide,
      fun _ => hsource⟩ hram (by decide) _ (by rw [List.length_replicate]; decide)

end ExtendedCore
end BonfireCore
