import Mathlib.Logic.Relation
import WinMaliKmd.FirmwareImage

/-!
# What a section of the image is copied into

The writes of `WinMaliFwLoadSectionEntry_` into the block that it has allocated for a
section. The data of an entry and its range of addresses are checked one by one; the
parser never compares their lengths.
-/

set_option autoImplicit false

namespace WinMali.SectionCopy
open WinMali.EscapeBuffer WinMali.FirmwareImage

/-- Bytes that are written into the backing of a section, a block of `backingBytes`. -/
structure Write where
  index : ℕ
  backingBytes : ℕ
  offset : ℕ
  length : ℕ
deriving DecidableEq, Repr

def Write.Inside (w : Write) : Prop := w.offset + w.length ≤ w.backingBytes

instance (w : Write) : Decidable w.Inside := inferInstanceAs (Decidable (_ ≤ _))

variable (img : Image) (alloc : ℕ → Option (BitVec 64))

/-- `RtlZeroMemory` and `RtlCopyMemory`, when section `i` gets its block. -/
def backingWrites (i : ℕ) (hdr : SectionEntryHdr) : List Write :=
  let secBytes := hdr.vaEnd.toNat - hdr.vaStart.toNat
  if secBytes > 0 then
    match alloc i with
    | none => []
    | some _ =>
      ⟨i, secBytes, 0, secBytes⟩ ::
        if hdr.dataEnd > hdr.dataStart then
          [⟨i, secBytes, 0, hdr.dataEnd.toNat - hdr.dataStart.toNat⟩]
        else []
  else []

/-- The header with which `LoadSectionEntry_` comes to the allocation, past all its checks. -/
def checkedHdr (fw : FwCtx) (sub : Iter) : Option SectionEntryHdr :=
  match iterRead sub sectionEntryHdrBytes with
  | none => none
  | some (o, sub) =>
    let hdr := img.sectionEntryHdr o
    let nameLen := sub.size - sub.offset
    if hdr.dataEnd < hdr.dataStart ∨ hdr.vaEnd < hdr.vaStart then none
    else if hdr.dataEnd.toNat > img.size then none
    else if hdr.vaStart &&& 0xfff ≠ 0 ∨ hdr.vaEnd &&& 0xfff ≠ 0 then none
    else if hdr.flags &&& ~~~ifaceEntryRdSupportedFlags ≠ 0 then none
    else if hdr.flags &&& ifaceEntryRdProt ≠ 0 then none
    else if hdr.vaStart = mcuSharedRegionStart ∧ hdr.flags &&& ifaceEntryRdShared = 0 then none
    else if fw.sections.length ≥ fwMaxSections then none
    else if nameLen > 0 ∧ sizeT (sub.offset + nameLen) > sub.size then none
    else some hdr

def loadWrites (fw : FwCtx) (sub : Iter) : List Write :=
  match checkedHdr img fw sub with
  | none => []
  | some hdr => backingWrites alloc fw.sections.length hdr

def turnWrites (it : Iter) (fw : FwCtx) : List Write :=
  match iterRead it 4 with
  | none => []
  | some (o, it) =>
    let ehdr := img.u32 o
    if entrySize ehdr < 4 ∨ entrySize ehdr % 4 ≠ 0 then []
    else if entryType ehdr = entryTypeIface then
      match iterSubInit it (entrySize ehdr - 4) with
      | none => []
      | some (sub, _) => loadWrites img alloc (fw.read o 4) sub
    else []

def parseWrites (it : Iter) (fw : FwCtx) : List Write :=
  if _more : it.offset < it.size then
    turnWrites img alloc it fw ++
      match _turn : parseEntry img alloc it fw with
      | (.success, it', fw') => parseWrites it' fw'
      | _ => []
  else []
termination_by it.size - it.offset
decreasing_by
  obtain ⟨rfl, hmin, hle⟩ := parseEntry_moves img alloc _turn
  change it.size - (it.offset + entrySize (img.u32 (it.data + it.offset))) < it.size - it.offset
  omega

def imageWrites : List Write :=
  match iterRead ⟨0, img.size, 0⟩ binaryHdrBytes with
  | none => []
  | some (o, it) =>
    let hdr := img.binaryHdr o
    if hdr.magic ≠ headerMagic then []
    else if hdr.major ≠ headerMajorMax then []
    else if hdr.size.toNat > it.size ∨ hdr.size.toNat < binaryHdrBytes then []
    else
      parseWrites img alloc { it with size := hdr.size.toNat } ((⟨[], none, []⟩ : FwCtx).read o
        binaryHdrBytes)

def CopiesInside : Prop :=
  (∀ w ∈ imageWrites img alloc, w.Inside) ∧ ReadsInside img (parseImage img alloc).2

/-- The entry at `o` has a place between `o` and the end. -/
structure Framed (o : ℕ) : Prop where
  min : 4 ≤ entrySize (img.u32 o)
  words : entrySize (img.u32 o) % 4 = 0
  fits : o + entrySize (img.u32 o) ≤ (img.binaryHdr 0).size.toNat

structure Passes (i o : ℕ) : Prop where
  framed : Framed img o
  good : GoodEntry img o
  room : IsSection img o → i < fwMaxSections ∧ (0 < secBytes img o → (alloc i).isSome)

structure Loaded (i o : ℕ) : Prop where
  framed : Framed img o
  good : GoodIface img o
  isSection : IsSection img o
  room : i < fwMaxSections
  bytes : 0 < secBytes img o
  backing : (alloc i).isSome

/-- From one entry to the next one, each with the number of sections before it. -/
def Next (a b : ℕ × ℕ) : Prop :=
  a.1 < (img.binaryHdr 0).size.toNat ∧ Passes img alloc a.2 a.1 ∧
    b = (a.1 + entrySize (img.u32 a.1), if IsSection img a.1 then a.2 + 1 else a.2)

def Reached (o i : ℕ) : Prop :=
  Relation.ReflTransGen (Next img alloc) (binaryHdrBytes, 0) (o, i) ∧
    o < (img.binaryHdr 0).size.toNat

def DataFits (o : ℕ) : Prop :=
  (payload img o).dataEnd.toNat - (payload img o).dataStart.toNat ≤ secBytes img o

section Entries

variable {img} {alloc} {fw fw' : FwCtx} {sub : Iter} {i o : ℕ}

/-- With its checks taken together, the loader is at the allocation past them, and with one status
and no section more before. -/
theorem loadSectionEntry_eq (img : Image) (fw : FwCtx) {it : Iter}
    (hread : iterRead sub sectionEntryHdrBytes = some (o, it)) :
    ∃ st, ∀ alloc, loadSectionEntry img alloc fw sub =
      match checkedHdr img fw sub with
      | none => (st, fw.read o sectionEntryHdrBytes)
      | some hdr => addSection alloc (fw.read o sectionEntryHdrBytes) hdr := by
  refine ⟨(loadSectionEntry img (fun _ => none) fw sub).1, fun alloc => ?_⟩
  have hroom : (fw.read o sectionEntryHdrBytes).sections.length = fw.sections.length := rfl
  unfold loadSectionEntry checkedHdr
  rw [hread]
  dsimp only
  rw [hroom]
  -- the two have the same checks, one after the other
  repeat
    split
    · rfl
  rfl

theorem checkedHdr_hdr {it : Iter} {hdr : SectionEntryHdr}
    (hread : iterRead sub sectionEntryHdrBytes = some (o, it))
    (h : checkedHdr img fw sub = some hdr) : hdr = img.sectionEntryHdr o := by
  unfold checkedHdr at h
  rw [hread] at h
  simp only [Option.ite_none_left_eq_some, Option.some.injEq] at h
  exact h.2.2.2.2.2.2.2.2.symm

/-- Past its checks the loader is at the allocation. -/
theorem checkedHdr_some {hdr : SectionEntryHdr} (h : checkedHdr img fw sub = some hdr) :
    hdr = img.sectionEntryHdr (sub.data + sub.offset) ∧ ∃ o, ∀ alloc,
      loadSectionEntry img alloc fw sub =
        addSection alloc (fw.read o sectionEntryHdrBytes) hdr := by
  cases hread : iterRead sub sectionEntryHdrBytes with
  | none => simp [checkedHdr, hread] at h
  | some p =>
    obtain ⟨o, it⟩ := p
    obtain ⟨rfl, -, -⟩ := iterRead_some (by decide) hread
    obtain ⟨st, hload⟩ := loadSectionEntry_eq img fw hread
    exact ⟨checkedHdr_hdr hread h, _, fun alloc => by rw [hload, h]⟩

theorem checkedHdr_none (h : checkedHdr img fw sub = none)
    (alloc alloc' : ℕ → Option (BitVec 64)) :
    loadSectionEntry img alloc fw sub = loadSectionEntry img alloc' fw sub ∧
      (loadSectionEntry img alloc fw sub).2.sections = fw.sections := by
  cases hread : iterRead sub sectionEntryHdrBytes with
  | none => simp [loadSectionEntry, hread]
  | some p =>
    obtain ⟨st, hload⟩ := loadSectionEntry_eq img fw hread
    rw [hload, hload, h]
    exact ⟨rfl, rfl⟩

theorem addSection_success {hdr : SectionEntryHdr} : (addSection alloc fw hdr).1 = .success ↔
    (0 < hdr.vaEnd.toNat - hdr.vaStart.toNat → (alloc fw.sections.length).isSome) := by
  unfold addSection
  dsimp only
  split
  · rename_i hbytes
    cases alloc fw.sections.length <;> simp [hbytes]
  · rename_i hbytes
    simp [hbytes]

theorem addSection_length {hdr : SectionEntryHdr} (h : (addSection alloc fw hdr).1 = .success) :
    (addSection alloc fw hdr).2.sections.length = fw.sections.length + 1 := by
  unfold addSection at h ⊢
  dsimp only at h ⊢
  split
  · rename_i hbytes
    rw [if_pos hbytes] at h
    cases halloc : alloc fw.sections.length with
    | none => simp [halloc] at h
    | some pa => simp
  · simp

/-- The loader gets to the allocation for the good entries that are not protected. -/
theorem checkedHdr_iff (hiface : Iface img o) (fw : FwCtx) (hdr : SectionEntryHdr) :
    checkedHdr img fw ⟨o + 4, entrySize (img.u32 o) - 4, 0⟩ = some hdr ↔
      hdr = payload img o ∧ GoodIface img o ∧ ¬Prot img o ∧
        fw.sections.length < fwMaxSections := by
  have hgood := @loadSectionEntry_success img (fun _ => 0) fw o
  constructor
  · intro h
    obtain ⟨rfl, o', hload⟩ := checkedHdr_some h
    have hok : (loadSectionEntry img (fun _ => some 0) fw
        ⟨o + 4, entrySize (img.u32 o) - 4, 0⟩).1 = .success := by
      rw [hload]
      exact addSection_success.mpr fun _ => rfl
    obtain ⟨hgood, hroom⟩ := hgood.mp hok
    have hsec : IsSection img o := by
      have henters := @loadSectionEntry_enters img (fun _ => 0) _ _ _ _ hiface (Prod.ext hok rfl)
      rw [hload] at hok
      by_contra hno
      have hlen := addSection_length hok
      rw [← hload, henters.sections, if_neg hno] at hlen
      exact absurd hlen (Nat.ne_of_lt (Nat.lt_succ_self _))
    exact ⟨rfl, hgood, hsec.2, hroom hsec.2⟩
  · rintro ⟨rfl, hentry, hprot, hroom⟩
    have hok := hgood.mpr ⟨hentry, fun _ => hroom⟩
    cases hhdr : checkedHdr img fw ⟨o + 4, entrySize (img.u32 o) - 4, 0⟩ with
    | none =>
      have henters := @loadSectionEntry_enters img (fun _ => 0) _ _ _ _ hiface (Prod.ext hok rfl)
      have hsame := (checkedHdr_none hhdr (fun _ => some 0) fun _ => some 0).2
      rw [henters.sections, if_pos ⟨hiface, hprot⟩] at hsame
      simp at hsame
    | some hdr =>
      obtain ⟨rfl, -⟩ := checkedHdr_some hhdr
      rfl

theorem load_success (hiface : Iface img o) (fw : FwCtx) :
    (loadSectionEntry img alloc fw ⟨o + 4, entrySize (img.u32 o) - 4, 0⟩).1 = .success ↔
      GoodIface img o ∧ (¬Prot img o → fw.sections.length < fwMaxSections ∧
        (0 < secBytes img o → (alloc fw.sections.length).isSome)) := by
  cases hhdr : checkedHdr img fw ⟨o + 4, entrySize (img.u32 o) - 4, 0⟩ with
  | none =>
    have hno : ¬(GoodIface img o ∧ ¬Prot img o ∧ fw.sections.length < fwMaxSections) := by
      intro h
      rw [(checkedHdr_iff hiface fw _).mpr ⟨rfl, h⟩] at hhdr
      cases hhdr
    rw [(checkedHdr_none hhdr alloc fun _ => some 0).1, loadSectionEntry_success fw o]
    refine and_congr_right fun hgood => ?_
    constructor
    · exact fun h hprot => absurd ⟨hgood, hprot, h hprot⟩ hno
    · exact fun h hprot => (h hprot).1
  | some hdr =>
    obtain ⟨rfl, hgood, hprot, hroom⟩ := (checkedHdr_iff hiface fw hdr).mp hhdr
    obtain ⟨-, o', hload⟩ := checkedHdr_some hhdr
    rw [hload, addSection_success, and_iff_right hgood, imp_iff_right hprot, and_iff_right hroom]
    rfl

theorem load_length (hiface : Iface img o)
    (h : (loadSectionEntry img alloc fw ⟨o + 4, entrySize (img.u32 o) - 4, 0⟩).1 = .success) :
    (loadSectionEntry img alloc fw ⟨o + 4, entrySize (img.u32 o) - 4, 0⟩).2.sections.length =
      if IsSection img o then fw.sections.length + 1 else fw.sections.length := by
  have hok := (load_success hiface fw).mp h
  cases hhdr : checkedHdr img fw ⟨o + 4, entrySize (img.u32 o) - 4, 0⟩ with
  | none =>
    have hno : ¬IsSection img o := fun hsec => by
      rw [(checkedHdr_iff hiface fw _).mpr ⟨rfl, hok.1, hsec.2, (hok.2 hsec.2).1⟩] at hhdr
      cases hhdr
    rw [(checkedHdr_none hhdr alloc alloc).2, if_neg hno]
  | some hdr =>
    obtain ⟨-, -, hprot, -⟩ := (checkedHdr_iff hiface fw hdr).mp hhdr
    obtain ⟨-, o', hload⟩ := checkedHdr_some hhdr
    rw [hload] at h ⊢
    rw [addSection_length h, if_pos ⟨hiface, hprot⟩]
    rfl

end Entries

section Turns

variable {img} {alloc} {fw : FwCtx} {o size : ℕ}

theorem turn_iface (hsize : size < 2 ^ 64) (hiface : Iface img o)
    (hmin : 4 ≤ entrySize (img.u32 o)) (hwords : entrySize (img.u32 o) % 4 = 0)
    (hfits : o + entrySize (img.u32 o) ≤ size) :
    ((parseEntry img alloc ⟨0, size, o⟩ fw).1 =
        (loadSectionEntry img alloc (fw.read o 4) ⟨o + 4, entrySize (img.u32 o) - 4, 0⟩).1 ∧
      (parseEntry img alloc ⟨0, size, o⟩ fw).2.2 =
        (loadSectionEntry img alloc (fw.read o 4) ⟨o + 4, entrySize (img.u32 o) - 4, 0⟩).2) ∧
    turnWrites img alloc ⟨0, size, o⟩ fw =
      loadWrites img alloc (fw.read o 4) ⟨o + 4, entrySize (img.u32 o) - 4, 0⟩ := by
  have hread : iterRead ⟨0, size, o⟩ 4 = some (o, ⟨0, size, o + 4⟩) := by
    rw [iterRead_fits hsize (by change o + 4 ≤ size; omega)]
    simp
  have hsub : iterSubInit ⟨0, size, o + 4⟩ (entrySize (img.u32 o) - 4) =
      some (⟨o + 4, entrySize (img.u32 o) - 4, 0⟩,
        ⟨0, size, o + 4 + (entrySize (img.u32 o) - 4)⟩) := by
    rw [iterSubInit_fits hsize (by change o + 4 + _ ≤ size; omega)]
    simp
  have hbad : ¬(entrySize (img.u32 o) < 4 ∨ entrySize (img.u32 o) % 4 ≠ 0) := by omega
  have htype : entryType (img.u32 o) = entryTypeIface := hiface
  unfold parseEntry turnWrites
  rw [hread]
  dsimp only
  rw [if_neg hbad, if_neg hbad, if_pos htype, if_pos htype, hsub]
  exact ⟨⟨rfl, rfl⟩, rfl⟩

theorem turn_unframed
    (h : ¬(4 ≤ entrySize (img.u32 o) ∧ entrySize (img.u32 o) % 4 = 0 ∧
      o + entrySize (img.u32 o) ≤ size)) :
    (parseEntry img alloc ⟨0, size, o⟩ fw).1 ≠ .success ∧
      turnWrites img alloc ⟨0, size, o⟩ fw = [] := by
  have hlt := entrySize_lt (img.u32 o)
  unfold parseEntry turnWrites
  cases hread : iterRead ⟨0, size, o⟩ 4 with
  | none => exact ⟨nofun, rfl⟩
  | some p =>
    obtain ⟨o', it⟩ := p
    obtain ⟨rfl, rfl, -⟩ := iterRead_some (by decide) hread
    dsimp only
    rw [Nat.zero_add]
    by_cases hbad : entrySize (img.u32 o) < 4 ∨ entrySize (img.u32 o) % 4 ≠ 0
    · rw [if_pos hbad, if_pos hbad]
      exact ⟨nofun, rfl⟩
    rw [if_neg hbad, if_neg hbad]
    by_cases hiface : entryType (img.u32 o) = entryTypeIface
    · have hsub : iterSubInit ⟨0, size, o + 4⟩ (entrySize (img.u32 o) - 4) = none :=
        iterSubInit_over (by omega) (by change size < o + 4 + _; omega)
      rw [if_pos hiface, if_pos hiface, hsub]
      exact ⟨nofun, rfl⟩
    · rw [if_neg hiface, if_neg hiface, if_pos (by omega)]
      exact ⟨nofun, rfl⟩

theorem turn_other (hother : ¬Iface img o) :
    turnWrites img alloc ⟨0, size, o⟩ fw = [] ∧
      (∀ alloc', (parseEntry img alloc ⟨0, size, o⟩ fw).1 =
        (parseEntry img alloc' ⟨0, size, o⟩ fw).1) ∧
      (parseEntry img alloc ⟨0, size, o⟩ fw).2.2.sections = fw.sections := by
  unfold parseEntry turnWrites
  cases hread : iterRead ⟨0, size, o⟩ 4 with
  | none => exact ⟨rfl, fun _ => rfl, rfl⟩
  | some p =>
    obtain ⟨o', it⟩ := p
    obtain ⟨rfl, rfl, -⟩ := iterRead_some (by decide) hread
    have htype : ¬entryType (img.u32 (0 + o)) = entryTypeIface := by rwa [Nat.zero_add]
    dsimp only
    rw [if_neg htype]
    simp only [if_neg htype]
    split
    · exact ⟨rfl, fun _ => trivial, rfl⟩
    · refine ⟨rfl, fun _ => trivial, ?_⟩
      split
      · rfl
      split <;> rfl

theorem turn_success (hsize : size = (img.binaryHdr 0).size.toNat) (fw : FwCtx) :
    (parseEntry img alloc ⟨0, size, o⟩ fw).1 = .success ↔
      Passes img alloc fw.sections.length o := by
  have hlt : size < 2 ^ 64 := by
    have := (img.binaryHdr 0).size.isLt
    omega
  by_cases hframed : 4 ≤ entrySize (img.u32 o) ∧ entrySize (img.u32 o) % 4 = 0 ∧
      o + entrySize (img.u32 o) ≤ size
  · have hframe : Framed img o := ⟨hframed.1, hframed.2.1, hsize ▸ hframed.2.2⟩
    by_cases hiface : Iface img o
    · have hgood : GoodEntry img o ↔ GoodIface img o :=
        ⟨fun h => h.iface hiface, fun h => ⟨fun _ => h, fun hno => absurd hiface hno⟩⟩
      have hsec : IsSection img o ↔ ¬Prot img o := and_iff_right hiface
      rw [(turn_iface hlt hiface hframed.1 hframed.2.1 hframed.2.2).1.1, load_success hiface,
        ← hgood, ← hsec]
      exact ⟨fun h => ⟨hframe, h.1, h.2⟩, fun h => ⟨h.good, h.room⟩⟩
    · have hno : ¬IsSection img o := fun h => hiface h.1
      have hsuccess := @parseEntry_success img (fun _ => 0) ⟨0, size, o⟩ hlt rfl fw
      rw [(turn_other hiface).2.1, hsuccess]
      exact ⟨fun h => ⟨hframe, h.2.1, fun hs => absurd hs hno⟩,
        fun h => ⟨hframed, h.good, fun hs => absurd hs hno⟩⟩
  · refine iff_of_false (turn_unframed hframed).1 fun h => hframed ?_
    exact ⟨h.framed.min, h.framed.words, hsize ▸ h.framed.fits⟩

theorem turn_length (hsize : size = (img.binaryHdr 0).size.toNat)
    (h : (parseEntry img alloc ⟨0, size, o⟩ fw).1 = .success) :
    (parseEntry img alloc ⟨0, size, o⟩ fw).2.2.sections.length =
      if IsSection img o then fw.sections.length + 1 else fw.sections.length := by
  have hlt : size < 2 ^ 64 := by
    have := (img.binaryHdr 0).size.isLt
    omega
  obtain ⟨⟨hmin, hwords, hfits⟩, -, -⟩ := (turn_success hsize fw).mp h
  by_cases hiface : Iface img o
  · obtain ⟨hst, hfw⟩ : (parseEntry img alloc ⟨0, size, o⟩ fw).1 = _ ∧
        (parseEntry img alloc ⟨0, size, o⟩ fw).2.2 = _ :=
      (turn_iface hlt hiface hmin hwords (hsize ▸ hfits)).1
    rw [hst] at h
    rw [hfw, load_length hiface h]
    rfl
  · rw [(turn_other hiface).2.2, if_neg fun hs => hiface hs.1]

theorem mem_turnWrites (hsize : size = (img.binaryHdr 0).size.toNat) (fw : FwCtx) (w : Write) :
    w ∈ turnWrites img alloc ⟨0, size, o⟩ fw ↔
      Loaded img alloc fw.sections.length o ∧
        w ∈ backingWrites alloc fw.sections.length (payload img o) := by
  have hlt : size < 2 ^ 64 := by
    have := (img.binaryHdr 0).size.isLt
    omega
  -- a block is written to only if there is one
  have hblock : w ∈ backingWrites alloc fw.sections.length (payload img o) →
      0 < secBytes img o ∧ (alloc fw.sections.length).isSome := by
    intro hw
    unfold backingWrites at hw
    dsimp only at hw
    split at hw
    · rename_i hbytes
      refine ⟨hbytes, ?_⟩
      cases halloc : alloc fw.sections.length with
      | none => simp [halloc] at hw
      | some pa => rfl
    · cases hw
  by_cases hframed : 4 ≤ entrySize (img.u32 o) ∧ entrySize (img.u32 o) % 4 = 0 ∧
      o + entrySize (img.u32 o) ≤ size
  · by_cases hiface : Iface img o
    · rw [(turn_iface hlt hiface hframed.1 hframed.2.1 hframed.2.2).2, loadWrites]
      cases hhdr : checkedHdr img (fw.read o 4) ⟨o + 4, entrySize (img.u32 o) - 4, 0⟩ with
      | none =>
        refine iff_of_false nofun fun h => ?_
        have hsome := (checkedHdr_iff hiface (fw.read o 4) _).mpr
          ⟨rfl, h.1.good, h.1.isSection.2, h.1.room⟩
        rw [hhdr] at hsome
        cases hsome
      | some hdr =>
        obtain ⟨rfl, hgood, hprot, hroom⟩ := (checkedHdr_iff hiface _ hdr).mp hhdr
        refine ⟨fun hw => ⟨?_, hw⟩, fun h => h.2⟩
        obtain ⟨hbytes, hsome⟩ := hblock hw
        have hframe : Framed img o := ⟨hframed.1, hframed.2.1, hsize ▸ hframed.2.2⟩
        exact ⟨hframe, hgood, ⟨hiface, hprot⟩, hroom, hbytes, hsome⟩
    · rw [(turn_other hiface).1]
      exact iff_of_false nofun fun h => hiface h.1.isSection.1
  · rw [(turn_unframed hframed).2]
    refine iff_of_false nofun fun h => hframed ?_
    exact ⟨h.1.framed.min, h.1.framed.words, hsize ▸ h.1.framed.fits⟩

theorem backing_inside (h : Loaded img alloc fw.sections.length o) :
    (∀ w ∈ backingWrites alloc fw.sections.length (payload img o), w.Inside) ↔
      DataFits img o := by
  obtain ⟨pa, hpa⟩ := Option.isSome_iff_exists.mp h.backing
  have hbytes := h.bytes
  unfold backingWrites DataFits
  dsimp only
  rw [if_pos (show (payload img o).vaEnd.toNat - (payload img o).vaStart.toNat > 0 from hbytes),
    hpa]
  dsimp only
  split
  · simp [Write.Inside, secBytes]
  · rename_i hcopy
    have hdata : ¬(payload img o).dataStart.toNat < (payload img o).dataEnd.toNat := hcopy
    refine iff_of_true ?_ (by omega)
    simp [Write.Inside]

theorem forall_reached {r : ℕ × ℕ → ℕ × ℕ → Prop} {a : ℕ × ℕ} {P : ℕ × ℕ → Prop} :
    (∀ c, Relation.ReflTransGen r a c → P c) ↔
      P a ∧ ∀ b, r a b → ∀ c, Relation.ReflTransGen r b c → P c := by
  constructor
  · exact fun h => ⟨h a .refl, fun b hab c hbc => h c (.head hab hbc)⟩
  · rintro ⟨ha, hnext⟩ c hac
    rcases Relation.ReflTransGen.cases_head_iff.mp hac with rfl | ⟨b, hab, hbc⟩
    · exact ha
    · exact hnext b hab c hbc

theorem parseWrites_step {it : Iter} (h : it.offset < it.size) :
    parseWrites img alloc it fw = turnWrites img alloc it fw ++
      if (parseEntry img alloc it fw).1 = .success then
        parseWrites img alloc (parseEntry img alloc it fw).2.1 (parseEntry img alloc it fw).2.2
      else [] := by
  rw [parseWrites, dif_pos h]
  rcases hturn : parseEntry img alloc it fw with ⟨st, it', fw'⟩
  cases st <;> simp

/-- The loop keeps to the backings exactly when the data of every entry that it comes to and loads
is not longer than its range. -/
theorem parseWrites_inside (hsize : size = (img.binaryHdr 0).size.toNat) (o : ℕ) (fw : FwCtx) :
    (∀ w ∈ parseWrites img alloc ⟨0, size, o⟩ fw, w.Inside) ↔
      ∀ c, Relation.ReflTransGen (Next img alloc) (o, fw.sections.length) c → c.1 < size →
        Loaded img alloc c.2 c.1 → DataFits img c.1 := by
  induction hn : size - o using Nat.strong_induction_on generalizing o fw with
  | _ n ih =>
    rw [forall_reached]
    by_cases hmore : o < size
    · have hturn : (∀ w ∈ turnWrites img alloc ⟨0, size, o⟩ fw, w.Inside) ↔
          (Loaded img alloc fw.sections.length o → DataFits img o) := by
        by_cases hloaded : Loaded img alloc fw.sections.length o
        · simp only [mem_turnWrites hsize, and_iff_right hloaded, imp_iff_right hloaded]
          exact backing_inside hloaded
        · simp [mem_turnWrites hsize, hloaded]
      have hstep : parseWrites img alloc ⟨0, size, o⟩ fw = _ ++ _ := parseWrites_step hmore
      rw [hstep]
      simp only [List.mem_append, or_imp, forall_and, hturn, imp_iff_right hmore]
      refine and_congr_right fun _ => ?_
      have hpass : (parseEntry img alloc ⟨0, size, o⟩ fw).1 = .success ↔ _ :=
        turn_success hsize fw
      split
      · rename_i hok
        have hentry := hpass.mp hok
        have hmin := hentry.framed.min
        have hfits := hentry.framed.fits
        have hit := (parseEntry_moves img alloc (Prod.ext hok rfl)).1
        rw [show (⟨0, size, o⟩ : Iter).data + (⟨0, size, o⟩ : Iter).offset = o from
          Nat.zero_add o] at hit
        rw [hit, ih (size - (o + entrySize (img.u32 o))) (by omega) _ _ rfl,
          turn_length hsize hok]
        constructor
        · rintro h b ⟨-, -, rfl⟩ c hc
          exact h c hc
        · intro h c hc
          exact h _ ⟨hsize ▸ hmore, hentry, rfl⟩ c hc
      · rename_i hfail
        refine iff_of_true nofun fun b hab => absurd (hpass.mpr hab.2.1) hfail
    · have hnone : parseWrites img alloc ⟨0, size, o⟩ fw = [] := by
        rw [parseWrites, dif_neg (show ¬(⟨0, size, o⟩ : Iter).offset < size from hmore)]
      rw [hnone]
      refine iff_of_true nofun ⟨fun hlt => absurd hlt hmore, fun b hab => ?_⟩
      exact absurd (hsize ▸ hab.1) hmore

end Turns

theorem imageWrites_cases (img : Image) (alloc : ℕ → Option (BitVec 64)) :
    (GoodHeader img ∧ imageWrites img alloc =
      parseWrites img alloc ⟨0, (img.binaryHdr 0).size.toNat, binaryHdrBytes⟩ headerRead) ∨
    (¬GoodHeader img ∧ imageWrites img alloc = []) := by
  unfold imageWrites
  by_cases hheader : binaryHdrBytes ≤ img.size
  · rw [binaryHdr_read hheader]
    dsimp only
    split
    · rename_i hmagic
      exact .inr ⟨fun h => hmagic h.magic, rfl⟩
    rename_i hmagic
    split
    · rename_i hmajor
      exact .inr ⟨fun h => hmajor h.major, rfl⟩
    rename_i hmajor
    split
    · rename_i hsize
      refine .inr ⟨fun h => ?_, rfl⟩
      have := h.size
      omega
    · rename_i hsize
      exact .inl ⟨⟨hheader, not_not.mp hmagic, not_not.mp hmajor, by omega⟩, rfl⟩
  · refine .inr ⟨fun h => hheader h.header, ?_⟩
    cases hread : iterRead ⟨0, img.size, 0⟩ binaryHdrBytes with
    | none => rfl
    | some p =>
      obtain ⟨o, it⟩ := p
      have hle := (iterRead_some (by decide) hread).2.2
      rw [Nat.zero_add] at hle
      exact absurd hle hheader

/-- A copy never leaves its backing exactly when no section that the parser loads has more data
than addresses. What is read is in the image in any case. -/
theorem copies_inside_iff (img : Image) (alloc : ℕ → Option (BitVec 64)) :
    CopiesInside img alloc ↔
      (GoodHeader img → ∀ o i, Reached img alloc o i → Loaded img alloc i o → DataFits img o) := by
  have hreads : ReadsInside img (parseImage img alloc).2 := by
    rcases @parseImage_cases img alloc with ⟨hheader, heq⟩ | ⟨-, -, hin⟩
    · rw [heq]
      exact parseBody_inside hheader
    · exact hin
  refine (and_iff_left hreads).trans ?_
  rcases imageWrites_cases img alloc with ⟨hheader, heq⟩ | ⟨hno, heq⟩
  · rw [heq, parseWrites_inside rfl, imp_iff_right hheader]
    constructor
    · exact fun h o i hreached => h (o, i) hreached.1 hreached.2
    · exact fun h c hc hlt => h c.1 c.2 ⟨hc, hlt⟩
  · rw [heq]
    exact iff_of_true nofun fun h => absurd h hno

/-- The one entry is for the shared section, with a page of addresses and all of a two-page
file as its data. -/
def twoPages : Image where
  size := 8192
  byte := fun o => if o = 41 then 0x20 else sharedOnly.byte o
  size_lt := by decide

theorem data_overruns_backing :
    ¬CopiesInside twoPages (fun _ => some 0x1000) ∧
      (parseImage twoPages fun _ => some 0x1000).1 = .success ∧
      imageWrites twoPages (fun _ => some 0x1000) = [⟨0, 4096, 0, 4096⟩, ⟨0, 4096, 0, 8192⟩] := by
  have hwrites : imageWrites twoPages (fun _ => some 0x1000) =
      [⟨0, 4096, 0, 4096⟩, ⟨0, 4096, 0, 8192⟩] := by decide +kernel
  refine ⟨fun h => ?_, by decide +kernel, hwrites⟩
  have hcopy := h.1 ⟨0, 4096, 0, 8192⟩ (by rw [hwrites]; simp)
  revert hcopy
  decide

end WinMali.SectionCopy
