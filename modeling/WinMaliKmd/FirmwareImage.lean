import WinMaliKmd.EscapeBuffer

/-!
# The firmware image

`WinMaliFwParseImage_` walks over the entries of an image that comes from a file. An
entry is a header word with a type and a size, and its payload; the entries of one type
describe the sections that the firmware runs from.
-/

set_option autoImplicit false

namespace WinMali.FirmwareImage
open WinMali.EscapeBuffer

abbrev Ulong := BitVec 32

/-- `byte o` is what is found at offset `o`, past the end of the image too. -/
structure Image where
  size : ℕ
  byte : ℕ → BitVec 8
  size_lt : size < 2 ^ 64

inductive ImageStatus
  | success
  | invalidParameter
  | invalidImageFormat
  | insufficientResources
deriving DecidableEq, Repr

def headerMagic : Ulong := 0xc3f13a6e

def headerMajorMax : BitVec 8 := 0

def entryTypeIface : Ulong := 0

def entryOptional : Ulong := (1 : Ulong) <<< 31

def ifaceEntryRdShared : Ulong := (1 : Ulong) <<< 30

def ifaceEntryRdProt : Ulong := (1 : Ulong) <<< 5

def ifaceEntryRdSupportedFlags : Ulong := 0xC000003F

def mcuSharedRegionStart : Ulong := 0x04000000

def fwMaxSections : ℕ := 24

def binaryHdrBytes : ℕ := 20

def sectionEntryHdrBytes : ℕ := 20

/-- `SIZE_T` arithmetic. -/
def sizeT (n : ℕ) : ℕ := n % 2 ^ 64

def Image.u32 (img : Image) (o : ℕ) : Ulong :=
  img.byte (o + 3) ++ img.byte (o + 2) ++ img.byte (o + 1) ++ img.byte o

structure BinaryHdr where
  magic : Ulong
  major : BitVec 8
  size : Ulong

def Image.binaryHdr (img : Image) (o : ℕ) : BinaryHdr where
  magic := img.u32 o
  major := img.byte (o + 5)
  size := img.u32 (o + 16)

structure SectionEntryHdr where
  flags : Ulong
  vaStart : Ulong
  vaEnd : Ulong
  dataStart : Ulong
  dataEnd : Ulong

def Image.sectionEntryHdr (img : Image) (o : ℕ) : SectionEntryHdr where
  flags := img.u32 o
  vaStart := img.u32 (o + 4)
  vaEnd := img.u32 (o + 8)
  dataStart := img.u32 (o + 12)
  dataEnd := img.u32 (o + 16)

def entryType (ehdr : Ulong) : Ulong := ehdr &&& 0xff

def entrySize (ehdr : Ulong) : ℕ := ((ehdr >>> 8) &&& 0xff).toNat

/-- `data` is where the iterator's first byte is in the image. -/
structure Iter where
  data : ℕ
  size : ℕ
  offset : ℕ

/-- `backingPa` is `none` when nothing was allocated. -/
structure FwSection where
  flags : Ulong
  vaStart : Ulong
  vaEnd : Ulong
  backingPa : Option (BitVec 64)
  backingBytes : ℕ
deriving DecidableEq, Repr

/-- `SectionCount` is the length of `sections`, `sharedIndex` is `none` for `0xFFFFFFFF`, and
`reads` lists the accesses to the image, the latest first. -/
structure FwCtx where
  sections : List FwSection
  sharedIndex : Option ℕ
  reads : List Access

def FwCtx.read (fw : FwCtx) (offset length : ℕ) : FwCtx :=
  { fw with reads := ⟨offset, length⟩ :: fw.reads }

/-- The place in the image that is read, and the iterator past it. -/
def iterRead (it : Iter) (len : ℕ) : Option (ℕ × Iter) :=
  let n := sizeT (it.offset + len)
  if n > it.size ∨ n < it.offset then none
  else some (it.data + it.offset, { it with offset := n })

/-- The iterator over the payload, and the parent past it. -/
def iterSubInit (parent : Iter) (payloadBytes : ℕ) : Option (Iter × Iter) :=
  let n := sizeT (parent.offset + payloadBytes)
  if n > parent.size ∨ n < parent.offset then none
  else some (⟨parent.data + parent.offset, payloadBytes, 0⟩, { parent with offset := n })

variable (img : Image) (alloc : ℕ → Option (BitVec 64))

/-- The allocation and the copy, once the header is found good. `alloc i` is the block for
section `i`. -/
def addSection (fw : FwCtx) (hdr : SectionEntryHdr) : ImageStatus × FwCtx :=
  let secBytes := hdr.vaEnd.toNat - hdr.vaStart.toNat
  let i := fw.sections.length
  let sharedIndex := if hdr.vaStart = mcuSharedRegionStart then some i else fw.sharedIndex
  if secBytes > 0 then
    match alloc i with
    | none => (.insufficientResources, fw)
    | some pa =>
      let reads :=
        if hdr.dataEnd > hdr.dataStart then
          ⟨hdr.dataStart.toNat, hdr.dataEnd.toNat - hdr.dataStart.toNat⟩ :: fw.reads
        else fw.reads
      (.success,
        ⟨fw.sections ++ [⟨hdr.flags, hdr.vaStart, hdr.vaEnd, some pa, secBytes⟩], sharedIndex,
          reads⟩)
  else
    (.success,
      ⟨fw.sections ++ [⟨hdr.flags, hdr.vaStart, hdr.vaEnd, none, 0⟩], sharedIndex, fw.reads⟩)

def loadSectionEntry (fw : FwCtx) (sub : Iter) : ImageStatus × FwCtx :=
  match iterRead sub sectionEntryHdrBytes with
  | none => (.invalidParameter, fw)
  | some (o, sub) =>
    let fw := fw.read o sectionEntryHdrBytes
    let hdr := img.sectionEntryHdr o
    if hdr.dataEnd < hdr.dataStart ∨ hdr.vaEnd < hdr.vaStart then (.invalidImageFormat, fw)
    else if hdr.dataEnd.toNat > img.size then (.invalidImageFormat, fw)
    else if hdr.vaStart &&& 0xfff ≠ 0 ∨ hdr.vaEnd &&& 0xfff ≠ 0 then (.invalidImageFormat, fw)
    else if hdr.flags &&& ~~~ifaceEntryRdSupportedFlags ≠ 0 then (.invalidImageFormat, fw)
    else if hdr.flags &&& ifaceEntryRdProt ≠ 0 then (.success, fw)
    else if hdr.vaStart = mcuSharedRegionStart ∧ hdr.flags &&& ifaceEntryRdShared = 0 then
      (.invalidImageFormat, fw)
    else
      let nameLen := sub.size - sub.offset
      if fw.sections.length ≥ fwMaxSections then (.insufficientResources, fw)
      else if nameLen > 0 ∧ sizeT (sub.offset + nameLen) > sub.size then (.invalidImageFormat, fw)
      else addSection alloc fw hdr

/-- One turn of the loop. -/
def parseEntry (it : Iter) (fw : FwCtx) : ImageStatus × Iter × FwCtx :=
  match iterRead it 4 with
  | none => (.invalidParameter, it, fw)
  | some (o, it) =>
    let fw := fw.read o 4
    let ehdr := img.u32 o
    if entrySize ehdr < 4 ∨ entrySize ehdr % 4 ≠ 0 then (.invalidImageFormat, it, fw)
    else if entryType ehdr = entryTypeIface then
      match iterSubInit it (entrySize ehdr - 4) with
      | none => (.invalidParameter, it, fw)
      | some (sub, it) =>
        let (status, fw) := loadSectionEntry img alloc fw sub
        (status, it, fw)
    else
      -- the size of the iterator is a `ULONG` by now, so this does not wrap around
      let skip := entrySize ehdr - 4
      if it.offset + skip > it.size then (.invalidImageFormat, it, fw)
      else if ehdr &&& entryOptional = 0 then (.invalidImageFormat, it, fw)
      else (.success, { it with offset := it.offset + skip }, fw)

/-- The check of a cursor that wraps around is right. -/
theorem sizeT_fits {offset len size : ℕ} (hlen : len < 2 ^ 64)
    (h : ¬(sizeT (offset + len) > size ∨ sizeT (offset + len) < offset)) :
    sizeT (offset + len) = offset + len ∧ offset + len ≤ size := by
  unfold sizeT at h ⊢
  omega

theorem iterRead_some {it it' : Iter} {len o : ℕ} (hlen : len < 2 ^ 64)
    (h : iterRead it len = some (o, it')) :
    o = it.data + it.offset ∧ it' = { it with offset := it.offset + len } ∧
      it.offset + len ≤ it.size := by
  unfold iterRead at h
  dsimp only at h
  split at h
  · cases h
  · rename_i hn
    obtain ⟨heq, hle⟩ := sizeT_fits hlen hn
    obtain ⟨rfl, rfl⟩ := Prod.mk.inj (Option.some.inj h)
    exact ⟨rfl, by rw [heq], hle⟩

theorem iterSubInit_some {parent sub it : Iter} {payloadBytes : ℕ} (hlen : payloadBytes < 2 ^ 64)
    (h : iterSubInit parent payloadBytes = some (sub, it)) :
    sub = ⟨parent.data + parent.offset, payloadBytes, 0⟩ ∧
      it = { parent with offset := parent.offset + payloadBytes } ∧
      parent.offset + payloadBytes ≤ parent.size := by
  unfold iterSubInit at h
  dsimp only at h
  split at h
  · cases h
  · rename_i hn
    obtain ⟨heq, hle⟩ := sizeT_fits hlen hn
    obtain ⟨rfl, rfl⟩ := Prod.mk.inj (Option.some.inj h)
    exact ⟨rfl, by rw [heq], hle⟩

theorem iterSubInit_over {parent : Iter} {payloadBytes : ℕ} (hlen : payloadBytes < 2 ^ 64)
    (h : parent.size < parent.offset + payloadBytes) : iterSubInit parent payloadBytes = none := by
  by_contra hne
  obtain ⟨⟨sub, it⟩, hsome⟩ := Option.ne_none_iff_exists'.mp hne
  exact Nat.not_le_of_lt h (iterSubInit_some hlen hsome).2.2

theorem entrySize_lt (ehdr : Ulong) : entrySize ehdr < 256 := by
  have h : (0xff : Ulong).toNat = 2 ^ 8 - 1 := by decide
  rw [entrySize, BitVec.toNat_and, h, Nat.and_two_pow_sub_one_eq_mod]
  omega

/-- A turn that succeeds moves the cursor past an entry. -/
theorem parseEntry_moves {it it' : Iter} {fw fw' : FwCtx}
    (h : parseEntry img alloc it fw = (.success, it', fw')) :
    it' = { it with offset := it.offset + entrySize (img.u32 (it.data + it.offset)) } ∧
      4 ≤ entrySize (img.u32 (it.data + it.offset)) ∧
      it.offset + entrySize (img.u32 (it.data + it.offset)) ≤ it.size := by
  unfold parseEntry at h
  cases hread : iterRead it 4 with
  | none => simp [hread] at h
  | some p =>
    obtain ⟨o, it₁⟩ := p
    obtain ⟨rfl, rfl, hle⟩ := iterRead_some (by decide) hread
    have hlt := entrySize_lt (img.u32 (it.data + it.offset))
    simp only [hread] at h
    split at h
    · cases h
    rename_i hsize
    split at h
    · cases hsub : iterSubInit { it with offset := it.offset + 4 }
          (entrySize (img.u32 (it.data + it.offset)) - 4) with
      | none => simp [hsub] at h
      | some q =>
        obtain ⟨sub, it₂⟩ := q
        obtain ⟨-, rfl, hfit⟩ := iterSubInit_some (by omega) hsub
        simp only [hsub] at h
        obtain ⟨-, h⟩ := Prod.mk.inj h
        obtain ⟨rfl, -⟩ := Prod.mk.inj h
        dsimp only at hfit ⊢
        refine ⟨?_, by omega, by omega⟩
        congr 1
        omega
    · split at h
      · cases h
      split at h
      · cases h
      · rename_i hfit _
        obtain ⟨-, h⟩ := Prod.mk.inj h
        obtain ⟨rfl, -⟩ := Prod.mk.inj h
        refine ⟨?_, by omega, by omega⟩
        congr 1
        omega

/-- `size` is both `it.Size` and `hdr.Size`. -/
def parseEntries (it : Iter) (fw : FwCtx) : ImageStatus × FwCtx :=
  if _more : it.offset < it.size then
    match _turn : parseEntry img alloc it fw with
    | (.success, it', fw') => parseEntries it' fw'
    | (status, _, fw') => (status, fw')
  else (.success, fw)
termination_by it.size - it.offset
decreasing_by
  obtain ⟨rfl, hmin, hle⟩ := parseEntry_moves img alloc _turn
  change it.size - (it.offset + entrySize (img.u32 (it.data + it.offset))) < it.size - it.offset
  omega

def parseImage : ImageStatus × FwCtx :=
  let fw : FwCtx := ⟨[], none, []⟩
  match iterRead ⟨0, img.size, 0⟩ binaryHdrBytes with
  | none => (.invalidParameter, fw)
  | some (o, it) =>
    let fw := fw.read o binaryHdrBytes
    let hdr := img.binaryHdr o
    if hdr.magic ≠ headerMagic then (.invalidImageFormat, fw)
    else if hdr.major ≠ headerMajorMax then (.invalidImageFormat, fw)
    else if hdr.size.toNat > it.size ∨ hdr.size.toNat < binaryHdrBytes then
      (.invalidImageFormat, fw)
    else
      let (status, fw) := parseEntries img alloc { it with size := hdr.size.toNat } fw
      if status ≠ .success then (status, fw)
      else if fw.sharedIndex = none ∨ fw.sections.length = 0 then (.invalidImageFormat, fw)
      else (.success, fw)

/-- The entries that follow one another from one offset to another one. -/
inductive Tiles : ℕ → ℕ → List ℕ → Prop
  | done (o : ℕ) : Tiles o o []
  | entry {o e : ℕ} {os : List ℕ} : 4 ≤ entrySize (img.u32 o) → entrySize (img.u32 o) % 4 = 0 →
    Tiles (o + entrySize (img.u32 o)) e os → Tiles o e (o :: os)

def Iface (o : ℕ) : Prop := entryType (img.u32 o) = entryTypeIface

/-- The header of an interface entry's payload. -/
def payload (o : ℕ) : SectionEntryHdr := img.sectionEntryHdr (o + 4)

def Prot (o : ℕ) : Prop := (payload img o).flags &&& ifaceEntryRdProt ≠ 0

/-- An entry that becomes a section. -/
def IsSection (o : ℕ) : Prop := Iface img o ∧ ¬Prot img o

instance (o : ℕ) : Decidable (Iface img o) := inferInstanceAs (Decidable (_ = _))

instance (o : ℕ) : Decidable (Prot img o) := inferInstanceAs (Decidable (_ ≠ _))

instance (o : ℕ) : Decidable (IsSection img o) := inferInstanceAs (Decidable (_ ∧ _))

structure GoodIface (o : ℕ) : Prop where
  header : sectionEntryHdrBytes ≤ entrySize (img.u32 o) - 4
  data : (payload img o).dataStart ≤ (payload img o).dataEnd
  va : (payload img o).vaStart ≤ (payload img o).vaEnd
  inImage : (payload img o).dataEnd.toNat ≤ img.size
  aligned : (payload img o).vaStart &&& 0xfff = 0 ∧ (payload img o).vaEnd &&& 0xfff = 0
  flags : (payload img o).flags &&& ~~~ifaceEntryRdSupportedFlags = 0
  shared : ¬Prot img o → (payload img o).vaStart = mcuSharedRegionStart →
    (payload img o).flags &&& ifaceEntryRdShared ≠ 0

structure GoodEntry (o : ℕ) : Prop where
  iface : Iface img o → GoodIface img o
  optional : ¬Iface img o → img.u32 o &&& entryOptional ≠ 0

structure GoodHeader : Prop where
  header : binaryHdrBytes ≤ img.size
  magic : (img.binaryHdr 0).magic = headerMagic
  major : (img.binaryHdr 0).major = headerMajorMax
  size : binaryHdrBytes ≤ (img.binaryHdr 0).size.toNat ∧ (img.binaryHdr 0).size.toNat ≤ img.size

/-- The images of the format, by their entries. -/
structure Accepted (os : List ℕ) : Prop where
  header : GoodHeader img
  tiles : Tiles img binaryHdrBytes (img.binaryHdr 0).size.toNat os
  entries : ∀ o ∈ os, GoodEntry img o
  count : (os.filter (IsSection img ·)).length ≤ fwMaxSections
  shared : ∃ o ∈ os, IsSection img o ∧ (payload img o).vaStart = mcuSharedRegionStart

def secBytes (o : ℕ) : ℕ := (payload img o).vaEnd.toNat - (payload img o).vaStart.toNat

/-- The section of an entry, in its place of the list. -/
def sectionAt (pa : ℕ → BitVec 64) (i o : ℕ) : FwSection where
  flags := (payload img o).flags
  vaStart := (payload img o).vaStart
  vaEnd := (payload img o).vaEnd
  backingPa := if 0 < secBytes img o then some (pa i) else none
  backingBytes := secBytes img o

section Turns

variable {img} {pa : ℕ → BitVec 64} {it it' : Iter} {fw fw' : FwCtx} {o : ℕ}

/-- What a section entry does to the context. -/
structure Enters (img : Image) (pa : ℕ → BitVec 64) (fw : FwCtx) (o : ℕ) (fw' : FwCtx) : Prop where
  sections : fw'.sections =
    if IsSection img o then fw.sections ++ [sectionAt img pa fw.sections.length o] else fw.sections
  shared : fw'.sharedIndex.isSome ↔ fw.sharedIndex.isSome ∨
    (IsSection img o ∧ (payload img o).vaStart = mcuSharedRegionStart)

theorem sizeT_eq {n : ℕ} (h : n < 2 ^ 64) : sizeT n = n := Nat.mod_eq_of_lt h

theorem iterRead_fits {len : ℕ} (hsize : it.size < 2 ^ 64) (h : it.offset + len ≤ it.size) :
    iterRead it len = some (it.data + it.offset, { it with offset := it.offset + len }) := by
  simp only [iterRead, sizeT_eq (lt_of_le_of_lt h hsize)]
  exact if_neg (by omega)

theorem iterSubInit_fits {payloadBytes : ℕ} (hsize : it.size < 2 ^ 64)
    (h : it.offset + payloadBytes ≤ it.size) : iterSubInit it payloadBytes =
      some (⟨it.data + it.offset, payloadBytes, 0⟩,
        { it with offset := it.offset + payloadBytes }) := by
  simp only [iterSubInit, sizeT_eq (lt_of_le_of_lt h hsize)]
  exact if_neg (by omega)

/-- An interface entry is loaded exactly when it is good and there is room for a section. -/
theorem loadSectionEntry_success (fw : FwCtx) (o : ℕ) :
    (loadSectionEntry img (fun i => some (pa i)) fw
      ⟨o + 4, entrySize (img.u32 o) - 4, 0⟩).1 = .success ↔
        GoodIface img o ∧ (¬Prot img o → fw.sections.length < fwMaxSections) := by
  have hlt := entrySize_lt (img.u32 o)
  by_cases hheader : sectionEntryHdrBytes ≤ entrySize (img.u32 o) - 4
  · have hfits : iterRead ⟨o + 4, entrySize (img.u32 o) - 4, 0⟩ sectionEntryHdrBytes =
        some (o + 4 + 0, ⟨o + 4, entrySize (img.u32 o) - 4, 0 + sectionEntryHdrBytes⟩) :=
      iterRead_fits (by change entrySize (img.u32 o) - 4 < 2 ^ 64; omega) (by rwa [Nat.zero_add])
    unfold loadSectionEntry
    rw [hfits]
    dsimp only
    split
    · rename_i hord
      refine iff_of_false (by simp) fun h => ?_
      rcases hord with hdata | hva
      · exact absurd h.1.data (BitVec.not_le.mpr hdata)
      · exact absurd h.1.va (BitVec.not_le.mpr hva)
    rename_i hord
    split
    · rename_i hin
      exact iff_of_false (by simp) fun h => absurd h.1.inImage (not_le.mpr hin)
    rename_i hin
    split
    · rename_i hal
      refine iff_of_false (by simp) fun h => ?_
      rcases hal with hstart | hend
      · exact hstart h.1.aligned.1
      · exact hend h.1.aligned.2
    rename_i hal
    split
    · rename_i hflags
      exact iff_of_false (by simp) fun h => hflags h.1.flags
    rename_i hflags
    simp only [not_or, BitVec.not_lt, not_lt, not_not] at hord hin hal hflags
    split
    · rename_i hprot
      refine iff_of_true rfl ⟨⟨hheader, hord.1, hord.2, hin, hal, hflags, ?_⟩, ?_⟩
      · exact fun hno => absurd hprot hno
      · exact fun hno => absurd hprot hno
    rename_i hprot
    split
    · rename_i hshared
      exact iff_of_false (by simp) fun h => h.1.shared hprot hshared.1 hshared.2
    rename_i hshared
    have hgood : GoodIface img o :=
      ⟨hheader, hord.1, hord.2, hin, hal, hflags, fun _ hstart hno => hshared ⟨hstart, hno⟩⟩
    split
    · rename_i hroom
      exact iff_of_false (by simp) fun h => absurd (h.2 hprot) (not_lt.mpr hroom)
    rename_i hroom
    split
    · rename_i hname
      rw [Nat.zero_add, Nat.add_sub_cancel' hheader, sizeT_eq (by omega)] at hname
      exact absurd hname.2 (lt_irrefl _)
    · refine iff_of_true ?_ ⟨hgood, fun _ => not_le.mp hroom⟩
      unfold addSection
      dsimp only
      split <;> rfl
  · have hnone : iterRead ⟨o + 4, entrySize (img.u32 o) - 4, 0⟩ sectionEntryHdrBytes = none := by
      have hsize : sizeT (0 + sectionEntryHdrBytes) > entrySize (img.u32 o) - 4 := by
        rw [Nat.zero_add, sizeT_eq (by decide)]
        exact not_le.mp hheader
      simp only [iterRead]
      exact if_pos (.inl hsize)
    simp only [loadSectionEntry, hnone, reduceCtorEq, false_iff]
    exact fun h => hheader h.1.header

theorem addSection_enters {hdr : SectionEntryHdr} {reads : List Access}
    (hsec : IsSection img o) (hhdr : hdr = payload img o)
    (h : addSection (fun i => some (pa i)) { fw with reads := reads } hdr = (.success, fw')) :
    Enters img pa fw o fw' := by
  subst hhdr
  have hshared : ∀ i : ℕ, (if (payload img o).vaStart = mcuSharedRegionStart then some i
      else fw.sharedIndex).isSome ↔ fw.sharedIndex.isSome ∨
        (IsSection img o ∧ (payload img o).vaStart = mcuSharedRegionStart) := by
    intro i
    split
    · rename_i hstart
      exact iff_of_true rfl (.inr ⟨hsec, hstart⟩)
    · rename_i hstart
      exact ⟨.inl, fun h => h.resolve_right fun h => hstart h.2⟩
  unfold addSection at h
  dsimp only at h
  split at h
  · rename_i hbytes
    obtain ⟨-, rfl⟩ := Prod.mk.inj h
    refine ⟨?_, hshared _⟩
    rw [if_pos hsec, sectionAt, secBytes, if_pos hbytes]
  · rename_i hbytes
    obtain ⟨-, rfl⟩ := Prod.mk.inj h
    refine ⟨?_, hshared _⟩
    rw [if_pos hsec, sectionAt, secBytes, if_neg hbytes]
    rw [Nat.eq_zero_of_not_pos hbytes]

/-- What loading an entry adds. -/
theorem loadSectionEntry_enters {bytes : ℕ} (hiface : Iface img o)
    (h : loadSectionEntry img (fun i => some (pa i)) fw ⟨o + 4, bytes, 0⟩ = (.success, fw')) :
    Enters img pa fw o fw' := by
  unfold loadSectionEntry at h
  cases hread : iterRead ⟨o + 4, bytes, 0⟩ sectionEntryHdrBytes with
  | none => simp [hread] at h
  | some p =>
    obtain ⟨at', sub⟩ := p
    obtain ⟨rfl, -, -⟩ := iterRead_some (by decide) hread
    rw [hread] at h
    dsimp only at h
    split at h
    · cases h
    split at h
    · cases h
    split at h
    · cases h
    split at h
    · cases h
    split at h
    · rename_i hprot
      obtain ⟨-, rfl⟩ := Prod.mk.inj h
      have hno : ¬IsSection img o := fun hs => hs.2 hprot
      refine ⟨(if_neg hno).symm, ?_⟩
      exact ⟨.inl, fun h => h.resolve_right fun h => hno h.1⟩
    rename_i hprot
    split at h
    · cases h
    split at h
    · cases h
    split at h
    · cases h
    · exact addSection_enters ⟨hiface, hprot⟩ rfl h

/-- One turn succeeds exactly on a good entry that fits. -/
theorem parseEntry_success (hsize : it.size < 2 ^ 64) (hdata : it.data = 0) (fw : FwCtx) :
    (parseEntry img (fun i => some (pa i)) it fw).1 = .success ↔
      (4 ≤ entrySize (img.u32 it.offset) ∧ entrySize (img.u32 it.offset) % 4 = 0 ∧
        it.offset + entrySize (img.u32 it.offset) ≤ it.size) ∧ GoodEntry img it.offset ∧
      (IsSection img it.offset → fw.sections.length < fwMaxSections) := by
  obtain ⟨data, size, o⟩ := it
  obtain rfl : data = 0 := hdata
  have hlt := entrySize_lt (img.u32 o)
  change size < 2 ^ 64 at hsize
  by_cases hread : o + 4 ≤ size
  · have hfits : iterRead ⟨0, size, o⟩ 4 = some (o, ⟨0, size, o + 4⟩) := by
      rw [iterRead_fits hsize hread]
      simp
    unfold parseEntry
    rw [hfits]
    dsimp only
    split
    · rename_i hbad
      exact iff_of_false (by simp) fun h => by omega
    rename_i hok
    push Not at hok
    split
    · rename_i hiface
      have hgood : GoodEntry img o ↔ GoodIface img o :=
        ⟨fun h => h.iface hiface, fun h => ⟨fun _ => h, fun hno => absurd hiface hno⟩⟩
      have hsec : IsSection img o ↔ ¬Prot img o := and_iff_right hiface
      rw [hgood, hsec]
      by_cases hpay : o + entrySize (img.u32 o) ≤ size
      · rw [iterSubInit_fits hsize (by change o + 4 + _ ≤ size; omega), Nat.zero_add]
        dsimp only
        rw [loadSectionEntry_success]
        exact (and_iff_right ⟨hok.1, hok.2, hpay⟩).symm
      · rw [iterSubInit_over (by omega) (by change size < o + 4 + _; omega)]
        exact iff_of_false (by simp) fun h => hpay h.1.2.2
    · rename_i hother
      have hgood : GoodEntry img o ↔ img.u32 o &&& entryOptional ≠ 0 :=
        ⟨fun h => h.optional hother, fun h => ⟨fun hi => absurd hi hother, fun _ => h⟩⟩
      rw [hgood]
      split
      · exact iff_of_false (by simp) fun h => by omega
      split
      · rename_i hmandatory
        exact iff_of_false (by simp) fun h => h.2.1 hmandatory
      · rename_i hoptional
        exact iff_of_true rfl ⟨⟨hok.1, hok.2, by omega⟩, hoptional, fun h => absurd h.1 hother⟩
  · have hnone : iterRead ⟨0, size, o⟩ 4 = none := by
      by_contra hne
      obtain ⟨⟨o', it'⟩, hsome⟩ := Option.ne_none_iff_exists'.mp hne
      exact hread (iterRead_some (by decide) hsome).2.2
    unfold parseEntry
    rw [hnone]
    refine iff_of_false (by simp) fun h => ?_
    have h4 := h.1.1
    have hle := h.1.2.2
    dsimp only at h4 hle
    omega

theorem parseEntry_enters (hdata : it.data = 0)
    (h : parseEntry img (fun i => some (pa i)) it fw = (.success, it', fw')) :
    Enters img pa fw it.offset fw' := by
  obtain ⟨data, size, o⟩ := it
  obtain rfl : data = 0 := hdata
  unfold parseEntry at h
  cases hread : iterRead ⟨0, size, o⟩ 4 with
  | none => simp [hread] at h
  | some p =>
    obtain ⟨at', it₁⟩ := p
    obtain ⟨rfl, rfl, -⟩ := iterRead_some (by decide) hread
    rw [hread] at h
    dsimp only at h
    rw [Nat.zero_add] at h
    split at h
    · cases h
    split at h
    · rename_i hiface
      cases hsub : iterSubInit ⟨0, size, o + 4⟩ (entrySize (img.u32 o) - 4) with
      | none => simp [hsub] at h
      | some q =>
        obtain ⟨sub, it₂⟩ := q
        have hlt := entrySize_lt (img.u32 o)
        obtain ⟨rfl, -, -⟩ := iterSubInit_some (by omega) hsub
        rw [hsub] at h
        dsimp only at h
        rw [Nat.zero_add] at h
        obtain ⟨hst, h⟩ := Prod.mk.inj h
        obtain ⟨-, hfw⟩ := Prod.mk.inj h
        obtain ⟨hsections, hshared⟩ := loadSectionEntry_enters hiface (Prod.ext hst hfw)
        exact ⟨hsections, hshared⟩
    · rename_i hother
      split at h
      · cases h
      split at h
      · cases h
      · obtain ⟨-, h⟩ := Prod.mk.inj h
        obtain ⟨-, rfl⟩ := Prod.mk.inj h
        have hno : ¬IsSection img o := fun hs => hother hs.1
        refine ⟨(if_neg hno).symm, ?_⟩
        exact ⟨.inl, fun h => h.resolve_right fun h => hno h.1⟩

end Turns

section Loop

variable {img} {pa : ℕ → BitVec 64} {it : Iter} {fw : FwCtx} {o e : ℕ} {os : List ℕ}

theorem parseEntries_step (alloc : ℕ → Option (BitVec 64)) (fw : FwCtx)
    (h : it.offset < it.size) :
    parseEntries img alloc it fw =
      if (parseEntry img alloc it fw).1 = .success then
        parseEntries img alloc (parseEntry img alloc it fw).2.1 (parseEntry img alloc it fw).2.2
      else ((parseEntry img alloc it fw).1, (parseEntry img alloc it fw).2.2) := by
  rw [parseEntries, dif_pos h]
  rcases hturn : parseEntry img alloc it fw with ⟨st, it', fw'⟩
  cases st <;> simp

theorem tiles_le (h : Tiles img o e os) : o ≤ e := by
  induction h with
  | done o => exact le_rfl
  | entry _ _ _ ih => omega

theorem tiles_nil (h : Tiles img o e []) : o = e := by
  cases h
  rfl

theorem tiles_cons {o' : ℕ} (h : Tiles img o e (o' :: os)) : o < e := by
  cases h with
  | entry hmin _ hrest =>
    have := tiles_le hrest
    omega

theorem tiles_entry (h : o < e) :
    Tiles img o e os ↔ ∃ rest, os = o :: rest ∧ 4 ≤ entrySize (img.u32 o) ∧
      entrySize (img.u32 o) % 4 = 0 ∧ Tiles img (o + entrySize (img.u32 o)) e rest := by
  constructor
  · intro ht
    cases ht with
    | done => exact absurd h (lt_irrefl _)
    | entry hmin hmod hrest => exact ⟨_, rfl, hmin, hmod, hrest⟩
  · rintro ⟨rest, rfl, hmin, hmod, hrest⟩
    exact .entry hmin hmod hrest

theorem enters_length {fw' : FwCtx} (h : Enters img pa fw o fw') (rest : List ℕ) :
    fw'.sections.length + (rest.filter (IsSection img ·)).length =
      fw.sections.length + ((o :: rest).filter (IsSection img ·)).length := by
  rw [h.sections]
  by_cases hsec : IsSection img o
  · simp [hsec]
    omega
  · simp [hsec]

/-- The loop succeeds exactly on good entries that tile the rest of the image. -/
theorem parseEntries_success (hsize : it.size < 2 ^ 64) (hdata : it.data = 0)
    (hoff : it.offset ≤ it.size) (hroom : fw.sections.length ≤ fwMaxSections) :
    (parseEntries img (fun i => some (pa i)) it fw).1 = .success ↔
      ∃ os, Tiles img it.offset it.size os ∧ (∀ o ∈ os, GoodEntry img o) ∧
        fw.sections.length + (os.filter (IsSection img ·)).length ≤ fwMaxSections := by
  induction hn : it.size - it.offset using Nat.strong_induction_on generalizing it fw with
  | _ n ih =>
    by_cases hmore : it.offset < it.size
    · rcases hturn : parseEntry img (fun i => some (pa i)) it fw with ⟨st, it', fw'⟩
      have hok : (parseEntry img (fun i => some (pa i)) it fw).1 = .success ↔ _ :=
        parseEntry_success hsize hdata fw
      rw [parseEntries_step _ fw hmore, hturn]
      rw [hturn] at hok
      by_cases hst : st = .success
      · subst hst
        rw [if_pos rfl]
        obtain ⟨⟨hmin, hmod, hfit⟩, hgood, hcount⟩ := hok.mp rfl
        have henters := parseEntry_enters hdata hturn
        obtain ⟨rfl, -, -⟩ := parseEntry_moves img _ hturn
        have hat : it.data + it.offset = it.offset := by rw [hdata, Nat.zero_add]
        have hroom' : fw'.sections.length ≤ fwMaxSections := by
          have hlen := enters_length henters []
          by_cases hsec : IsSection img it.offset
          · have := hcount hsec
            simp [hsec] at hlen
            omega
          · simp [hsec] at hlen
            omega
        have hshorter : it.size - (it.offset + entrySize (img.u32 it.offset)) < n := by omega
        rw [hat, @ih _ hshorter { it with
          offset := it.offset + entrySize (img.u32 it.offset) } _ hsize hdata hfit hroom' rfl]
        constructor
        · rintro ⟨rest, htiles, hall, hlen⟩
          refine ⟨it.offset :: rest, .entry hmin hmod htiles, ?_, ?_⟩
          · exact List.forall_mem_cons.mpr ⟨hgood, hall⟩
          · rwa [← enters_length henters]
        · rintro ⟨os, htiles, hall, hlen⟩
          obtain ⟨rest, rfl, -, -, hrest⟩ := (tiles_entry hmore).mp htiles
          refine ⟨rest, hrest, (List.forall_mem_cons.mp hall).2, ?_⟩
          rwa [enters_length henters]
      · rw [if_neg hst]
        refine iff_of_false hst ?_
        rintro ⟨os, htiles, hall, hlen⟩
        obtain ⟨rest, rfl, hmin, hmod, hrest⟩ := (tiles_entry hmore).mp htiles
        refine hst (hok.mpr ⟨⟨hmin, hmod, tiles_le hrest⟩, (List.forall_mem_cons.mp hall).1, ?_⟩)
        intro hsec
        simp [hsec] at hlen
        omega
    · have hend : it.offset = it.size := by omega
      rw [parseEntries, dif_neg hmore, hend]
      exact iff_of_true rfl ⟨[], .done _, by simp, by simpa using hroom⟩

/-- What the loop leaves in the context when it succeeds. -/
theorem parseEntries_enters (hdata : it.data = 0) (htiles : Tiles img it.offset it.size os)
    (h : (parseEntries img (fun i => some (pa i)) it fw).1 = .success) :
    (parseEntries img (fun i => some (pa i)) it fw).2.sections =
        fw.sections ++ (os.filter (IsSection img ·)).mapIdx
          (fun i o => sectionAt img pa (fw.sections.length + i) o) ∧
      ((parseEntries img (fun i => some (pa i)) it fw).2.sharedIndex.isSome ↔
        fw.sharedIndex.isSome ∨
          ∃ o ∈ os, IsSection img o ∧ (payload img o).vaStart = mcuSharedRegionStart) := by
  induction os generalizing it fw with
  | nil =>
    have hend : ¬it.offset < it.size := fun hlt => Nat.ne_of_lt hlt (tiles_nil htiles)
    rw [parseEntries, dif_neg hend]
    simp
  | cons o os ih =>
    have hmore := tiles_cons htiles
    obtain ⟨rest, hos, -, -, hrest⟩ := (tiles_entry hmore).mp htiles
    obtain ⟨rfl, rfl⟩ := List.cons.inj hos
    rcases hturn : parseEntry img (fun i => some (pa i)) it fw with ⟨st, it', fw'⟩
    rw [parseEntries_step _ fw hmore, hturn] at h ⊢
    by_cases hst : st = .success
    · subst hst
      rw [if_pos rfl] at h ⊢
      obtain ⟨hsections, hshared⟩ := parseEntry_enters hdata hturn
      obtain ⟨rfl, -, -⟩ := parseEntry_moves img _ hturn
      have hat : it.data + it.offset = it.offset := by rw [hdata, Nat.zero_add]
      rw [hat] at h ⊢
      obtain ⟨hsections', hshared'⟩ := @ih { it with
        offset := it.offset + entrySize (img.u32 it.offset) } _ hdata hrest h
      refine ⟨hsections'.trans ?_, hshared'.trans ?_⟩
      · rw [hsections]
        by_cases hsec : IsSection img it.offset
        · simp [hsec, List.mapIdx_cons, Nat.add_comm, Nat.add_left_comm]
        · simp [hsec]
      · simp only [hshared, List.mem_cons, or_and_right, exists_or, exists_eq_left, or_assoc]
    · rw [if_neg hst] at h
      exact absurd h hst

end Loop

/-- Every byte that was read is in the image. -/
def ReadsInside (fw : FwCtx) : Prop := ∀ a ∈ fw.reads, a.offset + a.length ≤ img.size

section Reads

variable {img} {alloc} {it it' : Iter} {fw fw' : FwCtx}

theorem read_inside {offset length : ℕ} (hfw : ReadsInside img fw)
    (h : offset + length ≤ img.size) : ReadsInside img (fw.read offset length) := by
  intro a ha
  rcases List.mem_cons.mp ha with rfl | ha
  · exact h
  · exact hfw a ha

theorem addSection_inside {hdr : SectionEntryHdr} (hfw : ReadsInside img fw)
    (hdata : hdr.dataEnd.toNat ≤ img.size) : ReadsInside img (addSection alloc fw hdr).2 := by
  unfold addSection
  dsimp only
  split
  · split
    · exact hfw
    · by_cases hcopy : hdr.dataEnd > hdr.dataStart
      · have hlt := BitVec.lt_def.mp hcopy
        simp only [if_pos hcopy]
        exact read_inside hfw (by omega)
      · simp only [if_neg hcopy]
        exact hfw
  · exact hfw

theorem loadSectionEntry_inside (hfw : ReadsInside img fw)
    (hin : it.data + it.size ≤ img.size) :
    ReadsInside img (loadSectionEntry img alloc fw it).2 := by
  unfold loadSectionEntry
  cases hread : iterRead it sectionEntryHdrBytes with
  | none => exact hfw
  | some p =>
    obtain ⟨o, sub⟩ := p
    obtain ⟨rfl, -, hle⟩ := iterRead_some (by decide) hread
    have hfw' : ReadsInside img (fw.read (it.data + it.offset) sectionEntryHdrBytes) :=
      read_inside hfw (by omega)
    dsimp only
    split
    · exact hfw'
    split
    · exact hfw'
    rename_i hdata
    split
    · exact hfw'
    split
    · exact hfw'
    split
    · exact hfw'
    split
    · exact hfw'
    split
    · exact hfw'
    split
    · exact hfw'
    · exact addSection_inside hfw' (Nat.le_of_not_lt hdata)

theorem parseEntry_inside (hfw : ReadsInside img fw) (hin : it.data + it.size ≤ img.size) :
    ReadsInside img (parseEntry img alloc it fw).2.2 := by
  unfold parseEntry
  cases hread : iterRead it 4 with
  | none => exact hfw
  | some p =>
    obtain ⟨o, it₁⟩ := p
    obtain ⟨rfl, rfl, hle⟩ := iterRead_some (by decide) hread
    have hfw' : ReadsInside img (fw.read (it.data + it.offset) 4) :=
      read_inside hfw (by omega)
    have hlt := entrySize_lt (img.u32 (it.data + it.offset))
    dsimp only
    split
    · exact hfw'
    split
    · split
      · exact hfw'
      · rename_i sub it₂ hsub
        obtain ⟨rfl, -, hfit⟩ := iterSubInit_some (by omega) hsub
        dsimp only at hfit
        exact loadSectionEntry_inside hfw' (by dsimp only; omega)
    · split
      · exact hfw'
      split
      · exact hfw'
      · exact hfw'

theorem parseEntries_inside (hfw : ReadsInside img fw) (hin : it.data + it.size ≤ img.size) :
    ReadsInside img (parseEntries img alloc it fw).2 := by
  induction hn : it.size - it.offset using Nat.strong_induction_on generalizing it fw with
  | _ n ih =>
    by_cases hmore : it.offset < it.size
    · rw [parseEntries_step alloc fw hmore]
      have hturn : ReadsInside img (parseEntry img alloc it fw).2.2 := parseEntry_inside hfw hin
      split
      · rename_i hst
        obtain ⟨hit, hmin, -⟩ := parseEntry_moves img alloc (Prod.ext hst rfl)
        refine ih _ ?_ hturn ?_ rfl
        · rw [hit]
          dsimp only
          omega
        · rw [hit]
          exact hin
      · exact hturn
    · rw [parseEntries, dif_neg hmore]
      exact hfw

end Reads

/-- What is left of the context when the header is read. -/
def headerRead : FwCtx := ⟨[], none, [⟨0, binaryHdrBytes⟩]⟩

/-- The loop's result, if the header is good. -/
def parseBody : ImageStatus × FwCtx :=
  let (status, fw) :=
    parseEntries img alloc ⟨0, (img.binaryHdr 0).size.toNat, binaryHdrBytes⟩ headerRead
  if status ≠ .success then (status, fw)
  else if fw.sharedIndex = none ∨ fw.sections.length = 0 then (.invalidImageFormat, fw)
  else (.success, fw)

section Header

variable {img} {alloc}

theorem header_inside (h : binaryHdrBytes ≤ img.size) : ReadsInside img headerRead := by
  intro a ha
  rw [List.mem_singleton.mp ha]
  change 0 + binaryHdrBytes ≤ img.size
  omega

theorem binaryHdr_read (h : binaryHdrBytes ≤ img.size) :
    iterRead ⟨0, img.size, 0⟩ binaryHdrBytes = some (0, ⟨0, img.size, binaryHdrBytes⟩) := by
  rw [iterRead_fits img.size_lt (by simpa using h)]
  simp

theorem parseImage_cases :
    (GoodHeader img ∧ parseImage img alloc = parseBody img alloc) ∨
    (¬GoodHeader img ∧ (parseImage img alloc).1 ≠ .success ∧
      ReadsInside img (parseImage img alloc).2) := by
  unfold parseImage
  by_cases hheader : binaryHdrBytes ≤ img.size
  · have hin := header_inside hheader
    rw [binaryHdr_read hheader]
    dsimp only
    split
    · rename_i hmagic
      exact .inr ⟨fun h => hmagic h.magic, by simp, hin⟩
    rename_i hmagic
    split
    · rename_i hmajor
      exact .inr ⟨fun h => hmajor h.major, by simp, hin⟩
    rename_i hmajor
    split
    · rename_i hsize
      refine .inr ⟨fun h => ?_, by simp, hin⟩
      have := h.size
      omega
    · rename_i hsize
      exact .inl ⟨⟨hheader, not_not.mp hmagic, not_not.mp hmajor, by omega⟩, rfl⟩
  · have hnone : iterRead ⟨0, img.size, 0⟩ binaryHdrBytes = none := by
      by_contra hne
      obtain ⟨⟨o, it⟩, hsome⟩ := Option.ne_none_iff_exists'.mp hne
      have hle := (iterRead_some (by decide) hsome).2.2
      rw [Nat.zero_add] at hle
      exact hheader hle
    rw [hnone]
    exact .inr ⟨fun h => hheader h.header, by simp, by simp [ReadsInside]⟩

theorem parseBody_inside (h : GoodHeader img) : ReadsInside img (parseBody img alloc).2 := by
  have hloop : ReadsInside img (parseEntries img alloc
      ⟨0, (img.binaryHdr 0).size.toNat, binaryHdrBytes⟩ headerRead).2 :=
    parseEntries_inside (header_inside h.header) (by rw [Nat.zero_add]; exact h.size.2)
  unfold parseBody
  dsimp only
  split
  · exact hloop
  split
  · exact hloop
  · exact hloop

variable {pa : ℕ → BitVec 64}

theorem bodyEntries_success (h : GoodHeader img) :
    (parseEntries img (fun i => some (pa i)) ⟨0, (img.binaryHdr 0).size.toNat, binaryHdrBytes⟩
      headerRead).1 = .success ↔
        ∃ os, Tiles img binaryHdrBytes (img.binaryHdr 0).size.toNat os ∧
          (∀ o ∈ os, GoodEntry img o) ∧
          (os.filter (IsSection img ·)).length ≤ fwMaxSections := by
  have hlt := img.size_lt
  have hle := h.size.2
  rw [parseEntries_success (by dsimp only; omega) rfl h.size.1 (by decide)]
  simp [headerRead]

theorem body_enters {os : List ℕ}
    (htiles : Tiles img binaryHdrBytes (img.binaryHdr 0).size.toNat os)
    (h : (parseEntries img (fun i => some (pa i))
      ⟨0, (img.binaryHdr 0).size.toNat, binaryHdrBytes⟩ headerRead).1 = .success) :
    (parseEntries img (fun i => some (pa i))
        ⟨0, (img.binaryHdr 0).size.toNat, binaryHdrBytes⟩ headerRead).2.sections =
      (os.filter (IsSection img ·)).mapIdx (sectionAt img pa) ∧
    ((parseEntries img (fun i => some (pa i))
        ⟨0, (img.binaryHdr 0).size.toNat, binaryHdrBytes⟩ headerRead).2.sharedIndex.isSome ↔
      ∃ o ∈ os, IsSection img o ∧ (payload img o).vaStart = mcuSharedRegionStart) := by
  have henters := parseEntries_enters rfl htiles h
  simpa [headerRead] using henters

/-- The body succeeds when the entries are good, and leaves what the loop has left. -/
theorem parseBody_accepted {os : List ℕ} (A : Accepted img os) :
    (parseBody img fun i => some (pa i)).1 = .success ∧
      (parseBody img fun i => some (pa i)).2.sections =
        (os.filter (IsSection img ·)).mapIdx (sectionAt img pa) := by
  have hloop : (parseEntries img (fun i => some (pa i))
      ⟨0, (img.binaryHdr 0).size.toNat, binaryHdrBytes⟩ headerRead).1 = .success :=
    (bodyEntries_success A.header).mpr ⟨os, A.tiles, A.entries, A.count⟩
  obtain ⟨hsections, hshared⟩ := body_enters A.tiles hloop
  obtain ⟨o, ho, hsec, -⟩ := A.shared
  have hsome := hshared.mpr A.shared
  have hmem : o ∈ os.filter (IsSection img ·) := List.mem_filter.mpr ⟨ho, by simpa using hsec⟩
  unfold parseBody
  dsimp only
  rw [if_neg (not_not.mpr hloop), if_neg]
  · exact ⟨rfl, hsections⟩
  · rintro (hnone | hempty)
    · simp [hnone] at hsome
    · rw [hsections, List.length_mapIdx, List.length_eq_zero_iff] at hempty
      simp [hempty] at hmem

theorem parseBody_success (h : GoodHeader img)
    (hst : (parseBody img fun i => some (pa i)).1 = .success) : ∃ os, Accepted img os := by
  unfold parseBody at hst
  dsimp only at hst
  split at hst
  · rename_i hfail
    exact absurd hst hfail
  rename_i hloop
  rw [not_not] at hloop
  obtain ⟨os, htiles, hentries, hcount⟩ := (bodyEntries_success h).mp hloop
  split at hst
  · cases hst
  · rename_i hend
    refine ⟨os, h, htiles, hentries, hcount, ?_⟩
    rw [← (body_enters htiles hloop).2]
    exact Option.isSome_iff_ne_none.mpr fun hnone => hend (.inl hnone)

end Header

/-- With every block that is asked for, an image is accepted exactly when it is of the format,
and its sections are then its unprotected interface entries. -/
theorem parseImage_accepts_iff (pa : ℕ → BitVec 64) :
    ReadsInside img (parseImage img fun i => some (pa i)).2 ∧
    ((parseImage img fun i => some (pa i)).1 = .success ↔ ∃ os, Accepted img os) ∧
    (∀ os, Accepted img os → (parseImage img fun i => some (pa i)).2.sections =
      (os.filter (IsSection img ·)).mapIdx (sectionAt img pa)) := by
  have hcases : (GoodHeader img ∧ parseImage img (fun i => some (pa i)) = _) ∨ _ :=
    parseImage_cases
  rcases hcases with ⟨hheader, heq⟩ | ⟨hno, hst, hin⟩
  · rw [heq]
    refine ⟨parseBody_inside hheader, ⟨parseBody_success hheader, ?_⟩, ?_⟩
    · rintro ⟨os, A⟩
      exact (parseBody_accepted A).1
    · exact fun os A => (parseBody_accepted A).2
  · refine ⟨hin, iff_of_false hst ?_, fun os A => absurd A.header hno⟩
    rintro ⟨os, A⟩
    exact hno A.header

/-- One entry, for the shared section. -/
def sharedOnly : Image where
  size := 44
  byte := fun o =>
    if o = 0 then 0x6e else if o = 1 then 0x3a else if o = 2 then 0xf1 else if o = 3 then 0xc3
    else if o = 16 then 44 else if o = 21 then 24 else if o = 27 then 0x40
    else if o = 31 then 4 else if o = 33 then 0x10 else if o = 35 then 4 else 0
  size_lt := by decide

theorem sharedOnly_accepted : Accepted sharedOnly [20] where
  header := ⟨by decide, by decide, by decide, by decide⟩
  tiles := .entry (by decide) (by decide) (.done _)
  entries := by
    intro o ho
    obtain rfl := List.mem_singleton.mp ho
    refine ⟨fun _ => ⟨?_, ?_, ?_, ?_, ?_, ?_, ?_⟩, fun hno => absurd ?_ hno⟩ <;> decide
  count := by decide
  shared := ⟨20, List.mem_singleton_self _, by decide, by decide⟩

end WinMali.FirmwareImage
