import WinMaliKmd.PagingBuffer
import WinMaliKmd.VmPageTableMap

/-!
# Page tables in two formats

The graphics kernel describes its page tables entry by entry, each a DXGK_PTE at a level
that it counts from the leaves. `UpdatePageTable` turns the entries into LPAE words in pages
that the kernel lends. What the hardware finds there is what the entries say.
-/

set_option autoImplicit false

namespace WinMali.PagingTree
open WinMali.Lpae WinMali.VmPageTable WinMali.VmPageTableMap WinMali.PagingBuffer

/-- Some page-table pages: the physical address of each, and the CPU address it is lent at. -/
structure PageSet where
  page : Word → Option Word
  aligned : ∀ pa va, page pa = some va → va.toNat % 4096 = 0
  unique : ∀ pa pa' va, page pa = some va → page pa' = some va → pa = pa'

structure Update where
  pa : Word
  op : UpdatePageTable

def PageAddress (a : Word) : Prop := a.toNat % 4096 = 0 ∧ a.toNat < 2 ^ 48

/-- What the kernel asks for: a range of one of its pages, as a page of any level. -/
structure Meant (S : PageSet) (u : Update) : Prop where
  mode : u.op.updateMode = .cpuVirtual
  page : ∃ va, S.page u.pa = some va ∧ u.op.cpuVirtual = some va
  small : u.op.use64KBPages = false
  fits : u.op.startIndex + u.op.numPageTableEntries ≤ 512
  framed : ∀ ptes ∈ u.op.pageTableEntries, ∀ i < u.op.numPageTableEntries,
    (ptes (if u.op.repeatEntry then 0 else i)).valid = true →
      PageAddress (ptes (if u.op.repeatEntry then 0 else i)).pageAddress

/-- The entries as they were described last, each with its level; `none` for one that never
was. -/
def Tree := Word → Fin 512 → Option (ℕ × DxgkPte)

def describe (T : Tree) (u : Update) : Tree :=
  match u.op.pageTableEntries with
  | none => T
  | some ptes => fun pa i =>
    if pa = u.pa ∧ u.op.startIndex ≤ i ∧ i < u.op.startIndex + u.op.numPageTableEntries then
      some (u.op.pageTableLevel, ptes (if u.op.repeatEntry then 0 else i - u.op.startIndex))
    else T pa i

def described (T : Tree) (us : List Update) : Tree := us.foldl describe T

def updated (m : Word → Word) (us : List Update) : Word → Word :=
  us.foldl (fun m u => (updatePageTable m u.op).2) m

/-- Physical memory, page by page: the lent pages, and whatever the other pages hold. -/
def phys (S : PageSet) (m : Word → Word) (other : Word → Fin 512 → Word) (pa : Word)
    (i : Fin 512) : Word :=
  match S.page pa with
  | some va => m (entryVa va i)
  | none => other pa i

structure Mapping where
  frame : Word
  readOnly : Bool
  privilegedNx : Bool
  userNx : Bool
deriving DecidableEq, Repr

def decode (leaf : Word × Word) : Mapping :=
  ⟨leaf.1, leaf.2.getLsbD 7, leaf.2.getLsbD 53, leaf.2.getLsbD 54⟩

def maliWalk (S : PageSet) (m : Word → Word) (other : Word → Fin 512 → Word) (root va : Word) :
    Option Mapping :=
  if va.toNat < 2 ^ 48 then (hwWalk (phys S m other) root va).map decode else none

/-- The entry for an address in a page of a level, when the tree says anything about it. -/
def entryAt (T : Tree) (va : Word) (level : ℕ) (page : Word) : Option DxgkPte :=
  (T page (index va (12 + 9 * level))).bind fun (l, pte) => if l = level then some pte else none

def mapping (pte : DxgkPte) : Mapping :=
  ⟨pte.pageAddress, pte.readOnly, pte.noExecute, pte.noExecute⟩

/-- `none` when the way leads to something that is not described. -/
def treeFrom (T : Tree) (va : Word) : ℕ → Word → Option (Option Mapping)
  | 0, page => (entryAt T va 0 page).map fun pte => if pte.valid then some (mapping pte) else none
  | level + 1, page =>
    (entryAt T va (level + 1) page).bind fun pte =>
      if pte.valid then treeFrom T va level pte.pageAddress else some none

/-- The walk of the described tree, from a root of level 3. -/
def treeWalk (T : Tree) (root va : Word) : Option (Option Mapping) :=
  if va.toNat < 2 ^ 48 then treeFrom T va 3 root else some none

/-- From a page of a level down, every entry is described at its own level. -/
def Complete (T : Tree) : ℕ → Word → Prop
  | 0, page => ∀ i, ∃ pte, T page i = some (0, pte)
  | level + 1, page => ∀ i, ∃ pte, T page i = some (level + 1, pte) ∧
      (pte.valid = true → Complete T level pte.pageAddress)

def Covers (u : Update) (a : Word) : Prop :=
  ∃ va, u.op.cpuVirtual = some va ∧ ∃ i, u.op.startIndex ≤ i ∧
    i < u.op.startIndex + u.op.numPageTableEntries ∧ entryVa va i = a

def Encodes (S : PageSet) (m : Word → Word) (T : Tree) : Prop :=
  ∀ pa i level pte, T pa i = some (level, pte) → ∃ va, S.page pa = some va ∧
    m (entryVa va i) = tableEntry (level == 0) pte ∧
      (pte.valid = true → PageAddress pte.pageAddress)

section Words

variable {pte : DxgkPte}

theorem next_entry (h : pte.valid = true → PageAddress pte.pageAddress) :
    next (tableEntry false pte) = if pte.valid then some pte.pageAddress else none := by
  unfold tableEntry
  rw [if_neg (by simp)]
  split
  case isTrue hvalid =>
    obtain ⟨h12, h48⟩ := h hvalid
    exact next_link pte.pageAddress (framed_of_page _ h12 h48)
  case isFalse hvalid => exact next_zero

def permission (readOnly noExecute : Bool) : Word :=
  if readOnly then if noExecute then pageAttrRoNx else pageAttrRoEx
  else if noExecute then pageAttrRwNx
  else pageAttrRwEx

theorem permission_spec : ∀ readOnly noExecute, ValidAttrs (permission readOnly noExecute) ∧
    (permission readOnly noExecute).getLsbD 7 = readOnly ∧
    (permission readOnly noExecute).getLsbD 53 = noExecute ∧
    (permission readOnly noExecute).getLsbD 54 = noExecute := by decide

/-- A leaf word tells the frame and the three permission bits. -/
theorem leaf_entry (h : pte.valid = true → PageAddress pte.pageAddress) :
    (leafOf (tableEntry true pte)).map decode =
      if pte.valid then some (mapping pte) else none := by
  have hentry : tableEntry true pte = if !pte.valid then 0
      else (pte.pageAddress &&& paMask) ||| permission pte.readOnly pte.noExecute := rfl
  rw [hentry]
  cases hvalid : pte.valid with
  | false =>
    simp only [Bool.not_false, if_true, leafOf_zero, Option.map_none, Bool.false_eq_true, if_false]
  | true =>
    obtain ⟨h12, h48⟩ := h hvalid
    have hframe := (framed_of_page _ h12 h48).eq
    obtain ⟨hattrs, hro, hpxn, huxn⟩ := permission_spec pte.readOnly pte.noExecute
    simp only [Bool.not_true, Bool.false_eq_true, if_false, if_true]
    rw [leafOf_page _ _ hattrs, hframe, Option.map_some, decode, hro, hpxn, huxn, mapping]

end Words

section Walks

variable {S : PageSet} {m : Word → Word} {T : Tree} {other : Word → Fin 512 → Word} {va : Word}

def rawFrom (mem : Word → Fin 512 → Word) (va : Word) : ℕ → Word → Option (Word × Word)
  | 0, page => leafOf (mem page (index va 12))
  | level + 1, page => (next (mem page (index va (12 + 9 * (level + 1))))).bind
      (rawFrom mem va level)

theorem hwWalk_levels (mem : Word → Fin 512 → Word) (root va : Word) :
    hwWalk mem root va = rawFrom mem va 3 root := rfl

theorem entryAt_some {level : ℕ} {page : Word} {pte : DxgkPte}
    (h : entryAt T va level page = some pte) :
    T page (index va (12 + 9 * level)) = some (level, pte) := by
  obtain ⟨⟨l, pte'⟩, hentry, hif⟩ := Option.bind_eq_some_iff.mp h
  obtain ⟨rfl, hpte⟩ := Option.ite_none_right_eq_some.mp hif
  exact hentry.trans (congrArg (fun pte => some (l, pte)) (Option.some.inj hpte))

theorem entryAt_described {level : ℕ} {page : Word} {pte : DxgkPte}
    (h : T page (index va (12 + 9 * level)) = some (level, pte)) :
    entryAt T va level page = some pte := by
  simp only [entryAt, h, Option.bind_some, if_true]

theorem phys_entry (E : Encodes S m T) {level : ℕ} {page : Word} {pte : DxgkPte}
    (h : entryAt T va level page = some pte) :
    phys S m other page (index va (12 + 9 * level)) = tableEntry (level == 0) pte ∧
      (pte.valid = true → PageAddress pte.pageAddress) := by
  obtain ⟨cpu, hcpu, hword, haddr⟩ := E _ _ _ _ (entryAt_some h)
  rw [phys, hcpu]
  exact ⟨hword, haddr⟩

theorem rawFrom_tree (E : Encodes S m T) {level : ℕ} {page : Word} {result : Option Mapping}
    (h : treeFrom T va level page = some result) :
    (rawFrom (phys S m other) va level page).map decode = result := by
  induction level generalizing page with
  | zero =>
    obtain ⟨pte, hentry, rfl⟩ := Option.map_eq_some_iff.mp h
    obtain ⟨hword, haddr⟩ := phys_entry E hentry
    exact (congrArg (fun w => (leafOf w).map decode) hword).trans (leaf_entry haddr)
  | succ level ih =>
    obtain ⟨pte, hentry, hrest⟩ := Option.bind_eq_some_iff.mp h
    obtain ⟨hword, haddr⟩ := phys_entry E hentry
    have hnext : next (phys S m other page (index va (12 + 9 * (level + 1)))) =
        if pte.valid then some pte.pageAddress else none :=
      (congrArg next hword).trans (next_entry haddr)
    rw [rawFrom, hnext]
    split at hrest
    case isTrue hvalid =>
      rw [if_pos hvalid]
      exact ih hrest
    case isFalse hvalid =>
      rw [if_neg hvalid]
      exact Option.some.inj hrest

theorem treeFrom_complete {level : ℕ} {page : Word} (C : Complete T level page) :
    (treeFrom T va level page).isSome := by
  induction level generalizing page with
  | zero =>
    obtain ⟨pte, hpte⟩ := C (index va (12 + 9 * 0))
    rw [treeFrom, entryAt_described hpte]
    rfl
  | succ level ih =>
    obtain ⟨pte, hpte, hlink⟩ := C (index va (12 + 9 * (level + 1)))
    rw [treeFrom, entryAt_described hpte, Option.bind_some]
    split
    case isTrue hvalid => exact ih (hlink hvalid)
    case isFalse => rfl

end Walks

section Updates

variable {S : PageSet} {m : Word → Word} {T : Tree} {u : Update}

theorem entryVa_toNat {va : Word} (ha : va.toNat % 4096 = 0) {i : ℕ} (hi : i < 512) :
    (entryVa va i).toNat = va.toNat + 8 * i := by
  have h8 : (8 : Word).toNat = 8 := by decide
  have hva := va.isLt
  rw [entryVa, BitVec.toNat_add, BitVec.toNat_mul, BitVec.toNat_ofNat, h8]
  omega

theorem entryVa_add (va : Word) (s i : ℕ) : entryVa (entryVa va s) i = entryVa va (s + i) := by
  simp only [entryVa, BitVec.ofNat_add, BitVec.add_mul, BitVec.add_assoc]

/-- Two entries of aligned pages are at one address only when they are the same. -/
theorem entryVa_injective {va va' : Word} (ha : va.toNat % 4096 = 0) (ha' : va'.toNat % 4096 = 0)
    {i j : ℕ} (hi : i < 512) (hj : j < 512) (h : entryVa va i = entryVa va' j) :
    va = va' ∧ i = j := by
  have hval := congrArg BitVec.toNat h
  rw [entryVa_toNat ha hi, entryVa_toNat ha' hj] at hval
  exact ⟨BitVec.eq_of_toNat_eq (by omega), by omega⟩

theorem writeEntries_at {pt : Word} {entry : ℕ → Word} {i left j : ℕ} (hij : i ≤ j)
    (hj : j < i + left) (huniq : ∀ k, i ≤ k → k < i + left → entryVa pt k = entryVa pt j → k = j) :
    writeEntries pt entry i left m (entryVa pt j) = entry j := by
  induction left generalizing i m with
  | zero => omega
  | succ left ih =>
    rw [writeEntries]
    obtain rfl | hlt := Nat.eq_or_lt_of_le hij
    · rw [writeEntries_other]
      · exact Function.update_self _ _ _
      · intro k h1 h2 heq
        have hk := huniq k (by omega) (by omega) heq
        omega
    · exact ih hlt (by omega) fun k h1 h2 => huniq k (by omega) (by omega)

theorem updatePageTable_eq (M : Meant S u) {va : Word} (hva : u.op.cpuVirtual = some va) :
    (updatePageTable m u.op).2 = match u.op.pageTableEntries with
      | none => m
      | some ptes => writeEntries (entryVa va u.op.startIndex)
          (fun i => tableEntry (u.op.pageTableLevel == 0)
            (ptes (if u.op.repeatEntry then 0 else i))) 0 u.op.numPageTableEntries m := by
  unfold updatePageTable
  rw [if_neg (not_not.mpr M.mode), hva]
  simp only [M.small, Bool.false_eq_true, if_false]
  cases u.op.pageTableEntries <;> rfl

theorem update_other (M : Meant S u) {a : Word} (h : ¬Covers u a) :
    (updatePageTable m u.op).2 a = m a := by
  obtain ⟨va, -, hva⟩ := M.page
  rw [updatePageTable_eq M hva]
  cases u.op.pageTableEntries with
  | none => rfl
  | some ptes =>
    refine writeEntries_other m fun j _ hj heq => h ⟨va, hva, u.op.startIndex + j, ?_⟩
    rw [entryVa_add] at heq
    exact ⟨Nat.le_add_right _ _, by omega, heq⟩

theorem update_encodes (M : Meant S u) (E : Encodes S m T) :
    Encodes S (updatePageTable m u.op).2 (describe T u) := by
  obtain ⟨va, hpage, hva⟩ := M.page
  have hfits := M.fits
  have halign := S.aligned u.pa va hpage
  intro pa i level pte hpte
  unfold describe at hpte
  cases hentries : u.op.pageTableEntries with
  | none =>
    rw [hentries] at hpte
    have hsame : (updatePageTable m u.op).2 = m := by
      rw [updatePageTable_eq M hva, hentries]
    rw [hsame]
    exact E pa i level pte hpte
  | some ptes =>
    rw [hentries] at hpte
    dsimp only at hpte
    split at hpte
    case isTrue hin =>
      obtain ⟨rfl, hstart, hend⟩ := hin
      obtain ⟨rfl, rfl⟩ := Prod.mk.inj (Option.some.inj hpte)
      have hj : u.op.startIndex + (i.val - u.op.startIndex) = i.val := by omega
      have hat : entryVa va i = entryVa (entryVa va u.op.startIndex) (i.val - u.op.startIndex) := by
        rw [entryVa_add, hj]
      have huniq (k : ℕ) (_ : 0 ≤ k) (hk : k < 0 + u.op.numPageTableEntries)
          (heq : entryVa (entryVa va u.op.startIndex) k =
            entryVa (entryVa va u.op.startIndex) (i.val - u.op.startIndex)) :
          k = i.val - u.op.startIndex := by
        rw [entryVa_add, entryVa_add, hj] at heq
        have hsame := (entryVa_injective halign halign (by omega) i.isLt heq).2
        omega
      refine ⟨va, hpage, ?_, ?_⟩
      · rw [updatePageTable_eq M hva, hentries, hat]
        dsimp only
        rw [writeEntries_at (Nat.zero_le _) (by omega) huniq]
      · exact M.framed ptes hentries (i.val - u.op.startIndex) (by omega)
    case isFalse hout =>
      obtain ⟨va', hpage', hword, haddr⟩ := E pa i level pte hpte
      refine ⟨va', hpage', (update_other M ?_).trans hword, haddr⟩
      rintro ⟨cpu, hcpu, k, h1, h2, heq⟩
      obtain rfl := Option.some.inj (hva.symm.trans hcpu)
      obtain ⟨rfl, rfl⟩ :=
        entryVa_injective halign (S.aligned pa va' hpage') (by omega) i.isLt heq
      exact hout ⟨S.unique pa u.pa _ hpage' hpage, h1, h2⟩

theorem updated_encodes {us : List Update} (hus : ∀ u ∈ us, Meant S u) (E : Encodes S m T) :
    Encodes S (updated m us) (described T us) := by
  induction us generalizing m T with
  | nil => exact E
  | cons u us ih =>
    rw [List.forall_mem_cons] at hus
    exact ih hus.2 (update_encodes hus.1 E)

theorem updated_other {us : List Update} (hus : ∀ u ∈ us, Meant S u) {a : Word}
    (h : ∀ u ∈ us, ¬Covers u a) : updated m us a = m a := by
  induction us generalizing m with
  | nil => rfl
  | cons u us ih =>
    rw [List.forall_mem_cons] at hus h
    exact (ih hus.2 h.2).trans (update_other hus.1 h.1)

end Updates

/-- What the raw tables have in common with the described ones, after some operations. -/
structure Refines (S : PageSet) (other : Word → Fin 512 → Word) (m : Word → Word) (T : Tree)
    (us : List Update) : Prop where
  walk : ∀ root va result, treeWalk (described T us) root va = some result →
    maliWalk S (updated m us) other root va = result
  everywhere : ∀ root, Complete (described T us) 3 root →
    ∀ va, (treeWalk (described T us) root va).isSome
  unchanged : ∀ a, (∀ u ∈ us, ¬Covers u a) → updated m us a = m a

/-- After any operations on any pages, at any levels and in any order, the hardware walk of
memory answers what the tree of the entries says, of every address that it says anything of. -/
theorem update_refines (S : PageSet) (other : Word → Fin 512 → Word) (m : Word → Word) (T : Tree)
    (E : Encodes S m T) (us : List Update) (hus : ∀ u ∈ us, Meant S u) :
    Refines S other m T us where
  walk root va result h := by
    unfold treeWalk at h
    unfold maliWalk
    split at h
    case isTrue hva =>
      rw [if_pos hva, hwWalk_levels]
      exact rawFrom_tree (updated_encodes hus E) h
    case isFalse hva =>
      rw [if_neg hva]
      exact Option.some.inj h
  everywhere root C va := by
    unfold treeWalk
    split
    · exact treeFrom_complete C
    · rfl
  unchanged a h := updated_other hus h

/-- Every page of physical memory, lent at one offset. -/
def directPages : PageSet where
  page pa := if pa.toNat % 4096 = 0 then some (pa + 0xffff800000000000) else none
  aligned pa va h := by
    obtain ⟨hpa, hva⟩ := Option.ite_none_right_eq_some.mp h
    have hbase : (0xffff800000000000 : Word).toNat = 0xffff800000000000 := by decide
    rw [← Option.some.inj hva, BitVec.toNat_add, hbase]
    omega
  unique pa pa' va h h' := by
    obtain ⟨-, hva⟩ := Option.ite_none_right_eq_some.mp h
    obtain ⟨-, hva'⟩ := Option.ite_none_right_eq_some.mp h'
    exact (BitVec.add_left_inj _).mp ((Option.some.inj hva).trans (Option.some.inj hva').symm)

def repeated (pa : Word) (level start num : ℕ) (pte : DxgkPte) : Update where
  pa := pa
  op := ⟨.cpuVirtual, some (pa + 0xffff800000000000), false, true, some fun _ => pte, num, start,
    level⟩

theorem repeated_meant {pa : Word} {level start num : ℕ} {pte : DxgkPte}
    (hpa : pa.toNat % 4096 = 0) (hfits : start + num ≤ 512)
    (hpte : PageAddress pte.pageAddress) :
    Meant directPages (repeated pa level start num pte) where
  mode := rfl
  page := ⟨_, if_pos hpa, rfl⟩
  small := rfl
  fits := hfits
  framed := by
    rintro _ ⟨⟩ i - -
    exact hpte

/-- A leaf, the root emptied and linked, and the pages between them. -/
def fourLevels : List Update :=
  [repeated 0x80003000 0 1 2 ⟨true, true, true, 0x12345000⟩,
    repeated 0x80000000 3 0 512 ⟨false, false, false, 0⟩,
    repeated 0x80000000 3 0 1 ⟨true, false, false, 0x80001000⟩,
    repeated 0x80001000 2 0 1 ⟨true, false, false, 0x80002000⟩,
    repeated 0x80002000 1 0 1 ⟨true, false, false, 0x80003000⟩]

theorem walks_of_four_levels :
    maliWalk directPages (updated (fun _ => 0xdead) fourLevels) (fun _ _ => 0) 0x80000000 0x2008 =
        some ⟨0x12345000, true, true, true⟩ ∧
      maliWalk directPages (updated (fun _ => 0xdead) fourLevels) (fun _ _ => 0) 0x80000000
        0x8000000000 = none := by
  have hmeant : ∀ u ∈ fourLevels, Meant directPages u := by
    simp only [fourLevels, List.forall_mem_cons, List.not_mem_nil, false_implies, implies_true,
      and_true]
    refine ⟨?_, ?_, ?_, ?_, ?_⟩ <;>
      exact repeated_meant (by decide) (by decide) (by unfold PageAddress; decide)
  have R := update_refines directPages (fun _ _ => 0) (fun _ => 0xdead) (fun _ _ => none) nofun
    fourLevels hmeant
  exact ⟨R.walk 0x80000000 0x2008 _ (by decide), R.walk 0x80000000 0x8000000000 _ (by decide)⟩

end WinMali.PagingTree
