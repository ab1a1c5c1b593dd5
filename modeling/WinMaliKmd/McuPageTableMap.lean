import WinMaliKmd.McuPageTable
import WinMaliKmd.VmPageTableMap

/-!
# The microcontroller's page table refines a map

The abstract view of the table is a list of ranges, of which the last one that covers an
address counts. The tables are the pages that the block has given out so far; they form a
tree, and an entry that points at no table is still zero, which is what the driver tests
before it links one.
-/

set_option autoImplicit false

namespace WinMali.McuPageTableMap
open WinMali.Lpae WinMali.RadixTree
open WinMali.VmPageTable hiding ptAllocPage
open WinMali.VmPageTableMap (path hwWalk_translate position_iff index_val)
open WinMali.FirmwareImage WinMali.McuPageTable

def tables (fw : FwPt) : List Word := (List.range (fw.ptUsed / 4096)).map fw.pool.page

structure Inv (fw : FwPt) : Prop where
  rootHost : fw.rootHostVa = some (fw.pool.host fw.pool.pa)
  rootPa : fw.rootTablePa = fw.pool.pa
  used : fw.ptUsed % 4096 = 0
  inPool : fw.ptUsed ≤ fw.pool.bytes
  tree : Tree next fw.phys fw.pool.pa 3 (tables fw)
  blank : ∀ p n i, p.length < 3 → follow next fw.phys fw.pool.pa p = some n →
    next (fw.phys n i) = none → fw.phys n i = 0

theorem page_toNat {p : Pool} {i : ℕ} (h : 4096 * i < p.bytes) :
    (p.page i).toNat = p.pa.toNat + 4096 * i := by
  have hbelow := p.below
  rw [Pool.page, BitVec.toNat_add, BitVec.toNat_ofNat]
  omega

theorem page_framed {p : Pool} {i : ℕ} (h : 4096 * i < p.bytes) : Framed (p.page i) := by
  have hbelow := p.below
  have haligned := p.aligned
  have hval := page_toNat h
  exact framed_of_page _ (by omega) (by omega)

theorem host_injective (p : Pool) {a b : Word} (h : p.host a = p.host b) : a = b := by
  unfold Pool.host at h
  simpa using h

/-- The driver sees a page of the block at the same offset as the hardware. -/
theorem host_page (p : Pool) (n : ℕ) :
    p.host (p.pa + BitVec.ofNat 64 n) = p.va + BitVec.ofNat 64 n := by
  rw [Pool.host, BitVec.add_comm p.pa, BitVec.add_sub_cancel]

theorem phys_write (fw : FwPt) (n : Word) (i : Fin 512) (w : Word) :
    ({ fw with mem := write fw.mem (fw.pool.host n) i w } : FwPt).phys = write fw.phys n i w := by
  funext k j
  by_cases h : k = n
  · subst h
    simp [FwPt.phys, write]
  · have hne : fw.pool.host k ≠ fw.pool.host n := fun heq => h (host_injective _ heq)
    simp [FwPt.phys, write, h, hne]

theorem phys_zero (fw : FwPt) (n : Word) (used : ℕ) :
    ({ fw with mem := zeroPage fw.mem (fw.pool.host n), ptUsed := used } : FwPt).phys =
      zeroPage fw.phys n := by
  funext k j
  by_cases h : k = n
  · subst h
    simp [FwPt.phys, zeroPage]
  · have hne : fw.pool.host k ≠ fw.pool.host n := fun heq => h (host_injective _ heq)
    simp [FwPt.phys, zeroPage, h, hne]

theorem mcuWalk_translate {fw : FwPt} (I : Inv fw) (va : Word) :
    mcuWalk fw va = if va.toNat < 2 ^ 48 then
      translate next leafOf fw.phys fw.pool.pa (path va) (index va 12) else none := by
  rw [mcuWalk, I.rootPa, hwWalk_translate]

variable {fw : FwPt}

theorem mem_tables {k : Word} :
    k ∈ tables fw ↔ ∃ i < fw.ptUsed / 4096, fw.pool.page i = k := by
  simp [tables]

theorem Inv.table_lt (I : Inv fw) {i : ℕ} (h : i < fw.ptUsed / 4096) :
    4096 * i < fw.pool.bytes := by
  have := I.inPool
  have := I.used
  omega

/-- The page that the block gives out next is no table yet. -/
theorem Inv.fresh (I : Inv fw) (h : fw.ptUsed + 4096 ≤ fw.pool.bytes) :
    fw.pool.page (fw.ptUsed / 4096) ∉ tables fw := by
  intro hmem
  obtain ⟨i, hi, heq⟩ := mem_tables.mp hmem
  have h1 := page_toNat (I.table_lt hi)
  have h2 : (fw.pool.page (fw.ptUsed / 4096)).toNat =
      fw.pool.pa.toNat + 4096 * (fw.ptUsed / 4096) := page_toNat (by omega)
  rw [heq, h2] at h1
  omega

/-- No entry of a table points at the page zero, so the driver's test is the hardware's. -/
theorem Inv.entry_ne_zero (I : Inv fw) {p : List (Fin 512)} {n : Word} {i : Fin 512}
    (hp : p.length < 3) (hf : follow next fw.phys fw.pool.pa p = some n) :
    next (fw.phys n i) ≠ some 0 := by
  intro h
  have hlast : follow next fw.phys fw.pool.pa (p ++ [i]) = some 0 := by
    rw [follow_snoc, hf]
    exact h
  have hlen : (p ++ [i]).length ≤ 3 := by simp; omega
  obtain ⟨k, hk, hzero⟩ := mem_tables.mp (I.tree.owned _ _ hlen hlast)
  have hval := page_toNat (I.table_lt hk)
  rw [hzero] at hval
  have hpa : fw.pool.pa = 0 := by
    apply BitVec.eq_of_toNat_eq
    change fw.pool.pa.toNat = 0
    change 0 = _ at hval
    omega
  have hnil := I.tree.unique (p ++ [i]) [] 0 hlen (by simp) hlast (by rw [← hpa]; rfl)
  simp at hnil

/-- The state after the next page is zeroed and linked under an entry. -/
def linked (fw : FwPt) (n : Word) (i : Fin 512) : FwPt :=
  let k := fw.pool.page (fw.ptUsed / 4096)
  { fw with
    mem := write (zeroPage fw.mem (fw.pool.host k)) (fw.pool.host n) i (k ||| 3)
    ptUsed := fw.ptUsed + 4096 }

theorem phys_linked (fw : FwPt) (n : Word) (i : Fin 512) :
    (linked fw n i).phys = write (zeroPage fw.phys (fw.pool.page (fw.ptUsed / 4096))) n i
      (fw.pool.page (fw.ptUsed / 4096) ||| 3) := by
  rw [← phys_zero fw _ (fw.ptUsed + 4096)]
  exact phys_write { fw with
    mem := zeroPage fw.mem (fw.pool.host (fw.pool.page (fw.ptUsed / 4096)))
    ptUsed := fw.ptUsed + 4096 } n i _

theorem tables_linked (fw : FwPt) (n : Word) (i : Fin 512) :
    tables (linked fw n i) = tables fw ++ [fw.pool.page (fw.ptUsed / 4096)] := by
  have hdiv : (fw.ptUsed + 4096) / 4096 = fw.ptUsed / 4096 + 1 := by omega
  unfold tables linked
  rw [hdiv, List.range_succ, List.map_append]
  rfl

theorem Inv.link (I : Inv fw) (h : fw.ptUsed + 4096 ≤ fw.pool.bytes) {p : List (Fin 512)}
    {n : Word} {i : Fin 512} (hp : p.length < 3)
    (hf : follow next fw.phys fw.pool.pa p = some n) (he : next (fw.phys n i) = none) :
    Inv (linked fw n i) ∧
      follow next (linked fw n i).phys fw.pool.pa (p ++ [i]) =
        some (fw.pool.page (fw.ptUsed / 4096)) ∧
      ∀ q j, q.length = 3 → translate next leafOf (linked fw n i).phys fw.pool.pa q j =
        translate next leafOf fw.phys fw.pool.pa q j := by
  have hused := I.used
  have hk : fw.pool.page (fw.ptUsed / 4096) ∉ tables fw := I.fresh h
  have hframed : Framed (fw.pool.page (fw.ptUsed / 4096)) := page_framed (by omega)
  have hphys := phys_linked fw n i
  have htables := tables_linked fw n i
  revert hphys htables hk hframed
  generalize fw.pool.page (fw.ptUsed / 4096) = k
  intro hk hframed hphys htables
  have hlink : next (k ||| 3) = some k := by
    have := next_link k hframed
    rwa [hframed.eq] at this
  -- the new page is outside the tree, so zeroing it changes nothing there
  have hold : ∀ n' ∈ tables fw, ∀ j, zeroPage fw.phys k n' j = fw.phys n' j := by
    intro n' hn' j
    have hne : n' ≠ k := fun heq => hk (heq ▸ hn')
    simp [zeroPage, hne]
  have hn : n ∈ tables fw := I.tree.owned p n (by omega) hf
  have T := I.tree.agree hold
  have hf' : follow next (zeroPage fw.phys k) fw.pool.pa p = some n := by
    rw [I.tree.follow_agree hold p (by omega), hf]
  have he' : next (zeroPage fw.phys k n i) = none := by rw [hold n hn, he]
  have hzero : ∀ j, zeroPage fw.phys k k j = 0 := fun j => by simp [zeroPage]
  have hblank : ∀ j, next (zeroPage fw.phys k k j) = none := fun j => by rw [hzero, next_zero]
  have hleaf : ∀ j, leafOf (zeroPage fw.phys k k j) = none := fun j => by
    rw [hzero, leafOf_zero]
  have hfollow := fun q hq => T.link_follow hp hf' he' hk hblank hlink q hq
  refine ⟨⟨I.rootHost, I.rootPa, ?_, h, ?_, ?_⟩, ?_, ?_⟩
  · change (fw.ptUsed + 4096) % 4096 = 0
    omega
  · rw [htables, hphys]
    exact T.link_tree hp hf' he' hk hblank hlink
  · intro q n' j hq hn' hnone
    rw [hphys] at hn' hnone ⊢
    rw [show (linked fw n i).pool = fw.pool from rfl, hfollow q (by omega)] at hn'
    by_cases hentry : n' = n ∧ j = i
    · rw [hentry.1, hentry.2, write_same, hlink] at hnone
      cases hnone
    · rw [write_other _ _ _ _ _ _ hentry] at hnone ⊢
      split at hn'
      · obtain rfl := Option.some.inj hn'
        exact hzero j
      · have hmem := T.owned q n' (by omega) hn'
        rw [hold n' hmem] at hnone ⊢
        rw [I.tree.follow_agree hold q (by omega)] at hn'
        exact I.blank q n' j hq hn' hnone
  · rw [hphys, hfollow _ (by simp; omega), if_pos rfl]
  · intro q j hq
    rw [hphys, T.link_translate hp hf' he' hk hblank hleaf hlink q j hq]
    exact I.tree.translate_agree hold q j (by omega)

/-- `fw'` is `fw` with more tables. -/
structure Grown (fw fw' : FwPt) : Prop where
  pool : fw'.pool = fw.pool
  dynNext : fw'.mcuDynNextVa = fw.mcuDynNextVa
  same : ∀ q j, q.length = 3 → translate next leafOf fw'.phys fw'.pool.pa q j =
    translate next leafOf fw.phys fw.pool.pa q j

theorem Grown.rfl : Grown fw fw := ⟨Eq.refl _, Eq.refl _, fun _ _ _ => Eq.refl _⟩

theorem Grown.trans {a b c : FwPt} (h : Grown a b) (h' : Grown b c) : Grown a c :=
  ⟨h'.pool.trans h.pool, h'.dynNext.trans h.dynNext,
    fun q j hq => (h'.same q j hq).trans (h.same q j hq)⟩

theorem ptLevel_spec (I : Inv fw) {p : List (Fin 512)} {n : Word} (hp : p.length < 3)
    (hf : follow next fw.phys fw.pool.pa p = some n) (i : Fin 512) :
    ∃ reply fw', ptLevel fw (fw.pool.host n) i = (reply, fw') ∧ Inv fw' ∧ Grown fw fw' ∧
      ∀ t, reply = some t → ∃ k, t = fw'.pool.host k ∧
        follow next fw'.phys fw'.pool.pa (p ++ [i]) = some k := by
  have hent : fw.mem (fw.pool.host n) i = fw.phys n i := rfl
  cases he : next (fw.phys n i) with
  | some k =>
    have hne := I.entry_ne_zero (i := i) hp hf
    have hbits : fw.phys n i &&& 3 = 3 ∧ fw.phys n i &&& paMask = k := by
      unfold next at he
      split at he
      · exact ⟨‹_›, Option.some.inj he⟩
      · cases he
    have hk : k ≠ 0 := fun h => hne (h ▸ he)
    have hent0 : fw.phys n i ≠ 0 := by
      intro h
      rw [h, next_zero] at he
      cases he
    refine ⟨some (fw.pool.host k), fw, ?_, I, Grown.rfl, ?_⟩
    · simp only [ptLevel, ptEnsureChild, hent, hbits, hk, hent0, and_self, ne_eq,
        not_false_eq_true, if_true, if_false]
      rfl
    · rintro t ⟨⟩
      exact ⟨k, rfl, by rw [follow_snoc, hf]; exact he⟩
  | none =>
    have hzero := I.blank p n i hp hf he
    have hdesc : ¬((0 : Word) &&& 3 = 3 ∧ (0 : Word) &&& paMask ≠ 0) := by decide
    by_cases hroom : fw.ptUsed + 4096 ≤ fw.pool.bytes
    · obtain ⟨I', hlast, hsame⟩ := I.link hroom hp hf he
      refine ⟨some (fw.pool.host (fw.pool.page (fw.ptUsed / 4096))), linked fw n i, ?_, I',
        ⟨rfl, rfl, hsame⟩, ?_⟩
      · have hused : 4096 * (fw.ptUsed / 4096) = fw.ptUsed := by
          have := I.used
          omega
        have hn : n ∈ tables fw := I.tree.owned p n (by omega) hf
        have hne : fw.pool.host n ≠ fw.pool.va + BitVec.ofNat 64 fw.ptUsed := by
          rw [← host_page]
          intro heq
          have hpage := host_injective _ heq
          apply I.fresh hroom
          rw [Pool.page, hused, ← hpage]
          exact hn
        simp only [ptLevel, ptEnsureChild, hent, hzero, if_neg hdesc, ptAllocPage,
          if_neg (not_lt.mpr hroom), linked, Pool.page, hused, host_page]
        rw [if_pos]
        simp only [zeroPage, if_neg hne]
        exact hzero
      · rintro t ⟨⟩
        exact ⟨_, rfl, hlast⟩
    · refine ⟨none, fw, ?_, I, Grown.rfl, by simp⟩
      simp only [ptLevel, ptEnsureChild, hent, hzero, if_neg hdesc, ptAllocPage,
        if_pos (not_le.mp hroom)]

theorem ptLevels_spec (I : Inv fw) (va : Word) (shifts : List ℕ) {p : List (Fin 512)} {n : Word}
    (hp : p.length + shifts.length ≤ 3) (hf : follow next fw.phys fw.pool.pa p = some n) :
    ∃ reply fw', ptLevels va shifts fw (fw.pool.host n) = (reply, fw') ∧ Inv fw' ∧
      Grown fw fw' ∧ ∀ t, reply = some t → ∃ k, t = fw'.pool.host k ∧
        follow next fw'.phys fw'.pool.pa (p ++ shifts.map (index va)) = some k := by
  induction shifts generalizing fw p n with
  | nil =>
    refine ⟨_, fw, rfl, I, Grown.rfl, ?_⟩
    rintro t ⟨⟩
    exact ⟨n, rfl, by simpa using hf⟩
  | cons shift shifts ih =>
    rw [List.length_cons] at hp
    obtain ⟨reply, fw₁, hrun, I₁, g₁, hreply⟩ := ptLevel_spec I (by omega) hf (index va shift)
    cases reply with
    | none => exact ⟨none, fw₁, by simp only [ptLevels, hrun], I₁, g₁, by simp⟩
    | some t =>
      obtain ⟨k, rfl, hk⟩ := hreply t rfl
      obtain ⟨reply, fw₂, hrest, I₂, g₂, hreply₂⟩ := ih I₁ (by simp; omega) hk
      refine ⟨reply, fw₂, by simp only [ptLevels, hrun, hrest], I₂, g₁.trans g₂, ?_⟩
      intro t ht
      obtain ⟨k', hk'⟩ := hreply₂ t ht
      exact ⟨k', by simpa using hk'⟩

theorem Inv.setLeaf (I : Inv fw) {p : List (Fin 512)} {n : Word} (hp : p.length = 3)
    (hf : follow next fw.phys fw.pool.pa p = some n) (i : Fin 512) (w : Word) :
    Inv { fw with mem := write fw.mem (fw.pool.host n) i w } := by
  refine ⟨I.rootHost, I.rootPa, I.used, I.inPool, ?_, ?_⟩
  · rw [phys_write]
    exact I.tree.leaf_tree hp hf i w
  · intro q n' j hq hn' hnone
    rw [phys_write] at hn' hnone ⊢
    rw [I.tree.leaf_follow hp hf i w q (by omega)] at hn'
    -- a shorter path ends in another table
    have hne : n' ≠ n := by
      rintro rfl
      have := congrArg List.length (I.tree.unique p q n' (by omega) (by omega) hf hn')
      omega
    rw [write_other _ _ _ _ _ _ fun h => hne h.1] at hnone ⊢
    exact I.blank q n' j hq hn' hnone

theorem path_levelShifts (va : Word) : levelShifts.map (index va) = path va := rfl

theorem pageOf_small {va : Word} (h : va.toNat < 2 ^ 48) : pageOf va = va.toNat / 4096 := by
  unfold pageOf
  omega

/-- What the table says about an address after a page is mapped. -/
theorem ptMap4k_spec (I : Inv fw) (va pa attrs : Word) :
    ∃ st fw', ptMap4k fw va pa attrs = (st, fw') ∧ Inv fw' ∧ fw'.pool = fw.pool ∧
      fw'.mcuDynNextVa = fw.mcuDynNextVa ∧ ∀ va', va'.toNat < 2 ^ 48 →
        mcuWalk fw' va' = if st = .success ∧ pageOf va' = pageOf va then
          leafOf (makeL3Pte pa attrs) else mcuWalk fw va' := by
  obtain ⟨reply, fw₁, hrun, I₁, g, hreply⟩ :=
    ptLevels_spec I va levelShifts (p := []) (by decide) rfl
  cases reply with
  | none =>
    refine ⟨.insufficientResources, fw₁, by simp only [ptMap4k, I.rootHost, hrun], I₁, g.pool,
      g.dynNext, ?_⟩
    intro va' hva'
    rw [if_neg (by simp), mcuWalk_translate I₁, mcuWalk_translate I, if_pos hva', if_pos hva',
      g.same (path va') _ rfl]
  | some t =>
    obtain ⟨l3, rfl, hl3⟩ := hreply t rfl
    rw [List.nil_append, path_levelShifts] at hl3
    have I₂ := I₁.setLeaf rfl hl3 (index va 12) (makeL3Pte pa attrs)
    refine ⟨.success, _, by simp only [ptMap4k, I.rootHost, hrun], I₂, g.pool, g.dynNext, ?_⟩
    intro va' hva'
    rw [mcuWalk_translate I₂, mcuWalk_translate I, if_pos hva', if_pos hva', phys_write,
      I₁.tree.leaf_translate rfl hl3 _ _ (path va') (index va' 12) rfl, g.same (path va') _ rfl]
    simp only [position_iff, true_and]

/-- A run of pages, the frames of which follow one another. -/
structure Range where
  start : ℕ
  stop : ℕ
  pa : Word
  attrs : Word

namespace Range

def Covers (r : Range) (va : Word) : Prop := r.start ≤ va.toNat ∧ va.toNat < r.stop

instance (r : Range) (va : Word) : Decidable (r.Covers va) :=
  inferInstanceAs (Decidable (_ ∧ _))

/-- The frame of a page is its physical address without the bits that an entry has no
room for. -/
def leaf (r : Range) (va : Word) : Word × Word :=
  ((r.pa + BitVec.ofNat 64 ((va.toNat - r.start) / 4096) * 4096) &&& paMask, r.attrs)

end Range

/-- The last range that covers the address counts. -/
def lookup (rs : List Range) (va : Word) : Option (Word × Word) :=
  (rs.reverse.find? fun r => decide (r.Covers va)).map fun r => r.leaf va

theorem lookup_snoc (rs : List Range) (r : Range) (va : Word) :
    lookup (rs ++ [r]) va = if r.Covers va then some (r.leaf va) else lookup rs va := by
  unfold lookup
  rw [List.reverse_append, List.reverse_singleton, List.singleton_append, List.find?_cons]
  by_cases h : r.Covers va <;> simp [h]

/-- The table is what the ranges say. -/
def Shows (fw : FwPt) (rs : List Range) : Prop := ∀ va, mcuWalk fw va = lookup rs va

theorem pageVa_toNat {base : Word} {i n : ℕ} (hi : i < n)
    (hfit : base.toNat + 4096 * n ≤ 2 ^ 48) :
    (base + BitVec.ofNat 64 i * 4096).toNat = base.toNat + 4096 * i := by
  rw [BitVec.toNat_add, BitVec.toNat_mul, BitVec.toNat_ofNat]
  change (base.toNat + i % 2 ^ 64 * 4096 % 2 ^ 64) % 2 ^ 64 = _
  omega

/-- A range that is one page longer. -/
theorem lookup_longer (rs : List Range) {start : ℕ} (haligned : start % 4096 = 0) (i : ℕ)
    (pa attrs va : Word) :
    lookup (rs ++ [⟨start, start + 4096 * (i + 1), pa, attrs⟩]) va =
      if va.toNat / 4096 = start / 4096 + i then
        some ((pa + BitVec.ofNat 64 i * 4096) &&& paMask, attrs)
      else lookup (rs ++ [⟨start, start + 4096 * i, pa, attrs⟩]) va := by
  rw [lookup_snoc, lookup_snoc]
  have hcovers : ∀ n, Range.Covers ⟨start, start + 4096 * n, pa, attrs⟩ va ↔
      start ≤ va.toNat ∧ va.toNat < start + 4096 * n := fun _ => Iff.rfl
  by_cases hhere : va.toNat / 4096 = start / 4096 + i
  · have hoff : (va.toNat - start) / 4096 = i := by omega
    rw [if_pos ((hcovers _).mpr (by omega)), if_pos hhere, Range.leaf, hoff]
  · rw [if_neg hhere]
    by_cases hin : start ≤ va.toNat ∧ va.toNat < start + 4096 * i
    · rw [if_pos ((hcovers _).mpr (by omega)), if_pos ((hcovers _).mpr hin)]
      rfl
    · rw [if_neg (mt (hcovers _).mp (by omega)), if_neg (mt (hcovers _).mp hin)]

theorem mapPages_spec (I : Inv fw) (base pa attrs : Word) (i left : ℕ) :
    ∃ st fw', mapPages base pa attrs i left fw = (st, fw') ∧ Inv fw' ∧ fw'.pool = fw.pool ∧
      fw'.mcuDynNextVa = fw.mcuDynNextVa ∧ (st = .success → ValidAttrs attrs →
        base.toNat % 4096 = 0 → base.toNat + 4096 * (i + left) ≤ 2 ^ 48 →
        ∀ rs, Shows fw (rs ++ [⟨base.toNat, base.toNat + 4096 * i, pa, attrs⟩]) →
          Shows fw' (rs ++ [⟨base.toNat, base.toNat + 4096 * (i + left), pa, attrs⟩])) := by
  induction left generalizing fw i with
  | zero => exact ⟨.success, fw, rfl, I, rfl, rfl, fun _ _ _ _ _ h => h⟩
  | succ left ih =>
    obtain ⟨st, fw₁, hrun, I₁, hpool, hdyn, hwalk⟩ :=
      ptMap4k_spec I (base + BitVec.ofNat 64 i * 4096) (pa + BitVec.ofNat 64 i * 4096) attrs
    by_cases hst : st = .success
    · subst hst
      obtain ⟨st, fw₂, hrest, I₂, hpool₂, hdyn₂, hshows⟩ := ih I₁ (i + 1)
      refine ⟨st, fw₂, by simp only [mapPages, hrun, hrest], I₂, hpool₂.trans hpool,
        hdyn₂.trans hdyn, ?_⟩
      intro hst hattrs haligned hfit rs hrs
      have hcount : i + 1 + left = i + (left + 1) := by omega
      rw [hcount] at hshows
      apply hshows hst hattrs haligned hfit
      intro va
      have hva := pageVa_toNat (i := i) (by omega) hfit
      rw [lookup_longer rs haligned]
      by_cases hsmall : va.toNat < 2 ^ 48
      · have hpage : pageOf (base + BitVec.ofNat 64 i * 4096) = base.toNat / 4096 + i := by
          rw [pageOf_small (by omega), hva]
          omega
        rw [hwalk va hsmall, pageOf_small hsmall, hpage, makeL3Pte, leafOf_page _ _ hattrs,
          hrs va]
        simp only [true_and]
      · rw [if_neg (by omega), ← hrs va, mcuWalk, mcuWalk, if_neg hsmall, if_neg hsmall]
    · refine ⟨st, fw₁, ?_, I₁, hpool, hdyn, fun h => absurd h hst⟩
      simp only [mapPages, hrun]

/-- Also when the loop stops early, an address has a page of the run or what it had before. -/
theorem mapPages_walk (I : Inv fw) (base pa attrs : Word) (i left : ℕ) (va : Word)
    (hva : va.toNat < 2 ^ 48) :
    mcuWalk (mapPages base pa attrs i left fw).2 va = mcuWalk fw va ∨
      ∃ j, i ≤ j ∧ j < i + left ∧ pageOf va = pageOf (base + BitVec.ofNat 64 j * 4096) ∧
        mcuWalk (mapPages base pa attrs i left fw).2 va =
          leafOf (makeL3Pte (pa + BitVec.ofNat 64 j * 4096) attrs) := by
  induction left generalizing fw i with
  | zero => exact .inl rfl
  | succ left ih =>
    obtain ⟨st, fw₁, hrun, I₁, -, -, hwalk⟩ :=
      ptMap4k_spec I (base + BitVec.ofNat 64 i * 4096) (pa + BitVec.ofNat 64 i * 4096) attrs
    have hone := hwalk va hva
    have hhere : mcuWalk fw₁ va = mcuWalk fw va ∨
        pageOf va = pageOf (base + BitVec.ofNat 64 i * 4096) ∧
          mcuWalk fw₁ va = leafOf (makeL3Pte (pa + BitVec.ofNat 64 i * 4096) attrs) := by
      by_cases h : st = .success ∧ pageOf va = pageOf (base + BitVec.ofNat 64 i * 4096)
      · exact .inr ⟨h.2, hone.trans (if_pos h)⟩
      · exact .inl (hone.trans (if_neg h))
    by_cases hst : st = .success
    · subst hst
      simp only [mapPages, hrun]
      rcases ih I₁ (i + 1) with hsame | ⟨j, hij, hj, hpage, hleaf⟩
      · rw [hsame]
        exact hhere.imp_right fun h => ⟨i, le_rfl, by omega, h⟩
      · exact .inr ⟨j, by omega, by omega, hpage, hleaf⟩
    · have hstop : (mapPages base pa attrs i (left + 1) fw).2 = fw₁ := by
        simp only [mapPages, hrun]
      rw [hstop]
      exact hhere.imp_right fun h => ⟨i, le_rfl, by omega, h⟩

theorem Shows.empty {rs : List Range} (h : Shows fw rs) (n : ℕ) (pa attrs : Word) :
    Shows fw (rs ++ [⟨n, n, pa, attrs⟩]) := by
  intro va
  rw [lookup_snoc, if_neg (by simp only [Range.Covers]; omega)]
  exact h va

def PageAligned (s : FwSection) : Prop :=
  s.vaStart.toNat % 4096 = 0 ∧ s.vaEnd.toNat % 4096 = 0

instance (s : FwSection) : Decidable (PageAligned s) := inferInstanceAs (Decidable (_ ∧ _))

theorem low_bits {x : Ulong} (h : x &&& 0xfff = 0) : x.toNat % 4096 = 0 := by
  have hmask : (0xfff : Ulong).toNat = 2 ^ 12 - 1 := by decide
  have := congrArg BitVec.toNat h
  rwa [BitVec.toNat_and, hmask, Nat.and_two_pow_sub_one_eq_mod] at this

/-- The parser lets no other section through. -/
theorem accepted_aligned {img : Image} {os : List ℕ} (A : Accepted img os)
    (pa : ℕ → BitVec 64) :
    ∀ s ∈ (os.filter (IsSection img ·)).mapIdx (sectionAt img pa), PageAligned s := by
  intro s hs
  obtain ⟨i, hi, rfl⟩ := List.mem_mapIdx.mp hs
  obtain ⟨hmem, hsection⟩ := List.mem_filter.mp (List.getElem_mem hi)
  have G := (A.entries _ hmem).iface (of_decide_eq_true hsection).1
  exact ⟨low_bits G.aligned.1, low_bits G.aligned.2⟩

/-- A section without a backing, or without a page, is left out. -/
def sectionRange (s : FwSection) : Option Range :=
  match s.backingPa with
  | none => none
  | some pa =>
    if s.vaEnd ≤ s.vaStart then none
    else some ⟨s.vaStart.toNat, s.vaEnd.toNat, pa, sectionPteAttrs s.flags⟩

theorem sectionPteAttrs_valid (flags : Ulong) : ValidAttrs (sectionPteAttrs flags) := by
  have h := page_attrs_valid
  unfold sectionPteAttrs
  dsimp only
  split
  · exact h _ (by simp)
  split
  · exact h _ (by simp)
  split
  · exact h _ (by simp)
  · exact h _ (by simp)

theorem buildPtForSections_spec (I : Inv fw) (ss : List FwSection)
    (haligned : ∀ s ∈ ss, PageAligned s) :
    ∃ st fw', buildPtForSections ss fw = (st, fw') ∧ Inv fw' ∧ fw'.pool = fw.pool ∧
      (st = .success → ∀ rs, Shows fw rs → Shows fw' (rs ++ ss.filterMap sectionRange)) := by
  induction ss generalizing fw with
  | nil => exact ⟨.success, fw, rfl, I, rfl, fun _ rs h => by simpa using h⟩
  | cons s ss ih =>
    have htail : ∀ s ∈ ss, PageAligned s := fun s hs => haligned s (List.mem_cons_of_mem _ hs)
    cases hpa : s.backingPa with
    | none =>
      obtain ⟨st, fw', hrun, I', hpool, hshows⟩ := ih I htail
      have hrange : sectionRange s = none := by simp only [sectionRange, hpa]
      refine ⟨st, fw', by simp only [buildPtForSections, hpa, hrun], I', hpool, ?_⟩
      rwa [List.filterMap_cons_none hrange]
    | some pa =>
      by_cases hempty : s.vaEnd ≤ s.vaStart
      · obtain ⟨st, fw', hrun, I', hpool, hshows⟩ := ih I htail
        have hrange : sectionRange s = none := by simp only [sectionRange, hpa, if_pos hempty]
        refine ⟨st, fw', by simp only [buildPtForSections, hpa, if_pos hempty, hrun], I',
          hpool, ?_⟩
        rwa [List.filterMap_cons_none hrange]
      · obtain ⟨st, fw₁, hrun, I₁, hpool₁, -, hshows₁⟩ :=
          mapPages_spec I (s.vaStart.setWidth 64) pa (sectionPteAttrs s.flags) 0
            ((s.vaEnd.toNat - s.vaStart.toNat + 4095) / 4096)
        by_cases hst : st = .success
        · subst hst
          obtain ⟨st, fw', hrest, I', hpool, hshows⟩ := ih I₁ htail
          refine ⟨st, fw', ?_, I', hpool.trans hpool₁, ?_⟩
          · simp only [buildPtForSections, hpa, if_neg hempty, hrun, hrest]
          · intro hst rs hrs
            obtain ⟨hstart, hstop⟩ := haligned s List.mem_cons_self
            have hlt : s.vaStart.toNat < s.vaEnd.toNat := not_le.mp hempty
            have hend := s.vaEnd.isLt
            have hbase : (s.vaStart.setWidth 64).toNat = s.vaStart.toNat := by
              rw [BitVec.toNat_setWidth]
              omega
            have hcount : s.vaStart.toNat +
                4096 * ((s.vaEnd.toNat - s.vaStart.toNat + 4095) / 4096) = s.vaEnd.toNat := by
              omega
            have hrange : sectionRange s =
                some ⟨s.vaStart.toNat, s.vaEnd.toNat, pa, sectionPteAttrs s.flags⟩ := by
              simp only [sectionRange, hpa, if_neg hempty]
            have hone := hshows₁ rfl (sectionPteAttrs_valid _) (by omega) (by omega) rs
              (hrs.empty _ _ _)
            rw [hbase, Nat.zero_add, hcount] at hone
            have := hshows hst _ hone
            rwa [List.append_assoc, List.singleton_append,
              ← List.filterMap_cons_some hrange] at this
        · refine ⟨st, fw₁, ?_, I₁, hpool₁, fun h => absurd h hst⟩
          simp only [buildPtForSections, hpa, if_neg hempty, hrun]

theorem and_not_low (x : Word) {k : ℕ} (hk : k < 64) :
    (x &&& ~~~(BitVec.ofNat 64 (2 ^ k) - 1)).toNat = x.toNat / 2 ^ k * 2 ^ k := by
  have hmask : BitVec.ofNat 64 (2 ^ k) - 1 = BitVec.ofNat 64 (2 ^ k - 1) := by
    have hpow : 0 < 2 ^ k := by positivity
    apply BitVec.eq_of_toNat_eq
    have hlt : 2 ^ k < 2 ^ 64 := Nat.pow_lt_pow_right (by decide) hk
    rw [BitVec.toNat_sub, BitVec.toNat_ofNat, BitVec.toNat_ofNat]
    change (2 ^ 64 - 1 + _) % _ = _
    omega
  have hbits : x &&& ~~~(BitVec.ofNat 64 (2 ^ k) - 1) = (x >>> k) <<< k := by
    rw [hmask]
    apply BitVec.eq_of_getLsbD_eq
    intro i hi
    rw [BitVec.getLsbD_and, BitVec.getLsbD_not, BitVec.getLsbD_ofNat, Nat.testBit_two_pow_sub_one,
      BitVec.getLsbD_shiftLeft, BitVec.getLsbD_ushiftRight]
    by_cases h : i < k
    · simp [h]
    · simp [h, hi, Nat.add_sub_cancel' (not_lt.mp h)]
  have hle : x.toNat / 2 ^ k * 2 ^ k ≤ x.toNat := Nat.div_mul_le_self _ _
  rw [hbits, BitVec.toNat_shiftLeft, BitVec.toNat_ushiftRight, Nat.shiftLeft_eq,
    Nat.shiftRight_eq_div_pow, Nat.mod_eq_of_lt (lt_of_le_of_lt hle x.isLt)]

theorem and_not_page (x : Word) : (x &&& ~~~4095).toNat = x.toNat / 4096 * 4096 := by
  have hmask : (4095 : Word) = BitVec.ofNat 64 (2 ^ 12) - 1 := by decide
  rw [hmask, and_not_low x (by decide)]
  omega

/-- The result of rounding up to a power of two. -/
theorem roundUp_bounds (x : ℕ) {a : ℕ} (ha : 0 < a) :
    x ≤ (x + a - 1) / a * a ∧ (x + a - 1) / a * a ≤ x + a - 1 := by
  have hdiv := Nat.div_add_mod (x + a - 1) a
  have hmod := Nat.mod_lt (x + a - 1) ha
  rw [Nat.mul_comm] at hdiv
  omega

theorem maxEnd_bounds (ss : List FwSection) :
    (∀ s ∈ ss, s.vaEnd.toNat ≤ (maxEnd ss).toNat) ∧ (maxEnd ss).toNat < 2 ^ 32 := by
  have hstep : ∀ (ss : List FwSection) (m : Word), m.toNat < 2 ^ 32 →
      let r := ss.foldl
        (fun m s => if s.vaEnd.setWidth 64 > m then s.vaEnd.setWidth 64 else m) m
      m.toNat ≤ r.toNat ∧ (∀ s ∈ ss, s.vaEnd.toNat ≤ r.toNat) ∧ r.toNat < 2 ^ 32 := by
    intro ss
    induction ss with
    | nil => exact fun m hm => ⟨le_rfl, by simp, hm⟩
    | cons s ss ih =>
      intro m hm
      have hend := s.vaEnd.isLt
      have hwide : (s.vaEnd.setWidth 64).toNat = s.vaEnd.toNat := by
        rw [BitVec.toNat_setWidth]
        omega
      rw [List.foldl_cons]
      by_cases h : s.vaEnd.setWidth 64 > m
      · have hlt : m.toNat < (s.vaEnd.setWidth 64).toNat := h
        rw [if_pos h]
        obtain ⟨h₁, h₂, h₃⟩ := ih (s.vaEnd.setWidth 64) (by omega)
        exact ⟨by omega, List.forall_mem_cons.mpr ⟨by omega, h₂⟩, h₃⟩
      · have hle : (s.vaEnd.setWidth 64).toNat ≤ m.toNat := not_lt.mp h
        rw [if_neg h]
        obtain ⟨h₁, h₂, h₃⟩ := ih m hm
        exact ⟨h₁, List.forall_mem_cons.mpr ⟨by omega, h₂⟩, h₃⟩
  exact (hstep ss 0 (by decide)).2

theorem mcuWalk_dynNext (fw : FwPt) (va' va : Word) :
    mcuWalk { fw with mcuDynNextVa := va' } va = mcuWalk fw va := rfl

/-- The walk does not look at where the next buffer goes. -/
theorem Shows.initDyn {rs : List Range} (h : Shows fw rs) (ss : List FwSection) :
    Shows (initMcuDynVa fw ss) rs := by
  intro va
  unfold initMcuDynVa
  rw [mcuWalk_dynNext]
  exact h va

/-- The first address for the driver's buffers is past every section. -/
theorem dynStart_bounds (fw : FwPt) (ss : List FwSection) :
    (∀ s ∈ ss, s.vaEnd.toNat ≤ (initMcuDynVa fw ss).mcuDynNextVa.toNat) ∧
      (initMcuDynVa fw ss).mcuDynNextVa.toNat ≤ 2 ^ 33 := by
  obtain ⟨hends, hmax⟩ := maxEnd_bounds ss
  have hnext : ((maxEnd ss + 65535) &&& ~~~65535).toNat =
      ((maxEnd ss).toNat + 65536 - 1) / 65536 * 65536 := by
    have hmask : ~~~(65535 : Word) = ~~~(BitVec.ofNat 64 (2 ^ 16) - 1) := by decide
    have hround : (65535 : Word).toNat = 65535 := rfl
    rw [hmask, and_not_low _ (by decide), BitVec.toNat_add, hround]
    omega
  have hround := roundUp_bounds (maxEnd ss).toNat (a := 65536) (by decide)
  have hval : (initMcuDynVa fw ss).mcuDynNextVa = (maxEnd ss + 65535) &&& ~~~65535 := by
    have hle : ¬((maxEnd ss + 65535) &&& ~~~65535) < maxEnd ss := by
      rw [BitVec.lt_def, hnext]
      omega
    exact if_neg hle
  rw [hval, hnext]
  refine ⟨fun s hs => ?_, by omega⟩
  have := hends s hs
  omega

/-- The alignment is a power of two, and the attributes are those of a page. -/
structure GoodCall (c : MapCall) : Prop where
  align : ∃ k, 12 ≤ k ∧ k < 64 ∧ c.align = BitVec.ofNat 64 (2 ^ k)
  attrs : ValidAttrs c.attrs

def dynRange (c : MapCall) (base : Word) : Range where
  start := base.toNat
  stop := base.toNat + 4096 * ((c.bytes.toNat + 4095) / 4096)
  pa := c.hostPa
  attrs := c.attrs

theorem Inv.setDynNext (I : Inv fw) (va : Word) : Inv { fw with mcuDynNextVa := va } :=
  ⟨I.rootHost, I.rootPa, I.used, I.inPool, I.tree, I.blank⟩

theorem mcuMapContiguous_spec (I : Inv fw) {c : MapCall} (hc : GoodCall c) :
    ∃ st base fw', mcuMapContiguous fw c = (st, base, fw') ∧ Inv fw' ∧ fw'.pool = fw.pool ∧
      (st = .success → fw.mcuDynNextVa.toNat ≤ 2 ^ 48 → (dynRange c base).stop ≤ 2 ^ 48 →
        fw.mcuDynNextVa.toNat ≤ base.toNat ∧
        fw'.mcuDynNextVa.toNat = (dynRange c base).stop ∧
        ∀ rs, Shows fw rs → Shows fw' (rs ++ [dynRange c base])) := by
  by_cases hargs : !c.hostVa ∨ c.bytes = 0 ∨ c.align < 4096
  · refine ⟨.invalidParameter, 0, fw, ?_, I, rfl, by simp⟩
    simp only [mcuMapContiguous, if_pos hargs]
  obtain ⟨st, fw', hrun, I', hpool, -, hshows⟩ :=
    mapPages_spec I ((fw.mcuDynNextVa + c.align - 1) &&& ~~~(c.align - 1)) c.hostPa c.attrs 0
      ((c.bytes + 4095).toNat / 4096)
  by_cases hst : st = .success
  · subst hst
    have hcall : mcuMapContiguous fw c =
        (.success, (fw.mcuDynNextVa + c.align - 1) &&& ~~~(c.align - 1), { fw' with
          mcuDynNextVa := ((fw.mcuDynNextVa + c.align - 1) &&& ~~~(c.align - 1)) +
            BitVec.ofNat 64 ((c.bytes + 4095).toNat / 4096) * 4096 }) := by
      simp only [mcuMapContiguous, if_neg hargs, hrun]
    refine ⟨.success, _, _, hcall, I'.setDynNext _, hpool, ?_⟩
    intro _ hnext hfit
    obtain ⟨k, hk12, hk64, halign⟩ := hc.align
    have hpow : 0 < 2 ^ k := by positivity
    have hle : 2 ^ k ≤ 2 ^ 63 := Nat.pow_le_pow_right (by decide) (by omega)
    have hval : c.align.toNat = 2 ^ k := by
      rw [halign, BitVec.toNat_ofNat]
      omega
    -- neither the sum nor the rounding wraps around
    have hsum : (fw.mcuDynNextVa + c.align - 1).toNat = fw.mcuDynNextVa.toNat + 2 ^ k - 1 := by
      rw [BitVec.toNat_sub, BitVec.toNat_add, hval]
      change (2 ^ 64 - 1 + _) % _ = _
      omega
    have hbase : ((fw.mcuDynNextVa + c.align - 1) &&& ~~~(c.align - 1)).toNat =
        (fw.mcuDynNextVa.toNat + 2 ^ k - 1) / 2 ^ k * 2 ^ k := by
      rw [← hsum, ← and_not_low _ hk64, ← halign]
    have hround := roundUp_bounds fw.mcuDynNextVa.toNat hpow
    have hdvd : 2 ^ 12 ∣ (fw.mcuDynNextVa.toNat + 2 ^ k - 1) / 2 ^ k * 2 ^ k :=
      Dvd.dvd.mul_left (Nat.pow_dvd_pow 2 hk12) _
    revert hshows hfit hbase
    generalize (fw.mcuDynNextVa + c.align - 1) &&& ~~~(c.align - 1) = base
    intro hshows hfit hbase
    unfold dynRange at hfit ⊢
    dsimp only at hfit ⊢
    have hpages : (c.bytes + 4095).toNat = c.bytes.toNat + 4095 := by
      rw [BitVec.toNat_add]
      change (_ + 4095) % _ = _
      omega
    rw [hpages] at hshows ⊢
    refine ⟨by omega, ?_, ?_⟩
    · rw [BitVec.toNat_add, BitVec.toNat_mul, BitVec.toNat_ofNat]
      change (base.toNat + _ % 2 ^ 64 * 4096 % 2 ^ 64) % 2 ^ 64 = _
      omega
    · intro rs hrs
      have := hshows rfl hc.attrs (by omega) (by omega) rs (hrs.empty _ _ _)
      rwa [Nat.zero_add] at this
  · refine ⟨st, 0, fw', ?_, I', hpool, fun h => absurd h hst⟩
    simp only [mcuMapContiguous, if_neg hargs, hrun]

def dynRanges (calls : List MapCall) (bases : List Word) : List Range :=
  List.zipWith dynRange calls bases

/-- Calls that succeed put their ranges one above the other. -/
theorem mapAll_spec (I : Inv fw) (calls : List MapCall) (hcalls : ∀ c ∈ calls, GoodCall c)
    (hnext : fw.mcuDynNextVa.toNat ≤ 2 ^ 48) {bases : List Word} {fw' : FwPt}
    (h : mapAll calls fw = some (bases, fw'))
    (hfit : ∀ r ∈ dynRanges calls bases, r.stop ≤ 2 ^ 48) :
    Inv fw' ∧ fw'.pool = fw.pool ∧
      (∀ rs, Shows fw rs → Shows fw' (rs ++ dynRanges calls bases)) ∧
      (∀ r ∈ dynRanges calls bases, fw.mcuDynNextVa.toNat ≤ r.start) ∧
      (dynRanges calls bases).Pairwise fun r r' => r.stop ≤ r'.start := by
  induction calls generalizing fw bases with
  | nil =>
    obtain ⟨rfl, rfl⟩ := Prod.mk.inj (Option.some.inj h)
    exact ⟨I, rfl, fun rs hrs => by simpa [dynRanges] using hrs, by simp [dynRanges],
      List.Pairwise.nil⟩
  | cons c calls ih =>
    obtain ⟨st, base, fw₁, hrun, I₁, hpool₁, hone⟩ :=
      mcuMapContiguous_spec I (hcalls c List.mem_cons_self)
    by_cases hst : st = .success
    · subst hst
      simp only [mapAll, hrun] at h
      obtain ⟨⟨bases', fw₂⟩, hrest, heq⟩ := Option.map_eq_some_iff.mp h
      obtain ⟨rfl, rfl⟩ := Prod.mk.inj heq
      have hranges : dynRanges (c :: calls) (base :: bases') =
          dynRange c base :: dynRanges calls bases' := rfl
      rw [hranges] at hfit ⊢
      obtain ⟨hhere, hfit'⟩ := List.forall_mem_cons.mp hfit
      obtain ⟨hbase, hend, hshows₁⟩ := hone rfl hnext hhere
      obtain ⟨I₂, hpool₂, hshows₂, habove, hpair⟩ :=
        ih I₁ (fun c hc => hcalls c (List.mem_cons_of_mem _ hc)) (by omega) hrest hfit'
      refine ⟨I₂, hpool₂.trans hpool₁, ?_, ?_, ?_⟩
      · intro rs hrs
        have := hshows₂ _ (hshows₁ rs hrs)
        rwa [List.append_assoc] at this
      · refine List.forall_mem_cons.mpr ⟨hbase, fun r hr => ?_⟩
        have hle : base.toNat ≤ (dynRange c base).stop := Nat.le_add_right _ _
        have := habove r hr
        omega
      · refine List.pairwise_cons.mpr ⟨fun r hr => ?_, hpair⟩
        rw [← hend]
        exact habove r hr
    · cases st <;> simp_all [mapAll]

/-- The block with its first page zeroed, which is the root. -/
structure Fresh (p : Pool) (fw : FwPt) : Prop where
  pool : fw.pool = p
  used : fw.ptUsed = 4096
  room : 4096 ≤ p.bytes
  rootHost : fw.rootHostVa = some (p.host p.pa)
  rootPa : fw.rootTablePa = p.pa
  zero : ∀ i, fw.phys p.pa i = 0

theorem initRoot_fresh {pool : Pool} {mem : Word → Fin 512 → Word}
    (h : initRoot pool mem = some fw) : Fresh pool fw := by
  have hpa : pool.pa + BitVec.ofNat 64 0 = pool.pa := by simp
  have hhost : pool.host pool.pa = pool.va + BitVec.ofNat 64 0 := by rw [← host_page, hpa]
  by_cases hroom : 0 + 4096 > pool.bytes
  · simp [initRoot, McuPageTable.ptAllocPage, hroom] at h
  · simp only [initRoot, McuPageTable.ptAllocPage, if_neg hroom] at h
    obtain rfl := Option.some.inj h
    refine ⟨rfl, rfl, by omega, by rw [hhost], hpa, fun i => ?_⟩
    simp only [FwPt.phys, hhost, zeroPage, if_pos]

theorem Fresh.inv {pool : Pool} (F : Fresh pool fw) : Inv fw := by
  have hpool := F.pool
  subst hpool
  have htables : tables fw = [fw.pool.pa] := by
    rw [tables, F.used]
    change [fw.pool.pa + BitVec.ofNat 64 0] = _
    simp
  have hblank : ∀ i, next (fw.phys fw.pool.pa i) = none := fun i => by rw [F.zero, next_zero]
  refine ⟨F.rootHost, F.rootPa, by rw [F.used], by rw [F.used]; exact F.room, ?_, ?_⟩
  · rw [htables]
    exact tree_single _ _ _ _ hblank
  · intro p n i hp hf hnone
    cases p with
    | nil =>
      obtain rfl := Option.some.inj hf
      exact F.zero i
    | cons j p => simp [follow, hblank] at hf

theorem Fresh.shows {pool : Pool} (F : Fresh pool fw) : Shows fw [] := by
  have hpool := F.pool
  subst hpool
  intro va
  have hnone : next (fw.phys fw.pool.pa (index va 39)) = none := by rw [F.zero, next_zero]
  rw [mcuWalk_translate F.inv]
  simp only [RadixTree.translate, path, follow, hnone, Option.bind_none, ite_self]
  rfl

/-- An entry of a table above the last level, by its path, that points at the table `k`. -/
def Descriptor (fw : FwPt) (d : List (Fin 512) × Fin 512) (k : Word) : Prop :=
  d.1.length < 3 ∧ ∃ n, follow next fw.phys fw.rootTablePa d.1 = some n ∧
    next (fw.phys n d.2) = some k

theorem Inv.descriptor (I : Inv fw) {d : List (Fin 512) × Fin 512} {k : Word}
    (h : Descriptor fw d k) :
    follow next fw.phys fw.pool.pa (d.1 ++ [d.2]) = some k ∧ (d.1 ++ [d.2]).length ≤ 3 := by
  obtain ⟨hp, n, hn, hk⟩ := h
  rw [I.rootPa] at hn
  refine ⟨?_, by simp; omega⟩
  rw [follow_snoc, hn]
  exact hk

theorem Inv.descriptor_unique (I : Inv fw) {d d' : List (Fin 512) × Fin 512} {k : Word}
    (h : Descriptor fw d k) (h' : Descriptor fw d' k) : d = d' := by
  obtain ⟨hf, hlen⟩ := I.descriptor h
  obtain ⟨hf', hlen'⟩ := I.descriptor h'
  have heq := List.append_inj' (I.tree.unique _ _ k hlen hlen' hf hf') rfl
  exact Prod.ext heq.1 (List.singleton_inj.mp heq.2)

/-- `k` is a page of the block other than the root. -/
theorem Inv.descriptor_page (I : Inv fw) {d : List (Fin 512) × Fin 512} {k : Word}
    (h : Descriptor fw d k) : k ≠ fw.rootTablePa ∧ ∃ i, k = fw.pool.page i ∧
      4096 * i + 4096 ≤ fw.ptUsed := by
  obtain ⟨hf, hlen⟩ := I.descriptor h
  obtain ⟨i, hi, rfl⟩ := mem_tables.mp (I.tree.owned _ _ hlen hf)
  refine ⟨fun hroot => ?_, i, rfl, by omega⟩
  rw [hroot, I.rootPa] at hf
  have hnil := I.tree.unique _ [] _ hlen (by simp) hf rfl
  simp at hnil

/-- No address belongs to both. -/
def Range.Disjoint (r r' : Range) : Prop := ∀ va, ¬(r.Covers va ∧ r'.Covers va)

/-- The addresses of a section, with or without a backing. -/
def InSection (s : FwSection) (va : Word) : Prop :=
  s.vaStart.toNat ≤ va.toNat ∧ va.toNat < s.vaEnd.toNat

/-- The sections in their order and the buffers above them are what the hardware finds, from
tables that are pages of the block, each of them in one place. -/
theorem walk_refines_ranges (pool : Pool) (mem : Word → Fin 512 → Word)
    (sections : List FwSection) (calls : List MapCall) (bases : List Word)
    (fw₀ fw₁ fw₂ : FwPt) (h₀ : initRoot pool mem = some fw₀)
    (haligned : ∀ s ∈ sections, PageAligned s)
    (h₁ : buildPtForSections sections fw₀ = (.success, fw₁))
    (hcalls : ∀ c ∈ calls, GoodCall c)
    (h₂ : mapAll calls (initMcuDynVa fw₁ sections) = some (bases, fw₂))
    (hfit : ∀ r ∈ dynRanges calls bases, r.stop ≤ 2 ^ 48) :
    (∀ va, mcuWalk fw₂ va =
      lookup (sections.filterMap sectionRange ++ dynRanges calls bases) va) ∧
    (dynRanges calls bases).Pairwise Range.Disjoint ∧
    (∀ s ∈ sections, ∀ r ∈ dynRanges calls bases, ∀ va, ¬(InSection s va ∧ r.Covers va)) ∧
    (∀ d k, Descriptor fw₂ d k → k ≠ fw₂.rootTablePa ∧
      ∃ i, k = pool.page i ∧ 4096 * i + 4096 ≤ pool.bytes) ∧
    (∀ d d' k, Descriptor fw₂ d k → Descriptor fw₂ d' k → d = d') ∧
    fw₂.ptUsed ≤ pool.bytes := by
  have F := initRoot_fresh h₀
  obtain ⟨st, fw, hrun, I₁, hpool₁, hshows₁⟩ := buildPtForSections_spec F.inv sections haligned
  obtain ⟨rfl, rfl⟩ := Prod.mk.inj (h₁.symm.trans hrun)
  obtain ⟨hends, hnext⟩ := dynStart_bounds fw₁ sections
  obtain ⟨I₂, hpool₂, hshows₂, habove, hpair⟩ :=
    mapAll_spec (I₁.setDynNext _) calls hcalls (hnext.trans (by norm_num)) h₂ hfit
  have hpool : fw₂.pool = pool := hpool₂.trans (hpool₁.trans F.pool)
  have hused := I₂.inPool
  rw [hpool] at hused
  refine ⟨hshows₂ _ ((hshows₁ rfl [] F.shows).initDyn sections), ?_, ?_, ?_, ?_, hused⟩
  · refine hpair.imp fun hle va hboth => ?_
    have := hboth.1.2
    have := hboth.2.1
    omega
  · intro s hs r hr va hboth
    have := hends s hs
    have : (initMcuDynVa fw₁ sections).mcuDynNextVa.toNat ≤ r.start := habove r hr
    have := hboth.1.2
    have := hboth.2.1
    omega
  · intro d k hd
    obtain ⟨hroot, i, hk, hi⟩ := I₂.descriptor_page hd
    exact ⟨hroot, i, by rw [hk, hpool], by omega⟩
  · exact fun d d' k hd hd' => I₂.descriptor_unique hd hd'

def smallPool : Pool := ⟨0xFFFF800010000000, 0x10000000, 0x100000, by decide, by decide⟩

/-- What the parser makes of the image with the shared section only. -/
def sharedSections : List FwSection :=
  ([20].filter (IsSection sharedOnly ·)).mapIdx (sectionAt sharedOnly fun _ => 0x20000000)

/-- A buffer that is to be aligned beyond the addresses that the hardware translates. -/
def farCall : MapCall := ⟨true, 0x30000000, 4096, 0x1000000000000, pageAttrRwNx⟩

def nearCall : MapCall := ⟨true, 0x30000000, 8192, 0x1000, pageAttrRwNx⟩

theorem goodCall_near : GoodCall nearCall := ⟨⟨12, by decide, by decide, by decide⟩, by decide⟩

theorem goodCall_far : GoodCall farCall := ⟨⟨48, by decide, by decide, by decide⟩, by decide⟩

/-- The page of the far buffer is found at the address zero, where no range is. -/
theorem far_buffer_aliases : Accepted sharedOnly [20] ∧ GoodCall farCall ∧
    ∃ fw₀ fw₁ fw₂ bases, initRoot smallPool (fun _ _ => 0) = some fw₀ ∧
      buildPtForSections sharedSections fw₀ = (.success, fw₁) ∧
      mapAll [farCall] (initMcuDynVa fw₁ sharedSections) = some (bases, fw₂) ∧
      lookup (sharedSections.filterMap sectionRange ++ dynRanges [farCall] bases) 0 = none ∧
      mcuWalk fw₂ 0 = some (0x30000000, pageAttrRwNx) := by
  refine ⟨sharedOnly_accepted, goodCall_far, _, _, _, _, rfl, rfl, rfl, ?_, ?_⟩
  · decide +kernel
  · decide +kernel

theorem near_buffers_found : ∃ fw₀ fw₁ fw₂ bases,
    initRoot smallPool (fun _ _ => 0) = some fw₀ ∧
    buildPtForSections sharedSections fw₀ = (.success, fw₁) ∧
    mapAll [nearCall, nearCall] (initMcuDynVa fw₁ sharedSections) = some (bases, fw₂) ∧
    mcuWalk fw₂ 0x4000000 = some (0x20000000, pageAttrRoNx) ∧
    mcuWalk fw₂ 0x4013000 = some (0x30001000, pageAttrRwNx) ∧ mcuWalk fw₂ 0x4014000 = none := by
  have haligned : ∀ s ∈ sharedSections, PageAligned s := accepted_aligned sharedOnly_accepted _
  have hcalls : ∀ c ∈ [nearCall, nearCall], GoodCall c := by
    simp [goodCall_near]
  have hfit : ∀ r ∈ dynRanges [nearCall, nearCall] [0x4010000, 0x4012000], r.stop ≤ 2 ^ 48 := by
    decide +kernel
  have hwalk := (walk_refines_ranges smallPool (fun _ _ => 0) sharedSections [nearCall, nearCall]
    [0x4010000, 0x4012000] _ _ _ rfl haligned rfl hcalls rfl hfit).1
  refine ⟨_, _, _, _, rfl, rfl, rfl, ?_, ?_, ?_⟩
  · exact (hwalk 0x4000000).trans (by decide +kernel)
  · exact (hwalk 0x4013000).trans (by decide +kernel)
  · exact (hwalk 0x4014000).trans (by decide +kernel)

end WinMali.McuPageTableMap
