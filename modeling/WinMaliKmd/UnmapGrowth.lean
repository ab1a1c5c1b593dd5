import WinMaliKmd.ReservedWindows
import WinMaliKmd.TableGrowth

/-!
# An unmap that allocates

`VmUnmap` finds its leaves with the helper that `VmMap` uses, and that helper makes
the tables it does not find. Only a memory manager that has nothing to give keeps an
unmap of unmapped pages from adding tables.
-/

set_option autoImplicit false

namespace WinMali.UnmapGrowth
open WinMali.AsSlots WinMali.Lpae WinMali.RadixTree WinMali.VmPageTable WinMali.VmPageTableMap
  WinMali.VmLeafWrites WinMali.TableGrowth
open WinMali.ReservedWindows (translation translation_eq unmap_keeps)

variable {supply : ℕ → PtReply} {root : Word} {pt pt' : VmPt}

def unlinked (pt : VmPt) (root gpuVa : Word) (i n : ℕ) : ℕ :=
  (List.range' i n).countP fun k => decide ¬Linked pt root (path (pageVa gpuVa k))

def TablePage (pt : VmPt) (n : Word) : Prop :=
  ∃ root, pt.rootVa = some root ∧ ∃ p : Path, p.length ≤ 3 ∧ follow next pt.mem root p = some n

/-- The first request for each page that has no leaf table is turned down. -/
def Starved (supply : ℕ → PtReply) (pt : VmPt) (gpuVa : Word) (count : ℕ) : Prop :=
  ∀ root, pt.rootVa = some root →
    ∀ j < unlinked pt root gpuVa 0 count, ¬Granted (supply (pt.calls + j))

theorem unlinked_succ (pt : VmPt) (root gpuVa : Word) (i n : ℕ) :
    unlinked pt root gpuVa i (n + 1) = unlinked pt root gpuVa (i + 1) n +
      if Linked pt root (path (pageVa gpuVa i)) then 0 else 1 := by
  unfold unlinked
  rw [List.range'_succ, List.countP_cons]
  by_cases h : Linked pt root (path (pageVa gpuVa i)) <;> simp [h]

theorem unlinked_congr {pt pt' : VmPt} (root gpuVa : Word)
    (h : ∀ q : Path, q.length ≤ 3 → (Linked pt' root q ↔ Linked pt root q)) (i n : ℕ) :
    unlinked pt' root gpuVa i n = unlinked pt root gpuVa i n := by
  unfold unlinked
  apply List.countP_congr
  intro k _
  simp [h (path (pageVa gpuVa k)) (by simp [path])]

theorem linked_prefix {p q : Path} (h : Linked pt root (p ++ q)) : Linked pt root p := by
  unfold Linked at h ⊢
  rw [follow_append] at h
  cases hp : follow next pt.mem root p with
  | none => simp [hp] at h
  | some n => rfl

theorem path_split (va : Word) : path va = ([index va 39, index va 30] : Path) ++ [index va 21] :=
  rfl

theorem walk_linked (G : Good supply root pt) {va : Word} (h : Linked pt root (path va)) :
    ∃ l3, ptWalkToLeaf supply pt root va = (.ok l3, pt) ∧
      follow next pt.mem root (path va) = some l3 := by
  have h2 : Linked pt root ([index va 39] ++ [index va 30]) := linked_prefix (path_split va ▸ h)
  have h1 : Linked pt root ([] ++ [index va 39]) := linked_prefix h2
  obtain ⟨l1, hd1, hf1⟩ := descend_linked G (by simp) rfl h1
  obtain ⟨l2, hd2, hf2⟩ := descend_linked G (by simp) hf1 h2
  obtain ⟨l3, hd3, hf3⟩ := descend_linked G (by simp) hf2 h
  exact ⟨l3, by simp only [ptWalkToLeaf, hd1, hd2, hd3], hf3⟩

/-- Without a page for the first missing table the walk ends and leaves things as they are. -/
theorem walk_refused (hs : Honest supply) (G : Good supply root pt) {va : Word}
    (hno : ¬Linked pt root (path va)) (hr : ¬Granted (supply pt.calls)) :
    ∃ pt', ptWalkToLeaf supply pt root va = (.error .insufficientResources, pt') ∧
      Good supply root pt' ∧ Kept root pt pt' ∧ pt'.calls = pt.calls + 1 := by
  by_cases h1 : Linked pt root ([] ++ [index va 39])
  · obtain ⟨l1, hd1, hf1⟩ := descend_linked G (by simp) rfl h1
    by_cases h2 : Linked pt root ([] ++ [index va 39] ++ [index va 30])
    · obtain ⟨l2, hd2, hf2⟩ := descend_linked G (by simp) hf1 h2
      obtain ⟨pt', hd3, G', K, -, hcalls⟩ := (descend_absent hs G (by simp) hf2 hno).2 hr
      exact ⟨pt', by simp only [ptWalkToLeaf, hd1, hd2, hd3], G', K, hcalls⟩
    · obtain ⟨pt', hd2, G', K, -, hcalls⟩ := (descend_absent hs G (by simp) hf1 h2).2 hr
      exact ⟨pt', by simp only [ptWalkToLeaf, hd1, hd2], G', K, hcalls⟩
  · obtain ⟨pt', hd1, G', K, -, hcalls⟩ := (descend_absent hs G (by simp) rfl h1).2 hr
    exact ⟨pt', by simp only [ptWalkToLeaf, hd1], G', K, hcalls⟩

theorem descend_appends (hs : Honest supply) (G : Good supply root pt) {p : Path} {l : Word}
    (hp : p.length < 3) (hf : follow next pt.mem root p = some l) (i : Fin 512) :
    ∃ reply pt' more, ptDescend supply pt l i = (reply, pt') ∧ Good supply root pt' ∧
      pt'.allocatedPages = pt.allocatedPages ++ more ∧
      (∀ k, reply = .ok k → follow next pt'.mem root (p ++ [i]) = some k) ∧
      (Linked pt root (p ++ [i]) → pt' = pt ∧ ∃ k, reply = .ok k) ∧
      (¬Linked pt root (p ++ [i]) → Granted (supply pt.calls) → more ≠ []) := by
  by_cases hlink : Linked pt root (p ++ [i])
  · obtain ⟨k, hd, hk⟩ := descend_linked G hp hf hlink
    refine ⟨_, pt, [], hd, G, by simp, ?_, fun _ => ⟨rfl, k, rfl⟩, fun h => absurd hlink h⟩
    rintro q ⟨⟩
    exact hk
  · obtain ⟨hyes, hno⟩ := descend_absent hs G hp hf hlink
    by_cases hg : Granted (supply pt.calls)
    · obtain ⟨k, pt', hd, G', -, hk, hpages⟩ := hyes hg
      refine ⟨_, pt', [k], hd, G', hpages, ?_, fun h => absurd h hlink, by simp⟩
      rintro q ⟨⟩
      exact hk
    · obtain ⟨pt', hd, G', K, -⟩ := hno hg
      exact ⟨_, pt', [], hd, G', by rw [K.allocatedPages, List.append_nil], by simp,
        fun h => absurd h hlink, fun _ h => absurd h hg⟩

theorem walk_appends (hs : Honest supply) (G : Good supply root pt) (va : Word) :
    ∃ reply pt' more, ptWalkToLeaf supply pt root va = (reply, pt') ∧ Good supply root pt' ∧
      pt'.allocatedPages = pt.allocatedPages ++ more ∧
      (∀ l3, reply = .ok l3 → follow next pt'.mem root (path va) = some l3) ∧
      (¬Linked pt root (path va) → Granted (supply pt.calls) → more ≠ []) := by
  obtain ⟨r0, pt0, more0, hd0, G0, hp0, hok0, hsame0, hgrow0⟩ :=
    descend_appends hs G (p := []) (by simp) rfl (index va 39)
  cases r0 with
  | error st =>
    refine ⟨.error st, pt0, more0, by simp only [ptWalkToLeaf, hd0], G0, hp0, by simp,
      fun _ hg => hgrow0 (fun h => ?_) hg⟩
    obtain ⟨-, k, hk⟩ := hsame0 h
    cases hk
  | ok l1 =>
    obtain ⟨r1, pt1, more1, hd1, G1, hp1, hok1, hsame1, hgrow1⟩ :=
      descend_appends hs G0 (by simp) (hok0 l1 rfl) (index va 30)
    cases r1 with
    | error st =>
      refine ⟨.error st, pt1, more0 ++ more1, by simp only [ptWalkToLeaf, hd0, hd1], G1,
        by rw [hp1, hp0, List.append_assoc], by simp, fun hno hg hnil => ?_⟩
      obtain ⟨hnil0, hnil1⟩ := List.append_eq_nil_iff.mp hnil
      by_cases h0 : Linked pt root ([] ++ [index va 39])
      · obtain ⟨rfl, -⟩ := hsame0 h0
        refine hgrow1 (fun h => ?_) hg hnil1
        obtain ⟨-, k, hk⟩ := hsame1 h
        cases hk
      · exact hgrow0 h0 hg hnil0
    | ok l2 =>
      obtain ⟨r2, pt2, more2, hd2, G2, hp2, hok2, -, hgrow2⟩ :=
        descend_appends hs G1 (by simp) (hok1 l2 rfl) (index va 21)
      refine ⟨r2, pt2, more0 ++ more1 ++ more2, by simp only [ptWalkToLeaf, hd0, hd1, hd2], G2,
        by simp [hp2, hp1, hp0], hok2, fun hno hg hnil => ?_⟩
      obtain ⟨hnil01, hnil2⟩ := List.append_eq_nil_iff.mp hnil
      obtain ⟨hnil0, hnil1⟩ := List.append_eq_nil_iff.mp hnil01
      by_cases h0 : Linked pt root ([] ++ [index va 39])
      · obtain ⟨rfl, -⟩ := hsame0 h0
        by_cases h1 : Linked pt0 root ([] ++ [index va 39] ++ [index va 30])
        · obtain ⟨rfl, -⟩ := hsame1 h1
          exact hgrow2 hno hg hnil2
        · exact hgrow1 h1 hg hnil1
      · exact hgrow0 h0 hg hnil0

theorem Good.setLeaf_zero (G : Good supply root pt) {va l3 : Word}
    (hf : follow next pt.mem root (path va) = some l3) :
    Good supply root (setLeaf pt l3 va 0 none) ∧ Kept root pt (setLeaf pt l3 va 0 none) := by
  have h := G.setLeaf hf 0
  rw [leafOf_zero] at h
  exact ⟨h, fun q hq => G.tree.leaf_follow rfl hf (index va 12) 0 q hq, rfl⟩

theorem unmapLoop_appends (hs : Honest supply) (G : Good supply root pt) (gpuVa : Word)
    (i left : ℕ) :
    ∃ more, (vmUnmapLoop supply root gpuVa i left pt).allocatedPages =
      pt.allocatedPages ++ more := by
  induction left generalizing i pt with
  | zero => exact ⟨[], by simp [vmUnmapLoop]⟩
  | succ left ih =>
    obtain ⟨reply, pt1, more, hw, G1, hpages, hok, -⟩ := walk_appends hs G (pageVa gpuVa i)
    cases reply with
    | error st =>
      obtain ⟨rest, hrest⟩ := ih G1 (i + 1)
      refine ⟨more ++ rest, ?_⟩
      simp only [vmUnmapLoop, hw]
      rw [hrest, hpages, List.append_assoc]
    | ok l3 =>
      obtain ⟨G2, K⟩ := Good.setLeaf_zero G1 (hok l3 rfl)
      obtain ⟨rest, hrest⟩ := ih G2 (i + 1)
      refine ⟨more ++ rest, ?_⟩
      simp only [vmUnmapLoop, hw]
      rw [hrest, K.allocatedPages, hpages, List.append_assoc]

/-- As long as nothing is granted, every page without a leaf table costs one request. -/
theorem unmapLoop_starved (hs : Honest supply) (G : Good supply root pt) (gpuVa : Word)
    (i left : ℕ)
    (hr : ∀ j < unlinked pt root gpuVa i left, ¬Granted (supply (pt.calls + j))) :
    Kept root pt (vmUnmapLoop supply root gpuVa i left pt) := by
  induction left generalizing i pt with
  | zero => exact Kept.rfl
  | succ left ih =>
    rw [unlinked_succ] at hr
    by_cases hlink : Linked pt root (path (pageVa gpuVa i))
    · obtain ⟨l3, hw, hf⟩ := walk_linked G hlink
      obtain ⟨G', K⟩ := Good.setLeaf_zero G hf
      rw [if_pos hlink, Nat.add_zero, ← unlinked_congr root gpuVa K.linked] at hr
      simp only [vmUnmapLoop, hw]
      exact K.trans (ih G' (i + 1) hr)
    · rw [if_neg hlink] at hr
      obtain ⟨pt', hw, G', K, hcalls⟩ := walk_refused hs G hlink (hr 0 (by omega))
      simp only [vmUnmapLoop, hw]
      refine K.trans (ih G' (i + 1) fun j hj => ?_)
      rw [unlinked_congr root gpuVa K.linked] at hj
      have hnext := hr (j + 1) (by omega)
      rwa [hcalls, Nat.add_assoc, Nat.add_comm 1 j]

theorem unmapLoop_fed (hs : Honest supply) (G : Good supply root pt) (gpuVa : Word)
    (i left : ℕ) {j : ℕ} (hj : j < unlinked pt root gpuVa i left)
    (hg : Granted (supply (pt.calls + j))) :
    (vmUnmapLoop supply root gpuVa i left pt).allocatedPages ≠ pt.allocatedPages := by
  induction left generalizing i j pt with
  | zero => simp [unlinked] at hj
  | succ left ih =>
    rw [unlinked_succ] at hj
    by_cases hlink : Linked pt root (path (pageVa gpuVa i))
    · obtain ⟨l3, hw, hf⟩ := walk_linked G hlink
      obtain ⟨G', K⟩ := Good.setLeaf_zero G hf
      rw [if_pos hlink, Nat.add_zero, ← unlinked_congr root gpuVa K.linked] at hj
      simp only [vmUnmapLoop, hw]
      exact ih G' (i + 1) hj hg
    · rw [if_neg hlink] at hj
      by_cases h0 : Granted (supply pt.calls)
      · obtain ⟨reply, pt1, more, hw, G1, hpages, hok, hgrow⟩ :=
          walk_appends hs G (pageVa gpuVa i)
        have hmore := hgrow hlink h0
        -- what the walk of this page added stays
        have hlong : ∀ pt2, Good supply root pt2 → pt2.allocatedPages = pt1.allocatedPages →
            (vmUnmapLoop supply root gpuVa (i + 1) left pt2).allocatedPages ≠
              pt.allocatedPages := by
          intro pt2 G2 h2 heq
          obtain ⟨rest, hrest⟩ := unmapLoop_appends hs G2 gpuVa (i + 1) left
          rw [hrest, h2, hpages, List.append_assoc] at heq
          exact hmore (List.append_eq_nil_iff.mp (List.append_right_eq_self.mp heq)).1
        cases reply with
        | error st =>
          simp only [vmUnmapLoop, hw]
          exact hlong pt1 G1 rfl
        | ok l3 =>
          obtain ⟨G2, K⟩ := Good.setLeaf_zero G1 (hok l3 rfl)
          simp only [vmUnmapLoop, hw]
          exact hlong _ G2 K.allocatedPages
      · obtain ⟨pt', hw, G', K, hcalls⟩ := walk_refused hs G hlink h0
        cases j with
        | zero => exact absurd hg h0
        | succ j =>
          simp only [vmUnmapLoop, hw]
          rw [← K.allocatedPages]
          refine ih G' (i + 1) (j := j) ?_ ?_
          · rw [unlinked_congr root gpuVa K.linked]
            omega
          · rwa [hcalls, Nat.add_assoc, Nat.add_comm 1 j]

theorem tablePage_iff (G : Good supply root pt) (n : Word) :
    TablePage pt n ↔ n ∈ pt.allocatedPages := by
  constructor
  · rintro ⟨r, hr, p, hp, hf⟩
    obtain rfl := Option.some.inj (G.rootVa.symm.trans hr)
    exact G.tree.owned p n hp hf
  · intro hn
    obtain ⟨p, hp, hf⟩ := G.tree.reached n hn
    exact ⟨root, G.rootVa, p, hp, hf⟩

/-- In every VM that calls can lead to: an unmap of an aligned range succeeds and disturbs no other
page, and it leaves the set of tables alone exactly when it gets no page from the memory manager
for the tables that its range lacks. -/
theorem unmap_keeps_tables_iff (supply : ℕ → PtReply) (hs : Honest supply) (a a' : Adapter)
    (mem : Word → Fin 512 → Word) (hw : NtStatus) (pt₀ : VmPt)
    (hinit : vmInit supply a mem hw = (.success, pt₀, a')) (ops : List Op)
    (hv : ∀ op ∈ ops, op.Valid) (adapter : Adapter) (gpuVa : Word) (hal : gpuVa &&& 0xFFF = 0)
    (count : ℕ) :
    let pt := (run supply ops pt₀).2
    let after := vmUnmap supply (some adapter) pt gpuVa count
    after.1 = .success ∧
      (∀ va, (∀ k < count, pageOf (pageVa gpuVa k) ≠ pageOf va) →
        translation after.2 va = translation pt va) ∧
      (Starved supply pt gpuVa count ↔ after.2.allocatedPages = pt.allocatedPages ∧
        ∀ n, TablePage after.2 n ↔ TablePage pt n) := by
  intro pt after
  obtain ⟨root, G₀⟩ := vmInit_good hs hinit
  have G : Good supply root pt := (run_good hs ops hv G₀).1
  have V : PtSound supply pt := ⟨hs, root, G⟩
  have G' : Good supply root after.2 := (vmUnmap_good hs G (some adapter) gpuVa count).1
  have hal' : ¬gpuVa &&& 0xFFF ≠ 0 := not_not.mpr hal
  refine ⟨?_, ?_, ?_⟩
  · change (vmUnmap supply (some adapter) pt gpuVa count).1 = .success
    simp only [vmUnmap, G.rootVa, if_neg hal']
    split <;> rfl
  · intro va hout
    rw [translation_eq ⟨hs, root, G'⟩, translation_eq V]
    exact unmap_keeps V adapter gpuVa count fun k hk he => absurd he (hout k hk)
  have hpages : after.2.allocatedPages =
      (vmUnmapLoop supply root gpuVa 0 count pt).allocatedPages := by
    change (vmUnmap supply (some adapter) pt gpuVa count).2.allocatedPages = _
    simp only [vmUnmap, G.rootVa, if_neg hal']
    split
    · rename_i h0
      rw [h0]
      rfl
    · dsimp only
      split <;> rfl
  constructor
  · intro hstarved
    have K := unmapLoop_starved hs G gpuVa 0 count (hstarved root G.rootVa)
    have hsame := hpages.trans K.allocatedPages
    exact ⟨hsame, fun n => by rw [tablePage_iff G', tablePage_iff G, hsame]⟩
  · rintro ⟨hsame, -⟩ r hr j hj hg
    obtain rfl := Option.some.inj (G.rootVa.symm.trans hr)
    exact unmapLoop_fed hs G gpuVa 0 count hj hg (hpages.symm.trans hsame)

/-- One page is mapped, and it has its tables. -/
def oneMap : List Op :=
  [.map (some freshAdapter) 0x1000000 (some fun _ => 5) 1 pageAttrRwNx]

theorem oneMap_valid : ∀ op ∈ oneMap, op.Valid := by
  have h : ValidAttrs pageAttrRwNx := by decide
  simp only [oneMap, List.forall_mem_cons, Op.Valid]
  refine ⟨⟨h, ?_⟩, by simp⟩
  rintro f ⟨⟩ k -
  change (5 : Word).toNat < 2 ^ 36
  decide

theorem unmap_mapped_adds_nothing : ∃ pt after, pt = (run eightPages oneMap freshVm.2.1).2 ∧
    after = vmUnmap eightPages (some freshAdapter) pt 0x1000000 1 ∧ after.1 = .success ∧
    after.2.allocatedPages = pt.allocatedPages ∧ ∀ n, TablePage after.2 n ↔ TablePage pt n := by
  obtain ⟨hst, -, hiff⟩ := unmap_keeps_tables_iff eightPages eightPages_honest freshAdapter
    freshVm.2.2 (fun _ _ => 0) .success freshVm.2.1 rfl oneMap oneMap_valid freshAdapter 0x1000000
    (by decide) 1
  refine ⟨_, _, rfl, rfl, hst, hiff.mp fun root hroot j hj => ?_⟩
  obtain rfl : (0x1000 : Word) = root := Option.some.inj hroot
  have hnone : unlinked (run eightPages oneMap freshVm.2.1).2 0x1000 0x1000000 0 1 = 0 := by
    decide +kernel
  rw [hnone] at hj
  exact absurd hj (Nat.not_lt_zero j)

/-- Nothing was ever mapped here, and the unmap adds three tables. -/
theorem unmap_unmapped_adds_tables :
    (vmUnmap eightPages (some freshAdapter) freshVm.2.1 0x1000000 1).1 = .success ∧
      freshVm.2.1.allocatedPages = [0x1000] ∧
      (vmUnmap eightPages (some freshAdapter) freshVm.2.1 0x1000000 1).2.allocatedPages =
        [0x1000, 0x2000, 0x3000, 0x4000] :=
  ⟨by decide +kernel, by decide +kernel, by decide +kernel⟩

end WinMali.UnmapGrowth
