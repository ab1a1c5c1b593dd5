import WinMaliKmd.KmdObjects

/-!
# The leak warnings are exact

As long as no destroy call warned, the counts of the owners are the numbers of what they own, no
call looks at freed memory, and the next warning comes exactly when an object goes before what it
owns.
-/

set_option autoImplicit false

namespace WinMali.KmdLifetimes
open WinMali.KmdObjects WinMali.ObjectPool WinMali.Runs

/-- The counts are right, and what is open is an allocation. -/
structure Sound (s : State) : Prop where
  counted : Counted family s.pool
  opened : ∀ a ka, read s.pool a = some (.allocation ka) → ka.openCount = s.opens.count a
  live : ∀ a ∈ s.opens, ∃ ka, read s.pool a = some (.allocation ka)

/-- Something names the object as its owner, or has it open. -/
def Busy (s : State) (a : ℕ) : Prop := (wardsOf family s.pool a).Nonempty ∨ a ∈ s.opens

/-- The count that a destroy call looks at. -/
def leakCount : Object → ℤ
  | .process p => p.deviceCount
  | .device d => d.contextCount
  | .context _ => 0
  | .allocation a => a.openCount

section Facts

variable {s : State} {a q : ℕ} {x : Object} {k : ℤ} {leaks : List (ℕ × ℤ)}

theorem warn_eq : warn a k leaks = leaks ↔ k = 0 := by
  unfold warn
  split
  · simp [*]
  · next h => exact iff_of_true rfl (not_not.mp h)

theorem prefix_warn : leaks <+: warn a k leaks := by
  unfold warn
  split
  · exact List.prefix_append _ _
  · exact List.prefix_refl _

theorem warn_zero (a : ℕ) (leaks : List (ℕ × ℤ)) : warn a 0 leaks = leaks := if_neg (by simp)

theorem read_bump_allocation {p : Pool Object} {ka : KmdAllocation} (q : ℕ) (k : ℤ) :
    read (modify p q (Object.bump k)) a = some (.allocation ka) ↔
      read p a = some (.allocation ka) := by
  obtain rfl | ha := eq_or_ne a q
  · rw [read_modify_self]
    cases read p a with
    | none => simp
    | some x => cases x <;> simp [Object.bump]
  · rw [read_modify_ne ha]

theorem Sound.notMem (S : Sound s) (ha : a ∉ s.pool.live) : a ∉ s.opens := by
  intro h
  obtain ⟨ka, hka⟩ := S.live a h
  exact ha (read_eq_some.mp hka).1

theorem Sound.busy_iff (S : Sound s) (h : read s.pool a = some x) :
    Busy s a ↔ leakCount x ≠ 0 := by
  have howner : ∀ n, family.wards x = some n → (∀ ka, x ≠ .allocation ka) →
      (Busy s a ↔ n ≠ 0) := by
    intro n hn hne
    have hopen : a ∉ s.opens := by
      intro ho
      obtain ⟨ka, hka⟩ := S.live a ho
      exact hne ka (Option.some.inj (h.symm.trans hka))
    have hcount := S.counted.exact a x n h hn
    simp only [Int.add_zero] at hcount
    rw [Busy, or_iff_left hopen, ← Finset.card_pos]
    omega
  have hno : family.wards x = none → ¬(wardsOf family s.pool a).Nonempty := by
    intro hx
    rw [S.counted.wards_empty h (.inl hx)]
    exact Finset.not_nonempty_empty
  cases x with
  | process p => exact howner _ rfl fun ka => nofun
  | device d => exact howner _ rfl fun ka => nofun
  | context c =>
    refine iff_of_false ?_ (by simp [leakCount])
    rintro (hw | ho)
    · exact hno rfl hw
    · obtain ⟨ka, hka⟩ := S.live a ho
      cases h.symm.trans hka
  | allocation ka =>
    rw [Busy, or_iff_right (hno rfl), ← List.count_pos_iff, leakCount, S.opened a ka h]
    omega

end Facts

/-- What a call does to the objects, as far as the warnings can tell. -/
structure After (s t : State) : Prop where
  grown : s.leaks <+: t.leaks
  exact : t.leaks = s.leaks ↔ ∀ a ∈ s.pool.live, a ∉ t.pool.live → ¬Busy s a
  sound : t.leaks = s.leaks → Sound t

section Steps

variable {s t : State} {a q : ℕ} {x : Object}

/-- A call that destroys nothing. -/
theorem After.of_kept (hleaks : t.leaks = s.leaks) (S : Sound t)
    (hlive : ∀ a ∈ s.pool.live, a ∈ t.pool.live) : After s t :=
  ⟨hleaks ▸ List.prefix_refl _, ⟨fun _ a ha hgone => absurd (hlive a ha) hgone, fun _ => hleaks⟩,
    fun _ => S⟩

theorem After.refl (S : Sound s) : After s s := After.of_kept rfl S fun _ => id

theorem live_death : (death family s.pool a).live = s.pool.live.erase a := by
  unfold death
  split <;> rfl

/-- A new object is in free memory, counts nothing yet, and has an owner to count it. -/
theorem Sound.birth (S : Sound s) (ha : a ∉ s.pool.live) (hcount : leakCount x = 0)
    (hq : ∀ q, x.parent = some q → ∃ y, read s.pool q = some y ∧ x.fits y) :
    Sound { s with pool := birth family s.pool a x } := by
  have hopen := S.notMem ha
  have hread : ∀ b ka, read (ObjectPool.birth family s.pool a x) b = some (.allocation ka) ↔
      read (place s.pool a x) b = some (.allocation ka) := by
    intro b ka
    unfold ObjectPool.birth
    split
    · rfl
    · exact read_bump_allocation _ 1
  refine ⟨S.counted.birth ha (fun n hn => ?_) hq, fun b ka hb => ?_, fun b hb => ?_⟩
  · rw [← hcount]
    cases x <;> simp_all [family, Object.wards, leakCount]
  · rw [hread] at hb
    obtain rfl | hba := eq_or_ne b a
    · rw [read_place_self] at hb
      obtain rfl := Option.some.inj hb
      rw [List.count_eq_zero_of_not_mem hopen]
      exact hcount
    · rw [read_place_ne hba] at hb
      exact S.opened b ka hb
  · obtain ⟨ka, hka⟩ := S.live b hb
    exact ⟨ka, by rw [hread, read_place_ne (fresh_ne ha hka), hka]⟩

theorem Sound.death (S : Sound s) (h : read s.pool a = some x) (hcount : leakCount x = 0)
    (leaks : List (ℕ × ℤ)) :
    Sound { pool := death family s.pool a, leaks := leaks, opens := s.opens } := by
  have hidle : a ∉ s.opens := fun ho => (S.busy_iff h).mp (.inr ho) hcount
  have hread : ∀ b ka, b ≠ a → (read (ObjectPool.death family s.pool a) b =
      some (.allocation ka) ↔ read s.pool b = some (.allocation ka)) := by
    intro b ka hb
    unfold ObjectPool.death
    split
    · rw [read_release_ne hb]
    · rw [read_release_ne hb]
      exact read_bump_allocation _ (-1)
  have hgone : ∀ ka, read (ObjectPool.death family s.pool a) a ≠ some (.allocation ka) := by
    intro ka hka
    have hmem := (read_eq_some.mp hka).1
    rw [live_death] at hmem
    exact Finset.notMem_erase a _ hmem
  refine ⟨S.counted.death h ?_, fun b ka hb => ?_, fun b hb => ?_⟩
  · rw [← hcount]
    cases x <;> first | exact .inr rfl | exact .inl rfl
  · obtain rfl | hba := eq_or_ne b a
    · exact absurd hb (hgone ka)
    · exact S.opened b ka ((hread b ka hba).mp hb)
  · obtain ⟨ka, hka⟩ := S.live b hb
    exact ⟨ka, (hread b ka fun hba => hidle (hba ▸ hb)).mpr hka⟩

/-- A destroy call, with its warning. -/
theorem After.of_death (S : Sound s) (h : read s.pool a = some x) :
    After s { pool := death family s.pool a
              leaks := warn a (leakCount x) s.leaks
              opens := s.opens } := by
  refine ⟨prefix_warn, ?_, fun hw => S.death h (warn_eq.mp hw) _⟩
  rw [warn_eq, ← not_iff_not, ← ne_eq, ← S.busy_iff h]
  have hlive : a ∈ s.pool.live := (read_eq_some.mp h).1
  constructor
  · intro hbusy hall
    exact hall a hlive (by rw [live_death]; exact Finset.notMem_erase a _) hbusy
  · intro hall
    by_contra hidle
    refine hall fun b hb hgone => ?_
    rw [live_death, Finset.mem_erase] at hgone
    have hba : b = a := by_contra fun hba => hgone ⟨hba, hb⟩
    exact hba ▸ hidle

end Steps

section Owners

variable {s t : State} {a q : ℕ} {h : Option ℕ} {β : Type} {as : Object → Option β}

/-- A handle that leads somewhere can be looked at. -/
theorem resolve_isSome (as : Object → Option β) {p : Pool Object} (hl : Leads p h) : ∃ r, resolve as p h = some r := by
  cases h with
  | none => exact ⟨none, rfl⟩
  | some a =>
    have hread : read p a = some (p.cell a) := read_eq_some.mpr ⟨hl a rfl, rfl⟩
    exact ⟨_, by rw [resolve, hread]; rfl⟩

theorem resolve_some {p : Pool Object} {b : β} (hr : resolve as p h = some (some (a, b))) :
    h = some a ∧ ∃ x, read p a = some x ∧ as x = some b := by
  cases h with
  | none => cases hr
  | some c =>
    obtain ⟨x, hx, hmap⟩ := Option.map_eq_some_iff.mp hr
    obtain ⟨b', hb, hpair⟩ := Option.map_eq_some_iff.mp hmap
    obtain ⟨rfl, rfl⟩ := Prod.mk.inj hpair
    exact ⟨rfl, x, hx, hb⟩

theorem asProcess_some {x : Object} {p : KmdProcess} (h : x.asProcess = some p) :
    x = .process p := by
  cases x <;> simp_all [Object.asProcess]

theorem asDevice_some {x : Object} {d : KmdDevice} (h : x.asDevice = some d) :
    x = .device d := by
  cases x <;> simp_all [Object.asDevice]

theorem asContext_some {x : Object} {c : ContextSlots.Context} (h : x.asContext = some c) :
    x = .context c := by
  cases x <;> simp_all [Object.asContext]

theorem asAllocation_some {x : Object} {ka : KmdAllocation} (h : x.asAllocation = some ka) :
    x = .allocation ka := by
  cases x <;> simp_all [Object.asAllocation]

theorem countAt_of_read {p : Pool Object} {owns : Object → Bool} {x : Object} {k : ℤ}
    (hx : read p q = some x) (hown : owns x = true) :
    countAt owns k q p = some (modify p q (Object.bump k)) := by
  simp [countAt, hx, hown]

theorem birth_eq {p : Pool Object} {x : Object} (hq : x.parent = some q) :
    birth family p a x = modify (place p a x) q (Object.bump 1) := by
  unfold birth
  have : family.parent x = some q := hq
  rw [this]
  rfl

/-- A new object that nothing owns. -/
theorem Sound.place (S : Sound s) {x : Object} (ha : a ∉ s.pool.live) (hcount : leakCount x = 0)
    (hq : x.parent = none) : Sound { s with pool := place s.pool a x } := by
  have hbirth := S.birth ha hcount fun q hr => absurd (hq.symm.trans hr) nofun
  have hnone : family.parent x = none := hq
  simpa only [ObjectPool.birth, hnone] using hbirth

/-- A new object that its owner counts. -/
theorem Sound.owned (S : Sound s) (owns : Object → Bool) {x y : Object} (ha : a ∉ s.pool.live)
    (hcount : leakCount x = 0) (hq : x.parent = some q) (hy : read s.pool q = some y)
    (hfits : x.fits y) (hown : owns y = true) : ∃ pool,
      countAt owns 1 q (ObjectPool.place s.pool a x) = some pool ∧
        Sound { s with pool := pool } ∧ pool.live = insert a s.pool.live := by
  have hread : read (ObjectPool.place s.pool a x) q = some y := by
    rw [read_place_ne (fresh_ne ha hy), hy]
  refine ⟨_, countAt_of_read hread hown, ?_, rfl⟩
  rw [← birth_eq hq]
  refine S.birth ha hcount fun r hr => ⟨y, ?_, hfits⟩
  obtain rfl := Option.some.inj (hq.symm.trans hr)
  exact hy

theorem death_eq {p : Pool Object} {x : Object} (hx : read p a = some x)
    (hq : x.parent = some q) :
    death family p a = release (modify p q (Object.bump (-1))) a := by
  unfold death
  have : family.parent (p.cell a) = some q := by
    rw [(read_eq_some.mp hx).2]
    exact hq
  rw [this]
  rfl

/-- The owner is there to be told that an object goes. -/
theorem Sound.disowned (S : Sound s) (owns : Object → Bool) {x : Object}
    (hx : read s.pool a = some x) (hq : x.parent = some q)
    (hown : ∀ y, x.fits y → owns y = true) : ∃ pool,
      countAt owns (-1) q s.pool = some pool ∧
        release pool a = ObjectPool.death family s.pool a := by
  obtain ⟨y, hy, hfits⟩ := S.counted.parented a x q hx hq
  exact ⟨_, countAt_of_read hy (hown y hfits), (death_eq hx hq).symm⟩

theorem death_eq_release {p : Pool Object} {x : Object} (hx : read p a = some x)
    (hq : x.parent = none) : death family p a = release p a := by
  unfold death
  have : family.parent (p.cell a) = none := by
    rw [(read_eq_some.mp hx).2]
    exact hq
  rw [this]

end Owners

section Calls

variable {s : State}

theorem createProcess_after (S : Sound s) {adapter : Bool} {args : Option ProcessArgs}
    {reply : Option ℕ} (hp : ∀ a ∈ reply, a ∉ s.pool.live) :
    After s (createProcess s adapter args reply).2.2 := by
  unfold createProcess
  split
  · exact After.refl S
  split
  · exact After.refl S
  split
  · exact After.refl S
  · next a =>
    refine After.of_kept rfl (S.place (x := .process _) (hp a rfl) rfl rfl) fun b hb => ?_
    exact Finset.mem_insert_of_mem hb

theorem destroyProcess_after (S : Sound s) {h : Option ℕ} (hl : Leads s.pool h) :
    ∃ t, step s (.destroyProcess h) = some t ∧ After s t := by
  obtain ⟨r, hr⟩ := resolve_isSome Object.asProcess hl
  simp only [step, destroyProcess, hr, Option.map_some]
  refine ⟨_, rfl, ?_⟩
  match r, hr with
  | none, _ => exact After.refl S
  | some (a, p), hr =>
    obtain ⟨-, x, hx, hp⟩ := resolve_some hr
    obtain rfl := asProcess_some hp
    have hdeath := After.of_death S hx
    rwa [death_eq_release hx rfl] at hdeath

theorem createDevice_after (S : Sound s) {adapter blocked : Bool} {args : Option DeviceArgs}
    {reply : Option ℕ} (hp : Promised s (.createDevice adapter blocked args reply)) :
    ∃ t, step s (.createDevice adapter blocked args reply) = some t ∧ After s t := by
  simp only [step, createDevice]
  cases args with
  | none => exact ⟨_, rfl, After.refl S⟩
  | some args =>
    cases adapter with
    | false => exact ⟨_, rfl, After.refl S⟩
    | true =>
      cases blocked with
      | true => exact ⟨_, rfl, After.refl S⟩
      | false =>
        obtain ⟨r, hr⟩ := resolve_isSome Object.asProcess (hp.2 args rfl)
        cases reply with
        | none =>
          simp only [hr]
          exact ⟨_, rfl, After.refl S⟩
        | some a =>
          have ha := hp.1 a rfl
          have hlive : ∀ b ∈ s.pool.live, b ∈ insert a s.pool.live :=
            fun b hb => Finset.mem_insert_of_mem hb
          match r, hr with
          | none, hr =>
            simp only [hr]
            exact ⟨_, rfl, After.of_kept rfl (S.place (x := .device _) ha rfl rfl) hlive⟩
          | some (q, p), hr =>
            obtain ⟨-, x, hx, hxp⟩ := resolve_some hr
            obtain rfl := asProcess_some hxp
            obtain ⟨pool, hpool, hsound, hinsert⟩ := S.owned isProcess
              (x := .device ⟨some q, args.hDevice, args.flags, args.pasid, 0⟩) ha rfl rfl hx
              trivial rfl
            simp only [hr, Option.map_some, Option.bind_some, Bool.not_true, Bool.false_eq_true,
              if_false, hpool]
            exact ⟨_, rfl, After.of_kept rfl hsound (hinsert ▸ hlive)⟩

theorem destroyDevice_after (S : Sound s) {h : Option ℕ} (hl : Leads s.pool h) :
    ∃ t, step s (.destroyDevice h) = some t ∧ After s t := by
  obtain ⟨r, hr⟩ := resolve_isSome Object.asDevice hl
  simp only [step, destroyDevice, hr, Option.bind_some]
  match r, hr with
  | none, _ => exact ⟨_, rfl, After.refl S⟩
  | some (a, d), hr =>
    obtain ⟨-, x, hx, hd⟩ := resolve_some hr
    obtain rfl := asDevice_some hd
    have hdeath := After.of_death S hx
    cases howner : d.ownerProcess with
    | none =>
      rw [death_eq_release hx howner] at hdeath
      exact ⟨_, by simp only [howner, Option.map_some, leakCount], hdeath⟩
    | some q =>
      obtain ⟨pool, hpool, hrelease⟩ := S.disowned isProcess hx howner
        (fun y hy => by cases y <;> first | rfl | exact absurd hy id)
      rw [← hrelease] at hdeath
      exact ⟨_, by simp only [howner, hpool, Option.map_some, leakCount], hdeath⟩

theorem createContext_after (S : Sound s) {dev : Option ℕ}
    {args : Option ContextSlots.CreateArgs} {reply : Option ℕ}
    (hp : Promised s (.createContext dev args reply)) :
    ∃ t, step s (.createContext dev args reply) = some t ∧ After s t := by
  cases args with
  | none => exact ⟨_, rfl, After.refl S⟩
  | some args =>
    obtain ⟨r, hr⟩ := resolve_isSome Object.asDevice hp.2
    simp only [step, createContext, hr, Option.bind_some]
    match r, hr with
    | none, _ => exact ⟨_, rfl, After.refl S⟩
    | some (q, d), hr =>
      obtain ⟨-, x, hx, hd⟩ := resolve_some hr
      obtain rfl := asDevice_some hd
      by_cases hnode : args.systemContext = false ∧ args.nodeOrdinal > 1
      · exact ⟨_, by simp only [if_pos hnode, Option.map_some], After.refl S⟩
      · cases reply with
        | none => exact ⟨_, by simp only [if_neg hnode, Option.map_some], After.refl S⟩
        | some a =>
          obtain ⟨pool, hpool, hsound, hinsert⟩ := S.owned isDevice
            (x := .context ⟨a, q, args.hContext, args.nodeOrdinal, args.engineAffinity,
              args.flags⟩) (hp.1 a rfl) rfl rfl hx trivial rfl
          refine ⟨{ s with pool := pool }, by simp only [if_neg hnode, hpool, Option.map_some],
            After.of_kept rfl hsound fun b hb => ?_⟩
          rw [hinsert]
          exact Finset.mem_insert_of_mem hb

theorem destroyContext_after (S : Sound s) {h : Option ℕ} (hl : Leads s.pool h) :
    ∃ t, step s (.destroyContext h) = some t ∧ After s t := by
  obtain ⟨r, hr⟩ := resolve_isSome Object.asContext hl
  simp only [step, destroyContext, hr, Option.bind_some]
  match r, hr with
  | none, _ => exact ⟨_, rfl, After.refl S⟩
  | some (a, c), hr =>
    obtain ⟨-, x, hx, hc⟩ := resolve_some hr
    obtain rfl := asContext_some hc
    have hdeath := After.of_death S hx
    obtain ⟨pool, hpool, hrelease⟩ := S.disowned isDevice hx rfl
      (fun y hy => by cases y <;> first | rfl | exact absurd hy id)
    rw [← hrelease, leakCount, warn_zero] at hdeath
    exact ⟨_, by simp only [hpool, Option.map_some], hdeath⟩

/-- What a batch of new allocations has done so far to the objects of `p`. -/
structure Placing (p : Pool Object) (placed : List ℕ) (u : Pool Object) : Prop where
  same : ∀ a, a ∉ placed → read u a = read p a
  fresh : ∀ a ∈ placed, a ∉ p.live

theorem Placing.kept {p u p' : Pool Object} {placed : List ℕ} (P : Placing p placed u)
    (hsame : ∀ a, a ∉ placed → read p' a = read p a) {a : ℕ} (ha : a ∈ p.live) : a ∈ p'.live := by
  have hread := hsame a fun hmem => P.fresh a hmem ha
  rw [read_eq_some.mpr ⟨ha, rfl⟩] at hread
  exact (read_eq_some.mp hread).1

theorem read_rollBack {p u : Pool Object} {placed : List ℕ} (P : Placing p placed u) (a : ℕ) :
    read (rollBack placed u) a = read p a := by
  have hfold : ∀ (l : List ℕ) (u : Pool Object), read (l.foldl release u) a =
      if a ∈ l then none else read u a := by
    intro l
    induction l with
    | nil => exact fun u => by simp
    | cons b l ih =>
      intro u
      rw [List.foldl_cons, ih]
      by_cases hl : a ∈ l
      · simp [hl]
      · obtain rfl | hab := eq_or_ne a b
        · simp [read_release_self]
        · simp [hl, hab, read_release_ne hab]
  rw [rollBack, hfold]
  by_cases hmem : a ∈ placed
  · rw [if_pos (List.mem_reverse.mpr hmem)]
    exact (if_neg (P.fresh a hmem)).symm
  · rw [if_neg (mt List.mem_reverse.mp hmem), P.same a hmem]

theorem Sound.congr (S : Sound s) {p : Pool Object} (h : ∀ a, read p a = read s.pool a) :
    Sound { s with pool := p } :=
  ⟨S.counted.congr h, fun a ka ha => S.opened a ka (h a ▸ ha), fun a ha => by
    obtain ⟨ka, hka⟩ := S.live a ha
    exact ⟨ka, by rw [h a, hka]⟩⟩

theorem createLoop_after {s : State} (S : Sound s) (hResource : ℕ) {replies : ℕ → Option ℕ}
    (hfree : ∀ i, ∀ a ∈ replies i, a ∉ s.pool.live)
    (hone : ∀ i j, ∀ a ∈ replies i, a ∈ replies j → i = j)
    (infos : List AllocSizes.AllocationInfo) {placed : List ℕ} {u : Pool Object}
    (P : Placing s.pool placed u) (hplaced : ∀ a ∈ placed, ∃ i < placed.length, a ∈ replies i)
    (U : Sound { s with pool := u }) :
    Sound { s with pool := (createLoop hResource replies infos placed u).2.2 } ∧
      ∀ a ∈ s.pool.live, a ∈ (createLoop hResource replies infos placed u).2.2.live := by
  induction infos generalizing placed u with
  | nil => exact ⟨U, fun a ha => P.kept P.same ha⟩
  | cons info infos ih =>
    unfold createLoop
    cases hreply : replies placed.length with
    | none =>
      exact ⟨S.congr (read_rollBack P), fun a ha => P.kept (fun b _ => read_rollBack P b) ha⟩
    | some b =>
      have hnew : b ∉ placed := by
        intro hmem
        obtain ⟨i, hi, hbi⟩ := hplaced b hmem
        have := hone i placed.length b hbi hreply
        omega
      have hb : b ∉ u.live := by
        intro hlive
        have hread := P.same b hnew
        rw [read_eq_some.mpr ⟨hlive, rfl⟩] at hread
        exact hfree _ b hreply (read_eq_some.mp hread.symm).1
      have P' : Placing s.pool (placed ++ [b])
          (place u b (.allocation (newAllocation hResource info))) := by
        refine ⟨fun a ha => ?_, fun a ha => ?_⟩
        · rw [List.mem_append, not_or, List.mem_singleton] at ha
          rw [read_place_ne ha.2, P.same a ha.1]
        · rcases List.mem_append.mp ha with ha | ha
          · exact P.fresh a ha
          · exact List.mem_singleton.mp ha ▸ hfree _ b hreply
      refine ih P' (fun a ha => ?_) (U.place hb rfl rfl)
      rw [List.length_append, List.length_singleton]
      rcases List.mem_append.mp ha with ha | ha
      · obtain ⟨i, hi, hai⟩ := hplaced a ha
        exact ⟨i, by omega, hai⟩
      · exact ⟨placed.length, by omega, List.mem_singleton.mp ha ▸ hreply⟩

theorem createAllocation_after (S : Sound s) {adapter : Bool} {hResource : ℕ}
    {infos : Option (List AllocSizes.AllocationInfo)} {replies : ℕ → Option ℕ}
    (hp : Promised s (.createAllocation adapter hResource infos replies)) :
    After s (createAllocation s adapter hResource infos replies).2.2 := by
  unfold createAllocation
  split
  · exact After.refl S
  split
  · exact After.refl S
  · next infos _ =>
    have hnone : Placing s.pool [] s.pool := ⟨fun _ _ => rfl, nofun⟩
    obtain ⟨hsound, hlive⟩ := createLoop_after S hResource hp.1 hp.2 infos hnone nofun S
    exact After.of_kept rfl hsound hlive

/-- What the loop of `DestroyAllocation` does; the leaks are told although it goes on. -/
structure Destroyed (s t : State) : Prop where
  opens : t.opens = s.opens
  live : t.pool.live ⊆ s.pool.live
  gone : ∀ a ∈ s.pool.live, a ∉ t.pool.live → ∃ ka, read s.pool a = some (.allocation ka)
  grown : s.leaks <+: t.leaks
  exact : t.leaks = s.leaks ↔ ∀ a ka, read s.pool a = some (.allocation ka) →
    a ∉ t.pool.live → ka.openCount = 0
  sound : Sound s → t.leaks = s.leaks → Sound t

theorem Destroyed.cons {t : State} {a : ℕ} {ka : KmdAllocation}
    (hx : read s.pool a = some (.allocation ka))
    (D : Destroyed { pool := release s.pool a
                     leaks := warn a ka.openCount s.leaks
                     opens := s.opens } t) : Destroyed s t := by
  have hgrown : s.leaks <+: warn a ka.openCount s.leaks := prefix_warn
  have ha : a ∉ t.pool.live := fun hmem => Finset.notMem_erase a _ (D.live hmem)
  have hsame : t.leaks = s.leaks ↔
      ka.openCount = 0 ∧ t.leaks = warn a ka.openCount s.leaks := by
    rw [← @warn_eq a ka.openCount s.leaks]
    constructor
    · intro h
      have heq := hgrown.eq_of_length_le (h ▸ D.grown).length_le
      exact ⟨heq.symm, h.trans heq⟩
    · rintro ⟨h1, h2⟩
      exact h2.trans h1
  have hread : ∀ b, b ≠ a → read (release s.pool a) b = read s.pool b :=
    fun b hb => read_release_ne hb
  refine ⟨D.opens, D.live.trans (Finset.erase_subset a _), fun b hb hgone => ?_,
    hgrown.trans D.grown, ?_, fun S h => ?_⟩
  · obtain rfl | hba := eq_or_ne b a
    · exact ⟨ka, hx⟩
    · obtain ⟨kb, hkb⟩ := D.gone b (Finset.mem_erase.mpr ⟨hba, hb⟩) hgone
      exact ⟨kb, hread b hba ▸ hkb⟩
  · rw [hsame, D.exact]
    constructor
    · rintro ⟨hzero, hrest⟩ b kb hb hgone
      obtain rfl | hba := eq_or_ne b a
      · cases hb.symm.trans hx
        exact hzero
      · exact hrest b kb (by rw [hread b hba, hb]) hgone
    · intro hall
      refine ⟨hall a ka hx ha, fun b kb hb hgone => ?_⟩
      obtain rfl | hba := eq_or_ne b a
      · exact absurd hb (by simp [read_release_self])
      · exact hall b kb (by rw [← hread b hba, hb]) hgone
  · obtain ⟨hzero, hleaks⟩ := hsame.mp h
    have hdeath := S.death hx hzero (warn a ka.openCount s.leaks)
    rw [death_eq_release hx rfl] at hdeath
    exact D.sound hdeath hleaks

theorem destroyLoop_spec (hs : List (Option ℕ)) {s : State} (hl : ∀ h ∈ hs, Leads s.pool h)
    (hn : (hs.filterMap id).Nodup) : ∃ t, destroyLoop hs s = some t ∧ Destroyed s t := by
  induction hs generalizing s with
  | nil =>
    exact ⟨s, rfl, rfl, Finset.Subset.refl _, fun a ha hgone => absurd ha hgone,
      List.prefix_refl _, iff_of_true rfl fun a ka ha hgone =>
        absurd (read_eq_some.mp ha).1 hgone, fun S _ => S⟩
  | cons h hs ih =>
    obtain ⟨r, hr⟩ := resolve_isSome Object.asAllocation (hl h (by simp))
    have hrest : ∀ h' ∈ hs, Leads s.pool h' := fun h' hm => hl h' (by simp [hm])
    simp only [destroyLoop, hr, Option.bind_some]
    have hntail : (hs.filterMap id).Nodup := by
      cases h with
      | none => simpa using hn
      | some b => exact (List.nodup_cons.mp (by simpa using hn)).2
    match r, hr with
    | none, _ => exact ih hrest hntail
    | some (a, ka), hr =>
      obtain ⟨rfl, x, hx, hka⟩ := resolve_some hr
      obtain rfl := asAllocation_some hka
      have hnot : a ∉ hs.filterMap id := (List.nodup_cons.mp (by simpa using hn)).1
      have hleads : ∀ h' ∈ hs, Leads (release s.pool a) h' := by
        intro h' hm b hb
        refine Finset.mem_erase.mpr ⟨?_, hrest h' hm b hb⟩
        rintro rfl
        exact hnot (List.mem_filterMap.mpr ⟨h', hm, hb⟩)
      obtain ⟨t, ht, D⟩ := ih (s := { pool := release s.pool a
                                      leaks := warn a ka.openCount s.leaks
                                      opens := s.opens }) hleads hntail
      exact ⟨t, ht, D.cons hx⟩

theorem destroyAllocation_after (S : Sound s) {hs : Option (List (Option ℕ))}
    (hp : Promised s (.destroyAllocation hs)) :
    ∃ t, step s (.destroyAllocation hs) = some t ∧ After s t := by
  cases hs with
  | none => exact ⟨_, rfl, After.refl S⟩
  | some hs =>
    obtain ⟨hl, hn⟩ := hp hs rfl
    obtain ⟨t, ht, D⟩ := destroyLoop_spec hs hl hn
    refine ⟨t, by simp only [step, destroyAllocation, ht, Option.map_some], D.grown, ?_, D.sound S⟩
    rw [D.exact]
    constructor
    · intro hall a ha hgone hbusy
      obtain ⟨ka, hka⟩ := D.gone a ha hgone
      exact (S.busy_iff hka).mp hbusy (hall a ka hka hgone)
    · intro hall a ka hka hgone
      have hidle := hall a (read_eq_some.mp hka).1 hgone
      rw [S.busy_iff hka] at hidle
      exact not_not.mp hidle

/-- One more or one less open of an allocation. -/
theorem Sound.reopen (S : Sound s) {a : ℕ} {ka : KmdAllocation}
    (hx : read s.pool a = some (.allocation ka)) (k : ℤ) (opens : List ℕ)
    (hcount : (opens.count a : ℤ) = s.opens.count a + k)
    (hother : ∀ b, b ≠ a → opens.count b = s.opens.count b) :
    Sound { s with pool := modify s.pool a (Object.addOpens k), opens := opens } := by
  have hself : read (modify s.pool a (Object.addOpens k)) a =
      some (.allocation { ka with openCount := ka.openCount + k }) := by
    rw [read_modify_self, hx]
    rfl
  refine ⟨S.counted.modify a ?_ ?_ ?_ ?_, fun b kb hb => ?_, fun b hb => ?_⟩
  · intro x
    cases x <;> rfl
  · intro x
    cases x <;> rfl
  · intro x y
    cases x <;> rfl
  · intro x y
    cases x <;> cases y <;> rfl
  · obtain rfl | hba := eq_or_ne b a
    · obtain rfl := Object.allocation.inj (Option.some.inj (hself.symm.trans hb))
      have hopened := S.opened b ka hx
      simp only
      omega
    · rw [read_modify_ne hba] at hb
      rw [S.opened b kb hb, hother b hba]
  · obtain rfl | hba := eq_or_ne b a
    · exact ⟨_, hself⟩
    · have hold : b ∈ s.opens := by
        rw [← List.count_pos_iff, ← hother b hba]
        exact List.count_pos_iff.mpr hb
      obtain ⟨kb, hkb⟩ := S.live b hold
      exact ⟨kb, by rw [read_modify_ne hba, hkb]⟩

theorem openLoop_spec (adapter : Bool) (hs : List (Option ℕ)) {s : State} (S : Sound s)
    (hl : ∀ h ∈ hs, Leads s.pool h) : ∃ filled t, openLoop adapter hs s = some (filled, t) ∧
      Sound t ∧ t.leaks = s.leaks ∧ t.pool.live = s.pool.live := by
  induction hs generalizing s with
  | nil => exact ⟨_, _, rfl, S, rfl, rfl⟩
  | cons h hs ih =>
    have hleads : Leads s.pool (if adapter then h else none) := by
      cases adapter
      · exact nofun
      · exact hl h (by simp)
    have hrest : ∀ h' ∈ hs, Leads s.pool h' := fun h' hm => hl h' (by simp [hm])
    obtain ⟨r, hr⟩ := resolve_isSome Object.asAllocation hleads
    simp only [openLoop, hr, Option.bind_some]
    match r, hr with
    | none, _ =>
      obtain ⟨filled, t, ht, T, hleaks, hlive⟩ := ih S hrest
      exact ⟨none :: filled, t, by simp only [ht, Option.map_some], T, hleaks, hlive⟩
    | some (a, ka), hr =>
      obtain ⟨-, x, hx, hka⟩ := resolve_some hr
      obtain rfl := asAllocation_some hka
      have hopen := S.reopen hx 1 (a :: s.opens) (by simp)
        fun b hb => List.count_cons_of_ne hb.symm
      obtain ⟨filled, t, ht, T, hleaks, hlive⟩ := ih hopen hrest
      exact ⟨some a :: filled, t, by simp only [ht, Option.map_some], T, hleaks, hlive⟩

theorem closeLoop_spec (hs : List (Option ℕ)) {s : State} (S : Sound s)
    (hp : (hs.filterMap id).Subperm s.opens) : ∃ t, closeLoop hs s = some t ∧
      Sound t ∧ t.leaks = s.leaks ∧ t.pool.live = s.pool.live := by
  induction hs generalizing s with
  | nil => exact ⟨_, rfl, S, rfl, rfl⟩
  | cons h hs ih =>
    cases h with
    | none => exact ih S (by simpa using hp)
    | some a =>
      have hcons : (a :: hs.filterMap id).Subperm s.opens := by simpa using hp
      have hmem : a ∈ s.opens := hcons.subset List.mem_cons_self
      have hrest : (hs.filterMap id).Subperm (s.opens.erase a) := by
        simpa using hcons.erase a
      obtain ⟨ka, hx⟩ := S.live a hmem
      have hr : resolve Object.asAllocation s.pool (some a) = some (some (a, ka)) := by
        rw [resolve, hx]
        rfl
      have hpos := List.count_pos_iff.mpr hmem
      have hclose := S.reopen hx (-1) (s.opens.erase a)
        (by rw [List.count_erase_self]; omega) fun b hb => List.count_erase_of_ne hb
      obtain ⟨t, ht, T, hleaks, hlive⟩ := ih hclose hrest
      exact ⟨t, by simp only [closeLoop, hr, Option.bind_some, ht], T, hleaks, hlive⟩

theorem openAllocation_after (S : Sound s) {dev : Option ℕ} {hs : Option (List (Option ℕ))}
    (hp : Promised s (.openAllocation dev hs)) :
    ∃ t, step s (.openAllocation dev hs) = some t ∧ After s t := by
  cases hs with
  | none => exact ⟨_, rfl, After.refl S⟩
  | some hs =>
    obtain ⟨r, hr⟩ := resolve_isSome Object.asDevice hp.1
    obtain ⟨filled, t, ht, T, hleaks, hlive⟩ := openLoop_spec r.isSome hs S (hp.2 hs rfl)
    refine ⟨t, ?_, After.of_kept hleaks T fun a ha => hlive ▸ ha⟩
    simp only [step, openAllocation, hr, Option.bind_some, ht, Option.map_some]

theorem closeAllocation_after (S : Sound s) {hs : Option (List (Option ℕ))}
    (hp : Promised s (.closeAllocation hs)) :
    ∃ t, step s (.closeAllocation hs) = some t ∧ After s t := by
  cases hs with
  | none => exact ⟨_, rfl, After.refl S⟩
  | some hs =>
    obtain ⟨t, ht, T, hleaks, hlive⟩ := closeLoop_spec hs S (hp hs rfl)
    refine ⟨t, ?_, After.of_kept hleaks T fun a ha => hlive ▸ ha⟩
    simp only [step, closeAllocation, ht, Option.map_some]

theorem step_after (S : Sound s) {c : Call} (hp : Promised s c) :
    ∃ t, step s c = some t ∧ After s t := by
  cases c with
  | createProcess adapter args reply => exact ⟨_, rfl, createProcess_after S hp⟩
  | destroyProcess h => exact destroyProcess_after S hp
  | createDevice adapter blocked args reply => exact createDevice_after S hp
  | destroyDevice h => exact destroyDevice_after S hp
  | createContext dev args reply => exact createContext_after S hp
  | destroyContext h => exact destroyContext_after S hp
  | createAllocation adapter res infos replies => exact ⟨_, rfl, createAllocation_after S hp⟩
  | destroyAllocation hs => exact destroyAllocation_after S hp
  | openAllocation dev hs => exact openAllocation_after S hp
  | closeAllocation hs => exact closeAllocation_after S hp

end Calls

section Grown

variable {s t : State}

theorem destroyLoop_grown (hs : List (Option ℕ)) {s t : State} (h : destroyLoop hs s = some t) :
    s.leaks <+: t.leaks := by
  induction hs generalizing s with
  | nil =>
    cases h
    exact List.prefix_refl _
  | cons r hs ih =>
    obtain ⟨found, -, h⟩ := Option.bind_eq_some_iff.mp h
    match found with
    | none => exact ih h
    | some (a, ka) => exact prefix_warn.trans (ih h)

theorem openLoop_grown (adapter : Bool) (hs : List (Option ℕ)) {s t : State}
    {filled : List (Option ℕ)} (h : openLoop adapter hs s = some (filled, t)) :
    t.leaks = s.leaks := by
  induction hs generalizing s filled with
  | nil =>
    cases h
    rfl
  | cons r hs ih =>
    obtain ⟨found, -, h⟩ := Option.bind_eq_some_iff.mp h
    match found with
    | none =>
      obtain ⟨⟨rest, u⟩, hu, hpair⟩ := Option.map_eq_some_iff.mp h
      cases hpair
      exact ih hu
    | some (a, ka) =>
      obtain ⟨⟨rest, u⟩, hu, hpair⟩ := Option.map_eq_some_iff.mp h
      cases hpair
      exact (ih hu).trans rfl

theorem closeLoop_grown (hs : List (Option ℕ)) {s t : State} (h : closeLoop hs s = some t) :
    t.leaks = s.leaks := by
  induction hs generalizing s with
  | nil =>
    cases h
    rfl
  | cons r hs ih =>
    obtain ⟨found, -, h⟩ := Option.bind_eq_some_iff.mp h
    match found with
    | none => exact ih h
    | some (a, ka) => exact (ih h).trans rfl

/-- A warning is never taken back. -/
theorem step_grown {c : Call} (h : step s c = some t) : s.leaks <+: t.leaks := by
  cases c with
  | createProcess adapter args reply =>
    obtain rfl := Option.some.inj h
    unfold createProcess
    split
    · exact List.prefix_refl _
    split
    · exact List.prefix_refl _
    split <;> exact List.prefix_refl _
  | createAllocation adapter res infos replies =>
    obtain rfl := Option.some.inj h
    unfold createAllocation
    split
    · exact List.prefix_refl _
    split <;> exact List.prefix_refl _
  | destroyProcess r =>
    obtain ⟨u, hu, rfl⟩ := Option.map_eq_some_iff.mp h
    obtain ⟨found, -, rfl⟩ := Option.map_eq_some_iff.mp hu
    match found with
    | none => exact List.prefix_refl _
    | some (a, p) => exact prefix_warn
  | destroyDevice r =>
    obtain ⟨u, hu, rfl⟩ := Option.map_eq_some_iff.mp h
    obtain ⟨found, -, hu⟩ := Option.bind_eq_some_iff.mp hu
    match found with
    | none =>
      cases hu
      exact List.prefix_refl _
    | some (a, d) =>
      obtain ⟨pool, -, rfl⟩ := Option.map_eq_some_iff.mp hu
      exact prefix_warn
  | destroyContext r =>
    obtain ⟨u, hu, rfl⟩ := Option.map_eq_some_iff.mp h
    obtain ⟨found, -, hu⟩ := Option.bind_eq_some_iff.mp hu
    match found with
    | none =>
      cases hu
      exact List.prefix_refl _
    | some (a, c) =>
      obtain ⟨pool, -, rfl⟩ := Option.map_eq_some_iff.mp hu
      exact List.prefix_refl _
  | createDevice adapter blocked args reply =>
    obtain ⟨u, hu, rfl⟩ := Option.map_eq_some_iff.mp h
    unfold createDevice at hu
    split at hu
    · cases hu
      exact List.prefix_refl _
    split at hu
    · cases hu
      exact List.prefix_refl _
    split at hu
    · cases hu
      exact List.prefix_refl _
    obtain ⟨owner, -, hu⟩ := Option.bind_eq_some_iff.mp hu
    split at hu
    · cases hu
      exact List.prefix_refl _
    · obtain ⟨pool, -, rfl⟩ := Option.map_eq_some_iff.mp hu
      exact List.prefix_refl _
  | createContext dev args reply =>
    obtain ⟨u, hu, rfl⟩ := Option.map_eq_some_iff.mp h
    unfold createContext at hu
    split at hu
    · cases hu
      exact List.prefix_refl _
    obtain ⟨found, -, hu⟩ := Option.bind_eq_some_iff.mp hu
    match found with
    | none =>
      cases hu
      exact List.prefix_refl _
    | some (q, d) =>
      simp only at hu
      split at hu
      · cases hu
        exact List.prefix_refl _
      split at hu
      · cases hu
        exact List.prefix_refl _
      · obtain ⟨pool, -, rfl⟩ := Option.map_eq_some_iff.mp hu
        exact List.prefix_refl _
  | destroyAllocation hs =>
    obtain ⟨u, hu, rfl⟩ := Option.map_eq_some_iff.mp h
    unfold destroyAllocation at hu
    split at hu
    · cases hu
      exact List.prefix_refl _
    · obtain ⟨v, hv, rfl⟩ := Option.map_eq_some_iff.mp hu
      exact destroyLoop_grown _ hv
  | openAllocation dev hs =>
    obtain ⟨u, hu, rfl⟩ := Option.map_eq_some_iff.mp h
    unfold openAllocation at hu
    split at hu
    · cases hu
      exact List.prefix_refl _
    · obtain ⟨found, -, hu⟩ := Option.bind_eq_some_iff.mp hu
      obtain ⟨⟨filled, v⟩, hv, rfl⟩ := Option.map_eq_some_iff.mp hu
      exact openLoop_grown _ _ hv ▸ List.prefix_refl _
  | closeAllocation hs =>
    obtain ⟨u, hu, rfl⟩ := Option.map_eq_some_iff.mp h
    unfold closeAllocation at hu
    split at hu
    · cases hu
      exact List.prefix_refl _
    · obtain ⟨v, hv, rfl⟩ := Option.map_eq_some_iff.mp hu
      exact closeLoop_grown _ hv ▸ List.prefix_refl _

end Grown

theorem start_sound (cell : ℕ → Object) : Sound (start cell) := by
  have hread : ∀ a, read (start cell).pool a = none := fun a => if_neg (Finset.notMem_empty a)
  refine ⟨⟨fun a x q hx => ?_, fun a x n hx => ?_⟩, fun a ka ha => ?_, nofun⟩
  · exact absurd hx (by simp [hread])
  · exact absurd hx (by simp [hread])
  · exact absurd ha (by simp [hread])

theorem run_sound {cell : ℕ → Object} {cs : List Call} {s : State}
    (h : exec step (start cell) cs = some s) (hp : Guarded step Promised (start cell) cs)
    (hquiet : s.leaks = []) : Sound s := by
  have hstep : ∀ s c t, (s.leaks = [] → Sound s) → Promised s c → step s c = some t →
      (t.leaks = [] → Sound t) := by
    intro s c t S hc ht hleaks
    have hgrown := step_grown ht
    have hnone : s.leaks = [] := List.prefix_nil.mp (hleaks ▸ hgrown)
    obtain ⟨u, hu, A⟩ := step_after (S hnone) hc
    obtain rfl := Option.some.inj (hu.symm.trans ht)
    exact A.sound (hleaks.trans hnone.symm)
  exact exec_invariant hstep (fun _ => start_sound cell) hp h hquiet

section Orphans

variable {s t u : State} {a b : ℕ} {p : KmdProcess} {d : KmdDevice}

theorem orphan_ne (ha : read s.pool a = some (.process p)) (hb : read s.pool b = some (.device d)) :
    b ≠ a := by
  rintro rfl
  cases hb.symm.trans ha

theorem destroyed_pool (ha : read s.pool a = some (.process p))
    (ht : step s (.destroyProcess (some a)) = some t) : t.pool = release s.pool a := by
  have hr : resolve Object.asProcess s.pool (some a) = some (some (a, p)) := by
    rw [resolve, ha]
    rfl
  simp only [step, destroyProcess, hr, Option.map_some] at ht
  obtain rfl := Option.some.inj ht
  rfl

theorem orphan_looks (ha : read s.pool a = some (.process p))
    (hb : read s.pool b = some (.device d)) (howner : d.ownerProcess = some a)
    (ht : step s (.destroyProcess (some a)) = some t) :
    step t (.destroyDevice (some b)) = none := by
  have hrb : resolve Object.asDevice (release s.pool a) (some b) = some (some (b, d)) := by
    rw [resolve, read_release_ne (orphan_ne ha hb), hb]
    rfl
  simp only [step, destroyDevice, destroyed_pool ha ht, hrb, Option.bind_some, howner, countAt,
    read_release_self, Option.bind_none, Option.map_none]

/-- The count of a device goes to the process that its owner's memory has been given to. -/
theorem orphan_miscounts (ha : read s.pool a = some (.process p))
    (hb : read s.pool b = some (.device d)) (howner : d.ownerProcess = some a)
    (ht : step s (.destroyProcess (some a)) = some t) (args : ProcessArgs)
    (hu : step t (.createProcess true (some args) (some a)) = some u) :
    ∃ v p', step u (.destroyDevice (some b)) = some v ∧ read v.pool a = some (.process p') ∧
      p'.deviceCount = -1 := by
  have hba := orphan_ne ha hb
  obtain rfl := Option.some.inj hu
  simp only [createProcess, Bool.not_true, Bool.false_eq_true, if_false]
  generalize hx : (KmdProcess.mk _ _ _ 0) = x
  have hrb : resolve Object.asDevice (place t.pool a (.process x)) (some b) =
      some (some (b, d)) := by
    rw [resolve, read_place_ne hba, destroyed_pool ha ht, read_release_ne hba, hb]
    rfl
  have hcount : countAt isProcess (-1) a (place t.pool a (.process x)) =
      some (modify (place t.pool a (.process x)) a (Object.bump (-1))) := by
    rw [countAt, read_place_self]
    rfl
  simp only [step, destroyDevice, hrb, Option.bind_some, howner, hcount, Option.map_some]
  refine ⟨_, { x with deviceCount := x.deviceCount + -1 }, rfl, ?_, ?_⟩
  · rw [read_release_ne hba.symm, read_modify_self, read_place_self]
    rfl
  · rw [← hx]
    rfl

end Orphans

/-- The graphics kernel keeps its promises in a run in which no destroy call has warned. Then
the counts are exact, no call that is promised looks at freed memory, and it warns exactly when
it destroys something busy. A device whose process is destroyed under it looks at freed memory
when it is destroyed next, and if a new process has got that memory first, it takes that one's
count to -1. -/
theorem leaks_exact {cell : ℕ → Object} {cs : List Call} {s : State}
    (h : exec step (start cell) cs = some s) (hp : Guarded step Promised (start cell) cs)
    (hquiet : s.leaks = []) :
    Sound s ∧ (∀ c, Promised s c → ∃ t, step s c = some t ∧
      (t.leaks = [] ↔ ∀ a ∈ s.pool.live, a ∉ t.pool.live → ¬Busy s a)) ∧
    ∀ a b p d t, read s.pool a = some (.process p) → read s.pool b = some (.device d) →
      d.ownerProcess = some a → step s (.destroyProcess (some a)) = some t →
        step t (.destroyDevice (some b)) = none ∧
        ∀ args u, step t (.createProcess true (some args) (some a)) = some u → ∃ v p',
          step u (.destroyDevice (some b)) = some v ∧ read v.pool a = some (.process p') ∧
            p'.deviceCount = -1 := by
  have S := run_sound h hp hquiet
  refine ⟨S, fun c hc => ?_, fun a b p d t ha hb howner ht => ?_⟩
  · obtain ⟨t, ht, A⟩ := step_after S hc
    exact ⟨t, ht, hquiet ▸ A.exact⟩
  · exact ⟨orphan_looks ha hb howner ht,
      fun args u hu => orphan_miscounts ha hb howner ht args hu⟩

/-- A process, and a device on it. -/
def processAndDevice : List Call :=
  [.createProcess true (some ⟨1, 0, 0, none⟩) (some 10),
    .createDevice true false (some ⟨2, some 10, 0, 0⟩) (some 11)]

theorem orphaned_device : ∃ s t,
    exec step (start fun _ => .process ⟨0, 0, 0, 0⟩) processAndDevice = some s ∧
      step s (.destroyProcess (some 10)) = some t ∧ t.leaks = [(10, 1)] ∧
        step t (.destroyDevice (some 11)) = none := by
  have hp : Guarded step Promised (start fun _ => .process ⟨0, 0, 0, 0⟩) processAndDevice := by
    refine fun t ht => ⟨fun a _ => Finset.notMem_empty a, fun u hu => ⟨⟨?_, ?_⟩, trivial⟩⟩
    · obtain rfl := Option.some.inj ht
      intro a ha
      obtain rfl := Option.some.inj ha
      decide
    · obtain rfl := Option.some.inj ht
      intro r hr a ha
      obtain rfl := Option.some.inj hr
      obtain rfl := Option.some.inj ha
      decide
  obtain ⟨-, -, horphan⟩ := leaks_exact rfl hp rfl
  exact ⟨_, _, rfl, rfl, rfl, (horphan 10 11 _ _ _ rfl rfl rfl rfl).1⟩

end WinMali.KmdLifetimes
