import Mathlib.Data.List.Perm.Basic

/-!
# Blocks of frames and references to them

Blocks own disjoint lists of frames; somebody else refers to frames. As long as
every reference meets a block, a block can leave exactly when nothing refers to it.
-/

set_option autoImplicit false

namespace WinMali.BlockCover

variable {B F : Type*} {frames : B → List F} {kept taken bs : List B} {ref : F → Prop}

def Held (frames : B → List F) (bs : List B) (f : F) : Prop := ∃ b ∈ bs, f ∈ frames b

def Apart (frames : B → List F) (bs : List B) : Prop := (bs.map frames).Pairwise List.Disjoint

theorem Held.perm {f : F} (h : Held frames bs f) (hp : bs.Perm kept) : Held frames kept f := by
  obtain ⟨b, hb, hf⟩ := h
  exact ⟨b, hp.mem_iff.mp hb, hf⟩

theorem Held.append {f : F} (h : Held frames kept f) (taken : List B) :
    Held frames (kept ++ taken) f := by
  obtain ⟨b, hb, hf⟩ := h
  exact ⟨b, List.mem_append_left _ hb, hf⟩

theorem Held.congr {f : F} (h : Held frames bs f) (hm : bs.map frames = kept.map frames) :
    Held frames kept f := by
  obtain ⟨b, hb, hf⟩ := h
  obtain ⟨c, hc, he⟩ := List.mem_map.mp (hm ▸ List.mem_map_of_mem hb)
  exact ⟨c, hc, he ▸ hf⟩

theorem Apart.perm (h : Apart frames bs) (hp : bs.Perm kept) : Apart frames kept :=
  (List.Perm.pairwise_iff List.disjoint_symm (hp.map frames)).mp h

theorem Apart.left (h : Apart frames (kept ++ taken)) : Apart frames kept := by
  rw [Apart, List.map_append] at h
  exact (List.pairwise_append.mp h).1

theorem Apart.notHeld (h : Apart frames (kept ++ taken)) {b : B} (hb : b ∈ taken) {f : F}
    (hf : f ∈ frames b) : ¬Held frames kept f := by
  rintro ⟨c, hc, hfc⟩
  rw [Apart, List.map_append] at h
  exact (List.pairwise_append.mp h).2.2 _ (List.mem_map_of_mem hc) _ (List.mem_map_of_mem hb) hfc hf

theorem Apart.unique (h : Apart frames (kept ++ taken)) {b c : B} (hb : b ∈ taken)
    (hc : c ∈ kept ++ taken) {f : F} (hf : f ∈ frames b) (hf' : f ∈ frames c) : c ∈ taken :=
  (List.mem_append.mp hc).resolve_left fun hk => h.notHeld hb hf ⟨c, hk, hf'⟩

theorem Apart.fresh (h : Apart frames bs) {b : B} (hb : ∀ f ∈ frames b, ¬Held frames bs f) :
    Apart frames (bs ++ [b]) := by
  rw [Apart, List.map_append]
  refine List.pairwise_append.mpr ⟨h, List.pairwise_singleton .., ?_⟩
  intro l hl l' hl' f hf hf'
  obtain ⟨c, hc, rfl⟩ := List.mem_map.mp hl
  obtain rfl := List.mem_singleton.mp hl'
  exact hb f hf' ⟨c, hc, hf⟩

/-- The first entry that meets `p`, with what removing or replacing it leaves. -/
theorem find_split {p : B → Bool} {b : B} (h : bs.find? p = some b) :
    ∃ l r, bs = l ++ b::r ∧ bs.eraseP p = l ++ r ∧
      ∀ c, bs.set (bs.findIdx p) c = l ++ c::r := by
  obtain ⟨hb, l, r, rfl, hl⟩ := List.find?_eq_some_iff_append.mp h
  have hl' : ∀ x ∈ l, p x = false := fun x hx => by simpa using hl x hx
  refine ⟨l, r, rfl, ?_, ?_⟩
  · rw [List.eraseP_append_right _ (fun x hx => by simp [hl' x hx]), List.eraseP_cons_of_pos hb]
  · intro c
    have hidx : (l ++ b::r).findIdx p = l.length := by
      rw [List.findIdx_append, List.findIdx_eq_length_of_false hl']
      simp [List.findIdx_cons, hb]
    rw [hidx]
    simp

theorem find_set {p : B → Bool} {b c : B} (h : bs.find? p = some b) (hc : p c = true) :
    (bs.set (bs.findIdx p) c).find? p = some c := by
  have hlt : bs.findIdx p < bs.length := List.findIdx_lt_length_of_exists
    ⟨b, List.mem_of_find?_eq_some h, List.find?_some h⟩
  refine List.find?_eq_some_iff_getElem.mpr ⟨hc, bs.findIdx p, by simpa using hlt, by simp, ?_⟩
  intro j hj
  rw [List.getElem_set_ne (by omega)]
  simpa using List.not_of_lt_findIdx hj

end WinMali.BlockCover
