import KernelSmp.Base.LinkedQueue
import KernelSmp.Memory.KmallocBlocks
import KernelSmp.Memory.Slab

/-! The headers and the objects of the slabs as parts of one memory, and the lists of slabs. -/

namespace KernelSmp.Memory.SlabCaches

open Base LinkedList Function List

def IsPage (a : Word) : Prop := a.toNat % 4096 = 0 ∧ a ≠ 0

instance (a : Word) : Decidable (IsPage a) := inferInstanceAs (Decidable (_ ∧ _))

def IsObj (o : Word) : Prop := o.toNat % 16 = 0 ∧ 64 ≤ o.toNat % 4096

variable {s : Slabs} {a b o o' v : Word} {f g : SlabField} {k : Fin 8 × SlabList}

lemma IsPage.off (ha : IsPage a) (hb : IsPage b) (h : a ≠ b) : slabT.Off a b := by
  have hne : a.toNat ≠ b.toNat := fun heq => h (BitVec.eq_of_toNat_eq heq)
  obtain ⟨_, -⟩ := ha
  obtain ⟨_, -⟩ := hb
  have hbytes : slabT.bytes = 56 := rfl
  rw [Layout.Off, hbytes]
  omega

lemma get_set_same (hv : v.toNat < 256 ^ slabT.width f) : (s.set a f v).get a f = v := Layout.get_set_self hv

lemma get_set_other (ha : IsPage a) (hb : IsPage b) (h : b ≠ a ∨ g ≠ f) : (s.set a f v).get b g = s.get b g := by
  rcases eq_or_ne b a with rfl | hab
  · exact Layout.get_set_field (h.resolve_left fun hne => hne rfl).symm
  · exact Layout.get_set_off (ha.off hb (Ne.symm hab))

lemma get_setObj (hb : IsPage b) (ho : IsObj o) : (s.setObj o v).get b g = s.get b g := by
  obtain ⟨_, -⟩ := hb
  obtain ⟨_, _⟩ := ho
  have hinside := slabT.inside g
  have hbytes : slabT.bytes = 56 := rfl
  rw [Slabs.get, Slabs.setObj, Mem.store64, Layout.get, Mem.readLE_writeLE_disjoint _ (by omega)]
  rfl

lemma getObj_set (ha : IsPage a) (ho : IsObj o) : (s.set a f v).getObj o = s.getObj o := by
  obtain ⟨_, -⟩ := ha
  obtain ⟨_, _⟩ := ho
  have hinside := slabT.inside f
  have hbytes : slabT.bytes = 56 := rfl
  rw [Slabs.getObj, Slabs.set, Layout.set, Mem.load64, Mem.readLE_writeLE_disjoint _ (by omega)]
  rfl

@[simp] lemma getObj_setObj_self : (s.setObj o v).getObj o = v := Mem.load64_store64 _ _ _

lemma getObj_setObj (ho : IsObj o) (ho' : IsObj o') (h : o' ≠ o) : (s.setObj o v).getObj o' = s.getObj o' := by
  have hne : o'.toNat ≠ o.toNat := fun heq => h (BitVec.eq_of_toNat_eq heq)
  obtain ⟨_, -⟩ := ho
  obtain ⟨_, -⟩ := ho'
  exact Mem.load64_store64_disjoint _ _ (by omega)

lemma IsObj.ne_zero (h : IsObj o) : o ≠ 0 := by
  rintro rfl
  exact absurd h.2 (by decide)

def slabNext (s : Slabs) (a : Word) : Option Word := pointer (s.get a .next)
def slabPrev (s : Slabs) (a : Word) : Option Word := pointer (s.get a .prev)
def listHead (s : Slabs) (k : Fin 8 × SlabList) : Option Word := pointer (s.lists k)
def objNext (s : Slabs) (o : Word) : Option Word := pointer (s.getObj o)

structure Relinked (s s' : Slabs) : Prop where
  fields : ∀ b f, IsPage b → f ≠ .next → f ≠ .prev → s'.get b f = s.get b f
  objs : ∀ o, IsObj o → s'.getObj o = s.getObj o
  base : s'.kmallocCaches = s.kmallocCaches

variable {s' s'' : Slabs} {k' : Fin 8 × SlabList} {ls : Fin 8 × SlabList → List Word} {l₁ l₂ : List Word}

lemma Relinked.refl : Relinked s s := ⟨fun _ _ _ _ _ => rfl, fun _ _ => rfl, rfl⟩

lemma Relinked.trans (h : Relinked s s') (h' : Relinked s' s'') : Relinked s s'' :=
  ⟨fun b f hb hn hp => (h'.fields b f hb hn hp).trans (h.fields b f hb hn hp),
    fun o ho => (h'.objs o ho).trans (h.objs o ho), h'.base.trans h.base⟩

lemma Relinked.setNext (ha : IsPage a) (v : Word) : Relinked s (s.set a .next v) :=
  ⟨fun _ _ hb hn _ => get_set_other ha hb (Or.inr hn), fun _ ho => getObj_set ha ho, rfl⟩

lemma Relinked.setPrev (ha : IsPage a) (v : Word) : Relinked s (s.set a .prev v) :=
  ⟨fun _ _ hb _ hp => get_set_other ha hb (Or.inr hp), fun _ ho => getObj_set ha ho, rfl⟩

lemma Relinked.setList (v : Word) : Relinked s (s.setList k v) := ⟨fun _ _ _ _ _ => rfl, fun _ _ => rfl, rfl⟩

lemma slabNext_setNext (ha : IsPage a) (hb : IsPage b) : slabNext (s.set a .next v) b =
    update (slabNext s) a (pointer v) b := by
  rcases eq_or_ne b a with rfl | hab
  · rw [slabNext, get_set_same v.isLt, update_self]
  · rw [slabNext, get_set_other ha hb (.inl hab), update_of_ne hab, slabNext]

lemma slabPrev_setPrev (ha : IsPage a) (hb : IsPage b) : slabPrev (s.set a .prev v) b =
    update (slabPrev s) a (pointer v) b := by
  rcases eq_or_ne b a with rfl | hab
  · rw [slabPrev, get_set_same v.isLt, update_self]
  · rw [slabPrev, get_set_other ha hb (.inl hab), update_of_ne hab, slabPrev]

lemma slabNext_setPrev (ha : IsPage a) (hb : IsPage b) : slabNext (s.set a .prev v) b = slabNext s b := by
  rw [slabNext, get_set_other ha hb (.inr (by decide)), slabNext]

lemma slabPrev_setNext (ha : IsPage a) (hb : IsPage b) : slabPrev (s.set a .next v) b = slabPrev s b := by
  rw [slabPrev, get_set_other ha hb (.inr (by decide)), slabPrev]

lemma listHead_setList : listHead (s.setList k v) = update (listHead s) k (pointer v) := by
  funext j
  rcases eq_or_ne j k with rfl | hj
  · simp [listHead, Slabs.setList]
  · simp [listHead, Slabs.setList, hj]

lemma linkNext_spec {p : Word} (hp : ∀ q ∈ pointer p, IsPage q) (v : Word) : Relinked s (s.linkNext p v) ∧
    (s.linkNext p v).lists = s.lists ∧ (∀ b, IsPage b → slabPrev (s.linkNext p v) b = slabPrev s b) ∧ ∀ b, IsPage b →
    slabNext (s.linkNext p v) b = if pointer p = some b then pointer v else slabNext s b := by
  rw [Slabs.linkNext]
  by_cases hzero : p = 0
  · rw [if_neg (not_not.mpr hzero), pointer_eq_none.mpr hzero]
    exact ⟨.refl, rfl, fun _ _ => rfl, fun _ _ => (if_neg nofun).symm⟩
  · rw [pointer_of_ne hzero] at hp ⊢
    have hpage := hp p rfl
    rw [if_pos hzero]
    refine ⟨.setNext hpage v, rfl, fun b hb => slabPrev_setNext hpage hb, fun b hb => ?_⟩
    rw [slabNext_setNext hpage hb, update_apply]
    exact if_congr (eq_comm.trans (Option.some.injEq p b).symm.to_iff) rfl rfl

lemma linkPrev_spec {p : Word} (hp : ∀ q ∈ pointer p, IsPage q) (v : Word) : Relinked s (s.linkPrev p v) ∧
    (s.linkPrev p v).lists = s.lists ∧ (∀ b, IsPage b → slabNext (s.linkPrev p v) b = slabNext s b) ∧ ∀ b, IsPage b →
    slabPrev (s.linkPrev p v) b = if pointer p = some b then pointer v else slabPrev s b := by
  rw [Slabs.linkPrev]
  by_cases hzero : p = 0
  · rw [if_neg (not_not.mpr hzero), pointer_eq_none.mpr hzero]
    exact ⟨.refl, rfl, fun _ _ => rfl, fun _ _ => (if_neg nofun).symm⟩
  · rw [pointer_of_ne hzero] at hp ⊢
    have hpage := hp p rfl
    rw [if_pos hzero]
    refine ⟨.setPrev hpage v, rfl, fun b hb => slabNext_setPrev hpage hb, fun b hb => ?_⟩
    rw [slabPrev_setPrev hpage hb, update_apply]
    exact if_congr (eq_comm.trans (Option.some.injEq p b).symm.to_iff) rfl rfl

structure Listed (s : Slabs) (ls : Fin 8 × SlabList → List Word) : Prop where
  lists : DLists (slabNext s) (slabPrev s) (listHead s) ls
  pages : ∀ k, ∀ b ∈ ls k, IsPage b

lemma pointer_zero : pointer 0 = none := if_pos rfl

lemma pointer_inj {w : Word} (h : pointer v = pointer w) : v = w := by
  cases hw : pointer w with
  | none => rw [pointer_eq_none.mp hw, pointer_eq_none.mp (h.trans hw)]
  | some => rw [(pointer_eq_some.mp hw).1, (pointer_eq_some.mp (h.trans hw)).1]

lemma Listed.head_mem (h : Listed s ls) {q : Word} (hq : listHead s k = some q) : q ∈ ls k := by
  have hlist := h.lists.dlist k
  rw [hq] at hlist
  cases hl : ls k with
  | nil =>
    rw [hl] at hlist
    cases hlist
  | cons =>
    rw [hl] at hlist
    rw [Option.some.inj hlist.1]
    exact mem_cons_self

lemma Listed.push (h : Listed s ls) (ha : IsPage a) (hnew : ∀ j, a ∉ ls j) (k : Fin 8 × SlabList) :
    Listed (slabListPush s k a) (update ls k (a :: ls k)) ∧ Relinked s (slabListPush s k a) := by
  have hpages : ∀ j, ∀ b ∈ update ls k (a :: ls k) j, IsPage b := by
    intro j b hb
    by_cases hj : j = k
    · rw [hj, update_self] at hb
      rcases mem_cons.mp hb with rfl | hb
      · exact ha
      · exact h.pages k b hb
    · rw [update_of_ne hj] at hb
      exact h.pages j b hb
  rw [slabListPush]
  obtain ⟨hrelinked, hlists, hnext, hprev⟩ := linkPrev_spec
    (fun q hq => h.pages k q (h.head_mem hq)) a
  refine ⟨⟨(h.lists.push hnew k).congr (fun j b hb => ?_) (fun j b hb => ?_) fun j => ?_, hpages⟩,
    (((Relinked.setNext ha _).trans (.setPrev ha _)).trans hrelinked).trans (.setList a)⟩
  · have hb := hpages j b hb
    exact (hnext b hb).trans ((slabNext_setPrev ha hb).trans (slabNext_setNext ha hb))
  · have hb := hpages j b hb
    refine (hprev b hb).trans ?_
    rw [elim_update, slabPrev_setPrev ha hb, pointer_zero, pointer_of_ne ha.2, update_apply, update_apply,
      slabPrev_setNext ha hb]
    rfl
  · rw [listHead_setList, pointer_of_ne ha.2]
    have hheads : listHead (((s.set a .next (s.lists k)).set a .prev 0).linkPrev (s.lists k) a) = listHead s := by
      funext i
      rw [listHead, hlists]
      rfl
    exact congrFun (congrArg (update · k (some a)) hheads) j

lemma moveHead_spec (ha : IsPage a) (v : Word) :
    Relinked s (if s.lists k = a then s.setList k v else s) ∧
    (∀ b f, (if s.lists k = a then s.setList k v else s).get b f = s.get b f) ∧
    listHead (if s.lists k = a then s.setList k v else s) =
      update (listHead s) k (if listHead s k = some a then pointer v else listHead s k) := by
  have hiff : listHead s k = some a ↔ s.lists k = a := pointer_eq_some.trans (and_iff_left ha.2)
  by_cases hhead : s.lists k = a
  · rw [if_pos hhead, if_pos (hiff.mpr hhead)]
    exact ⟨.setList v, fun _ _ => rfl, listHead_setList⟩
  · rw [if_neg hhead, if_neg (mt hiff.mp hhead), update_eq_self]
    exact ⟨.refl, fun _ _ => rfl, rfl⟩

lemma Listed.remove (h : Listed s ls) (hk : ls k = l₁ ++ a :: l₂) :
    Listed (slabListRemove s k a) (update ls k (l₁ ++ l₂)) ∧ Relinked s (slabListRemove s k a) := by
  have hlist := hk ▸ h.lists.dlist k
  have hnodup := hk ▸ h.lists.nodup k
  have hpage := hk ▸ h.pages k
  have ha := hpage a (mem_append_right l₁ mem_cons_self)
  have hremoved := h.lists.remove hk
  have hpages : ∀ j, ∀ b ∈ update ls k (l₁ ++ l₂) j, IsPage b ∧ b ≠ a := by
    intro j b hb
    by_cases hj : j = k
    · rw [hj, update_self] at hb
      have hsub := (sublist_cons_self a l₂).append_left l₁
      refine ⟨hpage b (hsub.mem hb), ?_⟩
      rintro rfl
      exact (nodup_middle.mp hnodup).notMem hb
    · rw [update_of_ne hj] at hb
      refine ⟨h.pages j b hb, ?_⟩
      rintro rfl
      exact hj (h.lists.apart j k b hb (hk ▸ mem_append_right l₁ mem_cons_self))
  have hprevPage : ∀ q ∈ pointer (s.get a .prev), IsPage q := by
    intro q hq
    exact hpage q (mem_append_left _ (mem_of_lastOr_none (hlist.prev_eq.symm.trans hq)))
  have hnextPage : ∀ q ∈ pointer (s.get a .next), IsPage q := by
    intro q hq
    exact hpage q (mem_append_right _ (mem_cons_of_mem a (List.mem_of_mem_head? (hlist.next_eq.symm.trans hq))))
  have hself : slabPrev s a ≠ some a := by
    intro hloop
    exact (nodup_append'.mp hnodup).2.2 (mem_of_lastOr_none (hlist.prev_eq.symm.trans hloop)) mem_cons_self
  -- the cell itself keeps its links until the end
  obtain ⟨hrel₁, hlists₁, hprev₁, hnext₁⟩ := linkNext_spec (s := s) hprevPage (s.get a .next)
  have hgetNext₁ := pointer_inj ((hnext₁ a ha).trans (if_neg hself))
  have hgetPrev₁ := pointer_inj (hprev₁ a ha)
  obtain ⟨hrel₂, hlists₂, hnext₂, hprev₂⟩ := linkPrev_spec hnextPage
    (s.get a .prev)
  rw [slabListRemove]
  simp only [hgetNext₁, hgetPrev₁]
  generalize hs₂ : (s.linkNext (s.get a .prev) (s.get a .next)).linkPrev (s.get a .next) (s.get a .prev) = s₂ at *
  have hgetNext₂ := pointer_inj ((hnext₂ a ha).trans (congrArg pointer hgetNext₁))
  rw [hgetNext₂]
  obtain ⟨hrel₃, hmem₃, hhead₃⟩ := moveHead_spec ha (s.get a .next)
  generalize (if s₂.lists k = a then s₂.setList k (s.get a .next) else s₂) = s₃ at *
  refine ⟨⟨hremoved.congr (fun j b hb => ?_) (fun j b hb => ?_) fun j => ?_, fun j b hb => (hpages j b hb).1⟩,
    ((hrel₁.trans hrel₂).trans hrel₃).trans ((Relinked.setPrev ha 0).trans (.setNext ha 0))⟩
  · obtain ⟨hb, hba⟩ := hpages j b hb
    rw [slabNext_setNext ha hb, update_of_ne hba, slabNext_setPrev ha hb, unlinkNext, elim_update]
    exact (congrArg pointer (hmem₃ b .next)).trans ((hnext₂ b hb).trans (hnext₁ b hb))
  · obtain ⟨hb, hba⟩ := hpages j b hb
    rw [slabPrev_setNext ha hb, slabPrev_setPrev ha hb, update_of_ne hba, unlinkPrev, elim_update]
    refine (congrArg pointer (hmem₃ b .prev)).trans ((hprev₂ b hb).trans ?_)
    rw [hprev₁ b hb]
    rfl
  · have hheads : listHead s₂ = listHead s := by
      funext i
      rw [listHead, hlists₂, hlists₁, listHead]
    rw [← hheads]
    exact congrFun hhead₃ j

end KernelSmp.Memory.SlabCaches
