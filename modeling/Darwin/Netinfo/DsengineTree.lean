import Darwin.Netinfo.Dsengine
import Mathlib.Data.List.Nodup
import Mathlib.Data.Nat.Find

/-! The records stay a tree. -/
open List Function Option Nat
namespace Darwin.Netinfo
open Lib

variable {A : Type} {s s' : Dsstore A} {rank : ℕ → ℕ} {d p : ℕ}

/-- A record and those below it. -/
inductive Below (s : Dsstore A) (d : ℕ) : ℕ → Prop
  | self (r : Dsrecord A) (hd : s.get d=some r) : Below s d d
  | child (c : ℕ) (r : Dsrecord A) (hc : s.get c=some r) (hroot : c≠0)
    (h : Below s d r.super) : Below s d c

/-- Child lists match parent ids, and all records are below the root. -/
structure Linked (s : Dsstore A) : Prop where
  child : ∀ p r c,s.get p=some r → c∈r.sub → c≠0 ∧ ∃ rc,s.get c=some rc ∧ rc.super=p
  parent : ∀ c rc,s.get c=some rc → c≠0 → ∃ r,s.get rc.super=some r ∧ c∈r.sub
  nodup : ∀ p r,s.get p=some r → r.sub.Nodup
  root : ∀ r,s.get 0=some r → r.super=0

structure IsTree (s : Dsstore A) : Prop extends Linked s where
  below : ∀ c r,s.get c=some r → Below s 0 c

/-- Ranks that grow from a parent to its children rule out cycles. -/
structure Ranked (s : Dsstore A) (rank : ℕ → ℕ) : Prop extends Linked s where
  lt : ∀ c r,s.get c=some r → c≠0 → rank r.super<rank c

lemma Ranked.isTree (h : Ranked s rank) : IsTree s := by
  refine ⟨h.toLinked,fun c r hc => ?_⟩
  induction hn : rank c using Nat.strong_induction_on generalizing c r with
  | _ n ih =>
    by_cases hroot : c=0
    · subst c
      exact .self r hc
    · obtain ⟨rp,hp,-⟩ := h.parent c r hc hroot
      exact .child c r hc hroot (ih _ (hn▸h.lt c r hc hroot) r.super rp hp rfl)

def up (s : Dsstore A) (c : ℕ) : ℕ := ((s.get c).map Dsrecord.super).getD 0

lemma Below.exists_iterate {c : ℕ} (h : Below s 0 c) : ∃ k,(up s)^[k] c=0 := by
  induction h with
  | self r hd => exact ⟨0,rfl⟩
  | child c r hc hroot h ih =>
    obtain ⟨k,hk⟩ := ih
    refine ⟨k+1,?_⟩
    rwa [iterate_succ_apply,up,hc]

lemma IsTree.ranked (h : IsTree s) : ∃ rank,Ranked s rank := by
  classical
  refine ⟨fun c => if hc : ∃ k,(up s)^[k] c=0 then Nat.find hc else 0,h.toLinked,
    fun c r hc hroot => ?_⟩
  have hreach := (h.below c r hc).exists_iterate
  have hpos : Nat.find hreach≠0 := fun hzero => hroot ((find_eq_zero hreach).mp hzero)
  obtain ⟨k,hk⟩ := exists_eq_add_one_of_ne_zero hpos
  have hup : (up s)^[k] r.super=0 := by
    have hspec := Nat.find_spec hreach
    rw [hk,iterate_succ_apply,up,hc] at hspec
    exact hspec
  have hparent : ∃ k,(up s)^[k] r.super=0 := ⟨k,hup⟩
  rw [dif_pos hparent,dif_pos hreach,hk]
  exact Nat.lt_succ_of_le (Nat.find_min' hparent hup)

lemma Below.ne_none_of (h : Below s d p) : s.get d≠none := by
  induction h with
  | self r hd => rw [hd]; exact some_ne_none r
  | child c r hc hroot hbelow ih => exact ih

lemma IsTree.root_ne_none (h : IsTree s) {c : ℕ} {r : Dsrecord A} (hc : s.get c=some r) :
    s.get 0≠none := (h.below c r hc).ne_none_of

lemma Linked.super_ne_none (h : Linked s) {c : ℕ} {r : Dsrecord A} (hc : s.get c=some r) :
    s.get r.super≠none := by
  by_cases hroot : c=0
  · subst c
    rw [h.root r hc,hc]
    exact some_ne_none r
  · obtain ⟨rp,hp,-⟩ := h.parent c r hc hroot
    rw [hp]
    exact some_ne_none rp

lemma Below.ne_none {c : ℕ} (h : Below s d c) : s.get c≠none := by
  cases h with
  | self r hd => rw [hd]; exact some_ne_none r
  | child c r hc hroot h => rw [hc]; exact some_ne_none r

lemma Below.of_child {c k : ℕ} (h : Below s k c) {rk r : Dsrecord A} (hk : s.get k=some rk)
    (hroot : k≠0) (hd : s.get d=some r) (hsuper : rk.super=d) : Below s d c := by
  induction h with
  | self r' hk' =>
    refine .child k rk hk hroot ?_
    rw [hsuper]
    exact .self r hd
  | child c rc hc hc0 h ih => exact .child c rc hc hc0 ih

lemma Ranked.rank_le (h : Ranked s rank) {c : ℕ} (hbelow : Below s d c) : rank d≤rank c := by
  induction hbelow with
  | self r hd => exact le_refl _
  | child c r hc hroot hbelow ih => exact ih.trans (le_of_lt (h.lt c r hc hroot))

lemma create_spec (h : Ranked s rank) (r : Dsrecord A) {rp : Dsrecord A}
    (hp : s.get p=some rp) : ∃ s',dsengineCreate true s r p=(s',.ok,s.fresh) ∧ ∀ c,s'.get c =
      if c=p then some {rp with sub := rp.sub++[s.fresh]}
      else if c=s.fresh then some {r with super := p} else s.get c := by
  have hfresh := s.get_fresh
  have hzero : s.fresh≠0 := fun heq => h.isTree.root_ne_none hp (heq▸hfresh)
  have hself : s.fresh≠p := fun heq => by
    rw [heq,hp] at hfresh
    cases hfresh
  have hsuper : s.fresh≠rp.super := fun heq => h.super_ne_none hp (heq▸hfresh)
  have hsub : s.fresh∉rp.sub := fun hmem => by
    obtain ⟨-,rc,hc,-⟩ := h.child p rp _ hp hmem
    rw [hfresh] at hc
    cases hc
  have happend : dsrecordAppendSub p rp s.fresh={rp with sub := rp.sub++[s.fresh]} := by
    rw [dsrecordAppendSub,if_neg hzero,if_neg hself,if_neg hsuper,if_neg hsub]
  refine ⟨((s.put s.fresh {r with super := p}).put p {rp with sub := rp.sub++[s.fresh]}).put p
    {rp with sub := rp.sub++[s.fresh]},?_,fun c => ?_⟩
  · rw [dsengineCreate,hp]
    simp only [dsstoreSave,if_true,ne_eq,not_true_eq_false,if_false,happend]
  · simp only [SortedMap.get_put]
    split_ifs <;> rfl

lemma Ranked.create (h : Ranked s rank) {r rp : Dsrecord A} (hsub : r.sub=[])
    (hp : s.get p=some rp) (hs' : ∀ c,s'.get c =
      if c=p then some {rp with sub := rp.sub++[s.fresh]}
      else if c=s.fresh then some {r with super := p} else s.get c) :
    Ranked s' (update rank s.fresh (rank p+1)) := by
  have hfresh := s.get_fresh
  have hne : ∀ c rc,s.get c=some rc → c≠s.fresh := fun c rc hc heq => by
    rw [heq,hfresh] at hc
    cases hc
  have hzero : s.fresh≠0 := fun heq => h.isTree.root_ne_none hp (heq▸hfresh)
  have hnew : s'.get s.fresh=some {r with super := p} := by
    rw [hs',if_neg (hne p rp hp).symm,if_pos rfl]
  -- the old records, with the new child of `p`
  have hold : ∀ c rc,s.get c=some rc → ∃ rc',s'.get c=some rc' ∧ rc'.super=rc.super ∧
      ∀ k,k∈rc'.sub ↔ k∈rc.sub ∨ c=p ∧ k=s.fresh := by
    intro c rc hc
    by_cases hcp : c=p
    · subst c
      rw [hp] at hc
      cases hc
      exact ⟨{rp with sub := rp.sub++[s.fresh]},by rw [hs',if_pos rfl],rfl,fun k => by simp⟩
    · exact ⟨rc,by rw [hs',if_neg hcp,if_neg (hne c rc hc),hc],rfl,fun k => by simp [hcp]⟩
  have hcases : ∀ c rc',s'.get c=some rc' → (c=s.fresh ∧ rc'={r with super := p}) ∨
      ∃ rc,s.get c=some rc ∧ rc'.super=rc.super ∧
        (rc'.sub=rc.sub ∨ c=p ∧ rc'.sub=rc.sub++[s.fresh]) := by
    intro c rc' hc'
    rw [hs'] at hc'
    split_ifs at hc' with hcp hcf
    · cases hc'
      exact .inr ⟨rp,hcp▸hp,rfl,.inr ⟨hcp,rfl⟩⟩
    · cases hc'
      exact .inl ⟨hcf,rfl⟩
    · exact .inr ⟨rc',hc',rfl,.inl rfl⟩
  refine ⟨⟨fun q rq' c hq' hmem => ?_,fun c rc' hc' hc0 => ?_,fun q rq' hq' => ?_,fun r0' h0' => ?_⟩,
    fun c rc' hc' hc0 => ?_⟩
  · rcases hcases q rq' hq' with ⟨-,rfl⟩ | ⟨rq,hq,-,hsub'⟩
    · rw [show ({r with super := p} : Dsrecord A).sub=[] from hsub] at hmem
      cases hmem
    · have hold' : c∈rq.sub → c≠0 ∧ ∃ rc',s'.get c=some rc' ∧ rc'.super=q := fun hc => by
        obtain ⟨hc0,rc,hrc,hsuper⟩ := h.child q rq c hq hc
        obtain ⟨rc',hrc',hsuper',-⟩ := hold c rc hrc
        exact ⟨hc0,rc',hrc',hsuper'.trans hsuper⟩
      rcases hsub' with hsub' | ⟨rfl,hsub'⟩
      · exact hold' (hsub'▸hmem)
      · rw [hsub',mem_append] at hmem
        rcases hmem with hmem | hmem
        · exact hold' hmem
        · rw [mem_singleton.mp hmem]
          exact ⟨hzero,_,hnew,rfl⟩
  · rcases hcases c rc' hc' with ⟨rfl,rfl⟩ | ⟨rc,hc,hsuper,-⟩
    · obtain ⟨rp',hp',-,hmem⟩ := hold p rp hp
      exact ⟨rp',hp',(hmem _).mpr (.inr ⟨rfl,rfl⟩)⟩
    · obtain ⟨rq,hq,hmem⟩ := h.parent c rc hc hc0
      obtain ⟨rq',hq',-,hmem'⟩ := hold _ rq hq
      rw [hsuper]
      exact ⟨rq',hq',(hmem' c).mpr (.inl hmem)⟩
  · rcases hcases q rq' hq' with ⟨-,rfl⟩ | ⟨rq,hq,-,hsub' | ⟨-,hsub'⟩⟩
    · rw [show ({r with super := p} : Dsrecord A).sub=[] from hsub]
      exact nodup_nil
    · rw [hsub']
      exact h.nodup q rq hq
    · rw [hsub',nodup_append]
      refine ⟨h.nodup q rq hq,nodup_singleton _,fun a ha b hb hab => ?_⟩
      obtain ⟨-,rc,hrc,-⟩ := h.child q rq a hq ha
      exact hne a rc hrc (hab.trans (mem_singleton.mp hb))
  · rcases hcases 0 r0' h0' with ⟨heq,-⟩ | ⟨r0,h0,hsuper,-⟩
    · exact absurd heq.symm hzero
    · rw [hsuper]
      exact h.root r0 h0
  · rcases hcases c rc' hc' with ⟨rfl,rfl⟩ | ⟨rc,hc,hsuper,-⟩
    · rw [update_self,update_of_ne (hne p rp hp)]
      exact lt_succ_self _
    · obtain ⟨rq,hq,-⟩ := h.parent c rc hc hc0
      rw [hsuper,update_of_ne (hne _ rq hq),update_of_ne (hne c rc hc)]
      exact h.lt c rc hc hc0

lemma Ranked.removeLeaf (h : Ranked s rank) {rd rp : Dsrecord A} (hd : s.get d=some rd)
    (hleaf : rd.sub=[]) (hp : s.get rd.super=some rp)
    (hs' : ∀ c,s'.get c=if c=d then none
      else if c=rd.super then some (dsrecordRemoveSub rp d) else s.get c) : Ranked s' rank := by
  have hcases : ∀ c rc',s'.get c=some rc' → c≠d ∧ ∃ rc,s.get c=some rc ∧
      rc'.super=rc.super ∧ rc'.sub.Nodup ∧ ∀ k,k∈rc'.sub ↔ k∈rc.sub ∧ k≠d := by
    intro c rc' hc'
    rw [hs'] at hc'
    split_ifs at hc' with hcd hcp
    · cases hc'
      have hnodup := h.nodup _ rp hp
      exact ⟨hcd,rp,hcp▸hp,rfl,hnodup.erase d,fun k => by
        rw [dsrecordRemoveSub,hnodup.mem_erase_iff,and_comm]⟩
    · refine ⟨hcd,rc',hc',rfl,h.nodup c rc' hc',fun k => ⟨fun hk => ⟨hk,fun hkd => ?_⟩,And.left⟩⟩
      -- only its parent has the record as a child
      obtain ⟨-,rd',hd',hsuper⟩ := h.child c rc' k hc' hk
      rw [hkd,hd] at hd'
      cases hd'
      exact hcp hsuper.symm
  have hkeep : ∀ c rc,s.get c=some rc → c≠d → ∃ rc',s'.get c=some rc' := by
    intro c rc hc hcd
    rw [hs',if_neg hcd]
    split_ifs
    · exact ⟨_,rfl⟩
    · exact ⟨rc,hc⟩
  refine ⟨⟨fun q rq' c hq' hmem => ?_,fun c rc' hc' hc0 => ?_,fun q rq' hq' => ?_,fun r0' h0' => ?_⟩,
    fun c rc' hc' hc0 => ?_⟩
  · obtain ⟨-,rq,hq,-,-,hsub⟩ := hcases q rq' hq'
    obtain ⟨hc,hcd⟩ := (hsub c).mp hmem
    obtain ⟨hc0,rc,hrc,hsuper⟩ := h.child q rq c hq hc
    obtain ⟨rc',hrc'⟩ := hkeep c rc hrc hcd
    obtain ⟨-,rc₁,hrc₁,hsuper',-⟩ := hcases c rc' hrc'
    cases hrc.symm.trans hrc₁
    exact ⟨hc0,rc',hrc',hsuper'.trans hsuper⟩
  · obtain ⟨hcd,rc,hc,hsuper,-⟩ := hcases c rc' hc'
    obtain ⟨rq,hq,hmem⟩ := h.parent c rc hc hc0
    have hqd : rc.super≠d := fun heq => by
      rw [heq,hd] at hq
      cases hq
      rw [hleaf] at hmem
      cases hmem
    obtain ⟨rq',hq'⟩ := hkeep _ rq hq hqd
    obtain ⟨-,rq₁,hq₁,-,-,hsub⟩ := hcases _ rq' hq'
    cases hq.symm.trans hq₁
    rw [hsuper]
    exact ⟨rq',hq',(hsub c).mpr ⟨hmem,hcd⟩⟩
  · obtain ⟨-,-,-,-,hnodup,-⟩ := hcases q rq' hq'
    exact hnodup
  · obtain ⟨-,r0,h0,hsuper,-⟩ := hcases 0 r0' h0'
    rw [hsuper]
    exact h.root r0 h0
  · obtain ⟨-,rc,hc,hsuper,-⟩ := hcases c rc' hc'
    rw [hsuper]
    exact h.lt c rc hc hc0

def Bounded (s : Dsstore A) (rank : ℕ → ℕ) (bound : ℕ) : Prop :=
  ∀ c,s.get c≠none → rank c≤bound

/-- What the removal of a record and those below it leaves as it was. -/
structure Removed (s s' : Dsstore A) (rank : ℕ → ℕ) (d p : ℕ) : Prop where
  ranked : Ranked s' rank
  present : ∀ c,s'.get c≠none → s.get c≠none
  parent : s'.get p=(s.get p).map fun rp => dsrecordRemoveSub rp d
  others : ∀ c,rank c<rank d → c≠p → s'.get c=s.get c

lemma removeKids_spec {bound depth : ℕ}
    (hremove : ∀ (s : Dsstore A) k rk,Ranked s rank → Bounded s rank bound → s.get k=some rk →
      k≠0 → bound<depth+rank k → ∃ s',dsengineRemove true depth s k=some (s',.ok) ∧
        Removed s s' rank k rk.super) (kids : List ℕ) (s : Dsstore A) (r : Dsrecord A)
    (h : Ranked s rank) (hbound : Bounded s rank bound) (hd : s.get d=some {r with sub := kids})
    (hdepth : bound<depth+1+rank d) :
    ∃ s',forKids (dsengineRemove true depth) kids s=some (s',.ok) ∧ Ranked s' rank ∧
      s'.get d=some {r with sub := []} ∧ (∀ c,s'.get c≠none → s.get c≠none) ∧
      ∀ c,rank c<rank d → s'.get c=s.get c := by
  induction kids generalizing s with
  | nil => exact ⟨s,rfl,h,hd,fun _ => id,fun _ _ => rfl⟩
  | cons kid kids ih =>
    obtain ⟨hk0,rk,hk,hsuper⟩ := h.child d _ kid hd mem_cons_self
    have hlt := h.lt kid rk hk hk0
    rw [hsuper] at hlt
    obtain ⟨s₁,hs₁,hrem⟩ := hremove s kid rk h hbound hk hk0 (by omega)
    have hd₁ : s₁.get d=some {r with sub := kids} := by
      have hparent := hrem.parent
      rw [hsuper,hd] at hparent
      rw [hparent]
      simp [dsrecordRemoveSub]
    obtain ⟨s',hs',hranked,hd',hpresent,hothers⟩ := ih s₁ hrem.ranked
      (fun c hc => hbound c (hrem.present c hc)) hd₁
    refine ⟨s',?_,hranked,hd',fun c hc => hrem.present c (hpresent c hc),fun c hc => ?_⟩
    · rw [forKids,hs₁,bind_some,if_neg (by simp)]
      exact hs'
    · have hcd : c≠d := fun heq => by
        rw [heq] at hc
        exact lt_irrefl _ hc
      rw [hothers c hc,hrem.others c (hc.trans hlt) (by rwa [hsuper])]

lemma remove_spec {bound depth : ℕ} (s : Dsstore A) (d : ℕ) (r : Dsrecord A) (h : Ranked s rank)
    (hbound : Bounded s rank bound) (hd : s.get d=some r) (hroot : d≠0)
    (hdepth : bound<depth+rank d) :
    ∃ s',dsengineRemove true depth s d=some (s',.ok) ∧ Removed s s' rank d r.super := by
  induction depth generalizing s d r with
  | zero => exact absurd (hbound d (by rw [hd]; exact some_ne_none r)) (by omega)
  | succ depth ih =>
    obtain ⟨s₁,hkids,hranked,hd₁,hpresent,hothers⟩ := removeKids_spec
      (fun s k rk => ih s k rk) r.sub s r h hbound hd hdepth
    have hlt := h.lt d r hd hroot
    obtain ⟨rp,hp,-⟩ := h.parent d r hd hroot
    have hp₁ : s₁.get r.super=some rp := (hothers _ hlt).trans hp
    have hpd : r.super≠d := fun heq => by
      rw [heq] at hlt
      exact lt_irrefl _ hlt
    refine ⟨((s₁.put r.super (dsrecordRemoveSub rp d)).put r.super
      (dsrecordRemoveSub rp d)).erase d,?_,?_,fun c hc => ?_,?_,fun c hc hcp => ?_⟩
    · rw [dsengineRemove,hd]
      dsimp only
      rw [hkids,map_some,if_neg (by simp),hd₁]
      dsimp only
      rw [hp₁]
      simp [dsstoreSave,dsstoreRemove]
    · refine hranked.removeLeaf hd₁ rfl hp₁ fun c => ?_
      simp only [SortedMap.get_erase,SortedMap.get_put]
      split_ifs <;> rfl
    · simp only [SortedMap.get_erase,SortedMap.get_put] at hc
      split_ifs at hc with hcd hcp
      · exact absurd rfl hc
      · rw [hcp,hp]
        exact some_ne_none rp
      · exact hpresent c hc
    · rw [SortedMap.get_erase,if_neg hpd,SortedMap.get_put,if_pos rfl,hp]
      rfl
    · have hcd : c≠d := fun heq => by
        rw [heq] at hc
        exact lt_irrefl _ hc
      rw [SortedMap.get_erase,if_neg hcd,SortedMap.get_put,if_neg hcp,SortedMap.get_put,if_neg hcp,
        hothers c hc]

lemma remove_root {bound : ℕ} (h : Ranked s rank) (hbound : Bounded s rank bound) {r : Dsrecord A}
    (h0 : s.get 0=some r) :
    ∃ s',dsengineRemove true (bound+1) s 0=some (s',.ok) ∧ ∀ c,s'.get c=none := by
  have hdepth : bound<bound+1+rank 0 := by omega
  obtain ⟨s₁,hkids,hranked,h0₁,-,-⟩ := removeKids_spec
    (fun s k rk hs hb hk hk0 hdepth => remove_spec s k rk hs hb hk hk0 hdepth) r.sub s r h hbound h0
    hdepth
  have hsuper : r.super=0 := h.root r h0
  refine ⟨((s₁.put 0 {r with sub := []}).put 0 {r with sub := []}).erase 0,?_,fun c => ?_⟩
  · rw [dsengineRemove,h0]
    dsimp only
    rw [hkids,map_some,if_neg (by simp),h0₁]
    dsimp only
    rw [hsuper,h0₁]
    simp [dsstoreSave,dsstoreRemove,dsrecordRemoveSub,hsuper]
  · rw [SortedMap.get_erase]
    split_ifs with hc
    · rfl
    · rw [SortedMap.get_put,if_neg hc,SortedMap.get_put,if_neg hc]
      -- whatever is below the root is below a child of it
      cases hget : s₁.get c with
      | none => rfl
      | some rc =>
        exfalso
        have hbelow := hranked.isTree.below c rc hget
        have hnone : ∀ k,Below s₁ 0 k → k=0 := by
          intro k hk
          induction hk with
          | self r hd => rfl
          | child k rk hk hk0 hbelow ih =>
            obtain ⟨rp,hp,hmem⟩ := hranked.parent k rk hk hk0
            rw [ih,h0₁] at hp
            cases hp
            cases hmem
        exact hc (hnone c hbelow)

lemma Ranked.move (h : Ranked s rank) {rd ro rp : Dsrecord A} (hd : s.get d=some rd)
    (hroot : d≠0) (ho : s.get rd.super=some ro) (hp : s.get p=some rp)
    (hne : rd.super≠p) (hbelow : ¬Below s d p)
    (hs' : ∀ c,s'.get c=if c=p then some {rp with sub := rp.sub++[d]}
      else if c=rd.super then some (dsrecordRemoveSub ro d)
      else if c=d then some {rd with super := p} else s.get c) : IsTree s' := by
  classical
  have hpd : p≠d := fun heq => hbelow (by rw [heq]; exact .self rd hd)
  have hod : rd.super≠d := fun heq => by
    have hlt := h.lt d rd hd hroot
    rw [heq] at hlt
    exact lt_irrefl _ hlt
  have hparent : ∀ q rq,s.get q=some rq → (d∈rq.sub ↔ q=rd.super) := by
    intro q rq hq
    constructor
    · intro hmem
      obtain ⟨-,rd',hd',hsuper⟩ := h.child q rq d hq hmem
      cases hd.symm.trans hd'
      exact hsuper.symm
    · rintro rfl
      obtain ⟨rq',hq',hmem⟩ := h.parent d rd hd hroot
      cases hq.symm.trans hq'
      exact hmem
  have hcases : ∀ c rc',s'.get c=some rc' → ∃ rc,s.get c=some rc ∧
      rc'.super=(if c=d then p else rc.super) ∧ rc'.sub.Nodup ∧
      ∀ k,k∈rc'.sub ↔ k≠d ∧ k∈rc.sub ∨ k=d ∧ c=p := by
    intro c rc' hc'
    rw [hs'] at hc'
    split_ifs at hc' with hcp hco hcd
    · cases hc'
      subst c
      have hdp : d∉rp.sub := fun hmem => hne ((hparent p rp hp).mp hmem).symm
      refine ⟨rp,hp,by rw [if_neg hpd],?_,fun k => ?_⟩
      · rw [nodup_append]
        exact ⟨h.nodup p rp hp,nodup_singleton d,fun a ha b hb hab =>
          hdp (by rwa [←mem_singleton.mp hb,←hab])⟩
      · rw [mem_append,mem_singleton]
        by_cases hk : k=d
        · subst k
          simp [hdp]
        · simp [hk]
    · cases hc'
      subst c
      have hnodup := h.nodup _ ro ho
      refine ⟨ro,ho,by rw [if_neg hod]; rfl,hnodup.erase d,fun k => ?_⟩
      rw [dsrecordRemoveSub,hnodup.mem_erase_iff]
      simp [hne]
    · cases hc'
      subst c
      refine ⟨rd,hd,by rw [if_pos rfl],h.nodup d rd hd,fun k => ?_⟩
      have hdd : d∉rd.sub := fun hmem => hod ((hparent d rd hd).mp hmem).symm
      by_cases hk : k=d
      · subst k
        simp [hdd,hpd.symm]
      · simp [hk]
    · refine ⟨rc',hc',by rw [if_neg hcd],h.nodup c rc' hc',fun k => ?_⟩
      have hdc : d∉rc'.sub := fun hmem => hco ((hparent c rc' hc').mp hmem)
      by_cases hk : k=d
      · subst k
        simp [hdc,hcp]
      · simp [hk]
  have hkeep : ∀ c rc,s.get c=some rc → ∃ rc',s'.get c=some rc' ∧
      rc'.super=(if c=d then p else rc.super) ∧ ∀ k,k∈rc'.sub ↔ k≠d ∧ k∈rc.sub ∨ k=d ∧ c=p := by
    intro c rc hc
    have hsome : ∃ rc',s'.get c=some rc' := by
      rw [hs']
      split_ifs
      · exact ⟨_,rfl⟩
      · exact ⟨_,rfl⟩
      · exact ⟨_,rfl⟩
      · exact ⟨rc,hc⟩
    obtain ⟨rc',hc'⟩ := hsome
    obtain ⟨rc₁,hc₁,hsuper,-,hsub⟩ := hcases c rc' hc'
    cases hc.symm.trans hc₁
    exact ⟨rc',hc',hsuper,hsub⟩
  -- everything below the record gets ranks above its new parent
  have hranked : Ranked s' fun c => if Below s d c then rank c+rank p+1 else rank c := by
    refine ⟨⟨fun q rq' c hq' hmem => ?_,fun c rc' hc' hc0 => ?_,fun q rq' hq' => ?_,
      fun r0' h0' => ?_⟩,fun c rc' hc' hc0 => ?_⟩
    · obtain ⟨rq,hq,-,-,hsub⟩ := hcases q rq' hq'
      rcases (hsub c).mp hmem with ⟨hcd,hmem⟩ | ⟨rfl,rfl⟩
      · obtain ⟨hc0,rc,hrc,hsuper⟩ := h.child q rq c hq hmem
        obtain ⟨rc',hrc',hsuper',-⟩ := hkeep c rc hrc
        rw [if_neg hcd] at hsuper'
        exact ⟨hc0,rc',hrc',hsuper'.trans hsuper⟩
      · obtain ⟨rd',hd',hsuper',-⟩ := hkeep c rd hd
        rw [if_pos rfl] at hsuper'
        exact ⟨hroot,rd',hd',hsuper'⟩
    · obtain ⟨rc,hc,hsuper,-,-⟩ := hcases c rc' hc'
      rw [hsuper]
      split_ifs with hcd
      · obtain ⟨rp',hp',-,hsub⟩ := hkeep p rp hp
        exact ⟨rp',hp',(hsub c).mpr (.inr ⟨hcd,rfl⟩)⟩
      · obtain ⟨rq,hq,hmem⟩ := h.parent c rc hc hc0
        obtain ⟨rq',hq',-,hsub⟩ := hkeep _ rq hq
        exact ⟨rq',hq',(hsub c).mpr (.inl ⟨hcd,hmem⟩)⟩
    · obtain ⟨-,-,-,hnodup,-⟩ := hcases q rq' hq'
      exact hnodup
    · obtain ⟨r0,h0,hsuper,-⟩ := hcases 0 r0' h0'
      rw [hsuper,if_neg hroot.symm]
      exact h.root r0 h0
    · obtain ⟨rc,hc,hsuper,-,-⟩ := hcases c rc' hc'
      have hlt := h.lt c rc hc hc0
      rw [hsuper]
      by_cases hcd : c=d
      · subst c
        rw [if_pos rfl,if_neg hbelow,if_pos (.self rd hd)]
        omega
      · rw [if_neg hcd]
        have hiff : Below s d c ↔ Below s d rc.super := by
          constructor
          · intro hb
            cases hb with
            | self r hd => exact absurd rfl hcd
            | child c r hc' hroot hb =>
              cases hc.symm.trans hc'
              exact hb
          · exact fun hb => .child c rc hc hc0 hb
        by_cases hb : Below s d c
        · rw [if_pos hb,if_pos (hiff.mp hb)]
          omega
        · rw [if_neg hb,if_neg fun hsup => hb (hiff.mpr hsup)]
          exact hlt
  exact hranked.isTree

lemma move_spec (h : Ranked s rank) {rd rp : Dsrecord A} (hd : s.get d=some rd)
    (hroot : d≠0) (hp : s.get p=some rp) (hne : rd.super≠p) (hbelow : ¬Below s d p) :
    ∃ s',dsengineMove true s d p=(s',.ok) ∧ IsTree s' := by
  obtain ⟨ro,ho,hmem⟩ := h.parent d rd hd hroot
  have hpd : p≠d := fun heq => hbelow (by rw [heq]; exact .self rd hd)
  have hod : rd.super≠d := fun heq => by
    have hlt := h.lt d rd hd hroot
    rw [heq] at hlt
    exact lt_irrefl _ hlt
  have hdsuper : d≠rp.super := fun heq => by
    by_cases hp0 : p=0
    · subst p
      exact hroot (heq.trans (h.root rp hp))
    · exact hbelow (.child p rp hp hp0 (heq ▸ .self rd hd))
  have hdp : d∉rp.sub := fun hmem => by
    obtain ⟨-,rd',hd',hsuper⟩ := h.child p rp d hp hmem
    cases hd.symm.trans hd'
    exact hne hsuper
  have happend : dsrecordAppendSub p rp d={rp with sub := rp.sub++[d]} := by
    rw [dsrecordAppendSub,if_neg hroot,if_neg hpd.symm,if_neg hdsuper,if_neg hdp]
  have hmove : dsengineMove true s d p =
      ((((((s.put d {rd with super := p}).put d {rd with super := p}).put rd.super
        (dsrecordRemoveSub ro d)).put rd.super (dsrecordRemoveSub ro d)).put p
        {rp with sub := rp.sub++[d]}).put p {rp with sub := rp.sub++[d]},.ok) := by
    rw [dsengineMove,if_neg hroot,hd]
    dsimp only
    rw [if_neg hne]
    simp only [dsstoreSave,if_true,ne_eq,not_true_eq_false,if_false,SortedMap.get_put,hod,ho,hpd,hp,
      hne.symm,happend]
  refine ⟨_,hmove,h.move hd hroot ho hp hne hbelow fun c => ?_⟩
  simp only [SortedMap.get_put]
  split_ifs <;> rfl

end Darwin.Netinfo
