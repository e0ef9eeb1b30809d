import Darwin.Netinfo.DsengineTree

/-! Copying, and runs of the engine. -/
open Option
namespace Darwin.Netinfo
open Lib

variable {A : Type} {s s' : Dsstore A} {readwrite : Bool} {d p : ℕ}

section Copy

/-- What copies leave as it was: every record but the one that they go under. -/
structure Copied (s s' : Dsstore A) (p : ℕ) : Prop where
  tree : IsTree s'
  present : s'.get p≠none
  others : ∀ c r,s.get c=some r → c≠p → s'.get c=some r

variable {t : Dsstore A} {rank : ℕ → ℕ} {bound : ℕ}

lemma copyKids_spec {depth x : ℕ}
    (hcopy : ∀ k rk (s : Dsstore A),t.get k=some rk → bound<depth+rank k → IsTree s →
      (∀ c,Below t k c → s.get c=t.get c) → s.get x≠none → ¬Below t k x →
      ∃ s',dsengineCopy true depth s k x=some (s',.ok) ∧ Copied s s' x)
    (kids : List ℕ) (s : Dsstore A) (hs : IsTree s) (hx : s.get x≠none)
    (hkids : ∀ k∈kids,(∃ rk,t.get k=some rk) ∧ bound<depth+rank k ∧ ¬Below t k x ∧
      ∀ c,Below t k c → s.get c=t.get c) :
    ∃ s',forKids (fun s kid => dsengineCopy true depth s kid x) kids s=some (s',.ok) ∧
      Copied s s' x := by
  induction kids generalizing s with
  | nil => exact ⟨s,rfl,hs,hx,fun _ _ hc _ => hc⟩
  | cons kid kids ih =>
    obtain ⟨⟨rk,hk⟩,hdepth,hxk,hagree⟩ := hkids kid List.mem_cons_self
    obtain ⟨s₁,hs₁,hcopied⟩ := hcopy kid rk s hk hdepth hs hagree hx hxk
    obtain ⟨s',hs',hcopied'⟩ := ih s₁ hcopied.tree hcopied.present fun k hmem => by
      obtain ⟨hk,hdepth,hxk,hagree⟩ := hkids k (List.mem_cons_of_mem kid hmem)
      refine ⟨hk,hdepth,hxk,fun c hc => ?_⟩
      obtain ⟨rc,hrc⟩ := ne_none_iff_exists'.mp hc.ne_none
      have hcx : c≠x := fun heq => hxk (heq▸hc)
      rw [hcopied.others c rc ((hagree c hc).trans hrc) hcx,hrc]
    refine ⟨s',?_,hcopied'.tree,hcopied'.present,fun c r hc hcx => ?_⟩
    · rw [forKids,hs₁,bind_some,if_neg (by simp)]
      exact hs'
    · exact hcopied'.others c r (hcopied.others c r hc hcx) hcx

lemma copy_spec (ht : Ranked t rank) {depth : ℕ} (d : ℕ) (r : Dsrecord A) (s : Dsstore A) (p : ℕ)
    (hd : t.get d=some r) (hdepth : bound<depth+rank d) (hbound : Bounded t rank bound)
    (hs : IsTree s) (hagree : ∀ c,Below t d c → s.get c=t.get c) (hp : s.get p≠none)
    (hnot : Below t d p → p=d) :
    ∃ s',dsengineCopy true depth s d p=some (s',.ok) ∧ Copied s s' p := by
  induction depth generalizing d r s p with
  | zero => exact absurd (hbound d (by rw [hd]; exact some_ne_none r)) (by omega)
  | succ depth ih =>
    obtain ⟨ranks,hranked⟩ := hs.ranked
    obtain ⟨rp,hrp⟩ := ne_none_iff_exists'.mp hp
    have hself := hagree d (.self r hd)
    obtain ⟨s₁,hcreate,hget⟩ := create_spec hranked {r with sub := []} hrp
    have htree₁ : IsTree s₁ := (hranked.create rfl hrp hget).isTree
    have hold : ∀ c rc,s.get c=some rc → c≠p → s₁.get c=some rc := by
      intro c rc hc hcp
      have hcf : c≠s.fresh := fun heq => by
        rw [heq,s.get_fresh] at hc
        cases hc
      rw [hget,if_neg hcp,if_neg hcf,hc]
    have hpf : p≠s.fresh := fun heq => by
      rw [heq,s.get_fresh] at hrp
      cases hrp
    have hnew : s₁.get s.fresh≠none := by
      rw [hget,if_neg hpf.symm,if_pos rfl]
      exact some_ne_none _
    obtain ⟨s',hs',hcopied⟩ := copyKids_spec (x := s.fresh)
      (fun k rk s hk hdepth hs hagree hx hxk => ih k rk s _ hk hdepth hs hagree hx
        fun hb => absurd hb hxk) r.sub s₁ htree₁ hnew fun k hk => by
        obtain ⟨hk0,rk,hrk,hsuper⟩ := ht.child d r k hd hk
        have hlt := ht.lt k rk hrk hk0
        rw [hsuper] at hlt
        have hunder : ∀ c,Below t k c → Below t d c := fun c hc =>
          hc.of_child hrk hk0 hd hsuper
        refine ⟨⟨rk,hrk⟩,by omega,fun hx => ?_,fun c hc => ?_⟩
        · have hex := (hunder _ hx).ne_none
          rw [←hagree _ (hunder _ hx)] at hex
          exact hex s.get_fresh
        · have hcp : c≠p := fun heq => by
            subst c
            have hpd := hnot (hunder p hc)
            subst p
            have hle := ht.rank_le hc
            omega
          obtain ⟨rc,hrc⟩ := ne_none_iff_exists'.mp hc.ne_none
          rw [hold c rc ((hagree c (hunder c hc)).trans hrc) hcp,hrc]
    refine ⟨s',?_,hcopied.tree,?_,fun c rc hc hcp => ?_⟩
    · rw [dsengineCopy,hself,hd]
      dsimp only
      rw [hcreate]
      dsimp only
      rw [if_neg (by simp)]
      exact hs'
    · have hp₁ : s₁.get p=some {rp with sub := rp.sub++[s.fresh]} := by rw [hget,if_pos rfl]
      rw [hcopied.others p _ hp₁ hpf]
      exact some_ne_none _
    · have hcf : c≠s.fresh := fun heq => by
        rw [heq,s.get_fresh] at hc
        cases hc
      exact hcopied.others c rc (hold c rc hc hcp) hcf

end Copy

lemma forKids_mono {f g : Dsstore A → ℕ → Option (Dsstore A × DSStatus)}
    (hfg : ∀ s k r,f s k=some r → g s k=some r) (kids : List ℕ) (s : Dsstore A)
    (r : Dsstore A × DSStatus) (h : forKids f kids s=some r) : forKids g kids s=some r := by
  induction kids generalizing s with
  | nil => exact h
  | cons kid kids ih =>
    rw [forKids] at h ⊢
    obtain ⟨r₁,hr₁,h⟩ := bind_eq_some_iff.mp h
    rw [hfg s kid r₁ hr₁,bind_some]
    split_ifs at h ⊢ with hst
    · exact h
    · exact ih r₁.1 h

lemma dsengineRemove_succ (depth : ℕ) (s : Dsstore A) (d : ℕ) (r : Dsstore A × DSStatus)
    (h : dsengineRemove readwrite depth s d=some r) :
    dsengineRemove readwrite (depth+1) s d=some r := by
  induction depth generalizing s d r with
  | zero => cases h
  | succ depth ih =>
    rw [dsengineRemove] at h ⊢
    cases hget : s.get d with
    | none =>
      rw [hget] at h
      exact h
    | some rd =>
      rw [hget] at h
      dsimp only at h ⊢
      obtain ⟨removed,hkids,h⟩ := map_eq_some_iff.mp h
      rw [forKids_mono ih rd.sub s removed hkids,map_some,h]

lemma dsengineCopy_succ (depth : ℕ) (s : Dsstore A) (d p : ℕ) (r : Dsstore A × DSStatus)
    (h : dsengineCopy readwrite depth s d p=some r) :
    dsengineCopy readwrite (depth+1) s d p=some r := by
  induction depth generalizing s d p r with
  | zero => cases h
  | succ depth ih =>
    rw [dsengineCopy] at h ⊢
    cases hget : s.get d with
    | none =>
      rw [hget] at h
      exact h
    | some rd =>
      rw [hget] at h
      dsimp only at h ⊢
      split_ifs at h ⊢ with hst
      · exact h
      · exact forKids_mono (fun s k r hr => ih s k _ r hr) rd.sub _ r h

lemma eq_of_succ {β : Type} {f : ℕ → Option β} (hsucc : ∀ n r,f n=some r → f (n+1)=some r)
    {m n : ℕ} {a b : β} (hm : f m=some a) (hn : f n=some b) : a=b := by
  have hadd : ∀ k n r,f n=some r → f (n+k)=some r := by
    intro k
    induction k with
    | zero => exact fun n r h => h
    | succ k ih => exact fun n r h => hsucc _ r (ih n r h)
  have hboth := (hadd n m a hm).symm.trans (Nat.add_comm n m▸hadd m n b hn)
  exact some.inj hboth

/-- A call of the engine. -/
inductive EngineCall (A : Type)
  | create (r : Dsrecord A) (dsid : ℕ)
  | save (dsid : ℕ) (r : Dsrecord A)
  | remove (dsid : ℕ)
  | move (dsid pdsid : ℕ)
  | copy (dsid pdsid : ℕ)

def EngineCall.perform (readwrite : Bool) (depth : ℕ) (s : Dsstore A) :
    EngineCall A → Option (Dsstore A × DSStatus)
  | .create r dsid =>
    let created := dsengineCreate readwrite s r dsid
    some (created.1,created.2.1)
  | .save dsid r => some (dsengineSave readwrite s dsid r)
  | .remove dsid => dsengineRemove readwrite depth s dsid
  | .move dsid pdsid => some (dsengineMove readwrite s dsid pdsid)
  | .copy dsid pdsid => dsengineCopy readwrite depth s dsid pdsid

/-- A created record has no children; a saved one has the parent and the children that it has in the
store; only a store that can be written loses or moves a record; a record is moved to one that is
there and not below it, and copied to one not strictly below it. -/
def Allowed (readwrite : Bool) (s : Dsstore A) : EngineCall A → Prop
  | .create r _ => r.sub=[]
  | .save dsid r => ∀ stored,s.get dsid=some stored → r.super=stored.super ∧ r.sub=stored.sub
  | .remove dsid => readwrite=true ∨ s.get dsid=none
  | .move dsid pdsid => ∀ child,dsid≠0 → s.get dsid=some child → child.super≠pdsid →
    readwrite=true ∧ s.get pdsid≠none ∧ ¬Below s dsid pdsid
  | .copy dsid pdsid => readwrite=true → Below s dsid pdsid → pdsid=dsid

/-- Stores reached by allowed calls. -/
inductive Reached (readwrite : Bool) (s₀ : Dsstore A) : Dsstore A → Prop
  | start : Reached readwrite s₀ s₀
  | call (s : Dsstore A) (call : EngineCall A) (depth : ℕ) (s' : Dsstore A) (status : DSStatus)
    (h : Reached readwrite s₀ s) (hallowed : Allowed readwrite s call)
    (heq : call.perform readwrite depth s=some (s',status)) : Reached readwrite s₀ s'

lemma EngineCall.perform_unique (call : EngineCall A) {m n : ℕ} {a b : Dsstore A × DSStatus}
    (hm : call.perform readwrite m s=some a) (hn : call.perform readwrite n s=some b) : a=b := by
  cases call with
  | create r dsid => exact some.inj (hm.symm.trans hn)
  | save dsid r => exact some.inj (hm.symm.trans hn)
  | move dsid pdsid => exact some.inj (hm.symm.trans hn)
  | remove dsid =>
    exact eq_of_succ (f := fun n => dsengineRemove readwrite n s dsid)
      (fun n r h => dsengineRemove_succ n s dsid r h) hm hn
  | copy dsid pdsid =>
    exact eq_of_succ (f := fun n => dsengineCopy readwrite n s dsid pdsid)
      (fun n r h => dsengineCopy_succ n s dsid pdsid r h) hm hn

lemma IsTree.save (h : IsTree s) {r stored : Dsrecord A} (hd : s.get d=some stored)
    (hsuper : r.super=stored.super) (hsub : r.sub=stored.sub) : IsTree (s.put d r) := by
  obtain ⟨rank,hranked⟩ := h.ranked
  have hcases : ∀ c rc',(s.put d r).get c=some rc' →
      ∃ rc,s.get c=some rc ∧ rc'.super=rc.super ∧ rc'.sub=rc.sub := by
    intro c rc' hc'
    rw [SortedMap.get_put] at hc'
    split_ifs at hc' with hcd
    · cases hc'
      exact ⟨stored,hcd▸hd,hsuper,hsub⟩
    · exact ⟨rc',hc',rfl,rfl⟩
  have hkeep : ∀ c rc,s.get c=some rc →
      ∃ rc',(s.put d r).get c=some rc' ∧ rc'.super=rc.super ∧ rc'.sub=rc.sub := by
    intro c rc hc
    rw [SortedMap.get_put]
    split_ifs with hcd
    · rw [hcd,hd] at hc
      cases hc
      exact ⟨r,rfl,hsuper,hsub⟩
    · exact ⟨rc,hc,rfl,rfl⟩
  have hranked' : Ranked (s.put d r) rank := by
    refine ⟨⟨fun q rq' c hq' hmem => ?_,fun c rc' hc' hc0 => ?_,fun q rq' hq' => ?_,
      fun r0' h0' => ?_⟩,fun c rc' hc' hc0 => ?_⟩
    · obtain ⟨rq,hq,-,hsub⟩ := hcases q rq' hq'
      obtain ⟨hc0,rc,hrc,hsuper⟩ := h.child q rq c hq (hsub▸hmem)
      obtain ⟨rc',hrc',hsuper',-⟩ := hkeep c rc hrc
      exact ⟨hc0,rc',hrc',hsuper'.trans hsuper⟩
    · obtain ⟨rc,hc,hsuper,-⟩ := hcases c rc' hc'
      obtain ⟨rq,hq,hmem⟩ := h.parent c rc hc hc0
      obtain ⟨rq',hq',-,hsub⟩ := hkeep _ rq hq
      rw [hsuper]
      exact ⟨rq',hq',hsub▸hmem⟩
    · obtain ⟨rq,hq,-,hsub⟩ := hcases q rq' hq'
      rw [hsub]
      exact h.nodup q rq hq
    · obtain ⟨r0,h0,hsuper,-⟩ := hcases 0 r0' h0'
      rw [hsuper]
      exact h.root r0 h0
    · obtain ⟨rc,hc,hsuper,-⟩ := hcases c rc' hc'
      rw [hsuper]
      exact hranked.lt c rc hc hc0
  exact hranked'.isTree

lemma EngineCall.perform_spec (h : IsTree s) (call : EngineCall A)
    (hallowed : Allowed readwrite s call) :
    ∃ depth s' status,call.perform readwrite depth s=some (s',status) ∧ IsTree s' ∧
      ∀ dsid pdsid,call=.move dsid pdsid → status≠.ok → s'=s := by
  obtain ⟨rank,hranked⟩ := h.ranked
  obtain ⟨bound,hbound⟩ := s.exists_bound rank
  cases call with
  | create r dsid =>
    refine ⟨0,(dsengineCreate readwrite s r dsid).1,(dsengineCreate readwrite s r dsid).2.1,rfl,?_,
      fun _ _ hcall => by cases hcall⟩
    cases hp : s.get dsid with
    | none =>
      rw [dsengineCreate,hp]
      exact h
    | some rp =>
      cases readwrite with
      | false =>
        rw [dsengineCreate,hp]
        exact h
      | true =>
        obtain ⟨s',hcreate,hget⟩ := create_spec hranked r hp
        rw [hcreate]
        exact (hranked.create hallowed hp hget).isTree
  | save dsid r =>
    refine ⟨0,(dsengineSave readwrite s dsid r).1,(dsengineSave readwrite s dsid r).2,rfl,?_,fun _ _ hcall => by cases hcall⟩
    rw [dsengineSave]
    cases hd : s.get dsid with
    | none => exact h
    | some stored =>
      dsimp only
      cases s.get stored.super with
      | none => exact h
      | some rp =>
        cases readwrite with
        | false => exact h
        | true =>
          obtain ⟨hsuper,hsub⟩ := hallowed stored hd
          exact h.save hd hsuper hsub
  | remove dsid =>
    cases hd : s.get dsid with
    | none =>
      refine ⟨1,s,.ok,?_,h,fun _ _ hcall => by cases hcall⟩
      rw [EngineCall.perform,dsengineRemove,hd]
    | some r =>
      rcases hallowed with rfl | hnone
      · by_cases hroot : dsid=0
        · subst dsid
          obtain ⟨s',hs',hnone⟩ := remove_root hranked hbound hd
          have hno : ∀ c (rc : Dsrecord A),s'.get c≠some rc := fun c rc hc => by
            rw [hnone c] at hc
            cases hc
          exact ⟨bound+1,s',.ok,hs',⟨⟨fun p r c hp => absurd hp (hno p r),
            fun c rc hc => absurd hc (hno c rc),fun p r hp => absurd hp (hno p r),
            fun r h0 => absurd h0 (hno 0 r)⟩,fun c r hc => absurd hc (hno c r)⟩,
            fun _ _ hcall => by cases hcall⟩
        · have hdepth : bound<bound+1+rank dsid := by omega
          obtain ⟨s',hs',hremoved⟩ := remove_spec s dsid r hranked hbound hd hroot hdepth
          exact ⟨bound+1,s',.ok,hs',hremoved.ranked.isTree,fun _ _ hcall => by cases hcall⟩
      · rw [hd] at hnone
        cases hnone
  | move dsid pdsid =>
    refine ⟨0,(dsengineMove readwrite s dsid pdsid).1,(dsengineMove readwrite s dsid pdsid).2,rfl,?_⟩
    by_cases hroot : dsid=0
    · rw [dsengineMove,if_pos hroot]
      exact ⟨h,fun _ _ _ _ => rfl⟩
    · cases hd : s.get dsid with
      | none =>
        rw [dsengineMove,if_neg hroot,hd]
        exact ⟨h,fun _ _ _ _ => rfl⟩
      | some child =>
        by_cases hsame : child.super=pdsid
        · rw [dsengineMove,if_neg hroot,hd]
          dsimp only
          rw [if_pos hsame]
          exact ⟨h,fun _ _ _ _ => rfl⟩
        · obtain ⟨rfl,hp,hbelow⟩ := hallowed child hroot hd hsame
          obtain ⟨rp,hrp⟩ := ne_none_iff_exists'.mp hp
          obtain ⟨s',hmove,htree⟩ := move_spec hranked hd hroot hrp hsame hbelow
          rw [hmove]
          exact ⟨htree,fun _ _ _ hst => absurd rfl hst⟩
  | copy dsid pdsid =>
    cases hd : s.get dsid with
    | none =>
      refine ⟨1,s,.invalidPath,?_,h,fun _ _ hcall => by cases hcall⟩
      rw [EngineCall.perform,dsengineCopy,hd]
    | some r =>
      cases hp : s.get pdsid with
      | none =>
        refine ⟨1,s,.invalidPath,?_,h,fun _ _ hcall => by cases hcall⟩
        rw [EngineCall.perform,dsengineCopy,hd]
        dsimp only
        rw [dsengineCreate,hp]
        rfl
      | some rp =>
        cases readwrite with
        | false =>
          refine ⟨1,s,.writeFailed,?_,h,fun _ _ hcall => by cases hcall⟩
          rw [EngineCall.perform,dsengineCopy,hd]
          dsimp only
          rw [dsengineCreate,hp]
          rfl
        | true =>
          have hdepth : bound<bound+1+rank dsid := by omega
          obtain ⟨s',hs',hcopied⟩ := copy_spec hranked dsid r s pdsid hd hdepth hbound h
            (fun _ _ => rfl) (by rw [hp]; exact some_ne_none rp) (hallowed rfl)
          exact ⟨bound+1,s',.ok,hs',hcopied.tree,fun _ _ hcall => by cases hcall⟩

/-- Allowed calls keep the tree, from any store reached: each ends, with a tree however deep its
calls go, and a move that fails has no effect. -/
theorem engine_run {s₀ : Dsstore A} (h₀ : IsTree s₀) (hreached : Reached readwrite s₀ s) :
    IsTree s ∧ ∀ call : EngineCall A,Allowed readwrite s call →
      (∃ depth r,call.perform readwrite depth s=some r) ∧
      ∀ depth s' status,call.perform readwrite depth s=some (s',status) → IsTree s' ∧
        ∀ dsid pdsid,call=.move dsid pdsid → status≠.ok → s'=s := by
  have htree : IsTree s := by
    induction hreached with
    | start => exact h₀
    | call s call depth s' status h hallowed heq ih =>
      obtain ⟨n,t,status',hperform,htree,-⟩ := call.perform_spec ih hallowed
      cases call.perform_unique heq hperform
      exact htree
  refine ⟨htree,fun call hallowed => ?_⟩
  obtain ⟨n,t,status',hperform,htree',hmove⟩ := call.perform_spec htree hallowed
  refine ⟨⟨n,_,hperform⟩,fun depth s' status heq => ?_⟩
  cases call.perform_unique heq hperform
  exact ⟨htree',hmove⟩

def newStore (attributes : A) : Dsstore A := SortedMap.empty.put 0 ⟨0,[],attributes⟩

lemma newStore_isTree (attributes : A) : IsTree (newStore attributes) := by
  have hget : ∀ c r,(newStore attributes).get c=some r → c=0 ∧ r=⟨0,[],attributes⟩ := by
    intro c r hc
    rw [newStore,SortedMap.get_put] at hc
    split_ifs at hc with hc0
    · exact ⟨hc0,(some.inj hc).symm⟩
    · cases hc
  refine ⟨⟨fun p r c hp hmem => ?_,fun c rc hc hc0 => ?_,fun p r hp => ?_,fun r h0 => ?_⟩,
    fun c r hc => ?_⟩
  · rw [(hget p r hp).2] at hmem
    cases hmem
  · exact absurd (hget c rc hc).1 hc0
  · rw [(hget p r hp).2]
    exact List.nodup_nil
  · rw [(hget 0 r h0).2]
  · obtain ⟨rfl,-⟩ := hget c r hc
    exact .self r hc

def oneRecord : Dsstore Unit := (dsengineCreate true (newStore ()) ⟨0,[],()⟩ 0).1

theorem engine_run_oneRecord :
    IsTree oneRecord ∧ ∀ call : EngineCall Unit,Allowed true oneRecord call →
      (∃ depth r,call.perform true depth oneRecord=some r) ∧
      ∀ depth s' status,call.perform true depth oneRecord=some (s',status) → IsTree s' ∧
        ∀ dsid pdsid,call=.move dsid pdsid → status≠.ok → s'=oneRecord :=
  engine_run (newStore_isTree ()) (.call _ (.create ⟨0,[],()⟩ 0) 0 _ _ .start rfl rfl)

/-- Moving a record to one that is not there fails, and leaves the record outside the tree. -/
theorem move_nowhere : IsTree oneRecord ∧ (dsengineMove true oneRecord 1 9).2=.invalidPath ∧
    oneRecord.get 0=some ⟨0,[1],()⟩ ∧ oneRecord.get 1=some ⟨0,[],()⟩ ∧
    (dsengineMove true oneRecord 1 9).1.get 0=some ⟨0,[],()⟩ ∧
    (dsengineMove true oneRecord 1 9).1.get 1=some ⟨9,[],()⟩ ∧
    ¬IsTree (dsengineMove true oneRecord 1 9).1 := by
  obtain ⟨rank,hranked⟩ := (newStore_isTree ()).ranked
  obtain ⟨s',hcreate,hget⟩ := create_spec hranked ⟨0,[],()⟩
    (show (newStore ()).get 0=some ⟨0,[],()⟩ from rfl)
  have htree := (hranked.create rfl rfl hget).isTree
  refine ⟨?_,rfl,rfl,rfl,rfl,rfl,fun hmoved => ?_⟩
  · rw [oneRecord,hcreate]
    exact htree
  · obtain ⟨r,hr,-⟩ := hmoved.parent 1 ⟨9,[],()⟩ rfl Nat.one_ne_zero
    cases hr

end Darwin.Netinfo
