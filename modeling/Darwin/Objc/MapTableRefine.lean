import Darwin.Objc.MapTableRun

/-! Runs of insertions and removals, enumeration and comparison. -/
open Option Function Nat
namespace Darwin.Objc
open Lib.LinearProbe Lib.Cluster

variable {K V : Type} [DecidableEq K] {prototype : NXMapTablePrototype K}
variable {table : NXMapTable K V} {key : K} {value null : V} {depth : ℕ}

lemma TableOk.empty (prototype : NXMapTablePrototype K) {n : ℕ} (hn : 0<n) :
    TableOk prototype (⟨0,n,fun _ => none⟩ : NXMapTable K V) where
  pos := hn
  count := (Finset.card_eq_zero.mpr (Finset.filter_false_of_mem fun _ _ => Bool.false_ne_true)).symm
  clustered := Clustered.empty n _
  distinct := fun _ _ _ _ _ _ hx => by cases hx

lemma not_has_empty (n : ℕ) (k : K) (v : V) :
    ¬Has prototype n (fun _ => (none : Option (K × V))) k v := by
  rintro ⟨p,-,x,hx,-⟩
  cases hx

lemma has_iff_mem {n : ℕ} {b : ℕ → Option (K × V)} (k : K) (v : V) :
    Has prototype n b k v ↔ ∃ x∈occupants n b,Same prototype x.1 k ∧ x.2=v := by
  constructor
  · rintro ⟨p,hp,x,hx,hk,hv⟩
    exact ⟨x,mem_occupants.mpr ⟨p,hp,hx⟩,hk,hv⟩
  · rintro ⟨x,hmem,hk,hv⟩
    obtain ⟨p,hp,hx⟩ := mem_occupants.mp hmem
    exact ⟨p,hp,x,hx,hk,hv⟩

lemma TableOk.count_eq_length (h : TableOk prototype table) :
    table.count=(occupants table.nbBuckets table.buckets).length := by
  rw [length_occupants]
  exact h.count

lemma TableOk.count_le (h : TableOk prototype table) : table.count≤table.nbBuckets := by
  rw [h.count_eq_length,occupants]
  exact (List.length_filterMap_le ..).trans_eq List.length_range

lemma rehash_spec (null : V) (hproto : PrototypeOk prototype) (h : TableOk prototype table)
    (depth : ℕ) : ∃ table',rehashWith (insertKey prototype null (depth+1)) table=some table' ∧
      TableOk prototype table' ∧ table'.nbBuckets=table.nbBuckets+(table.nbBuckets+1) ∧
      table'.count=table.count ∧ ∀ k v,Has prototype table'.nbBuckets table'.buckets k v ↔
        Has prototype table.nbBuckets table.buckets k v := by
  let new : NXMapTable K V := ⟨0,table.nbBuckets+(table.nbBuckets+1),fun _ => none⟩
  have hloop : rehashWith (insertKey prototype null (depth+1)) table =
      (occupants table.nbBuckets table.buckets).foldlM (fun new x =>
        (insertKey prototype null (depth+1) new x.1 x.2).map Prod.fst) new := by
    rw [occupants,List.foldlM_filterMap]
    unfold rehashWith
    congr 1
    funext new index
    cases table.buckets index <;> rfl
  have hle := h.count_le
  have hlen := h.count_eq_length
  obtain ⟨table',hfold,hok,hI,hcount,hhas⟩ := insert_list hproto
    (fun m t => t.nbBuckets=table.nbBuckets+(table.nbBuckets+1) ∧ t.count+m=table.count)
    (fun new x => (insertKey prototype null (depth+1) new x.1 x.2).map Prod.fst)
    (fun m t x hI ht habsent => by
      obtain ⟨t',old,heq,hins,hnb,-⟩ := insertKey_roomy x.1 x.2 null depth hproto ht (by omega)
      have hcount := hins.count habsent
      exact ⟨t',by rw [heq]; rfl,hins,hnb.trans hI.1,by omega⟩)
    new (occupants table.nbBuckets table.buckets) ⟨rfl,(zero_add _).trans hlen.symm⟩
    (TableOk.empty prototype (by omega)) h.pairwise
    fun x _ v => not_has_empty _ _ _
  refine ⟨table',hloop.trans hfold,hok,hI.1,hI.2,fun k v => ?_⟩
  rw [hhas,has_iff_mem (n := table.nbBuckets)]
  exact or_iff_left (not_has_empty _ _ _)

lemma insert_spec (key : K) (value null : V) (hproto : PrototypeOk prototype)
    (h : TableOk prototype table) :
    ∃ table' old,NXMapInsert prototype null table (some key) value=some (table',old) ∧
      Inserted prototype key value table table' ∧ Previous prototype null table key old := by
  have hcases : InsertKey prototype null 1 table key value := insertKey_cases hproto h
  cases hcases with
  | retry hfull heq =>
    obtain ⟨table₁,hrehash,hok,hnb,hcount,hhas⟩ := rehash_spec null hproto h 0
    have hpos := h.pos
    obtain ⟨table',old,hinsert,hins,-,hold⟩ := insertKey_roomy key value null 0 hproto hok (by omega)
    refine ⟨table',old,?_,⟨hins.ok,fun k v => ?_,fun habsent => ?_⟩,?_⟩
    · refine heq.trans ?_
      rw [hrehash]
      exact hinsert
    · rw [hins.has,hhas]
    · rw [hins.count fun v hv => habsent v ((hhas key v).mp hv),hcount]
    · exact hold.imp (hhas key old).mp fun hn => ⟨hn.1,fun v hv => hn.2 v ((hhas key v).mpr hv)⟩
  | done table' old hins hnb hold heq => exact ⟨table',old,heq,hins,hold⟩
  | grow table' hins hnb habsent hmany heq =>
    obtain ⟨table₁,hrehash,hok,-,hcount,hhas⟩ := rehash_spec null hproto hins.ok 0
    refine ⟨table₁,null,?_,⟨hok,fun k v => ?_,fun habsent => ?_⟩,.inr ⟨rfl,habsent⟩⟩
    · refine heq.trans ?_
      rw [hrehash]
      rfl
    · rw [hhas,hins.has]
    · rw [hcount,hins.count habsent]

/-- What the chain measured so far holds of the key: nothing, or a pair with the value. -/
def Scanned (prototype : NXMapTablePrototype K) (table : NXMapTable K V) (key : K)
    (index : ℕ) (r : ℕ × ℕ × V) : Prop :=
  r.1≤table.nbBuckets ∧ (∀ j,j<r.1 → table.buckets (after table.nbBuckets index j)≠none) ∧
  (r.2.1=0 ∧ (∀ j,j<r.1 → ∀ x,table.buckets (after table.nbBuckets index j)=some x →
      ¬Same prototype x.1 key) ∨
    0<r.2.1 ∧ ∃ j,j<r.1 ∧ ∃ x,table.buckets (after table.nbBuckets index j)=some x ∧
      Same prototype x.1 key ∧ x.2=r.2.2)

lemma Scanned.next {index chain found : ℕ} {old : V}
    (h : Scanned prototype table key index (chain,found,old)) (hc : chain<table.nbBuckets)
    {pair : K × V} (hpair : table.buckets (after table.nbBuckets index chain)=some pair) :
    Scanned prototype table key index (if isEqual prototype pair.1 key
      then (chain+1,found+1,pair.2) else (chain+1,found,old)) := by
  obtain ⟨-,hfull,hseen⟩ := h
  have hfull' : ∀ j,j<chain+1 → table.buckets (after table.nbBuckets index j)≠none := by
    intro j hj
    rcases Nat.lt_succ_iff_lt_or_eq.mp hj with hj | rfl
    · exact hfull j hj
    · rw [hpair]
      exact some_ne_none pair
  split
  · rename_i hsame
    exact ⟨hc,hfull',.inr ⟨succ_pos _,chain,lt_succ_self _,pair,hpair,hsame,rfl⟩⟩
  · rename_i hsame
    refine ⟨hc,hfull',?_⟩
    rcases hseen with ⟨h0,hnone⟩ | ⟨hpos,j,hj,x,hx⟩
    · refine .inl ⟨h0,fun j hj x hx => ?_⟩
      rcases Nat.lt_succ_iff_lt_or_eq.mp hj with hj | rfl
      · exact hnone j hj x hx
      · cases hpair.symm.trans hx
        exact hsame
    · exact .inr ⟨hpos,j,lt_succ_of_lt hj,x,hx⟩

lemma chainFrom_spec {index : ℕ} (hi : index<table.nbBuckets) (fuel j : ℕ)
    (hfuel : fuel+j=table.nbBuckets) (hj : j<table.nbBuckets) {found : ℕ} {old : V}
    (h : Scanned prototype table key index (j+1,found,old)) :
    ∃ r,chainFrom prototype table key index fuel (after table.nbBuckets index j)
        (j+1,found,old)=some r ∧ Scanned prototype table key index r ∧
      (r.1=table.nbBuckets ∨ table.buckets (after table.nbBuckets index r.1)=none) := by
  induction fuel generalizing j found old with
  | zero => omega
  | succ fuel ih =>
    obtain ⟨hnext,hround⟩ := nextIndex_after hi hj
    unfold chainFrom
    dsimp only
    rw [hnext]
    rcases lt_or_eq_of_le (succ_le_of_lt hj) with hlast | hlast
    · rw [if_neg fun heq => hlast.ne (hround.mp heq)]
      cases hb : table.buckets (after table.nbBuckets index (j+1)) with
      | none => exact ⟨_,rfl,h,.inr hb⟩
      | some pair =>
        have hmore := h.next hlast hb
        dsimp only
        split
        · rename_i hsame
          rw [if_pos hsame] at hmore
          exact ih (j+1) (by omega) hlast hmore
        · rename_i hsame
          rw [if_neg hsame] at hmore
          exact ih (j+1) (by omega) hlast hmore
    · rw [if_pos (hround.mpr hlast)]
      exact ⟨_,rfl,h,.inl hlast⟩

def chainPairs (n : ℕ) (b : ℕ → Option (K × V)) (i c : ℕ) : List (K × V) :=
  (List.range c).filterMap fun j => b (after n i j)

lemma takeChain_spec (prototype : NXMapTablePrototype K) (key : K) {n i : ℕ} (hi : i<n) (c : ℕ) (hc : c≤n) (b : ℕ → Option (K × V)) :
    (∀ p,p<n → (takeChain prototype n key c b i).1 p=cleared n b i c p) ∧
      (takeChain prototype n key c b i).2 =
        (chainPairs n b i c).filter fun x => !isEqual prototype x.1 key := by
  induction c generalizing i b with
  | zero => exact ⟨fun p _ => by rw [cleared,if_neg (not_lt_zero _)]; rfl,rfl⟩
  | succ c ih =>
    have hnext := next_lt hi
    obtain ⟨hbuckets,hpairs⟩ := ih hnext (by omega) (update b i none)
    have hne : ∀ j,j+1<n → after n i (j+1)≠i := fun j hj heq => by
      have hsteps := steps_after hi hj
      rw [heq,(steps_eq_zero hi).mpr rfl] at hsteps
      omega
    constructor
    · intro p hp
      have hstep : (takeChain prototype n key (c+1) b i).1 p =
          (takeChain prototype n key c (update b i none) (next n i)).1 p := by
        rw [takeChain,nextIndex_eq hi]
      rw [hstep,hbuckets p hp,cleared,cleared,update_apply]
      by_cases hpi : p=i
      · subst p
        have hzero : steps n i i<c+1 := by
          rw [(steps_eq_zero hi).mpr rfl]
          exact succ_pos c
        rw [if_pos rfl,if_pos hzero]
        split <;> rfl
      · have hsteps : steps n i p=steps n (next n i) p+1 := by
          have hi0 : steps n i p≠0 := fun hz => hpi ((steps_eq_zero hi).mp hz).symm
          revert hi0
          simp only [steps,next]
          split_ifs <;> omega
        rw [if_neg hpi,hsteps]
        split_ifs <;> first | rfl | omega
    · have htail : chainPairs n (update b i none) (next n i) c =
          (List.range c).filterMap fun j => b (after n i (j+1)) := by
        refine List.filterMap_congr fun j hj => ?_
        rw [after_next hi]
        exact update_of_ne (hne j (by have := List.mem_range.mp hj; omega)) ..
      have hchain : chainPairs n b i (c+1) =
          (b i).toList++chainPairs n (update b i none) (next n i) c := by
        rw [htail,chainPairs,List.range_succ_eq_map,List.filterMap_cons,after_zero hi,
          List.filterMap_map]
        cases b i <;> rfl
      rw [hchain,List.filter_append,←hpairs,takeChain,nextIndex_eq hi]
      cases hb : b i with
      | none => rfl
      | some x =>
        by_cases hsame : isEqual prototype x.1 key <;> simp [hsame]

lemma length_filter_other (hproto : PrototypeOk prototype) {xs : List (K × V)}
    (hdistinct : xs.Pairwise fun x y => ¬Same prototype x.1 y.1)
    (hmem : ∃ x∈xs,Same prototype x.1 key) :
    (xs.filter fun x => !isEqual prototype x.1 key).length+1=xs.length := by
  induction xs with
  | nil =>
    obtain ⟨x,hx,-⟩ := hmem
    cases hx
  | cons x xs ih =>
    obtain ⟨hx,hxs⟩ := List.pairwise_cons.mp hdistinct
    by_cases hsame : Same prototype x.1 key
    · have hall : (xs.filter fun y => !isEqual prototype y.1 key)=xs :=
        List.filter_eq_self.mpr fun y hy => by
          have hne : isEqual prototype y.1 key≠true := fun hyk =>
            hx y hy (hsame.trans hproto (Same.symm hproto hyk))
          simpa using hne
      rw [List.filter_cons,if_neg (by simpa using hsame),hall,List.length_cons]
    · have htail : ∃ y∈xs,Same prototype y.1 key := by
        obtain ⟨y,hy,hyk⟩ := hmem
        rcases List.mem_cons.mp hy with rfl | hy
        · exact absurd hyk hsame
        · exact ⟨y,hy,hyk⟩
      rw [List.filter_cons,if_pos (by simpa using hsame),List.length_cons,ih hxs htail,
        List.length_cons]

/-- What a removal does. -/
structure Removed (prototype : NXMapTablePrototype K) (key : K) (table table' : NXMapTable K V) :
    Prop where
  ok : TableOk prototype table'
  has : ∀ k v,Has prototype table'.nbBuckets table'.buckets k v ↔
    ¬Same prototype key k ∧ Has prototype table.nbBuckets table.buckets k v
  count : (∃ v,Has prototype table.nbBuckets table.buckets key v) → table'.count+1=table.count

lemma Removed.same (hproto : PrototypeOk prototype) (h : TableOk prototype table)
    (habsent : ∀ v,¬Has prototype table.nbBuckets table.buckets key v) :
    Removed prototype key table table := by
  refine ⟨h,fun k v => ⟨fun hv => ⟨fun hsame => ?_,hv⟩,And.right⟩,fun ⟨v,hv⟩ => absurd hv (habsent v)⟩
  obtain ⟨p,hp,x,hx,hk,rfl⟩ := hv
  exact habsent x.2 ⟨p,hp,x,hx,hk.trans hproto (hsame.symm hproto),rfl⟩

lemma reinsert_spec (null : V) (hproto : PrototypeOk prototype) (h : TableOk prototype table) {c : ℕ}
    (hc : c≤table.nbBuckets)
    (hfull : ∀ j,j<c → table.buckets
      (after table.nbBuckets (bucketOf prototype table.nbBuckets key) j)≠none)
    (hend : c=table.nbBuckets ∨ table.buckets
      (after table.nbBuckets (bucketOf prototype table.nbBuckets key) c)=none)
    {x : K × V} (hmem : x∈chainPairs table.nbBuckets table.buckets
      (bucketOf prototype table.nbBuckets key) c) (hsame : Same prototype x.1 key) :
    let taken := takeChain prototype table.nbBuckets key c table.buckets
      (bucketOf prototype table.nbBuckets key)
    ∃ table',taken.2.reverse.foldlM (fun table pair =>
        (NXMapInsert prototype null table (some pair.1) pair.2).map Prod.fst)
        {table with buckets := taken.1,count := table.count-c}=some table' ∧
      Removed prototype key table table' := by
  intro taken
  have hi : bucketOf prototype table.nbBuckets key<table.nbBuckets := bucketOf_lt h.pos key
  set i := bucketOf prototype table.nbBuckets key with hidef
  obtain ⟨hbuckets,hpairs⟩ := takeChain_spec prototype key hi c hc table.buckets
  have hslot : ∀ y,y∈chainPairs table.nbBuckets table.buckets i c ↔
      ∃ p,p<table.nbBuckets ∧ table.buckets p=some y ∧ steps table.nbBuckets i p<c := by
    intro y
    simp only [chainPairs,List.mem_filterMap,List.mem_range]
    constructor
    · rintro ⟨j,hj,hy⟩
      exact ⟨_,after_lt h.pos i j,hy,by rw [steps_after hi (by omega)]; exact hj⟩
    · rintro ⟨p,hp,hy,hj⟩
      exact ⟨_,hj,by rw [after_steps hi hp]; exact hy⟩
  have hdistinct : (chainPairs table.nbBuckets table.buckets i c).Pairwise
      fun x y => ¬Same prototype x.1 y.1 := by
    rw [chainPairs,List.pairwise_filterMap]
    refine List.Pairwise.imp_of_mem (fun {j l} hj hl hjl x hx y hy hxy => ?_)
      (List.pairwise_lt_range (n := c))
    have hj := List.mem_range.mp hj
    have hl := List.mem_range.mp hl
    have heq := h.distinct _ _ x y (after_lt h.pos _ _) (after_lt h.pos _ _) hx hy hxy
    have hsteps := congrArg (steps table.nbBuckets i) heq
    rw [steps_after hi (by omega),steps_after hi (by omega)] at hsteps
    omega
  have hlength : (chainPairs table.nbBuckets table.buckets i c).length=c := by
    rw [chainPairs]
    have hsome : ∀ j∈List.range c,(table.buckets (after table.nbBuckets i j)).isSome :=
      fun j hj => isSome_iff_ne_none.mpr (hfull j (List.mem_range.mp hj))
    rw [List.length_filterMap_eq_countP,List.countP_eq_length.mpr hsome,List.length_range]
  have hothers := length_filter_other hproto hdistinct ⟨x,hmem,hsame⟩
  have hcard := card_cleared hi hc hfull
  have hcount := h.count
  have hok : TableOk prototype {table with buckets := taken.1,count := table.count-c} := by
    refine TableOk.congr (b := cleared table.nbBuckets table.buckets i c) ⟨h.pos,?_,?_,?_⟩ hbuckets
    · dsimp only
      omega
    · exact h.clustered.clear hi hend
    · intro p q y z hp hq hy hz hyz
      exact h.distinct p q y z hp hq (cleared_eq_some.mp hy).1 (cleared_eq_some.mp hz).1 hyz
  have hleft : ∀ k v,Has prototype table.nbBuckets taken.1 k v ↔
      ∃ p,p<table.nbBuckets ∧ ∃ y,table.buckets p=some y ∧
        c ≤ steps table.nbBuckets i p ∧ Same prototype y.1 k ∧ y.2=v := by
    intro k v
    rw [Has.congr hbuckets]
    simp only [Has,cleared_eq_some,and_assoc]
  have hin : ∀ y,y∈taken.2.reverse ↔
      y∈chainPairs table.nbBuckets table.buckets i c ∧ ¬Same prototype y.1 key := by
    intro y
    rw [List.mem_reverse,show taken.2=_ from hpairs,List.mem_filter]
    simp
  obtain ⟨table',hfold,hok',-,hcount',hhas⟩ := insert_list hproto (fun _ _ => True)
    (fun table pair => (NXMapInsert prototype null table (some pair.1) pair.2).map Prod.fst)
    (fun m t y _ ht _ => by
      obtain ⟨t',old,heq,hins,-⟩ := insert_spec y.1 y.2 null hproto ht
      exact ⟨t',by rw [heq]; rfl,hins,trivial⟩)
    {table with buckets := taken.1,count := table.count-c} taken.2.reverse trivial hok
    (by
      rw [List.pairwise_reverse,show taken.2=_ from hpairs]
      exact (hdistinct.filter _).imp fun hne hsame => hne (hsame.symm hproto))
    (fun y hy v hv => by
      obtain ⟨p,hp,z,hz,hout,hzy,-⟩ := (hleft y.1 v).mp hv
      obtain ⟨q,hq,hyq,hqin⟩ := (hslot y).mp ((hin y).mp hy).1
      have heq := h.distinct p q z y hp hq hz hyq hzy
      subst q
      omega)
  refine ⟨table',hfold,hok',fun k v => ?_,fun _ => ?_⟩
  · have hdrop : x∈chainPairs table.nbBuckets table.buckets i c := hmem
    obtain ⟨px,hpx,hx,hxin⟩ := (hslot x).mp hdrop
    have honly : ∀ p,p<table.nbBuckets → ∀ y,table.buckets p=some y →
        Same prototype y.1 key → p=px := fun p hp y hy hyk =>
      h.distinct p px y x hp hpx hy hx (hyk.trans hproto (hsame.symm hproto))
    rw [hhas]
    constructor
    · rintro (⟨y,hy,hyk,hyv⟩ | hv)
      · obtain ⟨hychain,hyother⟩ := (hin y).mp hy
        obtain ⟨q,hq,hyq,-⟩ := (hslot y).mp hychain
        exact ⟨fun hk => hyother (hyk.trans hproto (hk.symm hproto)),q,hq,y,hyq,hyk,hyv⟩
      · obtain ⟨p,hp,y,hy,hout,hyk,hyv⟩ := (hleft k v).mp hv
        refine ⟨fun hk => ?_,p,hp,y,hy,hyk,hyv⟩
        have hpx := honly p hp y hy (hyk.trans hproto (hk.symm hproto))
        subst p
        omega
    · rintro ⟨hk,p,hp,y,hy,hyk,hyv⟩
      by_cases hpin : steps table.nbBuckets i p<c
      · refine .inl ⟨y,(hin y).mpr ⟨(hslot y).mpr ⟨p,hp,hy,hpin⟩,fun hykey => ?_⟩,hyk,hyv⟩
        exact hk ((Same.symm hproto hykey).trans hproto hyk)
      · exact .inr ((hleft k v).mpr ⟨p,hp,y,hy,by omega,hyk,hyv⟩)
  · have hlen : taken.2.reverse.length+1=c := by
      rw [List.length_reverse,show taken.2=_ from hpairs,hothers,hlength]
    rw [hcount']
    dsimp only
    omega

lemma remove_spec (key : K) (null : V) (hproto : PrototypeOk prototype)
    (h : TableOk prototype table) :
    ∃ table' old,NXMapRemove prototype null table key=some (table',old) ∧
      Removed prototype key table table' ∧ Previous prototype null table key old := by
  have hi : bucketOf prototype table.nbBuckets key<table.nbBuckets := bucketOf_lt h.pos key
  unfold NXMapRemove
  dsimp only
  cases hb : table.buckets (bucketOf prototype table.nbBuckets key) with
  | none =>
    have hempty : table.buckets (after table.nbBuckets
        (bucketOf prototype table.nbBuckets key) 0)=none := by rwa [after_zero hi]
    have habsent := h.absent hproto (.inr hempty) fun j hj => absurd hj (not_lt_zero j)
    exact ⟨table,null,rfl,.same hproto h habsent,.inr ⟨rfl,habsent⟩⟩
  | some pair =>
    have hempty : Scanned prototype table key (bucketOf prototype table.nbBuckets key)
        (0,0,null) :=
      ⟨zero_le _,fun j hj => absurd hj (not_lt_zero j),
        .inl ⟨rfl,fun j hj => absurd hj (not_lt_zero j)⟩⟩
    have hpair : table.buckets (after table.nbBuckets
        (bucketOf prototype table.nbBuckets key) 0)=some pair := by rwa [after_zero hi]
    have hfirst := hempty.next h.pos hpair
    obtain ⟨r,hr,hscanned,hend⟩ : ∃ r,chainFrom prototype table key
        (bucketOf prototype table.nbBuckets key) table.nbBuckets
        (bucketOf prototype table.nbBuckets key)
        (if isEqual prototype pair.1 key then (1,1,pair.2) else (1,0,null))=some r ∧
        Scanned prototype table key (bucketOf prototype table.nbBuckets key) r ∧
        (r.1=table.nbBuckets ∨ table.buckets (after table.nbBuckets
          (bucketOf prototype table.nbBuckets key) r.1)=none) := by
      have hzero := after_zero hi
      split
      · rename_i hsame
        rw [if_pos hsame] at hfirst
        have hchain := chainFrom_spec hi table.nbBuckets 0 rfl h.pos hfirst
        rwa [hzero] at hchain
      · rename_i hsame
        rw [if_neg hsame] at hfirst
        have hchain := chainFrom_spec hi table.nbBuckets 0 rfl h.pos hfirst
        rwa [hzero] at hchain
    obtain ⟨hc,hfull,hseen⟩ := hscanned
    dsimp only
    rw [hr,bind_some]
    rcases hseen with ⟨hnone,hother⟩ | ⟨hpos,j,hj,x,hx,hsame,hold⟩
    · rw [if_pos hnone]
      have habsent := h.absent hproto hend hother
      exact ⟨table,null,rfl,.same hproto h habsent,.inr ⟨rfl,habsent⟩⟩
    · rw [if_neg (ne_of_gt hpos)]
      have hmem : x∈chainPairs table.nbBuckets table.buckets
          (bucketOf prototype table.nbBuckets key) r.1 :=
        List.mem_filterMap.mpr ⟨j,List.mem_range.mpr hj,hx⟩
      obtain ⟨table',hfold,hremoved⟩ := reinsert_spec null hproto h hc hfull hend hmem hsame
      refine ⟨table',r.2.2,?_,hremoved,.inl ⟨_,after_lt h.pos _ _,x,hx,hsame,hold⟩⟩
      exact (congrArg (Option.map fun table => (table,r.2.2)) hfold).trans rfl

section Enumeration

omit [DecidableEq K] in
lemma occupants_succ (n : ℕ) (b : ℕ → Option (K × V)) :
    occupants (n+1) b=occupants n b++(b n).toList := by
  rw [occupants,List.range_succ,List.filterMap_append,←occupants]
  cases hb : b n <;> simp [hb]

omit [DecidableEq K] in
lemma NXNextMapState_spec (table : NXMapTable K V) (index : ℕ) :
    match NXNextMapState table index with
    | none => occupants index table.buckets=[]
    | some (pair,i) => i < index ∧
      occupants index table.buckets=occupants i table.buckets++[pair] := by
  induction index with
  | zero => exact rfl
  | succ index ih =>
    rw [NXNextMapState,occupants_succ]
    cases hb : table.buckets index with
    | some pair => exact ⟨lt_succ_self _,rfl⟩
    | none =>
      dsimp only
      rw [toList_none,List.append_nil]
      cases hnext : NXNextMapState table index with
      | none => rwa [hnext] at ih
      | some r =>
        rw [hnext] at ih
        exact ⟨lt_succ_of_lt ih.1,ih.2⟩

omit [DecidableEq K] in
lemma enumerateFrom_eq (table : NXMapTable K V) (fuel index : ℕ) (hfuel : index<fuel) :
    enumerateFrom table fuel index=some (occupants index table.buckets).reverse := by
  induction fuel generalizing index with
  | zero => omega
  | succ fuel ih =>
    have hnext := NXNextMapState_spec table index
    rw [enumerateFrom]
    cases hstate : NXNextMapState table index with
    | none =>
      rw [hstate] at hnext
      dsimp only at hnext ⊢
      rw [hnext,List.reverse_nil]
    | some r =>
      rw [hstate] at hnext
      obtain ⟨hlt,heq⟩ := hnext
      dsimp only
      rw [ih r.2 (by omega),heq,List.reverse_append]
      rfl

omit [DecidableEq K] in
lemma enumerate_eq (table : NXMapTable K V) :
    enumerate table=some (occupants table.nbBuckets table.buckets).reverse :=
  enumerateFrom_eq table _ _ (lt_succ_self _)

end Enumeration

section Runs

/-- An operation on a table. -/
inductive MapAction (K V : Type)
  | insert (key : Option K) (value : V)
  | remove (key : K)

def MapAction.perform (prototype : NXMapTablePrototype K) (null : V) (table : NXMapTable K V) :
    MapAction K V → Option (NXMapTable K V × V)
  | .insert key value => NXMapInsert prototype null table key value
  | .remove key => NXMapRemove prototype null table key

def runMap (prototype : NXMapTablePrototype K) (null : V) (table : NXMapTable K V) :
    List (MapAction K V) → Option (NXMapTable K V × List V)
  | [] => some (table,[])
  | action::actions => (action.perform prototype null table).bind fun r =>
    (runMap prototype null r.1 actions).map fun s => (s.1,r.2::s.2)

def MapAction.apply (prototype : NXMapTablePrototype K) (f : K → Option V) :
    MapAction K V → K → Option V
  | .insert none _ => f
  | .insert (some key) value => fun k => if Same prototype key k then some value else f k
  | .remove key => fun k => if Same prototype key k then none else f k

def MapAction.previous (null : V) (f : K → Option V) : MapAction K V → V
  | .insert none _ => null
  | .insert (some key) _ | .remove key => (f key).getD null

def mapped (prototype : NXMapTablePrototype K) (actions : List (MapAction K V)) : K → Option V :=
  actions.foldl (MapAction.apply prototype) fun _ => none

def previousValues (prototype : NXMapTablePrototype K) (null : V) (f : K → Option V) :
    List (MapAction K V) → List V
  | [] => []
  | action::actions =>
    action.previous null f::previousValues prototype null (action.apply prototype f) actions

/-- A table is well formed and holds a map. -/
structure Refines (prototype : NXMapTablePrototype K) (table : NXMapTable K V)
    (f : K → Option V) : Prop where
  ok : TableOk prototype table
  has : ∀ k v,Has prototype table.nbBuckets table.buckets k v ↔ f k=some v

variable {f : K → Option V}

lemma Previous.eq {old : V} (hold : Previous prototype null table key old)
    (h : Refines prototype table f) : old=(f key).getD null := by
  rcases hold with hhas | ⟨rfl,habsent⟩
  · rw [(h.has key old).mp hhas]
    rfl
  · cases hf : f key with
    | none => rfl
    | some v => exact absurd ((h.has key v).mpr hf) (habsent v)

lemma perform_spec (hproto : PrototypeOk prototype) (null : V) (h : Refines prototype table f)
    (action : MapAction K V) :
    ∃ table',action.perform prototype null table=some (table',action.previous null f) ∧
      Refines prototype table' (action.apply prototype f) := by
  cases action with
  | insert key value =>
    cases key with
    | none => exact ⟨table,rfl,h⟩
    | some key =>
      obtain ⟨table',old,heq,hins,hold⟩ := insert_spec key value null hproto h.ok
      rw [hold.eq h] at heq
      refine ⟨table',heq,hins.ok,fun k v => ?_⟩
      rw [hins.has]
      dsimp only [MapAction.apply]
      split
      · rw [Option.some.injEq,eq_comm]
      · exact h.has k v
  | remove key =>
    obtain ⟨table',old,heq,hremoved,hold⟩ := remove_spec key null hproto h.ok
    rw [hold.eq h] at heq
    refine ⟨table',heq,hremoved.ok,fun k v => ?_⟩
    rw [hremoved.has]
    dsimp only [MapAction.apply]
    split
    · rename_i hsame
      exact ⟨fun hv => absurd hsame hv.1,fun hv => by cases hv⟩
    · rename_i hother
      exact (and_iff_right hother).trans (h.has k v)

lemma runMap_spec (hproto : PrototypeOk prototype) (null : V) (h : Refines prototype table f)
    (actions : List (MapAction K V)) : ∃ table',runMap prototype null table actions =
        some (table',previousValues prototype null f actions) ∧
      Refines prototype table' (actions.foldl (MapAction.apply prototype) f) := by
  induction actions generalizing table f with
  | nil => exact ⟨table,rfl,h⟩
  | cons action actions ih =>
    obtain ⟨table₁,hstep,h₁⟩ := perform_spec hproto null h action
    obtain ⟨table',hrun,h'⟩ := ih h₁
    refine ⟨table',?_,h'⟩
    rw [runMap,hstep,bind_some,hrun]
    rfl

lemma created_refines (prototype : NXMapTablePrototype K) (capacity : ℕ) :
    Refines prototype (NXCreateMapTable capacity : NXMapTable K V) fun _ => none := by
  refine ⟨TableOk.empty prototype ?_,fun k v => ⟨fun hv => ?_,fun hv => by cases hv⟩⟩
  · have hone := Nat.one_lt_two_pow (Nat.succ_ne_zero (Nat.log2 capacity))
    omega
  · exact absurd hv (not_has_empty _ k v)

/-- What a table tells about the map that it holds. -/
structure Models (prototype : NXMapTablePrototype K) (null : V) (table : NXMapTable K V)
    (f : K → Option V) : Prop where
  member : ∀ key,∃ r,NXMapMember prototype table key=some r ∧ r.map Prod.snd=f key ∧
    ∀ x,r=some x → Same prototype x.1 key
  get : ∀ key,NXMapGet prototype null table key=some ((f key).getD null)
  enumerated : ∃ xs,enumerate table=some xs ∧ xs.length=table.count ∧
    (xs.Pairwise fun x y => ¬Same prototype x.1 y.1) ∧
    ∀ key value,f key=some value ↔ ∃ x∈xs,Same prototype x.1 key ∧ x.2=value

lemma Refines.models (hproto : PrototypeOk prototype) (null : V) (h : Refines prototype table f) :
    Models prototype null table f := by
  have hmember : ∀ key,∃ r,NXMapMember prototype table key=some r ∧ r.map Prod.snd=f key ∧
      ∀ x,r=some x → Same prototype x.1 key := by
    intro key
    obtain ⟨r,hr,hfound,hnot⟩ := member_spec hproto h.ok key
    refine ⟨r,hr,?_,fun x hx => (hfound x hx).1⟩
    cases hr' : r with
    | none =>
      cases hf : f key with
      | none => rfl
      | some v => exact absurd ((h.has key v).mpr hf) (hnot hr' v)
    | some x => exact ((h.has key x.2).mp (hfound x hr').2).symm
  refine ⟨hmember,fun key => ?_,_,enumerate_eq table,?_,?_,fun key value => ?_⟩
  · obtain ⟨r,hr,hf,-⟩ := hmember key
    rw [NXMapGet,hr,←hf]
    cases r <;> rfl
  · rw [List.length_reverse,h.ok.count_eq_length]
  · rw [List.pairwise_reverse]
    exact h.ok.pairwise.imp fun hne hsame => hne (hsame.symm hproto)
  · rw [←h.has,has_iff_mem]
    simp only [List.mem_reverse]

end Runs

lemma compareFrom_spec (hproto : PrototypeOk prototype) (h : TableOk prototype table)
    (xs : List (K × V)) : ∃ r,compareFrom prototype table xs=some r ∧
      (r=true ↔ ∀ x∈xs,∃ v,Has prototype table.nbBuckets table.buckets x.1 v) := by
  induction xs with
  | nil => exact ⟨true,rfl,by simp⟩
  | cons x xs ih =>
    obtain ⟨r,hr,hfound,hnot⟩ := member_spec hproto h x.1
    rw [compareFrom,hr,bind_some]
    cases hr' : r with
    | none =>
      refine ⟨false,rfl,fun hf => (Bool.false_ne_true hf).elim,fun hall => ?_⟩
      obtain ⟨v,hv⟩ := hall x List.mem_cons_self
      exact absurd hv (hnot hr' v)
    | some y =>
      obtain ⟨r,hr,hiff⟩ := ih
      refine ⟨r,hr,hiff.trans ?_⟩
      rw [List.forall_mem_cons]
      exact (and_iff_right ⟨y.2,(hfound y hr').2⟩).symm

def keySetoid (hproto : PrototypeOk prototype) : Setoid K :=
  ⟨Same prototype,Same.refl prototype,Same.symm hproto,Same.trans hproto⟩

def classOf (hproto : PrototypeOk prototype) (x : K × V) : Quotient (keySetoid hproto) :=
  Quotient.mk _ x.1

lemma mem_classes (hproto : PrototypeOk prototype) {xs : List (K × V)} {key : K} :
    Quotient.mk (keySetoid hproto) key∈xs.map (classOf hproto) ↔ ∃ x∈xs,Same prototype x.1 key := by
  rw [List.mem_map]
  exact exists_congr fun x => and_congr_right fun _ => ⟨Quotient.exact,fun h => Quotient.sound h⟩

lemma classes_subperm (hproto : PrototypeOk prototype) {xs ys : List (K × V)}
    (hxs : xs.Pairwise fun x y => ¬Same prototype x.1 y.1)
    (hsub : ∀ x∈xs,∃ y∈ys,Same prototype y.1 x.1) :
    (xs.map (classOf hproto)).Subperm (ys.map (classOf hproto)) := by
  refine List.subperm_of_subset ?_ fun c hc => ?_
  · rw [List.Nodup,List.pairwise_map]
    exact hxs.imp fun hne heq => hne (Quotient.exact heq)
  · obtain ⟨x,hx,rfl⟩ := List.mem_map.mp hc
    exact (mem_classes hproto).mpr (hsub x hx)

lemma compare_spec (hproto : PrototypeOk prototype) {table₁ table₂ : NXMapTable K V}
    {f₁ f₂ : K → Option V} (h₁ : Refines prototype table₁ f₁) (h₂ : Refines prototype table₂ f₂) :
    ∃ r,NXCompareMapTables prototype table₁ table₂=some r ∧
      (r=true ↔ ∀ key,(f₁ key).isSome=(f₂ key).isSome) := by
  have hkeys : ∀ {table : NXMapTable K V} {f : K → Option V},Refines prototype table f → ∀ key,
      (f key).isSome=true ↔ ∃ x∈occupants table.nbBuckets table.buckets,Same prototype x.1 key := by
    intro table f h key
    rw [isSome_iff_exists]
    constructor
    · rintro ⟨v,hv⟩
      obtain ⟨x,hx,hsame,-⟩ := (has_iff_mem key v).mp ((h.has key v).mpr hv)
      exact ⟨x,hx,hsame⟩
    · rintro ⟨x,hx,hsame⟩
      exact ⟨x.2,(h.has key x.2).mp ((has_iff_mem key x.2).mpr ⟨x,hx,hsame,rfl⟩)⟩
  have hsame : (∀ key,(f₁ key).isSome=(f₂ key).isSome) ↔ ∀ key,
      (∃ x∈occupants table₁.nbBuckets table₁.buckets,Same prototype x.1 key) ↔
        ∃ y∈occupants table₂.nbBuckets table₂.buckets,Same prototype y.1 key :=
    forall_congr' fun key => by rw [Bool.eq_iff_iff,hkeys h₁,hkeys h₂]
  have hcount₁ := h₁.ok.count_eq_length
  have hcount₂ := h₂.ok.count_eq_length
  rw [hsame]
  unfold NXCompareMapTables
  by_cases hcount : table₁.count=table₂.count
  · obtain ⟨r,hr,hiff⟩ := compareFrom_spec hproto h₂.ok
      (occupants table₁.nbBuckets table₁.buckets).reverse
    rw [if_neg (not_not.mpr hcount),enumerate_eq,bind_some]
    refine ⟨r,hr,hiff.trans ⟨fun hall key => ⟨?_,?_⟩,fun hall x hx => ?_⟩⟩
    · rintro ⟨x,hx,hkey⟩
      obtain ⟨v,hv⟩ := hall x (List.mem_reverse.mpr hx)
      obtain ⟨y,hy,hyx,-⟩ := (has_iff_mem x.1 v).mp hv
      exact ⟨y,hy,hyx.trans hproto hkey⟩
    · -- as many different keys on both sides
      have hinto : ∀ x∈occupants table₁.nbBuckets table₁.buckets,
          ∃ y∈occupants table₂.nbBuckets table₂.buckets,Same prototype y.1 x.1 := by
        intro x hx
        obtain ⟨v,hv⟩ := hall x (List.mem_reverse.mpr hx)
        obtain ⟨y,hy,hyx,-⟩ := (has_iff_mem x.1 v).mp hv
        exact ⟨y,hy,hyx⟩
      have hsub := classes_subperm hproto h₁.ok.pairwise hinto
      have hperm := hsub.perm_of_length_le (by rw [List.length_map,List.length_map]; omega)
      intro hy
      exact (mem_classes hproto).mp (hperm.mem_iff.mpr ((mem_classes hproto).mpr hy))
    · obtain ⟨y,hy,hyx⟩ := (hall x.1).mp ⟨x,List.mem_reverse.mp hx,Same.refl prototype x.1⟩
      exact ⟨y.2,(has_iff_mem x.1 y.2).mpr ⟨y,hy,hyx,rfl⟩⟩
  · rw [if_pos hcount]
    refine ⟨false,rfl,fun hf => (Bool.false_ne_true hf).elim,fun hall => ?_⟩
    have hle := (classes_subperm hproto h₁.ok.pairwise fun x hx =>
      (hall x.1).mp ⟨x,hx,Same.refl prototype x.1⟩).length_le
    have hge := (classes_subperm hproto h₂.ok.pairwise fun x hx =>
      (hall x.1).mpr ⟨x,hx,Same.refl prototype x.1⟩).length_le
    simp only [List.length_map] at hle hge
    omega

/-- Runs refine maps; a comparison tells whether the maps are the same exactly when maps with the
same keys have the same values. -/
theorem mapTables_run (hproto : PrototypeOk prototype) (null : V) (capacity₁ capacity₂ : ℕ)
    (actions₁ actions₂ : List (MapAction K V)) : ∃ table₁ table₂,
      runMap prototype null (NXCreateMapTable capacity₁) actions₁ =
        some (table₁,previousValues prototype null (fun _ => none) actions₁) ∧
      Models prototype null table₁ (mapped prototype actions₁) ∧
      runMap prototype null (NXCreateMapTable capacity₂) actions₂ =
        some (table₂,previousValues prototype null (fun _ => none) actions₂) ∧
      Models prototype null table₂ (mapped prototype actions₂) ∧
      ∃ r,NXCompareMapTables prototype table₁ table₂=some r ∧
        ((r=true ↔ mapped prototype actions₁=mapped prototype actions₂) ↔
          ((∀ key,(mapped prototype actions₁ key).isSome=(mapped prototype actions₂ key).isSome) →
            mapped prototype actions₁=mapped prototype actions₂)) := by
  obtain ⟨table₁,hrun₁,h₁⟩ := runMap_spec hproto null (created_refines prototype capacity₁) actions₁
  obtain ⟨table₂,hrun₂,h₂⟩ := runMap_spec hproto null (created_refines prototype capacity₂) actions₂
  obtain ⟨r,hr,hiff⟩ := compare_spec hproto h₁ h₂
  refine ⟨table₁,table₂,hrun₁,h₁.models hproto null,hrun₂,h₂.models hproto null,r,hr,?_⟩
  rw [hiff]
  exact ⟨Iff.mp,fun h => ⟨h,fun heq key => congrArg (fun f => (f key).isSome) heq⟩⟩

def numbers : NXMapTablePrototype ℕ := ⟨id,fun key1 key2 => key1=key2⟩

theorem mapTables_run_numbers : ∃ table₁ table₂,
      runMap numbers 0 (NXCreateMapTable 0) [.insert (some 1) 5] =
        some (table₁,previousValues numbers 0 (fun _ => none) [.insert (some 1) 5]) ∧
      Models numbers 0 table₁ (mapped numbers [.insert (some 1) 5]) ∧
      runMap numbers 0 (NXCreateMapTable 4) [.insert (some 2) 6] =
        some (table₂,previousValues numbers 0 (fun _ => none) [.insert (some 2) 6]) ∧
      Models numbers 0 table₂ (mapped numbers [.insert (some 2) 6]) ∧
      ∃ r,NXCompareMapTables numbers table₁ table₂=some r ∧
        ((r=true ↔ mapped numbers [.insert (some 1) 5]=mapped numbers [.insert (some 2) 6]) ↔
          ((∀ key,(mapped numbers [.insert (some 1) 5] key).isSome =
              (mapped numbers [.insert (some 2) 6] key).isSome) →
            mapped numbers [.insert (some 1) 5]=mapped numbers [.insert (some 2) 6])) :=
  mapTables_run ⟨⟨fun _ => by simp [numbers],fun h => by simpa [numbers,eq_comm] using h,
    fun h g => by
      simp only [numbers,decide_eq_true_eq] at h g ⊢
      exact h.trans g⟩,fun key1 key2 h => by simpa [numbers] using h⟩ 0 0 4 _ _

/-- Two tables with the same key and different values are the same for `NXCompareMapTables`. -/
theorem different_values_compare :
    ((runMap numbers 0 (NXCreateMapTable 0) [.insert (some 1) 5]).bind fun r =>
      (runMap numbers 0 (NXCreateMapTable 0) [.insert (some 1) 6]).bind fun s =>
        NXCompareMapTables numbers r.1 s.1)=some true ∧
    mapped numbers [.insert (some 1) 5] 1=some 5 ∧
    mapped numbers [.insert (some 1) 6] 1=some 6 := by
  decide

end Darwin.Objc
