import Darwin.Objc.MapTable

/-! Tables of mappings refine finite maps whose keys count up to `isEqual`. -/
open Function
namespace Darwin.Objc
open Lib.LinearProbe Lib.Cluster

variable {K V : Type} [DecidableEq K] {prototype : NXMapTablePrototype K}

set_option linter.unusedSectionVars false

/-- What a prototype is promised to be: an equivalence, and equal keys have equal hash values. -/
structure PrototypeOk (prototype : NXMapTablePrototype K) : Prop where
  equivalence : Equivalence fun key1 key2 => prototype.isEqual key1 key2=true
  hash : ∀ key1 key2,prototype.isEqual key1 key2=true → prototype.hash key1=prototype.hash key2

abbrev Same (prototype : NXMapTablePrototype K) (key1 key2 : K) : Prop :=
  isEqual prototype key1 key2=true

lemma same_iff (hproto : PrototypeOk prototype) {key1 key2 : K} :
    Same prototype key1 key2 ↔ prototype.isEqual key1 key2=true := by
  unfold Same isEqual
  rw [Bool.or_eq_true,decide_eq_true_eq]
  exact ⟨fun h => h.elim (fun he => he▸hproto.equivalence.refl key1) id,.inr⟩

lemma Same.refl (prototype : NXMapTablePrototype K) (key : K) : Same prototype key key := by
  simp [Same,isEqual]

lemma Same.symm (hproto : PrototypeOk prototype) {key1 key2 : K}
    (h : Same prototype key1 key2) : Same prototype key2 key1 :=
  (same_iff hproto).mpr (hproto.equivalence.symm ((same_iff hproto).mp h))

lemma Same.trans (hproto : PrototypeOk prototype) {key1 key2 key3 : K}
    (h : Same prototype key1 key2) (g : Same prototype key2 key3) : Same prototype key1 key3 :=
  (same_iff hproto).mpr
    (hproto.equivalence.trans ((same_iff hproto).mp h) ((same_iff hproto).mp g))

lemma Same.bucketOf (hproto : PrototypeOk prototype) {key1 key2 : K}
    (h : Same prototype key1 key2) (n : ℕ) :
    bucketOf prototype n key1=bucketOf prototype n key2 := by
  unfold Objc.bucketOf
  rw [hproto.hash key1 key2 ((same_iff hproto).mp h)]

lemma bucketOf_lt {n : ℕ} (hn : 0<n) (key : K) : bucketOf prototype n key<n := Nat.mod_lt _ hn

lemma nextIndex_eq {n p : ℕ} (hp : p<n) : nextIndex n p=next n p := by
  unfold nextIndex next
  split_ifs <;> omega

section Invariant

def Has (prototype : NXMapTablePrototype K) (n : ℕ) (buckets : ℕ → Option (K × V)) (key : K)
    (value : V) : Prop :=
  ∃ p,p<n ∧ ∃ x,buckets p=some x ∧ Same prototype x.1 key ∧ x.2=value

/-- Pairs are within reach, their keys are different, and the count is right. -/
structure TableOk (prototype : NXMapTablePrototype K) (table : NXMapTable K V) : Prop where
  pos : 0<table.nbBuckets
  count : table.count=(occupied table.nbBuckets table.buckets).card
  clustered : Clustered table.nbBuckets table.buckets fun x =>
    bucketOf prototype table.nbBuckets x.1
  distinct : ∀ p q x y,p<table.nbBuckets → q<table.nbBuckets → table.buckets p=some x →
    table.buckets q=some y → Same prototype x.1 y.1 → p=q

variable {table : NXMapTable K V} {key : K}

/-- Where a search for a key may end. -/
inductive Searched (prototype : NXMapTablePrototype K) (table : NXMapTable K V) (key : K)
    (index : ℕ) : Probe K V → Prop
  | empty (k : ℕ) (hk : k<table.nbBuckets)
    (hempty : table.buckets (after table.nbBuckets index k)=none)
    (hfirst : ∀ j,j<k → ∃ x,table.buckets (after table.nbBuckets index j)=some x ∧
      ¬Same prototype x.1 key) : Searched prototype table key index
        (.empty (after table.nbBuckets index k))
  | found (p : ℕ) (hp : p<table.nbBuckets) (pair : K × V) (hpair : table.buckets p=some pair)
    (hsame : Same prototype pair.1 key) : Searched prototype table key index (.found p pair)
  | around (hall : ∀ j,j<table.nbBuckets →
      ∃ x,table.buckets (after table.nbBuckets index j)=some x ∧ ¬Same prototype x.1 key) :
    Searched prototype table key index .around

lemma nextIndex_after {n index j : ℕ} (hi : index<n) (hj : j<n) :
    nextIndex n (after n index j)=after n index (j+1) ∧ (after n index (j+1)=index ↔ j+1=n) := by
  refine ⟨?_,fun heq => ?_,fun hlast => ?_⟩
  · have hlt := after_lt (show 0<n by omega) index j
    rw [nextIndex_eq hlt,←after_one hlt,after_after]
  · by_contra hne
    have hsteps := steps_after hi (show j+1<n by omega)
    rw [heq,(steps_eq_zero hi).mpr rfl] at hsteps
    omega
  · rw [after,hlast,Nat.add_mod_right,Nat.mod_eq_of_lt hi]

lemma probe_from {index : ℕ} (hi : index<table.nbBuckets) (fuel j : ℕ)
    (hfuel : fuel+j=table.nbBuckets) (hj : j<table.nbBuckets)
    (hseen : ∀ i,i≤j → ∃ x,table.buckets (after table.nbBuckets index i)=some x ∧
      ¬Same prototype x.1 key) :
    ∃ r,probe prototype table key index fuel (after table.nbBuckets index j)=some r ∧
      Searched prototype table key index r := by
  induction fuel generalizing j with
  | zero => omega
  | succ fuel ih =>
    have hn : 0<table.nbBuckets := by omega
    obtain ⟨hnext,hround⟩ := nextIndex_after hi hj
    unfold probe
    dsimp only
    rw [hnext]
    rcases Nat.lt_or_eq_of_le (Nat.succ_le_of_lt hj) with hlast | hlast
    · rw [if_neg fun heq => hlast.ne (hround.mp heq)]
      cases hb : table.buckets (after table.nbBuckets index (j+1)) with
      | none =>
        exact ⟨_,rfl,.empty (j+1) hlast hb fun i hij => hseen i (by omega)⟩
      | some pair =>
        by_cases hsame : Same prototype pair.1 key
        · refine ⟨_,if_pos hsame,.found _ (after_lt hn _ _) pair hb hsame⟩
        · dsimp only
          rw [if_neg hsame]
          refine ih (j+1) (by omega) hlast fun i hij => ?_
          rcases Nat.lt_or_eq_of_le hij with hij | rfl
          · exact hseen i (by omega)
          · exact ⟨pair,hb,hsame⟩
    · rw [if_pos (hround.mpr hlast)]
      exact ⟨_,rfl,.around fun i hi => hseen i (by omega)⟩

lemma probe_searched (h : TableOk prototype table) {pair : K × V}
    (hpair : table.buckets (bucketOf prototype table.nbBuckets key)=some pair)
    (hsame : ¬Same prototype pair.1 key) :
    ∃ r,probe prototype table key (bucketOf prototype table.nbBuckets key) table.nbBuckets
        (bucketOf prototype table.nbBuckets key)=some r ∧
      Searched prototype table key (bucketOf prototype table.nbBuckets key) r := by
  have hi : bucketOf prototype table.nbBuckets key<table.nbBuckets := bucketOf_lt h.pos key
  have hprobe := @probe_from K V _ prototype table key _ hi table.nbBuckets 0 rfl h.pos
    fun i hi0 => by
      obtain rfl := Nat.le_zero.mp hi0
      exact ⟨pair,by rw [after_zero hi]; exact hpair,hsame⟩
  rwa [after_zero hi] at hprobe

lemma TableOk.absent (hproto : PrototypeOk prototype) (h : TableOk prototype table) {k : ℕ}
    (hend : k=table.nbBuckets ∨ table.buckets
      (after table.nbBuckets (bucketOf prototype table.nbBuckets key) k)=none)
    (hother : ∀ j,j<k → ∀ x,table.buckets
      (after table.nbBuckets (bucketOf prototype table.nbBuckets key) j)=some x →
        ¬Same prototype x.1 key) (value : V) :
    ¬Has prototype table.nbBuckets table.buckets key value := by
  rintro ⟨p,hp,x,hx,hsame,-⟩
  have hi : bucketOf prototype table.nbBuckets key<table.nbBuckets := bucketOf_lt h.pos key
  have hhome : bucketOf prototype table.nbBuckets x.1 =
      bucketOf prototype table.nbBuckets key := hsame.bucketOf hproto _
  have hsteps : steps table.nbBuckets (bucketOf prototype table.nbBuckets key) p<k := by
    rcases hend with rfl | hend
    · exact Lib.LinearProbe.steps_lt hi hp
    · rw [←hhome] at hend ⊢
      exact h.clustered.steps_lt hp hx hend
  exact hother _ hsteps x (by rw [after_steps hi hp]; exact hx) hsame

lemma Searched.absent (hproto : PrototypeOk prototype) (h : TableOk prototype table)
    {r : Probe K V} (hr : Searched prototype table key
      (bucketOf prototype table.nbBuckets key) r) (hnot : ∀ p pair,r≠.found p pair) (value : V) :
    ¬Has prototype table.nbBuckets table.buckets key value := by
  cases hr with
  | empty k hk hempty hfirst =>
    refine h.absent hproto (.inr hempty) (fun j hj x hx => ?_) value
    obtain ⟨y,hy,hsame⟩ := hfirst j hj
    cases hx.symm.trans hy
    exact hsame
  | found p hp pair hpair hsame => exact absurd rfl (hnot p pair)
  | around hall =>
    refine h.absent hproto (.inl rfl) (fun j hj x hx => ?_) value
    obtain ⟨y,hy,hsame⟩ := hall j hj
    cases hx.symm.trans hy
    exact hsame

lemma member_spec (hproto : PrototypeOk prototype) (h : TableOk prototype table) (key : K) :
    ∃ r,NXMapMember prototype table key=some r ∧ (∀ x,r=some x → Same prototype x.1 key ∧
        Has prototype table.nbBuckets table.buckets key x.2) ∧
      (r=none → ∀ value,¬Has prototype table.nbBuckets table.buckets key value) := by
  have hi : bucketOf prototype table.nbBuckets key<table.nbBuckets := bucketOf_lt h.pos key
  unfold NXMapMember
  dsimp only
  cases hb : table.buckets (bucketOf prototype table.nbBuckets key) with
  | none =>
    refine ⟨none,rfl,fun _ hx => (nomatch hx),fun _ => ?_⟩
    exact h.absent hproto (k := 0) (.inr (by rwa [after_zero hi])) fun j hj => by omega
  | some pair =>
    dsimp only
    by_cases hsame : Same prototype pair.1 key
    · refine ⟨some pair,if_pos hsame,fun x hx => ?_,fun hx => (nomatch hx)⟩
      cases hx
      exact ⟨hsame,_,hi,pair,hb,hsame,rfl⟩
    · obtain ⟨r,hr,hsearched⟩ := probe_searched h hb hsame
      rw [if_neg hsame,hr]
      have habsent := hsearched.absent hproto h
      cases hsearched with
      | empty k hk hempty hfirst =>
        exact ⟨none,rfl,fun _ hx => (nomatch hx),fun _ => habsent fun _ _ => nofun⟩
      | found p hp pair hpair hsame =>
        refine ⟨some pair,rfl,fun x hx => ?_,fun hx => (nomatch hx)⟩
        cases hx
        exact ⟨hsame,p,hp,pair,hpair,hsame,rfl⟩
      | around hall =>
        exact ⟨none,rfl,fun _ hx => (nomatch hx),fun _ => habsent fun _ _ => nofun⟩

end Invariant

section Insert

variable {table table' : NXMapTable K V} {key : K} {value null : V} {depth : ℕ}

/-- What an insertion does. -/
structure Inserted (prototype : NXMapTablePrototype K) (key : K) (value : V)
    (table table' : NXMapTable K V) : Prop where
  ok : TableOk prototype table'
  has : ∀ k v,Has prototype table'.nbBuckets table'.buckets k v ↔
    if Same prototype key k then v=value
    else Has prototype table.nbBuckets table.buckets k v
  count : (∀ v,¬Has prototype table.nbBuckets table.buckets key v) → table'.count=table.count+1

def Previous (prototype : NXMapTablePrototype K) (null : V) (table : NXMapTable K V) (key : K)
    (old : V) : Prop :=
  Has prototype table.nbBuckets table.buckets key old ∨
    (old=null ∧ ∀ v,¬Has prototype table.nbBuckets table.buckets key v)

lemma Has.congr {n : ℕ} {b b' : ℕ → Option (K × V)} (h : ∀ p,p<n → b' p=b p) (k : K) (v : V) :
    Has prototype n b' k v ↔ Has prototype n b k v := by
  unfold Has
  exact exists_congr fun p => and_congr_right fun hp => by rw [h p hp]

lemma TableOk.congr {count n : ℕ} {b b' : ℕ → Option (K × V)}
    (h : TableOk prototype ⟨count,n,b⟩) (hb : ∀ p,p<n → b' p=b p) :
    TableOk prototype ⟨count,n,b'⟩ where
  pos := h.pos
  count := by
    have hocc : occupied n b'=occupied n b :=
      Finset.filter_congr fun p hp => by rw [hb p (Finset.mem_range.mp hp)]
    rw [hocc]
    exact h.count
  clustered := by
    refine ⟨fun p x hp hx => ?_,fun p x hp hx k hk => ?_⟩
    · exact h.clustered.home_lt p x hp ((hb p hp).symm.trans hx)
    · dsimp only at hp hx hk ⊢
      rw [hb _ (after_lt h.pos _ k)]
      exact h.clustered.path p x hp ((hb p hp).symm.trans hx) k hk
  distinct := fun p q x y hp hq hx hy => h.distinct p q x y hp hq
    ((hb p hp).symm.trans hx) ((hb q hq).symm.trans hy)

lemma TableOk.replace (hproto : PrototypeOk prototype) (h : TableOk prototype table) {p : ℕ}
    (hp : p<table.nbBuckets) {x : K × V} (hx : table.buckets p=some x)
    (hsame : Same prototype x.1 key) (value : V) :
    Inserted prototype key value table { table with
      buckets := update table.buckets p (some (x.1,value))} := by
  have hold : ∀ q y,update table.buckets p (some (x.1,value)) q=some y →
      ∃ y₀,table.buckets q=some y₀ ∧ y₀.1=y.1 := by
    intro q y hy
    rw [update_apply] at hy
    split at hy
    · subst q
      cases hy
      exact ⟨x,hx,rfl⟩
    · exact ⟨y,hy,rfl⟩
  have hfull : ∀ q,update table.buckets p (some (x.1,value)) q≠none ↔ table.buckets q≠none := by
    intro q
    rw [update_apply]
    split
    · subst q
      simp [hx]
    · exact Iff.rfl
  refine ⟨⟨h.pos,?_,⟨fun q y hq hy => ?_,fun q y hq hy k hk => ?_⟩,?_⟩,fun k v => ?_,?_⟩
  · have hocc : occupied table.nbBuckets (update table.buckets p (some (x.1,value))) =
        occupied table.nbBuckets table.buckets := by
      ext q
      rw [mem_occupied,mem_occupied,hfull]
    dsimp only
    rw [hocc]
    exact h.count
  · obtain ⟨y₀,hy₀,he⟩ := hold q y hy
    rw [←he]
    exact h.clustered.home_lt q y₀ hq hy₀
  · obtain ⟨y₀,hy₀,he⟩ := hold q y hy
    rw [←he] at hk ⊢
    exact (hfull _).mpr (h.clustered.path q y₀ hq hy₀ k hk)
  · intro q r y z hq hr hy hz hyz
    obtain ⟨y₀,hy₀,hey⟩ := hold q y hy
    obtain ⟨z₀,hz₀,hez⟩ := hold r z hz
    rw [←hey,←hez] at hyz
    exact h.distinct q r y₀ z₀ hq hr hy₀ hz₀ hyz
  · split
    · rename_i hk
      constructor
      · rintro ⟨q,hq,y,hy,hyk,rfl⟩
        obtain ⟨y₀,hy₀,he⟩ := hold q y hy
        have hyx : Same prototype y₀.1 x.1 :=
          he▸(hyk.trans hproto (hk.symm hproto)).trans hproto (hsame.symm hproto)
        have hqp := h.distinct q p y₀ x hq hp hy₀ hx hyx
        subst q
        dsimp only at hy
        rw [update_self] at hy
        cases hy
        rfl
      · rintro rfl
        exact ⟨p,hp,(x.1,v),update_self ..,hsame.trans hproto hk,rfl⟩
    · rename_i hk
      constructor
      · rintro ⟨q,hq,y,hy,hyk,hv⟩
        dsimp only at hy
        rw [update_apply] at hy
        split at hy
        · cases hy
          exact absurd ((hsame.symm hproto).trans hproto hyk) hk
        · exact ⟨q,hq,y,hy,hyk,hv⟩
      · rintro ⟨q,hq,y,hy,hyk,hv⟩
        have hqp : q≠p := by
          rintro rfl
          cases hy.symm.trans hx
          exact hk ((hsame.symm hproto).trans hproto hyk)
        exact ⟨q,hq,y,(update_of_ne hqp ..).trans hy,hyk,hv⟩
  · intro habsent
    exact absurd ⟨p,hp,x,hx,hsame,rfl⟩ (habsent x.2)

lemma TableOk.insertShifted (hproto : PrototypeOk prototype) (h : TableOk prototype table) {k : ℕ}
    (hk : k<table.nbBuckets)
    (hempty : table.buckets (after table.nbBuckets (bucketOf prototype table.nbBuckets key) k)=none)
    (hfirst : ∀ j,j<k → table.buckets
      (after table.nbBuckets (bucketOf prototype table.nbBuckets key) j)≠none)
    (habsent : ∀ v,¬Has prototype table.nbBuckets table.buckets key v)
    {b : ℕ → Option (K × V)} (hb : ∀ p,p<table.nbBuckets → b p=shifted table.nbBuckets
      table.buckets (bucketOf prototype table.nbBuckets key) k (key,value) p) :
    Inserted prototype key value table
      {table with buckets := b,count := table.count+1} := by
  have hi : bucketOf prototype table.nbBuckets key<table.nbBuckets := bucketOf_lt h.pos key
  have hslots := fun y => shifted_eq_some (x := (key,value)) hi hk hempty (y := y)
  refine ⟨TableOk.congr ⟨h.pos,?_,?_,?_⟩ hb,fun k' v => ?_,fun _ => rfl⟩
  · dsimp only
    rw [occupied_shifted hi hk hfirst,Finset.card_insert_of_notMem,h.count]
    exact fun hmem => (mem_occupied.mp hmem).2 hempty
  · exact h.clustered.shift rfl hi hk hempty hfirst
  · intro p q x y hp hq hx hy hxy
    refine shifted_distinct (r := fun x y => Same prototype x.1 y.1) hi h.distinct
      (fun p y hp hy => ?_) hp hq hx hy hxy
    exact ⟨fun hsame => habsent y.2 ⟨p,hp,y,hy,hsame.symm hproto,rfl⟩,
      fun hsame => habsent y.2 ⟨p,hp,y,hy,hsame,rfl⟩⟩
  · rw [Has.congr hb]
    have hiff : Has prototype table.nbBuckets (shifted table.nbBuckets table.buckets
        (bucketOf prototype table.nbBuckets key) k (key,value)) k' v ↔
        (Same prototype key k' ∧ value=v) ∨ Has prototype table.nbBuckets table.buckets k' v := by
      constructor
      · rintro ⟨p,hp,x,hx,hsame,hv⟩
        rcases (hslots x).mp ⟨p,hp,hx⟩ with rfl | ⟨q,hq,hx⟩
        · exact .inl ⟨hsame,hv⟩
        · exact .inr ⟨q,hq,x,hx,hsame,hv⟩
      · rintro (⟨hsame,hv⟩ | ⟨q,hq,x,hx,hsame,hv⟩)
        · obtain ⟨p,hp,hx⟩ := (hslots (key,value)).mpr (.inl rfl)
          exact ⟨p,hp,_,hx,hsame,hv⟩
        · obtain ⟨p,hp,hx⟩ := (hslots x).mpr (.inr ⟨q,hq,hx⟩)
          exact ⟨p,hp,x,hx,hsame,hv⟩
    rw [hiff]
    split
    · rename_i hsame
      refine ⟨fun hv => ?_,fun hv => .inl ⟨hsame,hv.symm⟩⟩
      rcases hv with ⟨-,hv⟩ | ⟨q,hq,x,hx,hxk,-⟩
      · exact hv.symm
      · exact absurd ⟨q,hq,x,hx,hxk.trans hproto (hsame.symm hproto),rfl⟩ (habsent x.2)
    · rename_i hsame
      exact ⟨fun hv => hv.resolve_left fun hl => hsame hl.1,.inr⟩

lemma shiftPairs_spec {n i k : ℕ} (hi : i<n) (hk : k<n) {x : K × V}
    {b : ℕ → Option (K × V)} (hempty : b (after n i k)=none)
    (hfirst : ∀ j,j<k → b (after n i j)≠none) {fuel : ℕ} (hfuel : k<fuel) :
    ∃ b',shiftPairs n fuel b i (some x)=some b' ∧ ∀ p,p<n → b' p=shifted n b i k x p := by
  induction k generalizing b i x fuel with
  | zero =>
    obtain ⟨fuel,rfl⟩ := Nat.exists_eq_add_one_of_ne_zero (Nat.ne_of_gt hfuel)
    rw [after_zero hi] at hempty
    refine ⟨update b i (some x),?_,fun p hp => ?_⟩
    · rw [shiftPairs,hempty]
      cases fuel <;> rfl
    · rw [update_apply,shifted]
      split
      · rfl
      · rename_i hpi
        rw [if_neg]
        exact fun hz => hpi ((steps_eq_zero hi).mp (Nat.le_zero.mp hz)).symm
  | succ k ih =>
    obtain ⟨fuel,rfl⟩ := Nat.exists_eq_add_one_of_ne_zero (show fuel≠0 by omega)
    have hhere := hfirst 0 (Nat.succ_pos k)
    rw [after_zero hi] at hhere
    obtain ⟨y,hy⟩ := Option.ne_none_iff_exists'.mp hhere
    have hlater : ∀ j,j+1<n → update b i (some x) (after n (next n i) j) =
        b (after n i (j+1)) := fun j hj => update_after_next hi hj
    obtain ⟨b',hb',hshift⟩ := ih (x := y) (b := update b i (some x)) (next_lt hi)
      (by omega)
      (by rw [hlater k hk]; exact hempty)
      (fun j hj => by rw [hlater j (by omega)]; exact hfirst (j+1) (by omega))
      (show k<fuel by omega)
    refine ⟨b',?_,fun p hp => ?_⟩
    · rw [shiftPairs,nextIndex_eq hi,hy]
      exact hb'
    · rw [hshift p hp,shifted_succ hi hk hy hp]

/-- How an insertion goes on: it rehashes and tries again, or is done, or rehashes at the end. -/
inductive InsertKey (prototype : NXMapTablePrototype K) (null : V) (depth : ℕ)
    (table : NXMapTable K V) (key : K) (value : V) : Prop
  | retry (hfull : table.count=table.nbBuckets)
    (heq : insertKey prototype null (depth+1) table key value =
      (rehashWith (insertKey prototype null depth) table).bind fun table =>
        insertKey prototype null depth table key value)
  | done (table' : NXMapTable K V) (old : V) (hins : Inserted prototype key value table table')
    (hnb : table'.nbBuckets=table.nbBuckets) (hold : Previous prototype null table key old)
    (heq : insertKey prototype null (depth+1) table key value=some (table',old))
  | grow (table' : NXMapTable K V) (hins : Inserted prototype key value table table')
    (hnb : table'.nbBuckets=table.nbBuckets)
    (habsent : ∀ v,¬Has prototype table.nbBuckets table.buckets key v)
    (hmany : table'.nbBuckets*3<table'.count*4)
    (heq : insertKey prototype null (depth+1) table key value =
      (rehashWith (insertKey prototype null depth) table').map fun table => (table,null))

lemma insertKey_cases (hproto : PrototypeOk prototype) (h : TableOk prototype table) :
    InsertKey prototype null depth table key value := by
  have hi : bucketOf prototype table.nbBuckets key<table.nbBuckets := bucketOf_lt h.pos key
  cases hb : table.buckets (bucketOf prototype table.nbBuckets key) with
  | none =>
    have hempty : table.buckets (after table.nbBuckets
        (bucketOf prototype table.nbBuckets key) 0)=none := by rwa [after_zero hi]
    have habsent := h.absent hproto (.inr hempty) fun j hj => absurd hj (Nat.not_lt_zero j)
    have hins : Inserted prototype key value table { table with
        buckets := update table.buckets (bucketOf prototype table.nbBuckets key)
          (some (key,value))
        count := table.count+1} :=
      h.insertShifted hproto h.pos hempty (fun j hj => absurd hj (Nat.not_lt_zero j)) habsent
        fun p hp => ?_
    · refine .done _ null hins rfl (.inr ⟨rfl,habsent⟩) ?_
      simp only [insertKey,hb]
    · rw [update_apply,shifted]
      split
      · rfl
      · rename_i hpi
        rw [if_neg]
        exact fun hz => hpi ((steps_eq_zero hi).mp (Nat.le_zero.mp hz)).symm
  | some pair =>
    by_cases hsame : Same prototype pair.1 key
    · refine .done _ pair.2 (h.replace hproto hi hb hsame value) rfl
        (.inl ⟨_,hi,pair,hb,hsame,rfl⟩) ?_
      simp only [insertKey,hb]
      rw [if_pos hsame]
    · by_cases hfull : table.count=table.nbBuckets
      · refine .retry hfull ?_
        simp only [insertKey,hb]
        rw [if_neg hsame,if_pos hfull]
      · obtain ⟨r,hr,hsearched⟩ := probe_searched h hb hsame
        have habsent := hsearched.absent hproto h
        cases hsearched with
        | empty k hk hempty hfirst =>
          have hfirst' : ∀ j,j<k → table.buckets (after table.nbBuckets
              (bucketOf prototype table.nbBuckets key) j)≠none := fun j hj => by
            obtain ⟨x,hx,-⟩ := hfirst j hj
            rw [hx]
            exact Option.some_ne_none x
          obtain ⟨b,hshift,hbs⟩ := shiftPairs_spec (x := (key,value)) hi hk hempty hfirst' hk
          have habs := habsent fun _ _ hf => by cases hf
          have hins := h.insertShifted hproto hk hempty hfirst' habs hbs
          have heq : insertKey prototype null (depth+1) table key value =
              (shiftPairs table.nbBuckets table.nbBuckets table.buckets
                (bucketOf prototype table.nbBuckets key) (some (key,value))).bind fun buckets =>
                  if table.nbBuckets*3<(table.count+1)*4 then
                    (rehashWith (insertKey prototype null depth)
                      {table with buckets := buckets,count := table.count+1}).map
                        fun table => (table,null)
                  else some ({table with buckets := buckets,count := table.count+1},null) := by
            simp only [insertKey,hb]
            rw [if_neg hsame,if_neg hfull]
            exact congrArg (Option.bind · _) hr
          rw [hshift,Option.bind_some] at heq
          by_cases hmany : table.nbBuckets*3<(table.count+1)*4
          · rw [if_pos hmany] at heq
            exact .grow _ hins rfl habs hmany heq
          · rw [if_neg hmany] at heq
            exact .done _ null hins rfl (.inr ⟨rfl,habs⟩) heq
        | found p hp pair' hpair hsame' =>
          refine .done _ pair'.2 (h.replace hproto hp hpair hsame' value) rfl
            (.inl ⟨p,hp,pair',hpair,hsame',rfl⟩) ?_
          simp only [insertKey,hb]
          rw [if_neg hsame,if_neg hfull]
          exact congrArg (Option.bind · _) hr
        | around hall =>
          -- a table that is not full has an empty bucket
          exfalso
          have hle : (occupied table.nbBuckets table.buckets).card≤table.nbBuckets := by
            have hsub := Finset.card_le_card
              (Finset.filter_subset (fun p => (table.buckets p).isSome)
                (Finset.range table.nbBuckets))
            rwa [Finset.card_range] at hsub
          have hcount := h.count
          have hfree : (occupied table.nbBuckets table.buckets).card<table.nbBuckets := by omega
          obtain ⟨p,hp,hnone⟩ := exists_empty_of_card_lt hfree
          obtain ⟨x,hx,-⟩ := hall _ (Lib.LinearProbe.steps_lt hi hp)
          rw [after_steps hi hp,hnone] at hx
          cases hx

lemma insertKey_roomy (key : K) (value null : V) (depth : ℕ) (hproto : PrototypeOk prototype)
    (h : TableOk prototype table)
    (hroom : (table.count+1)*4≤table.nbBuckets*3) :
    ∃ table' old,insertKey prototype null (depth+1) table key value=some (table',old) ∧
      Inserted prototype key value table table' ∧ table'.nbBuckets=table.nbBuckets ∧
      Previous prototype null table key old := by
  have hcases : InsertKey prototype null depth table key value := insertKey_cases hproto h
  cases hcases with
  | retry hfull heq => omega
  | done table' old hins hnb hold heq => exact ⟨table',old,heq,hins,hnb,hold⟩
  | grow table' hins hnb habsent hmany heq =>
    have hcount := hins.count habsent
    omega

lemma insert_list (hproto : PrototypeOk prototype) (I : ℕ → NXMapTable K V → Prop)
    (insert : NXMapTable K V → K × V → Option (NXMapTable K V))
    (hinsert : ∀ m table x,I (m+1) table → TableOk prototype table →
      (∀ v,¬Has prototype table.nbBuckets table.buckets x.1 v) →
      ∃ table',insert table x=some table' ∧ Inserted prototype x.1 x.2 table table' ∧
        I m table') (table : NXMapTable K V) (xs : List (K × V)) (hI : I xs.length table) (h : TableOk prototype table)
    (hdistinct : xs.Pairwise fun x y => ¬Same prototype x.1 y.1)
    (habsent : ∀ x∈xs,∀ v,¬Has prototype table.nbBuckets table.buckets x.1 v) :
    ∃ table',xs.foldlM insert table=some table' ∧ TableOk prototype table' ∧ I 0 table' ∧
      table'.count=table.count+xs.length ∧ ∀ k v,Has prototype table'.nbBuckets table'.buckets k v ↔
        (∃ x∈xs,Same prototype x.1 k ∧ x.2=v) ∨
          Has prototype table.nbBuckets table.buckets k v := by
  induction xs generalizing table with
  | nil => exact ⟨table,rfl,h,hI,rfl,fun k v => by simp⟩
  | cons x xs ih =>
    obtain ⟨hx,hxs⟩ := List.pairwise_cons.mp hdistinct
    obtain ⟨table₁,heq,hins,hI₁⟩ := hinsert _ table x hI h (habsent x List.mem_cons_self)
    obtain ⟨table',hfold,hok,hI',hcount,hhas⟩ := ih table₁ hI₁ hins.ok hxs fun y hy v hv => by
      rw [hins.has,if_neg (hx y hy)] at hv
      exact habsent y (List.mem_cons_of_mem x hy) v hv
    refine ⟨table',?_,hok,hI',?_,fun k v => ?_⟩
    · rw [List.foldlM_cons,heq]
      exact hfold
    · rw [hcount,hins.count (habsent x List.mem_cons_self),List.length_cons]
      omega
    · rw [hhas,hins.has]
      constructor
      · rintro (⟨y,hy,hyk,hyv⟩ | hv)
        · exact .inl ⟨y,List.mem_cons_of_mem x hy,hyk,hyv⟩
        · split at hv
          · rename_i hxk
            exact .inl ⟨x,List.mem_cons_self,hxk,hv.symm⟩
          · exact .inr hv
      · rintro (⟨y,hy,hyk,hyv⟩ | hv)
        · rcases List.mem_cons.mp hy with rfl | hy
          · exact .inr (by rw [if_pos hyk]; exact hyv.symm)
          · exact .inl ⟨y,hy,hyk,hyv⟩
        · refine .inr ?_
          rw [if_neg]
          · exact hv
          · intro hxk
            obtain ⟨p,hp,z,hz,hzk,rfl⟩ := hv
            exact habsent x List.mem_cons_self z.2
              ⟨p,hp,z,hz,hzk.trans hproto (hxk.symm hproto),rfl⟩

lemma TableOk.pairwise (h : TableOk prototype table) :
    (occupants table.nbBuckets table.buckets).Pairwise fun x y => ¬Same prototype x.1 y.1 := by
  rw [occupants,List.pairwise_filterMap]
  refine List.Pairwise.imp_of_mem (fun {p q} hp hq hpq x hx y hy hsame => ?_)
    (List.pairwise_lt_range (n := table.nbBuckets))
  have heq := h.distinct p q x y (List.mem_range.mp hp) (List.mem_range.mp hq) hx hy hsame
  omega

end Insert

end Darwin.Objc
