import Darwin.Netinfo.Dsindex

/-! What an index says of the ids of children, key by key. -/
open List
namespace Darwin.Netinfo

variable {x : Dsindex} {key k : Dsdata} {b : List ℕ} {c dsid : ℕ}

/-- The keys are different, and the values of each are in order. -/
structure IndexOk (x : Dsindex) : Prop where
  keys : (x.map DsindexKey.key).Nodup
  vals : ∀ kx∈x,ValsOk kx.vindex

def HasKey (x : Dsindex) (k : Dsdata) : Prop := ∃ kx∈x,kx.key=k

def Holds (x : Dsindex) (k : Dsdata) (b : List ℕ) (c : ℕ) : Prop :=
  ∃ kx∈x,kx.key=k ∧ Has kx.vindex b c

def HasValue (attributes : List Dsattribute) (k : Dsdata) (b : List ℕ) : Prop :=
  ∃ a∈attributes,a.key=k ∧ ∃ v∈a.value,v.bytes=b

/-- An index with one more key, and with more ids. -/
structure Extends (x x' : Dsindex) (K : Dsdata → Prop) (H : Dsdata → List ℕ → ℕ → Prop) : Prop where
  ok : IndexOk x'
  keys : ∀ k,HasKey x' k ↔ HasKey x k ∨ K k
  holds : ∀ k b c,Holds x' k b c ↔ Holds x k b c ∨ H k b c

lemma valsOk_nil : ValsOk [] :=
  ⟨List.Pairwise.nil,fun _ h => absurd h not_mem_nil,fun _ h => absurd h not_mem_nil⟩

lemma not_has_nil : ¬Has [] b c := fun h => by
  obtain ⟨vx,hvx,-⟩ := h
  cases hvx

lemma Holds.hasKey (h : Holds x k b c) : HasKey x k := by
  obtain ⟨kx,hkx,hk,-⟩ := h
  exact ⟨kx,hkx,hk⟩

lemma mem_keys_atKey (x : Dsindex) (key : Dsdata) (f : List DsindexVal → List DsindexVal) :
    ∀ k,k∈(atKey key f x).map DsindexKey.key ↔ k∈x.map DsindexKey.key ∨ k=key := by
  intro k
  induction x with
  | nil => simp [atKey]
  | cons kx x ih =>
    rw [atKey]
    split_ifs with heq
    · subst heq
      simp only [map_cons,mem_cons]
      tauto
    · rw [map_cons,map_cons,mem_cons,mem_cons,ih,or_assoc]

lemma atKey_spec {f : List DsindexVal → List DsindexVal} {P : List ℕ → ℕ → Prop} (h : IndexOk x)
    (key : Dsdata)
    (hf : ∀ vals,ValsOk vals → ValsOk (f vals) ∧ ∀ b c,Has (f vals) b c ↔ Has vals b c ∨ P b c) :
    Extends x (atKey key f x) (fun k => k=key) fun k b c => k=key ∧ P b c := by
  refine ⟨⟨?_,?_⟩,fun k => ?_,fun k b c => ?_⟩
  · have hkeys := h.keys
    clear h
    induction x with
    | nil => exact nodup_singleton key
    | cons kx x ih =>
      rw [map_cons,nodup_cons] at hkeys
      rw [atKey]
      split_ifs with heq
      · exact nodup_cons.mpr hkeys
      · refine nodup_cons.mpr ⟨fun hmem => ?_,ih hkeys.2⟩
        rcases (mem_keys_atKey _ _ _ _).mp hmem with hmem | hk
        · exact hkeys.1 hmem
        · exact heq hk.symm
  · have hvals := h.vals
    clear h
    induction x with
    | nil =>
      intro kx hkx
      rw [mem_singleton.mp hkx]
      exact (hf [] valsOk_nil).1
    | cons kx x ih =>
      rw [atKey]
      intro y hy
      split_ifs at hy with heq
      · rcases mem_cons.mp hy with rfl | hy
        · exact (hf _ (hvals kx mem_cons_self)).1
        · exact hvals y (mem_cons_of_mem _ hy)
      · rcases mem_cons.mp hy with rfl | hy
        · exact hvals y mem_cons_self
        · exact ih (fun y hy => hvals y (mem_cons_of_mem _ hy)) y hy
  · have hmem := mem_keys_atKey x key f k
    rw [mem_map,mem_map] at hmem
    exact hmem
  · have hvals := h.vals
    have hkeys := h.keys
    clear h
    induction x with
    | nil =>
      have hhas := (hf [] valsOk_nil).2 b c
      simp only [Holds,atKey,mem_singleton,exists_eq_left,hhas,not_has_nil,false_or,
        not_mem_nil,false_and,exists_false]
      exact and_congr_left fun _ => eq_comm
    | cons kx x ih =>
      rw [map_cons,nodup_cons] at hkeys
      have hrest := ih (fun y hy => hvals y (mem_cons_of_mem _ hy)) hkeys.2
      have hhas := (hf _ (hvals kx mem_cons_self)).2 b c
      rw [Holds] at hrest
      rw [atKey]
      split_ifs with heq
      · simp only [Holds,exists_mem_cons_iff,hhas]
        rw [←heq]
        constructor
        · rintro (⟨rfl,hold | hnew⟩ | hrest)
          · exact .inl (.inl ⟨rfl,hold⟩)
          · exact .inr ⟨rfl,hnew⟩
          · exact .inl (.inr hrest)
        · rintro ((⟨rfl,hold⟩ | hrest) | ⟨rfl,hnew⟩)
          · exact .inl ⟨rfl,.inl hold⟩
          · exact .inr hrest
          · exact .inl ⟨rfl,.inr hnew⟩
      · simp only [Holds,exists_mem_cons_iff]
        exact (or_congr_right hrest).trans or_assoc.symm

lemma Extends.trans {x' x'' : Dsindex} {K K' : Dsdata → Prop} {H H' : Dsdata → List ℕ → ℕ → Prop}
    (h : Extends x x' K H) (h' : Extends x' x'' K' H') :
    Extends x x'' (fun k => K k ∨ K' k) fun k b c => H k b c ∨ H' k b c :=
  ⟨h'.ok,fun k => by rw [h'.keys,h.keys,or_assoc],fun k b c => by rw [h'.holds,h.holds,or_assoc]⟩

lemma insertKey_spec (h : IndexOk x) (key : Dsdata) :
    Extends x (dsindexInsertKey x key) (fun k => k=key) fun _ _ _ => False := by
  obtain ⟨hok,hkeys,hholds⟩ := atKey_spec (f := id) (P := fun _ _ => False) h key
    fun vals hvals => ⟨hvals,fun b c => by rw [or_false,id]⟩
  exact ⟨hok,hkeys,fun k b c => by rw [dsindexInsertKey,hholds,and_false]⟩

lemma insertAttribute_spec (h : IndexOk x) (a : Dsattribute) (dsid : ℕ) :
    Extends x (dsindexInsertAttribute x a dsid) (fun k => k=a.key)
      fun k b c => k=a.key ∧ (∃ v∈a.value,v.bytes=b) ∧ c=dsid :=
  atKey_spec h a.key fun _ hvals => insertValues_spec hvals a.value dsid

lemma insertRecord_spec (h : IndexOk x) (attributes : List Dsattribute) (dsid : ℕ) :
    Extends x (dsindexInsertRecord x attributes dsid) (fun k => ∃ a∈attributes,a.key=k)
      fun k b c => HasValue attributes k b ∧ c=dsid := by
  induction attributes generalizing x with
  | nil => exact ⟨h,fun k => by simp [dsindexInsertRecord],
      fun k b c => by simp [dsindexInsertRecord,HasValue]⟩
  | cons a attributes ih =>
    have hfirst := insertAttribute_spec h a dsid
    obtain ⟨hok,hkeys,hholds⟩ := hfirst.trans (ih hfirst.ok)
    refine ⟨hok,fun k => (hkeys k).trans ?_,fun k b c => (hholds k b c).trans ?_⟩
    · rw [exists_mem_cons_iff]
      exact or_congr_right (or_congr_left eq_comm)
    · simp only [HasValue,exists_mem_cons_iff]
      constructor
      · rintro (hold | ⟨rfl,hv,rfl⟩ | ⟨hrest,rfl⟩)
        · exact .inl hold
        · exact .inr ⟨.inl ⟨rfl,hv⟩,rfl⟩
        · exact .inr ⟨.inr hrest,rfl⟩
      · rintro (hold | ⟨⟨rfl,hv⟩ | hrest,rfl⟩)
        · exact .inl hold
        · exact .inr (.inl ⟨rfl,hv,rfl⟩)
        · exact .inr (.inr ⟨hrest,rfl⟩)

lemma deleteDsid_spec (h : IndexOk x) (dsid : ℕ) : IndexOk (dsindexDeleteDsid x dsid) ∧
      (∀ k,HasKey (dsindexDeleteDsid x dsid) k ↔ HasKey x k) ∧
      ∀ k b c,Holds (dsindexDeleteDsid x dsid) k b c ↔ Holds x k b c ∧ c≠dsid := by
  have hmem : ∀ y,y∈dsindexDeleteDsid x dsid ↔
      ∃ kx∈x,y={kx with vindex := kindexDeleteDsid kx.vindex dsid} := by
    intro y
    rw [dsindexDeleteDsid,mem_map]
    exact exists_congr fun kx => and_congr_right fun _ => eq_comm
  refine ⟨⟨?_,fun y hy => ?_⟩,fun k => ⟨?_,?_⟩,fun k b c => ⟨?_,?_⟩⟩
  · rw [dsindexDeleteDsid,map_map]
    exact h.keys
  · obtain ⟨kx,hkx,rfl⟩ := (hmem y).mp hy
    exact (kindexDeleteDsid_spec (h.vals kx hkx) dsid).1
  · rintro ⟨y,hy,hk⟩
    obtain ⟨kx,hkx,rfl⟩ := (hmem y).mp hy
    exact ⟨kx,hkx,hk⟩
  · rintro ⟨kx,hkx,hk⟩
    exact ⟨_,(hmem _).mpr ⟨kx,hkx,rfl⟩,hk⟩
  · rintro ⟨y,hy,hk,hhas⟩
    obtain ⟨kx,hkx,rfl⟩ := (hmem y).mp hy
    obtain ⟨hhas,hne⟩ := ((kindexDeleteDsid_spec (h.vals kx hkx) dsid).2 b c).mp hhas
    exact ⟨⟨kx,hkx,hk,hhas⟩,hne⟩
  · rintro ⟨⟨kx,hkx,hk,hhas⟩,hne⟩
    exact ⟨_,(hmem _).mpr ⟨kx,hkx,rfl⟩,hk,
      ((kindexDeleteDsid_spec (h.vals kx hkx) dsid).2 b c).mpr ⟨hhas,hne⟩⟩

lemma IndexOk.eq_of_key (h : IndexOk x) {kx kx' : DsindexKey} (hkx : kx∈x) (hkx' : kx'∈x)
    (heq : kx.key=kx'.key) : kx=kx' := inj_on_of_nodup_map h.keys hkx hkx' heq

lemma lookup_spec {kx : DsindexKey} (h : IndexOk x) (hkx : dsindexLookupKey x k=some kx)
    (val : Dsdata) :
    (∀ c,((dsindexLookupVal kx.vindex val).bind fun vx => vx.dsid.head?)=some c →
        Holds x k val.bytes c ∧ ∀ c',Holds x k val.bytes c' → c≤c') ∧
      (((dsindexLookupVal kx.vindex val).bind fun vx => vx.dsid.head?)=none →
        ∀ c,¬Holds x k val.bytes c) := by
  have hmem := mem_of_find?_eq_some hkx
  have hfound := find?_some (p := fun kx : DsindexKey => decide (k=kx.key)) hkx
  have hkey : k=kx.key := of_decide_eq_true hfound
  have hiff : ∀ c,Holds x k val.bytes c ↔ Has kx.vindex val.bytes c := by
    intro c
    constructor
    · rintro ⟨kx',hkx',hk',hhas⟩
      exact h.eq_of_key hkx' hmem (hk'.trans hkey)▸hhas
    · exact fun hhas => ⟨kx,hmem,hkey.symm,hhas⟩
  obtain ⟨hsome,hnone⟩ := dsindexLookupVal_spec (h.vals kx hmem) val
  refine ⟨fun c hc => ?_,fun hn c hc => hnone hn c ((hiff c).mp hc)⟩
  obtain ⟨hhas,hleast⟩ := hsome c hc
  exact ⟨(hiff c).mpr hhas,fun c' hc' => hleast c' ((hiff c').mp hc')⟩

lemma lookupKey_none : dsindexLookupKey x k=none ↔ ¬HasKey x k := by
  rw [dsindexLookupKey,find?_eq_none]
  simp only [decide_eq_true_eq,HasKey,not_exists,not_and]
  exact forall_congr' fun kx => forall_congr' fun _ => not_congr eq_comm

end Darwin.Netinfo
