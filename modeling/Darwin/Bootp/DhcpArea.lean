import Darwin.Bootp.DhcpOptions

/-! What is added to an area of DHCP options is found again in it, in order and unaltered. -/
open List Nat
namespace Darwin.Bootp
open Lib.ByteStore

variable {mem mem' : ℕ → UInt8} {p q r : ℕ} {os : List (UInt8 × List UInt8)}

def Laid (mem : ℕ → UInt8) : ℕ → List (UInt8 × List UInt8) → ℕ → Prop
  | p,[],q => q=p
  | p,(tag,data)::os,q => mem p=tag ∧ (mem (p+1)).toNat=data.length ∧
      bytesFrom mem (p+2) data.length=data ∧ Laid mem (p+(data.length+2)) os q

def offsets : ℕ → List (UInt8 × List UInt8) → List ℕ
  | _,[] => []
  | p,o::os => p::offsets (p+(o.2.length+2)) os

def optionAt (mem : ℕ → UInt8) (p : ℕ) : UInt8 × List UInt8 :=
  (mem p,bytesFrom mem (p+2) (mem (p+1)).toNat)

def Regular (tag : UInt8) : Prop := tag≠tagPad ∧ tag≠tagEnd

lemma Laid.le (h : Laid mem p os q) : p≤q := by
  induction os generalizing p with
  | nil => exact h.ge
  | cons o os ih =>
    have htail := ih h.2.2.2
    omega

lemma Laid.congr (h : Laid mem p os q) (hmem : ∀ a,p≤a → a<q → mem' a=mem a) :
    Laid mem' p os q := by
  induction os generalizing p with
  | nil => exact h
  | cons o os ih =>
    obtain ⟨htag,hlen,hdata,htail⟩ := h
    have hle := htail.le
    refine ⟨?_,?_,?_,ih htail fun a ha hq => hmem a (by omega) hq⟩
    · rw [hmem p (le_refl p) (by omega),htag]
    · rw [hmem (p+1) (by omega) (by omega),hlen]
    · rw [bytesFrom_congr fun a ha hb => hmem a (by omega) (by omega),hdata]

lemma Laid.append {os' : List (UInt8 × List UInt8)} (h : Laid mem p os q)
    (g : Laid mem q os' r) : Laid mem p (os++os') r := by
  induction os generalizing p with
  | nil =>
    cases h
    exact g
  | cons o os ih => exact ⟨h.1,h.2.1,h.2.2.1,ih h.2.2.2⟩

lemma Laid.map_offsets (h : Laid mem p os q) : (offsets p os).map (optionAt mem)=os := by
  induction os generalizing p with
  | nil => rfl
  | cons o os ih =>
    obtain ⟨htag,hlen,hdata,htail⟩ := h
    rw [offsets,map_cons,ih htail]
    congr 1
    rw [optionAt,htag,hlen,hdata]

lemma laid_store (mem : ℕ → UInt8) (p : ℕ) (tag : UInt8) {data : List UInt8}
    (hlen : data.length≤255) :
    Laid (store mem (storesAt p (tag::UInt8.ofNat data.length::data))) p [(tag,data)]
      (p+(data.length+2)) := by
  have hbytes := bytesFrom_storesAt mem p (tag::UInt8.ofNat data.length::data)
  simp only [length_cons,bytesFrom,List.cons.injEq] at hbytes
  obtain ⟨htag,hl,hdata⟩ := hbytes
  refine ⟨htag,?_,hdata,rfl⟩
  rw [hl,UInt8.toNat_ofNat',mod_eq_of_lt (by omega)]

lemma store_of_lt {l : List UInt8} {a : ℕ} (h : a<p) : store mem (storesAt p l) a=mem a :=
  store_of_forall_ne fun s hs => by
    have := mem_storesAt hs
    omega

lemma store_of_ge {l : List UInt8} {a : ℕ} (h : p+l.length≤a) : store mem (storesAt p l) a=mem a :=
  store_of_forall_ne fun s hs => by
    have := mem_storesAt hs
    omega

lemma parseScan_laid (h : Laid mem p os q) (hreg : ∀ o∈os,Regular o.1)
    (hend : mem q=tagEnd) {len : ℕ} (hlen : q<p+len) :
    parseScan mem p len=.ok (offsets p os++[q]) := by
  induction os generalizing p len with
  | nil =>
    cases h
    obtain ⟨n,rfl⟩ := exists_eq_add_one_of_ne_zero (show len≠0 by omega)
    rw [parseScan,if_pos hend]
    rfl
  | cons o os ih =>
    obtain ⟨htag,hl,-,htail⟩ := h
    have hle := htail.le
    obtain ⟨n,rfl⟩ := exists_eq_add_one_of_ne_zero (show len≠0 by omega)
    have hne := hreg o mem_cons_self
    rw [←htag] at hne
    rw [parseScan,if_neg hne.2,if_neg hne.1]
    dsimp only
    rw [hl,if_pos (by omega),ih htail (fun x hx => hreg x (mem_cons_of_mem o hx)) (by omega)]
    rfl

/-- The first option with a tag among those from number `i` on, with the number after it. -/
def nextFrom (tag : UInt8) : ℕ → List (UInt8 × List UInt8) → Option (List UInt8 × ℕ)
  | _,[] => none
  | i,o::os => if o.1=tag then some (o.2,i+1) else nextFrom tag (i+1) os

lemma findFrom_eq (tag : UInt8) (i : ℕ) (list : List ℕ) :
    (findFrom mem tag i list).map (fun r => (bytesFrom mem r.1 r.2.1,r.2.2)) =
      nextFrom tag i (list.map (optionAt mem)) := by
  induction list generalizing i with
  | nil => rfl
  | cons option list ih =>
    rw [map_cons,findFrom,nextFrom]
    by_cases htag : mem option=tag
    · rw [if_pos htag,if_pos (show (optionAt mem option).1=tag from htag)]
      rfl
    · rw [if_neg htag,if_neg (show ¬(optionAt mem option).1=tag from htag),ih]

lemma nextFrom_append (tag : UInt8) (i : ℕ) (os os' : List (UInt8 × List UInt8))
    (h : ∀ o∈os',o.1≠tag) : nextFrom tag i (os++os')=nextFrom tag i os := by
  induction os generalizing i with
  | nil =>
    induction os' generalizing i with
    | nil => rfl
    | cons o os' ih =>
      change nextFrom tag i (o::os')=none
      rw [nextFrom,if_neg (h o mem_cons_self)]
      exact ih (fun x hx => h x (mem_cons_of_mem o hx)) (i+1)
  | cons o os ih => rw [cons_append,nextFrom,nextFrom,ih]

lemma getFrom_eq (tag : UInt8) (data : Option (List UInt8)) (list : List ℕ) :
    getFrom mem tag data list =
      if (list.map (optionAt mem)).filter (fun o => o.1=tag)=[] then data
      else some (data.getD [] ++
        ((list.map (optionAt mem)).filter (fun o => o.1=tag)).flatMap Prod.snd) := by
  induction list generalizing data with
  | nil => rfl
  | cons option list ih =>
    rw [map_cons,getFrom]
    by_cases htag : mem option=tag
    · have hpos : decide ((optionAt mem option).1=tag)=true := decide_eq_true htag
      rw [if_pos htag,filter_cons,if_pos hpos,if_neg (cons_ne_nil _ _),ih,flatMap_cons]
      split
      · rename_i hnil
        rw [hnil,flatMap_nil,append_nil]
        rfl
      · rw [Option.getD_some,append_assoc]
        rfl
    · have hneg : ¬decide ((optionAt mem option).1=tag)=true := by
        rw [decide_eq_true_eq]
        exact htag
      rw [if_neg htag,filter_cons,if_neg hneg,ih]

section Area

variable {oa oa' : OptionArea} {buffer : ℕ → UInt8} {size : ℕ}

lemma int32_of_lt {n : ℕ} (h : n<2^31) : int32 n=n := by rw [int32,mod_eq_of_lt (by omega),if_pos h]

/-- An area of `size` bytes to which `added` has been added, with room for the end tag. -/
structure AreaOk (buffer : ℕ → UInt8) (size : ℕ) (oa : OptionArea)
    (added : List (UInt8 × List UInt8)) : Prop where
  magic : oa.oaMagic=dhcpoaMagic
  sized : oa.oaSize=size
  room : oa.oaOffset+1<size
  unended : oa.oaEndTag=false
  laid : Laid oa.oaBuffer 0 added oa.oaOffset
  regular : ∀ o∈added,Regular o.1
  outside : ∀ a,size≤a → oa.oaBuffer a=buffer a

lemma init_areaOk (buffer : ℕ → UInt8) (hsize : 2 ≤ size) :
    AreaOk buffer size (dhcpoaInit buffer size) [] where
  magic := rfl
  sized := rfl
  room := hsize
  unended := rfl
  laid := rfl
  regular := fun _ ho => absurd ho not_mem_nil
  outside := fun _ ha => if_neg (not_lt.mpr ha)

variable {added : List (UInt8 × List UInt8)} {tag : UInt8} {option : List UInt8}

lemma dhcpoaAdd_unchanged (oa : OptionArea) (tag : UInt8) (option : List UInt8)
    (h : (dhcpoaAdd oa tag option).2≠.success) :
    (dhcpoaAdd oa tag option).1={oa with oaErr := (dhcpoaAdd oa tag option).1.oaErr} := by
  revert h
  unfold dhcpoaAdd
  dsimp only
  split_ifs <;> first | exact fun _ => rfl | exact fun h => absurd rfl h

lemma AreaOk.add (h : AreaOk buffer size oa added) (hbig : size<2^31-256) (htag : Regular tag)
    (hlen : option.length≤255) :
    (oa.oaOffset+option.length+3<size → (dhcpoaAdd oa tag option).2=.success ∧
      AreaOk buffer size (dhcpoaAdd oa tag option).1 (added++[(tag,option)])) ∧
    (size≤oa.oaOffset+option.length+3 → (dhcpoaAdd oa tag option).2=.full) := by
  have hroom := h.room
  have hsize : int32 oa.oaSize=size := by
    rw [h.sized]
    exact int32_of_lt (by omega)
  have hneed : int32 (oa.oaOffset+option.length+2+1)=(oa.oaOffset+option.length+3 : ℕ) :=
    int32_of_lt (by omega)
  unfold dhcpoaAdd
  dsimp only
  rw [if_neg (not_lt.mpr hlen),if_neg (not_not_intro h.magic),
    if_neg (by rw [h.unended]; exact Bool.false_ne_true),if_neg htag.2,if_neg htag.1,hsize,hneed]
  constructor
  · intro hfit
    rw [if_neg (by omega)]
    refine ⟨rfl,h.magic,h.sized,?_,h.unended,?_,?_,fun a ha => ?_⟩
    · dsimp only
      rw [mod_eq_of_lt (by omega)]
      omega
    · dsimp only
      rw [mod_eq_of_lt (by omega)]
      refine Laid.append (h.laid.congr fun a _ ha => store_of_lt ha) ?_
      exact laid_store oa.oaBuffer oa.oaOffset tag hlen
    · intro o ho
      rcases mem_append.mp ho with ho | ho
      · exact h.regular o ho
      · cases mem_singleton.mp ho
        exact htag
    · dsimp only
      rw [store_of_ge (by simp only [length_cons]; omega)]
      exact h.outside a ha
  · intro hfull
    rw [if_pos (by omega)]

lemma AreaOk.err (h : AreaOk buffer size oa added) (err : String) :
    AreaOk buffer size {oa with oaErr := err} added :=
  ⟨h.magic,h.sized,h.room,h.unended,h.laid,h.regular,h.outside⟩

lemma AreaOk.addAll (h : AreaOk buffer size oa added) (hbig : size<2^31-256)
    {options : List (UInt8 × List UInt8)} (hreg : ∀ o∈options,Regular o.1) :
    AreaOk buffer size (addAll oa options).1 (added++(addAll oa options).2) := by
  induction options generalizing oa added with
  | nil =>
    rw [Bootp.addAll,append_nil]
    exact h
  | cons o options ih =>
    obtain ⟨tag,option⟩ := o
    have htag := hreg (tag,option) mem_cons_self
    have hrest := fun x hx => hreg x (mem_cons_of_mem (tag,option) hx)
    rw [Bootp.addAll]
    dsimp only
    by_cases hs : (dhcpoaAdd oa tag option).2=.success
    · have hlen : option.length≤255 := by
        by_contra hlong
        rw [dhcpoaAdd] at hs
        dsimp only at hs
        rw [if_pos (by omega)] at hs
        cases hs
      have hadd := h.add hbig htag hlen
      have hfit : oa.oaOffset+option.length+3<size := by
        by_contra hfull
        rw [hadd.2 (by omega)] at hs
        cases hs
      have hnext := ih (hadd.1 hfit).2 hrest
      rwa [if_pos hs,←append_cons] at *
    · rw [if_neg hs]
      have hsame := dhcpoaAdd_unchanged oa tag option hs
      have hkeep : AreaOk buffer size (dhcpoaAdd oa tag option).1 added := by
        rw [hsame]
        exact h.err _
      exact ih hkeep hrest

lemma AreaOk.addEnd (h : AreaOk buffer size oa added) (hbig : size<2^31-256) :
    ∃ oa',dhcpoaAdd oa tagEnd []=(oa',.success) ∧ oa'.oaOffset=oa.oaOffset+1 ∧
      Laid oa'.oaBuffer 0 added oa.oaOffset ∧ oa'.oaBuffer oa.oaOffset=tagEnd ∧
      ∀ a,size≤a → oa'.oaBuffer a=buffer a := by
  have hroom := h.room
  have hsize : int32 oa.oaSize=size := by
    rw [h.sized]
    exact int32_of_lt (by omega)
  have hneed : int32 (oa.oaOffset+1)=(oa.oaOffset+1 : ℕ) := int32_of_lt (by omega)
  unfold dhcpoaAdd
  dsimp only
  rw [if_neg (by decide),if_neg (not_not_intro h.magic),
    if_neg (by rw [h.unended]; exact Bool.false_ne_true),if_pos rfl,hsize,hneed,
    if_neg (by omega)]
  refine ⟨_,rfl,mod_eq_of_lt (by omega),h.laid.congr fun a _ ha => ?_,?_,fun a ha => ?_⟩
  · exact store_of_forall_ne fun s hs => by
      cases mem_singleton.mp hs
      exact ne_of_gt ha
  · exact Function.update_self ..
  · rw [←h.outside a ha]
    exact store_of_forall_ne fun s hs => by
      cases mem_singleton.mp hs
      exact Nat.ne_of_lt (by omega)

/-- Whatever regular options are added to an area of at least two bytes: the end tag can be added
behind them; the parser, given everything up to it or more of the area, finds the options that were
added, in order and unaltered, and `dhcpol_find` and `dhcpol_get` find them by their tags; nothing
outside the area is written, an option is added exactly if it fits, and a failed addition leaves
the area as it is. -/
theorem options_recovered (hsize : 2 ≤ size) (hbig : size<2^31-256)
    {options : List (UInt8 × List UInt8)} (hreg : ∀ o∈options,Regular o.1)
    (ha : addAll (dhcpoaInit buffer size) options=(oa,added)) :
    (∃ oa',dhcpoaAdd oa tagEnd []=(oa',.success) ∧ (∀ a,size≤a → oa'.oaBuffer a=buffer a) ∧
      ∀ length,oa'.oaOffset≤length → length ≤ size → ∃ list,
        dhcpolParseBuffer oa'.oaBuffer length=.ok (list++[oa.oaOffset]) ∧
        list.map (optionAt oa'.oaBuffer)=added ∧ ∀ tag,Regular tag →
          (∀ start,(dhcpolFind oa'.oaBuffer (list++[oa.oaOffset]) tag start).map
              (fun r => (bytesFrom oa'.oaBuffer r.1 r.2.1,r.2.2)) =
            nextFrom tag start (added.drop start)) ∧
          dhcpolGet oa'.oaBuffer (list++[oa.oaOffset]) tag =
            if added.filter (fun o => o.1=tag)=[] then none
            else some ((added.filter fun o => o.1=tag).flatMap Prod.snd)) ∧
    (∀ a,size≤a → oa.oaBuffer a=buffer a) ∧ (∀ tag option,Regular tag → option.length≤255 →
      ((dhcpoaAdd oa tag option).2=.success ↔ oa.oaOffset+option.length+3<size)) ∧
    ∀ tag option,(dhcpoaAdd oa tag option).2≠.success →
      (dhcpoaAdd oa tag option).1={oa with oaErr := (dhcpoaAdd oa tag option).1.oaErr} := by
  have hok := (init_areaOk buffer hsize).addAll hbig hreg
  rw [ha,nil_append] at hok
  dsimp only at hok
  refine ⟨?_,hok.outside,fun tag option htag hlen => ?_,dhcpoaAdd_unchanged oa⟩
  · obtain ⟨oa',hend,hoffset,hlaid,htagEnd,houtside⟩ := hok.addEnd hbig
    refine ⟨oa',hend,houtside,fun length hlow _ => ⟨offsets 0 added,?_,hlaid.map_offsets,?_⟩⟩
    · exact parseScan_laid hlaid hok.regular htagEnd (by omega)
    · intro tag htag
      have hnot : ¬(tag=tagEnd || tag=tagPad)=true := by simpa using And.intro htag.2 htag.1
      have hother : ∀ o∈([oa.oaOffset].map (optionAt oa'.oaBuffer)),o.1≠tag := by
        intro o ho
        cases mem_singleton.mp ho
        exact fun he => htag.2 (he.symm.trans htagEnd)
      refine ⟨fun start => ?_,?_⟩
      · rw [dhcpolFind,if_neg hnot,findFrom_eq,map_drop,map_append,hlaid.map_offsets,
          drop_append,nextFrom_append tag start _ _ fun o ho => hother o (mem_of_mem_drop ho)]
      · have hfilter : (([oa.oaOffset].map (optionAt oa'.oaBuffer)).filter
            fun o => o.1=tag)=[] := by
          refine filter_eq_nil_iff.mpr fun o ho => ?_
          simpa using hother o ho
        rw [dhcpolGet,if_neg hnot,getFrom_eq,map_append,filter_append,hfilter,
          append_nil,hlaid.map_offsets]
        rfl
  · have hadd := hok.add hbig htag hlen
    refine ⟨fun hs => ?_,fun hfit => (hadd.1 hfit).1⟩
    by_contra hfull
    rw [hadd.2 (by omega)] at hs
    cases hs

/-- A host name of two bytes in an area of sixteen. -/
theorem options_recovered_hostName : ∃ oa added,
    addAll (dhcpoaInit (fun _ => 7) 16) [(12,[104,105])]=(oa,added) ∧
      added=[(12,[104,105])] ∧ ∃ oa',dhcpoaAdd oa tagEnd []=(oa',.success) ∧
        (∀ a,16≤a → oa'.oaBuffer a=7) ∧ ∀ length,oa'.oaOffset≤length → length≤16 →
          ∃ list,dhcpolParseBuffer oa'.oaBuffer length=.ok (list++[oa.oaOffset]) ∧
            list.map (optionAt oa'.oaBuffer)=added := by
  have hrun : ∃ oa added,addAll (dhcpoaInit (fun _ => 7) 16) [(12,[104,105])]=(oa,added) ∧
      added=[(12,[104,105])] := ⟨_,_,rfl,rfl⟩
  obtain ⟨oa,added,ha,hadded⟩ := hrun
  have hreg : ∀ o ∈ [((12 : UInt8),[(104 : UInt8),105])],Regular o.1 := by
    intro o ho
    cases mem_singleton.mp ho
    exact ⟨by decide,by decide⟩
  obtain ⟨oa',hend,hout,hparse⟩ := (options_recovered (by decide) (by decide) hreg ha).1
  refine ⟨oa,added,ha,hadded,oa',hend,hout,fun length hlow hhigh => ?_⟩
  obtain ⟨list,hlist,hoptions,-⟩ := hparse length hlow hhigh
  exact ⟨list,hlist,hoptions⟩

/-- An area of one byte does not take the end tag, although it has room for it. -/
theorem endTag_refused : (dhcpoaAdd (dhcpoaInit (fun _ => 7) 1) tagEnd []).2=.failed := by decide

end Area

end Darwin.Bootp
