import Darwin.Bootp.LeaseFile

/-! The lease file gives back the lease list exactly when every value in the list fits the reader's
buffer and has no newline. -/
open List
namespace Darwin.Bootp
open Lib

def Fits (v : CString) : Prop := newline∉v.1 ∧ v.1.length<128

def PropsFit (pl : NiProplist) : Prop := ∀ p∈pl,∀ v∈p.nip_val,Fits v

def Plain (cache : PLCache) : Prop := ∀ pl∈cache,PropsFit pl

/-- The file that is written is read without an overrun, and gives the same entries. -/
def ReadsBack (cache : PLCache) : Prop :=
  ∃ c,PLCache_read [] (some (PLCache_write cache))=some c ∧ c.Perm cache

def ReadState.Sound (st : ReadState) : Prop := Plain st.cache ∧ PropsFit st.pl

def Next.Sound : Next → Prop
  | .line st => st.Sound
  | .failed cache => Plain cache
  | .overrun => True

lemma CString.at_prefix (l : List UInt8) : (CString.at l).1 <+: l := takeWhile_prefix _

lemma CString.at_eq {l : List UInt8} (h : (0 : UInt8)∉l) : (CString.at l).1=l := by
  refine takeWhile_eq_self_iff.mpr fun x hx => ?_
  exact decide_eq_true fun h0 => h (h0▸hx)

lemma CString.at_val (v : CString) : CString.at v.1=v := Subtype.ext (CString.at_eq v.2)

lemma notMem_dropLast_of_prefix {l m : List UInt8} (h : l <+: m)
    (hm : newline∉m.dropLast) : newline∉l.dropLast := by
  obtain ⟨r,rfl⟩ := h
  cases hr : r with
  | nil => rwa [hr,append_nil] at hm
  | cons c r =>
    rw [hr,dropLast_append_of_ne_nil (cons_ne_nil c r)] at hm
    exact fun h => hm (mem_append_left _ (mem_of_mem_dropLast h))

lemma copyInto_some {src b : List UInt8} {n : ℤ} (h : copyInto src n=some b) :
    0≤n ∧ n<128 ∧ b=src.take n.toNat := by
  rw [copyInto] at h
  split_ifs at h with hn
  exact ⟨hn.1,hn.2,(Option.some.inj h).symm⟩

lemma PropsFit.concat {pl : NiProplist} (h : PropsFit pl) {p : NiProperty}
    (hp : ∀ v∈p.nip_val,Fits v) : PropsFit (pl++[p]) := by
  intro q hq
  rcases mem_append.mp hq with hq | hq
  · exact h q hq
  · rwa [mem_singleton.mp hq]

lemma value_fits {line propval : List UInt8} (hline : newline∉line.dropLast) {ws sep : ℕ}
    (h : copyInto (line.drop (sep+1)) ((line.length:ℤ)-ws-((sep:ℤ)-ws)-2)=some propval) :
    Fits (CString.at propval) := by
  obtain ⟨h0,hn,rfl⟩ := copyInto_some h
  have hn' : ((line.length:ℤ)-ws-((sep:ℤ)-ws)-2).toNat=line.length-1-(sep+1) := by omega
  have heq : (line.drop (sep+1)).take (line.length-1-(sep+1))=line.dropLast.drop (sep+1) := by
    rw [dropLast_eq_take,drop_take]
  have hpre := CString.at_prefix ((line.drop (sep+1)).take
    ((line.length:ℤ)-ws-((sep:ℤ)-ws)-2).toNat)
  rw [hn',heq] at hpre ⊢
  refine ⟨fun hm => hline (mem_of_mem_drop (hpre.subset hm)),?_⟩
  refine lt_of_le_of_lt hpre.length_le ?_
  rw [length_drop,length_dropLast]
  omega

lemma readProperty_sound {st : ReadState} (hst : st.Sound) {line : CString}
    (hline : newline∉line.1.dropLast) : (readProperty st line).Sound := by
  rw [readProperty]
  dsimp only
  split_ifs with hblank
  · exact hst
  cases hsep : line.1.idxOf? equalSign with
  | none =>
    dsimp only
    split
    · trivial
    · exact ⟨hst.1,hst.2.concat fun v hv => absurd hv not_mem_nil⟩
  | some sep =>
    dsimp only
    split
    · trivial
    · split
      · trivial
      · rename_i propval hval
        refine ⟨hst.1,hst.2.concat fun v hv => ?_⟩
        rw [mem_singleton.mp hv]
        exact value_fits hline hval

lemma readLine_sound {st : ReadState} (hst : st.Sound) {line : CString}
    (hline : newline∉line.1.dropLast) : (readLine st line).Sound := by
  rw [readLine]
  split_ifs
  · exact hst.1
  · exact hst
  · exact hst.1
  · refine ⟨fun pl hpl => ?_,fun p hp => absurd hp not_mem_nil⟩
    rcases mem_cons.mp hpl with rfl | hpl
    · exact hst.2
    · exact hst.1 pl hpl
  · exact hst
  · exact readProperty_sound hst hline

lemma readLines_plain {ls : List (List UInt8)} (hls : ∀ l∈ls,newline∉l.dropLast)
    {st : ReadState} (hst : st.Sound) {c : PLCache} (h : readLines ls st=some c) : Plain c := by
  induction ls generalizing st with
  | nil =>
    rw [readLines,Option.some.injEq] at h
    exact h▸hst.1
  | cons l ls ih =>
    have hline := notMem_dropLast_of_prefix (CString.at_prefix l) (hls l mem_cons_self)
    have hstep := readLine_sound hst hline
    rw [readLines] at h
    cases hnext : readLine st (CString.at l) with
    | line st' =>
      rw [hnext] at h hstep
      exact ih (fun m hm => hls m (mem_cons_of_mem l hm)) hstep h
    | failed c' =>
      rw [hnext] at h hstep
      exact Option.some.inj h▸hstep
    | overrun =>
      rw [hnext] at h
      cases h

lemma ReadsBack.plain {cache : PLCache} (h : ReadsBack cache) : Plain cache := by
  obtain ⟨c,hread,hperm⟩ := h
  have hstart : ReadState.Sound ⟨[],[],.nowhere⟩ :=
    ⟨fun pl hpl => absurd hpl not_mem_nil,fun p hp => absurd hp not_mem_nil⟩
  have hc := readLines_plain (fun l hl => Lines.notMem_lines hl) hstart hread
  exact fun pl hpl => hc pl (hperm.mem_iff.mpr hpl)

section Forward

/-- A name that the reader takes for a name. -/
structure NameOk (n : CString) : Prop where
  fits : Fits n
  notEqual : equalSign∉n.1
  first : ∃ c l,n.1=c::l ∧ c∉[space,tab,newline]

/-- A property as the server makes it. -/
structure SingleOk (p : NiProperty) : Prop where
  name : NameOk p.nip_name
  single : ∃ v,p.nip_val=[v]

variable {p : NiProperty} {v : CString}

lemma propertyText_single (hv : p.nip_val=[v]) :
    propertyText p=tab::(p.nip_name.1++equalSign::v.1) := by
  rw [propertyText,hv]

lemma propertyText_line (hn : NameOk p.nip_name) (hv : p.nip_val=[v]) (hfit : Fits v) :
    newline∉propertyText p ∧ (propertyText p).length<lineRoom := by
  rw [propertyText_single hv]
  constructor
  · rw [mem_cons,mem_append,mem_cons]
    rintro (h | h | h | h)
    · exact absurd h (by decide)
    · exact hn.fits.1 h
    · exact absurd h (by decide)
    · exact hfit.1 h
  · have h1 := hn.fits.2
    have h2 := hfit.2
    simp only [length_cons,length_append,lineRoom]
    omega

lemma takeWhile_white (hn : NameOk p.nip_name) (rest : List UInt8) :
    (tab::(p.nip_name.1++rest)).takeWhile (fun c => c ∈ [space,tab,newline])=[tab] := by
  obtain ⟨c,l,hc,hw⟩ := hn.first
  have htab : decide (tab ∈ [space,tab,newline])=true := by decide
  rw [takeWhile_cons,if_pos htab,hc,cons_append,takeWhile_cons,
    if_neg (by rw [decide_eq_true_eq]; exact hw)]

lemma idxOf_append {a : UInt8} {l : List UInt8} (h : a∉l) (rest : List UInt8) :
    (l++a::rest).idxOf? a=some l.length := by
  induction l with
  | nil => simp [idxOf?_cons]
  | cons c l ih =>
    have hc : c≠a := fun hca => h (hca▸mem_cons_self)
    rw [cons_append,idxOf?_cons,if_neg (by simpa using hc),
      ih fun hm => h (mem_cons_of_mem c hm)]
    rfl

lemma copyInto_append {src : List UInt8} (h : src.length<128) (rest : List UInt8) :
    copyInto (src++rest) src.length=some src := by
  have hn : (0:ℤ) ≤ src.length ∧ (src.length:ℤ)<bufferSize := by
    rw [bufferSize]
    omega
  rw [copyInto,if_pos hn,Int.toNat_natCast,take_left]

lemma readLine_property (hn : NameOk p.nip_name) (hv : p.nip_val=[v]) (hfit : Fits v)
    (st : ReadState) : readLine st (CString.at (propertyText p++[newline])) =
      .line {st with pl := st.pl++[p],where_ := .body} := by
  have htext : propertyText p++[newline]=tab::(p.nip_name.1++equalSign::(v.1++[newline])) := by
    rw [propertyText_single hv]
    simp only [cons_append,append_assoc]
  have hzero : (0 : UInt8)∉propertyText p++[newline] := by
    have h1 := p.nip_name.2
    have h2 := v.2
    rw [htext]
    simp only [mem_cons,mem_append,not_or]
    exact ⟨by decide,h1,by decide,h2,by decide⟩
  have hline := CString.at_eq hzero
  have hopen : propertyText p++[newline]≠openLine := by
    rw [htext]
    exact fun h => absurd (List.cons.inj h).1 (by decide)
  have hclose : propertyText p++[newline]≠closeLine := by
    rw [htext]
    exact fun h => absurd (List.cons.inj h).1 (by decide)
  have hlen : (propertyText p++[newline]).length=p.nip_name.1.length+v.1.length+3 := by
    rw [htext]
    simp only [length_cons,length_append,length_nil]
    omega
  have hws : ((propertyText p++[newline]).takeWhile
      fun c => c ∈ [space,tab,newline]).length=1 := by
    rw [htext,takeWhile_white hn]
    rfl
  have hsep : (propertyText p++[newline]).idxOf? equalSign=some (p.nip_name.1.length+1) := by
    have htab : equalSign∉tab::p.nip_name.1 := by
      rw [mem_cons,not_or]
      exact ⟨by decide,hn.notEqual⟩
    rw [htext]
    exact idxOf_append htab _
  have hname : copyInto ((propertyText p++[newline]).drop 1) p.nip_name.1.length =
      some p.nip_name.1 := by
    rw [htext]
    exact copyInto_append hn.fits.2 _
  have hval : copyInto ((propertyText p++[newline]).drop (p.nip_name.1.length+1+1))
      v.1.length=some v.1 := by
    have hdrop : (propertyText p++[newline]).drop (p.nip_name.1.length+1+1)=v.1++[newline] := by
      have hsplit : tab::(p.nip_name.1++equalSign::(v.1++[newline])) =
          (tab::(p.nip_name.1++[equalSign]))++(v.1++[newline]) := by simp
      rw [htext,hsplit]
      exact drop_left' (by simp)
    rw [hdrop]
    exact copyInto_append hfit.2 _
  have hnlen : ((p.nip_name.1.length+1:ℕ):ℤ)-(1:ℕ)=p.nip_name.1.length := by omega
  have hvlen : ((p.nip_name.1.length+v.1.length+3:ℕ):ℤ)-(1:ℕ)-p.nip_name.1.length-2 =
      v.1.length := by omega
  rw [readLine,hline,if_neg hopen,if_neg hclose,readProperty,hline]
  simp only [hlen,hws]
  rw [if_neg (by omega),hsep]
  simp only [hnlen,hvlen,hname,hval]
  rw [insertLast,CString.at_val,CString.at_val,←hv]

def entryTexts (pl : NiProplist) : List (List UInt8) :=
  [123]::(pl.map propertyText++[[125]])

lemma PLCache_write_eq (cache : PLCache) :
    PLCache_write cache=(cache.flatMap entryTexts).flatMap fun b => b++[newline] := by
  rw [PLCache_write,flatMap_assoc]
  refine flatMap_congr fun pl _ => ?_
  rw [entryTexts,flatMap_cons,flatMap_append,flatMap_map,flatMap_singleton]
  rfl

def LeaseLike (pl : NiProplist) : Prop := pl≠[] ∧ ∀ p∈pl,SingleOk p

lemma readLines_props {pl : NiProplist} (hpl : ∀ p∈pl,SingleOk p) (hfit : PropsFit pl)
    (ls : List (List UInt8)) (st : ReadState) (hne : pl≠[]) :
    readLines (pl.map (fun p => propertyText p++[newline])++ls) st =
      readLines ls {st with pl := st.pl++pl,where_ := .body} := by
  induction pl generalizing st with
  | nil => exact absurd rfl hne
  | cons p pl ih =>
    have hp := hpl p mem_cons_self
    obtain ⟨v,hv⟩ := hp.single
    have hvfit : Fits v := hfit p mem_cons_self v (hv▸mem_singleton_self v)
    rw [map_cons,cons_append,readLines,readLine_property hp.name hv hvfit]
    dsimp only
    by_cases hnil : pl=[]
    · rw [hnil]
      rfl
    · rw [ih (fun q hq => hpl q (mem_cons_of_mem p hq))
        (fun q hq => hfit q (mem_cons_of_mem p hq)) _ hnil]
      simp only [append_assoc,singleton_append]

lemma readLines_entry {pl : NiProplist} (hpl : LeaseLike pl) (hfit : PropsFit pl)
    (ls : List (List UInt8)) (c : PLCache) {w : Where} (hw : w=.finish ∨ w=.nowhere) :
    readLines ((entryTexts pl).map (fun b => b++[newline])++ls) ⟨c,[],w⟩ =
      readLines ls ⟨pl::c,[],.finish⟩ := by
  have hopen : readLine ⟨c,[],w⟩ (CString.at ([123]++[newline]))=.line ⟨c,[],.start⟩ := by
    have hnot : ¬(w≠.finish ∧ w≠.nowhere) := by
      rcases hw with rfl | rfl
      · exact fun h => h.1 rfl
      · exact fun h => h.2 rfl
    have hline : (CString.at ([123]++[newline])).1=openLine := by decide
    rw [readLine,if_pos hline,if_neg hnot]
  have hclose : readLine ⟨c,pl,.body⟩ (CString.at ([125]++[newline])) =
      .line ⟨pl::c,[],.finish⟩ := by
    have hline : (CString.at ([125]++[newline])).1=closeLine := by decide
    have hother : (CString.at ([125]++[newline])).1≠openLine := by decide
    have hnot : ¬(Where.body≠.start ∧ Where.body≠.body) := fun h => h.2 rfl
    rw [readLine,if_neg hother,if_pos hline,if_neg hnot,if_pos (length_pos_iff.mpr hpl.1)]
  rw [entryTexts,map_cons,cons_append,readLines,hopen]
  dsimp only
  rw [map_append,map_map,append_assoc]
  refine (readLines_props hpl.2 hfit _ ⟨c,[],.start⟩ hpl.1).trans ?_
  rw [map_singleton,singleton_append,readLines,nil_append,hclose]

lemma readLines_entries {cache : PLCache} (hlike : ∀ pl∈cache,LeaseLike pl)
    (hfit : Plain cache) (c : PLCache) {w : Where} (hw : w=.finish ∨ w=.nowhere) :
    readLines ((cache.flatMap entryTexts).map fun b => b++[newline]) ⟨c,[],w⟩ =
      some (cache.reverse++c) := by
  induction cache generalizing c w with
  | nil => rfl
  | cons pl cache ih =>
    have hpl := mem_cons_self (a := pl) (l := cache)
    rw [flatMap_cons,map_append,readLines_entry (hlike pl hpl) (hfit pl hpl) _ c hw,
      ih (fun q hq => hlike q (mem_cons_of_mem pl hq))
        (fun q hq => hfit q (mem_cons_of_mem pl hq)) (pl::c) (.inl rfl),
      reverse_cons,append_assoc,singleton_append]

lemma PLCache_read_write {cache : PLCache} (hlike : ∀ pl∈cache,LeaseLike pl)
    (hfit : Plain cache) : PLCache_read [] (some (PLCache_write cache))=some cache.reverse := by
  have hlines : ∀ b∈cache.flatMap entryTexts,newline∉b ∧ b.length<lineRoom := by
    intro b hb
    obtain ⟨pl,hpl,hb⟩ := mem_flatMap.mp hb
    rw [entryTexts,mem_cons,mem_append,mem_map,mem_singleton] at hb
    rcases hb with rfl | ⟨p,hp,rfl⟩ | rfl
    · decide
    · have hok := (hlike pl hpl).2 p hp
      obtain ⟨v,hv⟩ := hok.single
      exact propertyText_line hok.name hv (hfit pl hpl p hp v (hv▸mem_singleton_self v))
    · decide
  rw [PLCache_read,PLCache_write_eq,Lines.lines_flatMap _ hlines,
    readLines_entries hlike hfit [] (.inr rfl),append_nil]

end Forward

section Leases

/-- The properties of an entry that keep it well made through all changes: each has one value and a
name of the server's, and one of them is the address. -/
structure Leased (pl : NiProplist) : Prop where
  addressed : ∃ p∈pl,p.nip_name=NIPROP_IPADDR
  ok : ∀ p∈pl,SingleOk p

lemma Leased.leaseLike {pl : NiProplist} (h : Leased pl) : LeaseLike pl := by
  obtain ⟨p,hp,-⟩ := h.addressed
  exact ⟨ne_nil_of_mem hp,h.ok⟩

def leaseNames : List CString :=
  [NIPROP_NAME,NIPROP_DHCP_RELEASED,NIPROP_DHCP_DECLINED,NIPROP_DHCP_LEASE,NIPROP_HWADDR,
    NIPROP_IDENTIFIER,NIPROP_IPADDR]

lemma nameOk_leaseNames {n : CString} (hn : n∈leaseNames) : NameOk n := by
  simp only [leaseNames,mem_cons,not_mem_nil,or_false] at hn
  rcases hn with rfl | rfl | rfl | rfl | rfl | rfl | rfl
  all_goals exact ⟨⟨by decide,by decide⟩,by decide,_,_,rfl,by decide⟩

lemma match_some {pl : NiProplist} {n : CString} {i : ℕ}
    (h : ni_proplist_match pl n none=some i) : ∃ p,pl[i]?=some p ∧ p.nip_name=n := by
  rw [ni_proplist_match] at h
  obtain ⟨j,hj,hji⟩ := Option.bind_eq_some_iff.mp h
  rw [←Option.some.inj hji]
  obtain ⟨hlt,hp,-⟩ := findIdx?_eq_some_iff_getElem.mp hj
  exact ⟨pl[j],getElem?_eq_getElem hlt,of_decide_eq_true hp⟩

lemma mem_eraseIdx_of_ne {pl : NiProplist} {n : CString} {i : ℕ}
    (h : ni_proplist_match pl n none=some i) {q : NiProperty} (hq : q∈pl)
    (hname : q.nip_name≠n) : q∈pl.eraseIdx i := by
  obtain ⟨p,hp,hpn⟩ := match_some h
  obtain ⟨j,hlt,rfl⟩ := getElem_of_mem hq
  refine mem_eraseIdx_iff_getElem.mpr ⟨j,hlt,fun hji => hname ?_,rfl⟩
  subst hji
  rw [getElem?_eq_getElem hlt] at hp
  rw [Option.some.inj hp,hpn]

variable {pl : NiProplist}

lemma Leased.delete (h : Leased pl) {n : CString} (hn : NIPROP_IPADDR≠n) :
    Leased (ni_delete_prop pl n) := by
  rw [ni_delete_prop]
  split
  · rename_i i hi
    obtain ⟨p,hp,hpn⟩ := h.addressed
    exact ⟨⟨p,mem_eraseIdx_of_ne hi hp (hpn▸hn),hpn⟩,
      fun q hq => h.ok q (mem_of_mem_eraseIdx hq)⟩
  · exact h

lemma Leased.set (h : Leased pl) {n v : CString} (hn : NIPROP_IPADDR≠n) (hmem : n∈leaseNames) :
    Leased (ni_set_prop pl n v) := by
  have hnew : SingleOk ⟨n,[v]⟩ := ⟨nameOk_leaseNames hmem,v,rfl⟩
  obtain ⟨p,hp,hpn⟩ := h.addressed
  rw [ni_set_prop]
  split
  · rename_i i hi
    split_ifs
    · exact h
    have hlt : i≤(pl.eraseIdx i).length := by
      obtain ⟨q,hq,-⟩ := match_some hi
      obtain ⟨hlt,-⟩ := List.getElem?_eq_some_iff.mp hq
      rw [length_eraseIdx_of_lt hlt]
      omega
    refine ⟨⟨p,?_,hpn⟩,fun q hq => ?_⟩
    · exact (mem_insertIdx hlt).mpr (.inr (mem_eraseIdx_of_ne hi hp (hpn▸hn)))
    · rcases (mem_insertIdx hlt).mp hq with rfl | hq
      · exact hnew
      · exact h.ok q (mem_of_mem_eraseIdx hq)
  · refine ⟨⟨p,mem_append_left _ hp,hpn⟩,fun q hq => ?_⟩
    rcases mem_append.mp hq with hq | hq
    · exact h.ok q hq
    · exact mem_singleton.mp hq▸hnew

lemma Leased.decline (h : Leased pl) (idstr : CString) : Leased (declineProps pl idstr) := by
  have h1 := h.delete (n := NIPROP_NAME) (by decide)
  have h2 := h1.delete (n := NIPROP_IDENTIFIER) (by decide)
  have h3 := h2.delete (n := NIPROP_HWADDR) (by decide)
  have h4 := h3.delete (n := NIPROP_DHCP_LEASE) (by decide)
  have h5 := h4.delete (n := NIPROP_DHCP_RELEASED) (by decide)
  exact h5.set (by decide) (by decide)

lemma leased_create (cache : PLCache) (idstr hwstr : CString) (iaddr : InAddr)
    (hostname : Option CString) (expiry : UInt32) :
    ∃ pl,S_create_host cache idstr hwstr iaddr hostname expiry=pl::cache ∧ Leased pl := by
  refine ⟨_,rfl,⟨⟨⟨NIPROP_IPADDR,[inet_ntoa iaddr]⟩,?_,rfl⟩,fun q hq => ?_⟩⟩
  · simp
  · have single {n v : CString} (hn : n∈leaseNames) : SingleOk ⟨n,[v]⟩ :=
      ⟨nameOk_leaseNames hn,v,rfl⟩
    simp only [append_assoc,mem_append,mem_map,mem_singleton] at hq
    rcases hq with ⟨h,-,rfl⟩ | rfl | rfl | rfl | rfl
    all_goals exact single (by decide)

lemma leased_modify {cache : PLCache} (h : ∀ pl∈cache,Leased pl)
    {f : NiProplist → NiProplist} (hf : ∀ pl,Leased pl → Leased (f pl)) (i : ℕ) :
    ∀ pl∈cache.modify i f,Leased pl := by
  induction cache generalizing i with
  | nil =>
    intro pl hpl
    rw [modify_nil] at hpl
    exact absurd hpl not_mem_nil
  | cons q cache ih =>
    have hq := h q mem_cons_self
    have hcache : ∀ pl∈cache,Leased pl := fun pl hpl => h pl (mem_cons_of_mem q hpl)
    cases i with
    | zero =>
      intro pl hpl
      rcases mem_cons.mp hpl with rfl | hpl
      · exact hf q hq
      · exact hcache pl hpl
    | succ i =>
      intro pl hpl
      rcases mem_cons.mp hpl with rfl | hpl
      · exact hq
      · exact ih hcache i pl hpl

lemma leaseStep_leased {cache : PLCache} (h : ∀ pl∈cache,Leased pl) (e : LeaseEvent) :
    ∀ pl∈leaseStep cache e,Leased pl := by
  cases e with
  | createHost rq iaddr hostname expiry =>
    obtain ⟨q,hq,hleased⟩ := leased_create cache rq.idstr rq.hwstr iaddr hostname expiry
    intro pl hpl
    rw [leaseStep,hq] at hpl
    rcases mem_cons.mp hpl with rfl | hpl
    · exact hleased
    · exact h pl hpl
  | setName i rq =>
    rw [leaseStep]
    split
    · exact h
    · exact leased_modify h (fun pl hpl => hpl.set (by decide) (by decide)) i
  | setLease i expiry => exact leased_modify h (fun pl hpl => hpl.set (by decide) (by decide)) i
  | selected i => exact leased_modify h (fun pl hpl => hpl.delete (by decide)) i
  | declined i rq => exact leased_modify h (fun pl hpl => hpl.decline rq.idstr) i
  | released i rq => exact leased_modify h (fun pl hpl => hpl.set (by decide) (by decide)) i
  | removed i => exact fun pl hpl => h pl (mem_of_mem_eraseIdx hpl)
  | makeHead i =>
    intro pl hpl
    rcases mem_append.mp hpl with hpl | hpl
    · exact h pl (mem_of_getElem? (Option.mem_toList.mp hpl))
    · exact h pl (mem_of_mem_eraseIdx hpl)

lemma leases_leased (es : List LeaseEvent) : ∀ pl∈leases es,Leased pl := by
  suffices hrun : ∀ cache : PLCache,(∀ pl∈cache,Leased pl) →
      ∀ pl∈es.foldl leaseStep cache,Leased pl from
    hrun [] fun pl hpl => absurd hpl not_mem_nil
  induction es with
  | nil => exact fun cache h => h
  | cons e es ih => exact fun cache h => ih _ (leaseStep_leased h e)

/-- The lease file gives the lease list back, with nothing stored past a buffer's end, exactly when
no value in the list has a newline or more than 127 bytes. -/
theorem leases_readsBack_iff (es : List LeaseEvent) :
    ReadsBack (leases es) ↔ Plain (leases es) := by
  constructor
  · exact fun h => h.plain
  · intro h
    have hlike : ∀ pl∈leases es,LeaseLike pl :=
      fun pl hpl => (leases_leased es pl hpl).leaseLike
    exact ⟨_,PLCache_read_write hlike h,reverse_perm _⟩

def newlineClient : DhcpRequest := ⟨1,[0,1,2,3,4,5],none,some [97,10,98]⟩

def newlineLeases : PLCache :=
  leases [.createHost newlineClient ⟨10,0,0,2⟩ (S_get_hostname newlineClient.host_name) 4000]

/-- The name comes back cut off, and the rest of it as a property. -/
theorem newlineLeases_not_readsBack : ¬ReadsBack newlineLeases := by
  intro h
  have hname : (⟨NIPROP_NAME,[CString.at [97,10,98]]⟩ : NiProperty) ∈
      newlineLeases.flatten := by decide
  obtain ⟨pl,hpl,hp⟩ := mem_flatten.mp hname
  have hfit := h.plain pl hpl _ hp _ (mem_singleton_self _)
  exact hfit.1 (by decide)

end Leases

end Darwin.Bootp
