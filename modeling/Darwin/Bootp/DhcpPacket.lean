import Darwin.Bootp.DhcpPol

/-! `dhcpol_parse_packet`: the options of a packet, and those in its file and server name fields
where they are overloaded. -/
open List Option
namespace Darwin.Bootp.Pol

def dpSname : ℕ := 44
def dpFile : ℕ := 108
def dpOptions : ℕ := 236

def dpSnameSize : ℕ := 64
def dpFileSize : ℕ := 128

def rfcMagic : List UInt8 := [99,130,83,99]

def optionOverload : ℤ := 52
def overloadFile : UInt8 := 1
def overloadSname : UInt8 := 2
def overloadBoth : UInt8 := 3

section Code

variable (mem : Memory)

def readBytes (p : ℕ) : ℕ → Option (List UInt8)
  | 0 => some []
  | n+1 =>
    match mem p,readBytes (p+1) n with
    | some b,some bytes => some (b::bytes)
    | _,_ => none

def addField (field size : ℕ) (options : List ℕ) : Option (List ℕ) :=
  (dhcpolParseBuffer mem field size).map fun extra =>
    if extra.ret then options++extra.list else options

def addOverload (overload : UInt8) (options : List ℕ) : Option (List ℕ) :=
  (if overload=overloadFile || overload=overloadBoth then
      addField mem dpFile dpFileSize options
    else some options).bind fun options =>
  if overload=overloadSname || overload=overloadBoth then
    addField mem dpSname dpSnameSize options
  else some options

def dhcpolParsePacket (len : ℤ) : Option Parsed :=
  match readBytes mem dpOptions rfcMagic.length with
  | none => none
  | some magic =>
    if magic≠rfcMagic then some ⟨false,[],"missing magic number"⟩
    else
      match dhcpolParseBuffer mem (dpOptions+rfcMagic.length) (len-rfcMagic.length) with
      | none => none
      | some parsed =>
        if parsed.ret=false then some parsed
        else
          match dhcpolFind mem parsed.list optionOverload 0 with
          | none => none
          | some none => some parsed
          | some (some (overload,overloadLen,_)) =>
            if overloadLen=1 then
              (mem overload).bind fun value =>
                (addOverload mem value parsed.list).map fun options => ⟨true,options,""⟩
            else some parsed

end Code

/-- The options of a field: it is a run of pads and whole options up to its end or an end tag. -/
def FieldOptions (field : List UInt8) (options : List (UInt8 × List UInt8)) : Prop :=
  ∃ (items : List Item) (t : List UInt8),field=items.flatMap Item.bytes++t ∧
    (t=[] ∨ ∃ rest,t=tagEnd::rest) ∧ options=optionsOf items

/-- The options that a field adds: none unless it is selected, and none if it has no such run. -/
def ExtraOptions (selected : Bool) (field : List UInt8) (options : List (UInt8 × List UInt8)) :
    Prop :=
  if selected then FieldOptions field options ∨ options=[] ∧ ∀ o,¬FieldOptions field o
  else options=[]

def overloadOf (options : List (UInt8 × List UInt8)) : Option UInt8 :=
  match options.find? fun o => (o.1.toNat : ℤ)=optionOverload with
  | some (_,[value]) => some value
  | _ => none

def PacketOptions (packet : List UInt8) (options : List (UInt8 × List UInt8)) : Prop :=
  ∃ first file sname,FieldOptions (packet.drop (dpOptions+rfcMagic.length)) first ∧
    ExtraOptions (overloadOf first=some overloadFile || overloadOf first=some overloadBoth)
      ((packet.drop dpFile).take dpFileSize) file ∧
    ExtraOptions (overloadOf first=some overloadSname || overloadOf first=some overloadBoth)
      ((packet.drop dpSname).take dpSnameSize) sname ∧ options=first++file++sname

/-- `dhcpol_find` gives the data of the first option with the tag, from element `start` on. -/
def FindsFirst (packet : List UInt8) (list : List ℕ) (tag : ℤ) (start : ℕ) : Prop :=
  ∃ found,dhcpolFind (ofBytes packet) list tag start=some found ∧
    found.map (fun f => ((packet.drop f.1).take f.2.1,f.2.1)) =
      if tag=tagEnd.toNat || tag=tagPad.toNat then none
      else (((list.drop start).filterMap (optionAt packet)).find? fun o =>
        (o.1.toNat : ℤ)=tag).map fun o => (o.2,o.2.length)

/-- The parser reads nothing outside the packet, and leaves no list or all options in order, which
`dhcpol_find` then finds. -/
def ParsesPacket (packet : List UInt8) : Prop :=
  ∃ r,dhcpolParsePacket (ofBytes packet) packet.length=some r ∧ (r.ret=false ∧ r.list=[] ∨
      r.ret=true ∧ PacketOptions packet (r.list.filterMap (optionAt packet))) ∧
    (∀ p∈r.list,Inside packet p) ∧ ∀ tag start,FindsFirst packet r.list tag start

/-- The packet has all fields, and its options field either does not begin with the magic number,
or has an end tag behind pads and whole options, or has behind these an option that claims more
than `dpOptions` bytes beyond the end of the packet. -/
def OptionsEnd (packet : List UInt8) : Prop :=
  dpOptions+rfcMagic.length≤packet.length ∧
    ((packet.drop dpOptions).take rfcMagic.length≠rfcMagic ∨ ∃ items : List Item,
        (∃ rest,packet.drop (dpOptions+rfcMagic.length)=items.flatMap Item.bytes++tagEnd::rest) ∨
        ∃ tag len data,Regular tag ∧ data.length+dpOptions<len.toNat ∧
          packet.drop (dpOptions+rfcMagic.length)=items.flatMap Item.bytes++tag::len::data)

section Find

variable {bytes : List UInt8} {list : List ℕ} {tag : ℤ}

lemma optionAt_end {p : ℕ} (h : bytes[p]?=some tagEnd) : optionAt bytes p=none := by
  rw [optionAt,h]
  cases bytes[p+1]? with
  | none => rfl
  | some len => exact if_pos rfl

lemma Inside.cases {p : ℕ} (h : Inside bytes p) : bytes[p]?=some tagEnd ∨
    ∃ t len,t≠tagEnd ∧ bytes[p]?=some t ∧ bytes[p+1]?=some len ∧ p+2+len.toNat≤bytes.length := by
  by_cases hend : bytes[p]?=some tagEnd
  · exact .inl hend
  · obtain ⟨len,hlen,hle⟩ := h.resolve_left hend
    have hp : p<bytes.length := by omega
    have ht : bytes[p]?=some (bytes[p]) := getElem?_eq_getElem hp
    exact .inr ⟨bytes[p],len,fun he => hend (ht.trans (congrArg some he)),ht,hlen,hle⟩

lemma findFrom_first (htag : tag≠tagEnd.toNat) (h : ∀ p∈list,Inside bytes p) (i : ℕ) :
    ∃ found,findFrom (ofBytes bytes) tag i list=some found ∧
      found.map (fun f => ((bytes.drop f.1).take f.2.1,f.2.1)) =
        ((list.filterMap (optionAt bytes)).find? fun o =>
          (o.1.toNat : ℤ)=tag).map fun o => (o.2,o.2.length) := by
  induction list generalizing i with
  | nil => exact ⟨none,rfl,rfl⟩
  | cons p list ih =>
    obtain ⟨found,hfound,hmap⟩ := ih (fun q hq => h q (mem_cons_of_mem p hq)) (i+1)
    rcases (h p mem_cons_self).cases with hend | ⟨t,len,hne,ht,hlen,hle⟩
    · refine ⟨found,?_,?_⟩
      · rw [findFrom,ofBytes,hend]
        dsimp only
        rw [if_neg fun he => htag he.symm]
        exact hfound
      · rw [filterMap_cons_none (optionAt_end hend)]
        exact hmap
    · have hopt : optionAt bytes p=some (t,(bytes.drop (p+2)).take len.toNat) := by
        rw [optionAt,ht,hlen]
        exact if_neg hne
      have hread : ofBytes bytes (p+1)=some len := hlen
      rw [filterMap_cons_some hopt]
      by_cases heq : (t.toNat : ℤ)=tag
      · refine ⟨some (p+2,len.toNat,i+1),?_,?_⟩
        · rw [findFrom,ofBytes,ht]
          dsimp only
          rw [if_pos heq,hread]
          rfl
        · have hdata : ((bytes.drop (p+2)).take len.toNat).length=len.toNat := by
            rw [length_take_of_le]
            rw [length_drop]
            omega
          rw [find?_cons]
          simp only [heq,decide_true,map_some,hdata]
      · refine ⟨found,?_,?_⟩
        · rw [findFrom,ofBytes,ht]
          dsimp only
          rw [if_neg heq]
          exact hfound
        · rw [find?_cons]
          simp only [heq,decide_false]
          exact hmap

lemma dhcpolFind_first (h : ∀ p∈list,Inside bytes p) (tag : ℤ) (start : ℕ) :
    FindsFirst bytes list tag start := by
  rw [FindsFirst,dhcpolFind]
  by_cases htag : tag=tagEnd.toNat || tag=tagPad.toNat
  · exact ⟨none,if_pos htag,(if_pos htag).symm⟩
  · rw [if_neg htag,if_neg htag]
    refine findFrom_first (fun he => htag ?_) (fun p hp => h p (mem_of_mem_drop hp)) start
    rw [he]
    rfl

end Find

section Field

variable {after : List UInt8} {options : List (UInt8 × List UInt8)}

lemma fieldOptions_unique {items : List Item} {t : List UInt8} (ht : Tail t)
    (h : FieldOptions (items.flatMap Item.bytes++t) options) :
    (t=[] ∨ ∃ rest,t=tagEnd::rest) ∧ options=optionsOf items := by
  obtain ⟨items',t',he,ht',ho⟩ := h
  have htail : Tail t' := by
    rcases ht' with rfl | ⟨rest,rfl⟩
    · exact .nil
    · exact .terminated rest
  obtain ⟨rfl,rfl⟩ := items_unique ht htail he
  exact ⟨ht',ho⟩

lemma not_fieldOptions {items : List Item} {tag : UInt8} {rest : List UInt8}
    (hreg : Regular tag) (ht : Tail (tag::rest)) :
    ¬FieldOptions (items.flatMap Item.bytes++tag::rest) options := by
  intro h
  rcases (fieldOptions_unique ht h).1 with h | ⟨rest',h⟩
  · exact cons_ne_nil _ _ h
  · exact hreg.2 (List.cons.inj h).1

lemma append_assoc_three (front a b c : List UInt8) : front++((a++b)++c)=front++(a++(b++c)) := by
  rw [append_assoc]

lemma parsed_terminated (front : List UInt8) (items : List Item) (rest : List UInt8) :
    let list := offsetsOf front.length items++[front.length+(items.flatMap Item.bytes).length]
    let bytes := front++(items.flatMap Item.bytes++tagEnd::rest)
    list.filterMap (optionAt bytes)=optionsOf items ∧ ∀ p∈list,Inside bytes p := by
  have hend : (front++(items.flatMap Item.bytes++tagEnd::rest))[
      front.length+(items.flatMap Item.bytes).length]?=some tagEnd :=
    ofBytes_tail_zero front (tagEnd::rest) items
  refine ⟨?_,fun p hp => ?_⟩
  · rw [filterMap_append,filterMap_offsetsOf,filterMap_cons_none (optionAt_end hend)]
    exact append_nil _
  · rcases mem_append.mp hp with hp | hp
    · exact inside_of_mem_offsetsOf hp
    · exact .inl (mem_singleton.mp hp▸hend)

lemma parseBuffer_field (front region : List UInt8) (hafter : after≠[]) :
    ∃ r,dhcpolParseBuffer (ofBytes (front++(region++after))) front.length region.length=some r ∧
      (∀ p∈r.list,Inside (front++(region++after)) p) ∧ (r.ret=true ∧
          FieldOptions region (r.list.filterMap (optionAt (front++(region++after)))) ∨
        r.ret=false ∧ ∀ o,¬FieldOptions region o) := by
  obtain ⟨items,t,rfl,ht⟩ := exists_items region
  rw [append_assoc_three]
  cases ht with
  | nil =>
    rw [append_nil]
    refine ⟨_,parseBuffer_nil front ([]++after) items,
      fun p hp => inside_of_mem_offsetsOf hp,.inl ⟨rfl,?_⟩⟩
    rw [filterMap_offsetsOf]
    exact ⟨items,[],(append_nil _).symm,.inl rfl,rfl⟩
  | terminated rest =>
    obtain ⟨hopts,hin⟩ := parsed_terminated front items (rest++after)
    refine ⟨_,parseBuffer_terminated front items (rest++after)
      (length_lt_append items tagEnd rest),hin,.inl ⟨rfl,?_⟩⟩
    rw [cons_append,hopts]
    exact ⟨items,tagEnd::rest,rfl,.inr ⟨rest,rfl⟩,rfl⟩
  | lone tag hreg =>
    cases after with
    | nil => exact absurd rfl hafter
    | cons l after =>
      have hcut : ((items.flatMap Item.bytes++[tag]).length : ℤ) <
          (items.flatMap Item.bytes).length+(l.toNat+2) := by
        rw [length_append,length_singleton]
        omega
      obtain ⟨err,hr⟩ := parseBuffer_cut front items hreg after
        (length_lt_append items tag []) hcut
      exact ⟨_,hr,fun p hp => absurd hp not_mem_nil,
        .inr ⟨rfl,fun o => not_fieldOptions hreg (.lone tag hreg)⟩⟩
  | cut tag l data hreg hlen =>
    have hcut : ((items.flatMap Item.bytes++tag::l::data).length : ℤ) <
        (items.flatMap Item.bytes).length+(l.toNat+2) := by
      rw [length_append,length_cons,length_cons]
      omega
    obtain ⟨err,hr⟩ := parseBuffer_cut front items hreg (data++after)
      (length_lt_append items tag (l::data)) hcut
    exact ⟨_,hr,fun p hp => absurd hp not_mem_nil,
      .inr ⟨rfl,fun o => not_fieldOptions hreg (.cut tag l data hreg hlen)⟩⟩

end Field

section Packet

variable {packet : List UInt8} {list : List ℕ} {options : List (UInt8 × List UInt8)}

lemma readBytes_of_le (bytes : List UInt8) {p n : ℕ} (h : p+n≤bytes.length) :
    readBytes (ofBytes bytes) p n=some ((bytes.drop p).take n) := by
  induction n generalizing p with
  | zero => rfl
  | succ n ih =>
    have hp : p<bytes.length := by omega
    have hread : ofBytes bytes p=some (bytes[p]) := getElem?_eq_getElem hp
    rw [readBytes,hread,ih (by omega),drop_eq_getElem_cons hp,take_succ_cons]

lemma readBytes_of_lt (bytes : List UInt8) {p n : ℕ} (hn : 0<n) (h : bytes.length<p+n) :
    readBytes (ofBytes bytes) p n=none := by
  induction n generalizing p with
  | zero => exact absurd hn (lt_irrefl 0)
  | succ n ih =>
    rw [readBytes]
    by_cases hp : p<bytes.length
    · have hread : ofBytes bytes p=some (bytes[p]) := getElem?_eq_getElem hp
      rw [hread,ih (by omega) (by omega)]
    · have hread : ofBytes bytes p=none := getElem?_eq_none (by omega)
      rw [hread]

lemma drop_take_append (bytes : List UInt8) (p n : ℕ) :
    bytes.take p++((bytes.drop p).take n++bytes.drop (p+n))=bytes := by
  rw [←drop_drop,take_append_drop,take_append_drop]

lemma addField_extra {field size : ℕ} (h : field+size<packet.length) (list : List ℕ) :
    ∃ extra,addField (ofBytes packet) field size list=some (list++extra) ∧
      (∀ p∈extra,Inside packet p) ∧
      ExtraOptions true ((packet.drop field).take size) (extra.filterMap (optionAt packet)) := by
  have hafter : packet.drop (field+size)≠[] := by
    intro he
    have := drop_eq_nil_iff.mp he
    omega
  have hfront : (packet.take field).length=field := length_take_of_le (by omega)
  have hsize : ((packet.drop field).take size).length=size := by
    rw [length_take_of_le]
    rw [length_drop]
    omega
  obtain ⟨r,hr,hin,hret⟩ := parseBuffer_field (packet.take field)
    ((packet.drop field).take size) hafter
  rw [drop_take_append,hfront,hsize] at hr
  rw [drop_take_append] at hin hret
  rw [addField,hr,map_some]
  rcases hret with ⟨ht,hopts⟩ | ⟨hf,hno⟩
  · exact ⟨r.list,by rw [if_pos ht],hin,.inl hopts⟩
  · refine ⟨[],?_,fun p hp => absurd hp not_mem_nil,.inr ⟨rfl,hno⟩⟩
    rw [if_neg (by rw [hf]; exact Bool.false_ne_true),append_nil]

lemma addField_if {field size : ℕ} (h : field+size<packet.length) (selected : Bool)
    (list : List ℕ) :
    ∃ extra,(if selected then addField (ofBytes packet) field size list else some list) =
        some (list++extra) ∧ (∀ p∈extra,Inside packet p) ∧
      ExtraOptions selected ((packet.drop field).take size)
        (extra.filterMap (optionAt packet)) := by
  cases selected with
  | true => exact addField_extra h list
  | false =>
    refine ⟨[],?_,fun p hp => absurd hp not_mem_nil,rfl⟩
    rw [append_nil]
    rfl

lemma addOverload_options (h : dpOptions<packet.length) (value : UInt8) (list : List ℕ) :
    ∃ file sname,addOverload (ofBytes packet) value list=some (list++file++sname) ∧
      (∀ p∈file++sname,Inside packet p) ∧ ExtraOptions (value=overloadFile || value=overloadBoth)
        ((packet.drop dpFile).take dpFileSize) (file.filterMap (optionAt packet)) ∧
      ExtraOptions (value=overloadSname || value=overloadBoth)
        ((packet.drop dpSname).take dpSnameSize) (sname.filterMap (optionAt packet)) := by
  have hfile : dpFile+dpFileSize<packet.length := h
  have hsname : dpSname+dpSnameSize<packet.length := by
    have h' : 236<packet.length := h
    rw [dpSname,dpSnameSize]
    omega
  obtain ⟨file,hf,hfin,hfx⟩ := addField_if hfile (value=overloadFile || value=overloadBoth) list
  obtain ⟨sname,hs,hsin,hsx⟩ := addField_if hsname (value=overloadSname || value=overloadBoth)
    (list++file)
  refine ⟨file,sname,?_,fun p hp => ?_,hfx,hsx⟩
  · rw [addOverload,hf,bind_some,hs]
  · rcases mem_append.mp hp with hp | hp
    · exact hfin p hp
    · exact hsin p hp

lemma dhcpolParsePacket_eq (h : dpOptions+rfcMagic.length≤packet.length)
    (hmagic : (packet.drop dpOptions).take rfcMagic.length=rfcMagic) {parsed : Parsed}
    (hparse : dhcpolParseBuffer (ofBytes packet) (dpOptions+rfcMagic.length)
      (packet.length-rfcMagic.length)=some parsed) (len : ℤ) (hlen : len=packet.length) :
    dhcpolParsePacket (ofBytes packet) len =
      if parsed.ret=false then some parsed
      else
        match dhcpolFind (ofBytes packet) parsed.list optionOverload 0 with
        | none => none
        | some none => some parsed
        | some (some (overload,overloadLen,_)) =>
          if overloadLen=1 then
            (ofBytes packet overload).bind fun value =>
              (addOverload (ofBytes packet) value parsed.list).map fun options => ⟨true,options,""⟩
          else some parsed := by
  rw [dhcpolParsePacket,readBytes_of_le packet h]
  dsimp only
  rw [if_neg (not_not.mpr hmagic),hlen,hparse]

lemma extraOptions_false (field : List UInt8) : ExtraOptions false field [] := rfl

lemma parsesPacket_of_parsed (h : dpOptions+rfcMagic.length≤packet.length)
    (hmagic : (packet.drop dpOptions).take rfcMagic.length=rfcMagic) {err : String}
    (hparse : dhcpolParseBuffer (ofBytes packet) (dpOptions+rfcMagic.length)
      (packet.length-rfcMagic.length)=some ⟨true,list,err⟩)
    (hin : ∀ p∈list,Inside packet p)
    (hfirst : FieldOptions (packet.drop (dpOptions+rfcMagic.length))
      (list.filterMap (optionAt packet))) : ParsesPacket packet := by
  have hlong : dpOptions<packet.length := lt_of_lt_of_le (by decide) h
  obtain ⟨found,hfound,hmap⟩ := dhcpolFind_first hin optionOverload 0
  rw [if_neg (by decide),drop_zero] at hmap
  have hrun := dhcpolParsePacket_eq h hmagic hparse packet.length rfl
  rw [hfound,if_neg Bool.noConfusion] at hrun
  -- without an overload option of one byte the list is that of the options field
  have hplain (hover : overloadOf (list.filterMap (optionAt packet))=none)
      (hr : dhcpolParsePacket (ofBytes packet) packet.length=some ⟨true,list,err⟩) :
      ParsesPacket packet := by
    refine ⟨_,hr,.inr ⟨rfl,_,[],[],hfirst,?_,?_,?_⟩,hin,dhcpolFind_first hin⟩
    · rw [hover]
      exact extraOptions_false _
    · rw [hover]
      exact extraOptions_false _
    · rw [append_nil,append_nil]
  cases hfind : (list.filterMap (optionAt packet)).find? fun o =>
      (o.1.toNat : ℤ)=optionOverload with
  | none =>
    rw [hfind] at hmap
    obtain rfl := map_eq_none_iff.mp hmap
    exact hplain (by rw [overloadOf,hfind]) hrun
  | some o =>
    obtain ⟨t,data⟩ := o
    rw [hfind] at hmap
    obtain ⟨⟨p,l,next⟩,rfl,hdata⟩ := map_eq_some_iff.mp hmap
    obtain ⟨hdata,hl⟩ := Prod.mk.inj hdata
    dsimp only at hdata hl hrun
    by_cases hone : l=1
    · subst hone
      obtain ⟨value,rfl⟩ := length_eq_one_iff.mp hl.symm
      have hover : overloadOf (list.filterMap (optionAt packet))=some value := by
        rw [overloadOf,hfind]
      have hread : ofBytes packet p=some value := by
        have h0 := congrArg (·[0]?) hdata
        simp only [getElem?_take,getElem?_drop] at h0
        exact h0
      obtain ⟨file,sname,hadd,hxin,hfile,hsname⟩ := addOverload_options hlong value list
      rw [if_pos rfl,hread,bind_some,hadd,map_some] at hrun
      have hall : ∀ q∈list++file++sname,Inside packet q := by
        intro q hq
        rw [append_assoc] at hq
        rcases mem_append.mp hq with hq | hq
        · exact hin q hq
        · exact hxin q hq
      refine ⟨_,hrun,.inr ⟨rfl,_,file.filterMap (optionAt packet),
        sname.filterMap (optionAt packet),hfirst,?_,?_,?_⟩,hall,dhcpolFind_first hall⟩
      · rw [hover]
        simpa only [some.injEq] using hfile
      · rw [hover]
        simpa only [some.injEq] using hsname
      · rw [filterMap_append,filterMap_append]
    · rw [if_neg hone] at hrun
      refine hplain ?_ hrun
      rw [overloadOf,hfind]
      cases data with
      | nil => rfl
      | cons b data =>
        cases data with
        | nil => exact absurd hl hone
        | cons b' data => rfl

end Packet

section Result

variable {packet : List UInt8}

lemma parsesPacket_of_failed {err : String}
    (h : dhcpolParsePacket (ofBytes packet) packet.length=some ⟨false,[],err⟩) :
    ParsesPacket packet :=
  ⟨_,h,.inl ⟨rfl,rfl⟩,fun _ hp => absurd hp not_mem_nil,
    dhcpolFind_first fun _ hp => absurd hp not_mem_nil⟩

lemma not_parsesPacket_of_none (h : dpOptions+rfcMagic.length≤packet.length)
    (hmagic : (packet.drop dpOptions).take rfcMagic.length=rfcMagic)
    (hparse : dhcpolParseBuffer (ofBytes packet) (dpOptions+rfcMagic.length)
      (packet.length-rfcMagic.length)=none) : ¬ParsesPacket packet := by
  rintro ⟨r,hr,-⟩
  rw [dhcpolParsePacket,readBytes_of_le packet h] at hr
  dsimp only at hr
  rw [if_neg (not_not.mpr hmagic),hparse] at hr
  exact some_ne_none r hr.symm

lemma ret_of_parsed (h : dpOptions+rfcMagic.length≤packet.length)
    (hmagic : (packet.drop dpOptions).take rfcMagic.length=rfcMagic) {list : List ℕ}
    {err : String} (hparse : dhcpolParseBuffer (ofBytes packet) (dpOptions+rfcMagic.length)
      (packet.length-rfcMagic.length)=some ⟨true,list,err⟩) {r : Parsed}
    (hr : dhcpolParsePacket (ofBytes packet) packet.length=some r) : r.ret=true := by
  rw [dhcpolParsePacket_eq h hmagic hparse packet.length rfl,if_neg Bool.noConfusion] at hr
  split at hr
  · exact absurd hr.symm (some_ne_none r)
  · rw [←some.inj hr]
  · split_ifs at hr
    · obtain ⟨value,-,hr⟩ := bind_eq_some_iff.mp hr
      obtain ⟨options,-,rfl⟩ := map_eq_some_iff.mp hr
      rfl
    · rw [←some.inj hr]

lemma optionsEnd_iff (h : dpOptions+rfcMagic.length≤packet.length)
    (hmagic : (packet.drop dpOptions).take rfcMagic.length=rfcMagic) {items : List Item}
    {t : List UInt8} (ht : Tail t)
    (hdrop : packet.drop (dpOptions+rfcMagic.length)=items.flatMap Item.bytes++t) :
    OptionsEnd packet ↔ (∃ rest,t=tagEnd::rest) ∨
      ∃ tag len data,Regular tag ∧ data.length+dpOptions<len.toNat ∧ t=tag::len::data := by
  constructor
  · rintro ⟨-,hne | ⟨items',⟨rest,hrest⟩ | ⟨tag,len,data,hreg,hlen,hrest⟩⟩⟩
    · exact absurd hmagic hne
    · exact .inl ⟨rest,(items_unique ht (.terminated rest) (hdrop.symm.trans hrest)).2⟩
    · exact .inr ⟨tag,len,data,hreg,hlen,(items_unique ht (.cut tag len data hreg (by omega))
        (hdrop.symm.trans hrest)).2⟩
  · rintro (⟨rest,rfl⟩ | ⟨tag,len,data,hreg,hlen,rfl⟩)
    · exact ⟨h,.inr ⟨items,.inl ⟨rest,hdrop⟩⟩⟩
    · exact ⟨h,.inr ⟨items,.inr ⟨tag,len,data,hreg,hlen,hdrop⟩⟩⟩

/-- The parser of packets does what it is for exactly when the options end within the packet. -/
theorem dhcpolParsePacket_iff (packet : List UInt8) : ParsesPacket packet ↔ OptionsEnd packet := by
  by_cases hlen : dpOptions+rfcMagic.length≤packet.length
  swap
  · refine iff_of_false ?_ fun h => hlen h.1
    rintro ⟨r,hr,-⟩
    rw [dhcpolParsePacket,readBytes_of_lt packet (by decide) (not_le.mp hlen)] at hr
    exact some_ne_none r hr.symm
  by_cases hmagic : (packet.drop dpOptions).take rfcMagic.length=rfcMagic
  swap
  · have hfail : dhcpolParsePacket (ofBytes packet) packet.length =
        some ⟨false,[],"missing magic number"⟩ := by
      rw [dhcpolParsePacket,readBytes_of_le packet hlen]
      exact if_pos hmagic
    exact iff_of_true (parsesPacket_of_failed hfail) ⟨hlen,.inl hmagic⟩
  obtain ⟨items,t,hdrop,ht⟩ := exists_items (packet.drop (dpOptions+rfcMagic.length))
  have hfront : (packet.take (dpOptions+rfcMagic.length)).length=dpOptions+rfcMagic.length :=
    length_take_of_le hlen
  have hpacket : packet.take (dpOptions+rfcMagic.length)++(items.flatMap Item.bytes++t) =
      packet := by
    rw [←hdrop,take_append_drop]
  have hsize : packet.length =
      dpOptions+rfcMagic.length+((items.flatMap Item.bytes).length+t.length) := by
    rw [←hpacket,length_append,hfront,length_append]
  have hlt : ((items.flatMap Item.bytes).length : ℤ)<packet.length-rfcMagic.length := by
    have : 0<dpOptions := by decide
    omega
  have hend : OptionsEnd packet ↔ (∃ rest,t=tagEnd::rest) ∨
      ∃ tag len data,Regular tag ∧ data.length+dpOptions<len.toNat ∧ t=tag::len::data :=
    optionsEnd_iff hlen hmagic ht hdrop
  rw [hend]
  cases ht with
  | nil =>
    have hnone := parseBuffer_short (packet.take (dpOptions+rfcMagic.length)) items hlt
    rw [hpacket,hfront] at hnone
    refine iff_of_false (not_parsesPacket_of_none hlen hmagic hnone) ?_
    rintro (⟨rest,h⟩ | ⟨tag,len,data,-,-,h⟩) <;> exact cons_ne_nil _ _ h.symm
  | terminated rest =>
    refine iff_of_true ?_ (.inl ⟨rest,rfl⟩)
    have hsome := parseBuffer_terminated (packet.take (dpOptions+rfcMagic.length)) items rest hlt
    obtain ⟨hopts,hin⟩ := parsed_terminated (packet.take (dpOptions+rfcMagic.length)) items rest
    rw [hpacket] at hsome hopts hin
    rw [hfront] at hsome hopts hin
    refine parsesPacket_of_parsed hlen hmagic hsome hin ?_
    rw [hopts]
    exact ⟨items,_,hdrop,.inr ⟨rest,rfl⟩,rfl⟩
  | lone tag hreg =>
    have hnone := parseBuffer_lone (packet.take (dpOptions+rfcMagic.length)) items hreg hlt
    rw [hpacket,hfront] at hnone
    refine iff_of_false (not_parsesPacket_of_none hlen hmagic hnone) ?_
    rintro (⟨rest,h⟩ | ⟨tag',len,data,-,-,h⟩)
    · exact hreg.2 (List.cons.inj h).1
    · exact cons_ne_nil _ _ (List.cons.inj h).2.symm
  | cut tag l data hreg hcut =>
    rw [length_cons,length_cons] at hsize
    have hfar : ((∃ rest,tag::l::data=tagEnd::rest) ∨ ∃ tag' len data',Regular tag' ∧
        data'.length+dpOptions<len.toNat ∧ tag::l::data=tag'::len::data') ↔
        data.length+dpOptions<l.toNat := by
      constructor
      · rintro (⟨rest,h⟩ | ⟨tag',len,data',-,h,he⟩)
        · exact absurd (List.cons.inj h).1 hreg.2
        · obtain ⟨rfl,rfl⟩ := List.cons.inj (List.cons.inj he).2
          exact h
      · exact fun h => .inr ⟨tag,l,data,hreg,h,rfl⟩
    rw [hfar]
    rcases lt_trichotomy (data.length+dpOptions) l.toNat with h | h | h
    · -- the parser sees that the option is cut
      obtain ⟨err,hfail⟩ := parseBuffer_cut (packet.take (dpOptions+rfcMagic.length)) items hreg
        data hlt (show (packet.length-rfcMagic.length : ℤ) <
          (items.flatMap Item.bytes).length+(l.toNat+2) by omega)
      rw [hpacket,hfront] at hfail
      have hrun := dhcpolParsePacket_eq hlen hmagic hfail packet.length rfl
      rw [if_pos rfl] at hrun
      exact iff_of_true (parsesPacket_of_failed hrun) h
    · -- the option ends where `len` does
      have hsome := parseBuffer_exact (packet.take (dpOptions+rfcMagic.length)) items hreg data
        (show (packet.length-rfcMagic.length : ℤ) =
          (items.flatMap Item.bytes).length+(l.toNat+2) by omega)
      rw [hpacket,hfront] at hsome
      refine iff_of_false ?_ (by omega)
      rintro ⟨r,hr,⟨hret,-⟩ | ⟨-,first,_,_,hfirst,-⟩,-⟩
      · exact Bool.noConfusion (hret.symm.trans (ret_of_parsed hlen hmagic hsome hr))
      · rw [hdrop] at hfirst
        exact not_fieldOptions hreg (.cut tag l data hreg hcut) hfirst
    · have hnone := parseBuffer_beyond (packet.take (dpOptions+rfcMagic.length)) items hreg hcut
        (show ((items.flatMap Item.bytes).length+(l.toNat+2) : ℤ) <
          packet.length-rfcMagic.length by omega)
      rw [hpacket,hfront] at hnone
      exact iff_of_false (not_parsesPacket_of_none hlen hmagic hnone) (by omega)

/-- A packet whose options field ends without an end tag, after the magic number. -/
def barePacket : List UInt8 := replicate dpOptions 0++rfcMagic

/-- The parser reads beyond the end of a packet without an end tag. -/
theorem not_parsesPacket_barePacket : ¬ParsesPacket barePacket := by
  have hsize : barePacket.length=dpOptions+rfcMagic.length := by
    rw [barePacket,length_append,length_replicate]
  have hmagic : (barePacket.drop dpOptions).take rfcMagic.length=rfcMagic := by
    rw [barePacket,drop_left' length_replicate,take_length]
  have hlt : ((([] : List Item).flatMap Item.bytes).length : ℤ) <
      barePacket.length-rfcMagic.length := by
    rw [hsize]
    decide
  have hnone := parseBuffer_short barePacket [] hlt
  rw [flatMap_nil,nil_append,append_nil] at hnone
  refine not_parsesPacket_of_none hsize.ge hmagic ?_
  rw [←hsize]
  exact hnone

end Result

end Darwin.Bootp.Pol
