import Darwin.Bootp.DhcpArea
import Darwin.Lib.PrefixCode

/-! The parser of DHCP options over a memory that ends, so that a byte it reads beyond the end is
noticed. -/
open List Option Nat
namespace Darwin.Bootp.Pol
open Lib.PrefixCode

abbrev Memory := ℕ → Option UInt8

def ofBytes (bytes : List UInt8) : Memory := fun a => bytes[a]?

/-- What a parser returns, with the list and the message that it leaves. -/
structure Parsed where
  ret : Bool
  list : List ℕ
  err : String
  deriving DecidableEq

section Parser

variable (mem : Memory)

/-- The loop of `dhcpol_parse_buffer`: `len` at its end, the last tag and the options. A byte
that is not there ends it with nothing. -/
def parseLoop (scan : ℕ) (len : ℤ) (tag : UInt8) (list : List ℕ) : Option (ℤ × UInt8 × List ℕ) :=
  if tag≠tagEnd ∧ 0<len then
    match mem scan with
    | none => none
    | some tag =>
      if tag=tagEnd then parseLoop (scan+1) (len-1) tag (list++[scan])
      else if tag=tagPad then parseLoop (scan+1) (len-1) tag list
      else
        match mem (scan+1) with
        | none => none
        | some optionLen =>
          parseLoop (scan+(optionLen.toNat+2)) (len-(optionLen.toNat+2)) tag (list++[scan])
  else some (len,tag,list)
  termination_by len.toNat

def dhcpolParseBuffer (buffer : ℕ) (length : ℤ) : Option Parsed :=
  (parseLoop mem buffer length tagPad []).map fun (len,tag,list) =>
    if len<0 then ⟨false,[],s!"parse failed near tag {tag}"⟩ else ⟨true,list,""⟩

/-- The loop of `dhcpol_find` through the elements from number `i` on: the data, its length and
the next start. -/
def findFrom (tag : ℤ) (i : ℕ) : List ℕ → Option (Option (ℕ × ℕ × ℕ))
  | [] => some none
  | option::list =>
    match mem option with
    | none => none
    | some t =>
      if (t.toNat : ℤ)=tag then
        (mem (option+1)).map fun len => some (option+2,len.toNat,i+1)
      else findFrom tag (i+1) list

def dhcpolFind (list : List ℕ) (tag : ℤ) (start : ℕ) : Option (Option (ℕ × ℕ × ℕ)) :=
  if tag=tagEnd.toNat || tag=tagPad.toNat then some none
  else findFrom mem tag start (list.drop start)

end Parser

/-- An option that a buffer can hold whole. -/
structure WholeOption where
  tag : UInt8
  data : List UInt8
  regular : Regular tag
  length_le : data.length≤255

/-- What the parser steps over. -/
inductive Item
  | pad
  | opt (o : WholeOption)

def Item.bytes : Item → List UInt8
  | .pad => [tagPad]
  | .opt o => o.tag::UInt8.ofNat o.data.length::o.data

def optionsOf : List Item → List (UInt8 × List UInt8)
  | [] => []
  | .pad::items => optionsOf items
  | .opt o::items => (o.tag,o.data)::optionsOf items

def offsetsOf : ℕ → List Item → List ℕ
  | _,[] => []
  | p,.pad::items => offsetsOf (p+1) items
  | p,.opt o::items => p::offsetsOf (p+(o.data.length+2)) items

/-- How a buffer can go on behind its last whole item. -/
inductive Tail : List UInt8 → Prop
  | nil : Tail []
  | terminated (rest : List UInt8) : Tail (tagEnd::rest)
  | lone (tag : UInt8) (h : Regular tag) : Tail [tag]
  | cut (tag len : UInt8) (data : List UInt8) (h : Regular tag) (hlen : data.length<len.toNat) :
    Tail (tag::len::data)

lemma Item.bytes_ne_nil (i : Item) : i.bytes≠[] := by
  cases i <;> exact cons_ne_nil _ _

lemma toNat_ofNat_length {data : List UInt8} (h : data.length≤255) :
    (UInt8.ofNat data.length).toNat=data.length := by
  rw [UInt8.toNat_ofNat',mod_eq_of_lt (by omega)]

lemma prefixFree_bytes : PrefixFree Item.bytes where
  ne_nil := Item.bytes_ne_nil
  unique := by
    intro i j s t h
    cases i with
    | pad =>
      cases j with
      | pad => rfl
      | opt o => exact absurd (List.cons.inj h).1.symm o.regular.1
    | opt o =>
      cases j with
      | pad => exact absurd (List.cons.inj h).1 o.regular.1
      | opt o' =>
        obtain ⟨tag,data,hreg,hle⟩ := o
        obtain ⟨tag',data',hreg',hle'⟩ := o'
        obtain ⟨htag,hrest⟩ := List.cons.inj h
        obtain ⟨hlen,hdata⟩ := List.cons.inj hrest
        have hlen : data.length=data'.length := by
          rw [←toNat_ofNat_length hle,←toNat_ofNat_length hle']
          exact congrArg UInt8.toNat hlen
        obtain ⟨hdata,-⟩ := append_inj hdata hlen
        subst htag hdata
        rfl

lemma Tail.not_begins {t : List UInt8} (h : Tail t) : ¬Begins Item.bytes t := by
  cases h with
  | nil => exact not_begins_nil Item.bytes_ne_nil
  | terminated rest =>
    rintro ⟨(_ | o),s,hs⟩
    · exact absurd (List.cons.inj hs).1 (by decide)
    · exact o.regular.2 (List.cons.inj hs).1.symm
  | lone tag h =>
    rintro ⟨(_ | o),s,hs⟩
    · exact h.1 (List.cons.inj hs).1
    · exact absurd (List.cons.inj hs).2.symm (cons_ne_nil _ _)
  | cut tag len data h hlen =>
    rintro ⟨(_ | o),s,hs⟩
    · exact h.1 (List.cons.inj hs).1
    · obtain ⟨hl,hd⟩ := List.cons.inj (List.cons.inj hs).2
      have hd : data=o.data++s := hd
      rw [hl,hd,toNat_ofNat_length o.length_le,length_append] at hlen
      omega

lemma tail_of_not_begins {t : List UInt8} (h : ¬Begins Item.bytes t) : Tail t := by
  cases t with
  | nil => exact .nil
  | cons tag rest =>
    by_cases hend : tag=tagEnd
    · exact hend ▸ .terminated rest
    by_cases hpad : tag=tagPad
    · exact absurd ⟨.pad,rest,hpad▸rfl⟩ h
    cases rest with
    | nil => exact .lone tag ⟨hpad,hend⟩
    | cons len data =>
      by_cases hlen : data.length<len.toNat
      · exact .cut tag len data ⟨hpad,hend⟩ hlen
      · have htake : (data.take len.toNat).length=len.toNat := length_take_of_le (by omega)
        have h255 : len.toNat≤255 := le_of_lt_succ len.toNat_lt
        refine absurd ⟨.opt ⟨tag,data.take len.toNat,⟨hpad,hend⟩,htake.trans_le h255⟩,
          data.drop len.toNat,?_⟩ h
        rw [Item.bytes]
        dsimp only
        rw [htake,UInt8.ofNat_toNat,cons_append,cons_append,take_append_drop]

lemma exists_items (bytes : List UInt8) :
    ∃ (items : List Item) (t : List UInt8),bytes=items.flatMap Item.bytes++t ∧ Tail t := by
  obtain ⟨items,t,rfl,ht⟩ := exists_flatMap Item.bytes_ne_nil bytes
  exact ⟨items,t,rfl,tail_of_not_begins ht⟩

lemma items_unique {items items' : List Item} {t t' : List UInt8} (ht : Tail t) (ht' : Tail t')
    (h : items.flatMap Item.bytes++t=items'.flatMap Item.bytes++t') : items=items' ∧ t=t' :=
  flatMap_unique prefixFree_bytes ht.not_begins ht'.not_begins h

end Darwin.Bootp.Pol

/-! What `dhcpol_parse_buffer` reads, and what it finds, for every way a buffer can be laid out. -/
namespace Darwin.Bootp.Pol

variable {mem : Memory} {front rest : List UInt8} {items : List Item} {list : List ℕ}
  {tag : UInt8} {scan : ℕ} {len : ℤ}

lemma ofBytes_append (front rest : List UInt8) (n : ℕ) :
    ofBytes (front++rest) (front.length+n)=rest[n]? := by
  rw [ofBytes,List.getElem?_append_right (Nat.le_add_right _ _),Nat.add_sub_cancel_left]

lemma parseLoop_done (h : ¬(tag≠tagEnd ∧ 0<len)) :
    parseLoop mem scan len tag list=some (len,tag,list) := by
  rw [parseLoop,if_neg h]

lemma parseLoop_none (ht : tag≠tagEnd) (hlen : 0<len) (h : mem scan=none) :
    parseLoop mem scan len tag list=none := by
  rw [parseLoop,if_pos ⟨ht,hlen⟩,h]

lemma parseLoop_end (ht : tag≠tagEnd) (hlen : 0<len) (h : mem scan=some tagEnd) :
    parseLoop mem scan len tag list=some (len-1,tagEnd,list++[scan]) := by
  rw [parseLoop,if_pos ⟨ht,hlen⟩,h]
  dsimp only
  rw [if_pos rfl,parseLoop_done fun hc => hc.1 rfl]

lemma parseLoop_pad (ht : tag≠tagEnd) (hlen : 0<len) (h : mem scan=some tagPad) :
    parseLoop mem scan len tag list=parseLoop mem (scan+1) (len-1) tagPad list := by
  rw [parseLoop,if_pos ⟨ht,hlen⟩,h]
  dsimp only
  rw [if_neg (by decide),if_pos rfl]

lemma parseLoop_lone {t : UInt8} (ht : tag≠tagEnd) (hlen : 0<len) (h : mem scan=some t)
    (hreg : Regular t) (hnone : mem (scan+1)=none) : parseLoop mem scan len tag list=none := by
  rw [parseLoop,if_pos ⟨ht,hlen⟩,h]
  dsimp only
  rw [if_neg hreg.2,if_neg hreg.1,hnone]

lemma parseLoop_option {t l : UInt8} (ht : tag≠tagEnd) (hlen : 0<len)
    (h : mem scan=some t) (hreg : Regular t) (hl : mem (scan+1)=some l) :
    parseLoop mem scan len tag list =
      parseLoop mem (scan+(l.toNat+2)) (len-(l.toNat+2)) t (list++[scan]) := by
  rw [parseLoop,if_pos ⟨ht,hlen⟩,h]
  dsimp only
  rw [if_neg hreg.2,if_neg hreg.1,hl]

lemma length_flatMap_cons (i : Item) (items : List Item) : ((i::items).flatMap Item.bytes).length =
      i.bytes.length+(items.flatMap Item.bytes).length := by
  rw [flatMap_cons,length_append]

lemma parseLoop_items (front rest : List UInt8) (items : List Item) (list : List ℕ)
    (ht : tag≠tagEnd)
    (hlen : ((items.flatMap Item.bytes).length : ℤ)≤len) : ∃ t≠tagEnd,
      parseLoop (ofBytes (front++(items.flatMap Item.bytes++rest))) front.length len tag list =
        parseLoop (ofBytes (front++(items.flatMap Item.bytes++rest)))
          (front.length+(items.flatMap Item.bytes).length)
          (len-(items.flatMap Item.bytes).length) t (list++offsetsOf front.length items) := by
  induction items generalizing front len tag list with
  | nil =>
    refine ⟨tag,ht,?_⟩
    rw [flatMap_nil,length_nil,offsetsOf,append_nil,add_zero,cast_zero,sub_zero]
  | cons i items ih =>
    rw [length_flatMap_cons] at hlen
    have hassoc : front++((i::items).flatMap Item.bytes++rest) =
        front++i.bytes++(items.flatMap Item.bytes++rest) := by
      rw [flatMap_cons,append_assoc,append_assoc]
    have hfront : (front++i.bytes).length=front.length+i.bytes.length := length_append
    rw [length_flatMap_cons,hassoc,←add_assoc,←hfront,cast_add,←sub_sub]
    have hread : ∀ n,ofBytes (front++i.bytes++(items.flatMap Item.bytes++rest))
        (front.length+n)=(i.bytes++(items.flatMap Item.bytes++rest))[n]? := fun n => by
      rw [append_assoc,ofBytes_append]
    cases i with
    | pad =>
      have hl : (Item.pad.bytes.length : ℤ)=1 := rfl
      have hl' : Item.pad.bytes.length=1 := rfl
      have htag := hread 0
      rw [add_zero] at htag
      have hpad : tagPad≠tagEnd := by decide
      have hle : ((items.flatMap Item.bytes).length : ℤ)≤len-1 := by omega
      rw [parseLoop_pad ht (by omega) htag,hl,offsetsOf,←hl',←hfront]
      exact ih _ _ hpad hle
    | opt o =>
      have hl : ((Item.opt o).bytes.length : ℤ)=o.data.length+2 := by
        rw [Item.bytes,length_cons,length_cons]
        push_cast
        ring
      have hl' : (Item.opt o).bytes.length=o.data.length+2 := rfl
      have hle : ((items.flatMap Item.bytes).length : ℤ)≤len-(o.data.length+2) := by omega
      have htag := hread 0
      rw [add_zero] at htag
      rw [parseLoop_option ht (by omega) htag o.regular (hread 1),
        toNat_ofNat_length o.length_le,hl,←hl',offsetsOf,←hl',←hfront,
        append_cons list front.length (offsetsOf _ items)]
      exact ih _ _ o.regular.2 hle

def optionAt (bytes : List UInt8) (p : ℕ) : Option (UInt8 × List UInt8) :=
  match bytes[p]?,bytes[p+1]? with
  | some tag,some len =>
    if tag=tagEnd then none else some (tag,(bytes.drop (p+2)).take len.toNat)
  | _,_ => none

def Inside (bytes : List UInt8) (p : ℕ) : Prop :=
  bytes[p]?=some tagEnd ∨ ∃ len,bytes[p+1]?=some len ∧ p+2+len.toNat≤bytes.length

lemma getElem?_front (front rest : List UInt8) (n : ℕ) : (front++rest)[front.length+n]?=rest[n]? :=
  ofBytes_append front rest n

lemma getElem?_front_zero (front rest : List UInt8) : (front++rest)[front.length]?=rest[0]? :=
  ofBytes_append front rest 0

lemma append_flatMap_cons (front rest : List UInt8) (i : Item) (items : List Item) :
    front++((i::items).flatMap Item.bytes++rest) =
      front++i.bytes++(items.flatMap Item.bytes++rest) := by
  rw [flatMap_cons,append_assoc,append_assoc]

lemma inside_of_mem_offsetsOf {p : ℕ} (h : p∈offsetsOf front.length items) :
    Inside (front++(items.flatMap Item.bytes++rest)) p := by
  induction items generalizing front with
  | nil => exact absurd h not_mem_nil
  | cons i items ih =>
    have hfront : (front++i.bytes).length=front.length+i.bytes.length := length_append
    rw [append_flatMap_cons]
    cases i with
    | pad =>
      rw [offsetsOf] at h
      exact ih (by rw [hfront]; exact h)
    | opt o =>
      rw [offsetsOf] at h
      rcases mem_cons.mp h with rfl | h
      · refine .inr ⟨UInt8.ofNat o.data.length,?_,?_⟩
        · rw [append_assoc,getElem?_front]
          rfl
        · have hlen : (Item.opt o).bytes.length=o.data.length+2 := rfl
          rw [toNat_ofNat_length o.length_le,length_append,hfront]
          omega
      · exact ih (by rw [hfront]; exact h)

lemma filterMap_offsetsOf (front rest : List UInt8) (items : List Item) :
    (offsetsOf front.length items).filterMap
        (optionAt (front++(items.flatMap Item.bytes++rest)))=optionsOf items := by
  induction items generalizing front with
  | nil => rfl
  | cons i items ih =>
    have hfront : (front++i.bytes).length=front.length+i.bytes.length := length_append
    rw [append_flatMap_cons]
    cases i with
    | pad =>
      rw [offsetsOf,optionsOf]
      have hrest := ih (front++Item.pad.bytes)
      rw [hfront] at hrest
      exact hrest
    | opt o =>
      have hhead : optionAt (front++(Item.opt o).bytes++(items.flatMap Item.bytes++rest))
          front.length=some (o.tag,o.data) := by
        rw [optionAt,append_assoc,getElem?_front_zero,getElem?_front]
        have h0 : ((Item.opt o).bytes++(items.flatMap Item.bytes++rest))[0]?=some o.tag := rfl
        have h1 : ((Item.opt o).bytes++(items.flatMap Item.bytes++rest))[1]? =
            some (UInt8.ofNat o.data.length) := rfl
        have h2 : ((Item.opt o).bytes++(items.flatMap Item.bytes++rest)).drop 2 =
            o.data++(items.flatMap Item.bytes++rest) := rfl
        rw [h0,h1]
        dsimp only
        rw [if_neg o.regular.2,toNat_ofNat_length o.length_le,drop_append,
          drop_of_length_le (Nat.le_add_right _ _),Nat.add_sub_cancel_left,h2,nil_append,take_left]
      rw [offsetsOf,optionsOf,filterMap_cons_some hhead]
      have hrest := ih (front++(Item.opt o).bytes)
      rw [hfront] at hrest
      exact congrArg _ hrest

section Region

variable (front after : List UInt8) (items : List Item)

variable {len : ℤ}

lemma parseBuffer_items (hlen : ((items.flatMap Item.bytes).length : ℤ)≤len) :
    ∃ t≠tagEnd,dhcpolParseBuffer (ofBytes (front++(items.flatMap Item.bytes++after)))
        front.length len=(parseLoop (ofBytes (front++(items.flatMap Item.bytes++after)))
        (front.length+(items.flatMap Item.bytes).length) (len-(items.flatMap Item.bytes).length) t
        (offsetsOf front.length items)).map fun (len,tag,list) =>
          if len<0 then ⟨false,[],s!"parse failed near tag {tag}"⟩ else ⟨true,list,""⟩ := by
  have hpad : tagPad≠tagEnd := by decide
  obtain ⟨t,ht,hrun⟩ := parseLoop_items front after items [] hpad hlen
  exact ⟨t,ht,by rw [dhcpolParseBuffer,hrun,nil_append]⟩

lemma ofBytes_tail (n : ℕ) : ofBytes (front++(items.flatMap Item.bytes++after))
      (front.length+(items.flatMap Item.bytes).length+n)=after[n]? := by
  rw [←append_assoc,←length_append,ofBytes_append]

lemma ofBytes_tail_zero : ofBytes (front++(items.flatMap Item.bytes++after))
      (front.length+(items.flatMap Item.bytes).length)=after[0]? :=
  ofBytes_tail front after items 0

lemma parseBuffer_nil :
    dhcpolParseBuffer (ofBytes (front++(items.flatMap Item.bytes++after))) front.length
      (items.flatMap Item.bytes).length=some ⟨true,offsetsOf front.length items,""⟩ := by
  obtain ⟨t,ht,hrun⟩ := parseBuffer_items front after items le_rfl
  rw [hrun,sub_self,parseLoop_done fun h => absurd h.2 (lt_irrefl 0)]
  rfl

lemma parseBuffer_short (hlen : ((items.flatMap Item.bytes).length : ℤ)<len) :
    dhcpolParseBuffer (ofBytes (front++(items.flatMap Item.bytes++[]))) front.length len =
      none := by
  obtain ⟨t,ht,hrun⟩ := parseBuffer_items front [] items hlen.le
  rw [hrun,parseLoop_none ht (by omega) (ofBytes_tail_zero front [] items)]
  rfl

lemma parseBuffer_terminated (rest : List UInt8)
    (hlen : ((items.flatMap Item.bytes).length : ℤ)<len) :
    dhcpolParseBuffer (ofBytes (front++(items.flatMap Item.bytes++tagEnd::rest))) front.length
      len=some ⟨true,offsetsOf front.length items ++
        [front.length+(items.flatMap Item.bytes).length],""⟩ := by
  obtain ⟨t,ht,hrun⟩ := parseBuffer_items front (tagEnd::rest) items hlen.le
  rw [hrun,parseLoop_end ht (by omega) (ofBytes_tail_zero front _ items),map_some]
  dsimp only
  rw [if_neg (by omega)]

lemma parseBuffer_lone {tag : UInt8} (hreg : Regular tag)
    (hlen : ((items.flatMap Item.bytes).length : ℤ)<len) :
    dhcpolParseBuffer (ofBytes (front++(items.flatMap Item.bytes++[tag]))) front.length len =
      none := by
  obtain ⟨t,ht,hrun⟩ := parseBuffer_items front [tag] items hlen.le
  rw [hrun,parseLoop_lone ht (by omega) (ofBytes_tail_zero front _ items) hreg
    (ofBytes_tail front _ items 1)]
  rfl

lemma parseBuffer_cut {tag l : UInt8} (hreg : Regular tag) (rest : List UInt8)
    (hlen : ((items.flatMap Item.bytes).length : ℤ)<len)
    (hcut : len<(items.flatMap Item.bytes).length+(l.toNat+2)) :
    ∃ err,dhcpolParseBuffer (ofBytes (front++(items.flatMap Item.bytes++tag::l::rest)))
      front.length len=some ⟨false,[],err⟩ := by
  obtain ⟨t,ht,hrun⟩ := parseBuffer_items front (tag::l::rest) items hlen.le
  refine ⟨s!"parse failed near tag {tag}",?_⟩
  rw [hrun,parseLoop_option ht (by omega) (ofBytes_tail_zero front _ items) hreg
    (ofBytes_tail front _ items 1),parseLoop_done fun h => absurd h.2 (by omega),
    map_some]
  dsimp only
  rw [if_pos (by omega)]

lemma parseBuffer_exact {tag l : UInt8} (hreg : Regular tag) (rest : List UInt8)
    (hlen : len=(items.flatMap Item.bytes).length+(l.toNat+2)) :
    dhcpolParseBuffer (ofBytes (front++(items.flatMap Item.bytes++tag::l::rest)))
      front.length len=some ⟨true,offsetsOf front.length items ++
        [front.length+(items.flatMap Item.bytes).length],""⟩ := by
  obtain ⟨t,ht,hrun⟩ := parseBuffer_items front (tag::l::rest) items
    (show ((items.flatMap Item.bytes).length : ℤ)≤len by omega)
  rw [hrun,parseLoop_option ht (by omega) (ofBytes_tail_zero front _ items) hreg
    (ofBytes_tail front _ items 1),parseLoop_done fun h => absurd h.2 (by omega),
    map_some]
  dsimp only
  rw [if_neg (by omega)]

lemma parseBuffer_beyond {tag l : UInt8} (hreg : Regular tag) {rest : List UInt8}
    (hrest : rest.length<l.toNat)
    (hlen : (items.flatMap Item.bytes).length+(l.toNat+2)<len) :
    dhcpolParseBuffer (ofBytes (front++(items.flatMap Item.bytes++tag::l::rest)))
      front.length len=none := by
  obtain ⟨t,ht,hrun⟩ := parseBuffer_items front (tag::l::rest) items
    (show ((items.flatMap Item.bytes).length : ℤ)≤len by omega)
  have hnone : ofBytes (front++(items.flatMap Item.bytes++tag::l::rest))
      (front.length+(items.flatMap Item.bytes).length+(l.toNat+2))=none := by
    rw [ofBytes_tail]
    exact getElem?_eq_none (by rw [length_cons,length_cons]; omega)
  rw [hrun,parseLoop_option ht (by omega) (ofBytes_tail_zero front _ items) hreg
    (ofBytes_tail front _ items 1),parseLoop_none hreg.2 (by omega) hnone]
  rfl

end Region

section Buffer

variable (buffer : List UInt8)

/-- The parser reads nothing outside the buffer; every option that it finds lies inside, and where
it fails it leaves no list. -/
def ParsedInside : Prop :=
  ∃ r,dhcpolParseBuffer (ofBytes buffer) 0 buffer.length=some r ∧
    (r.ret=true → ∀ p∈r.list,Inside buffer p) ∧ (r.ret=false → r.list=[])

/-- The buffer's last byte is the tag of an option, with the length of the option missing. -/
def EndsInTag : Prop := ∃ (items : List Item) (tag : UInt8),Regular tag ∧
  buffer=items.flatMap Item.bytes++[tag]

variable {buffer}

lemma parsedInside_of_some {r : Parsed}
    (h : dhcpolParseBuffer (ofBytes buffer) ([] : List UInt8).length buffer.length=some r)
    (hin : ∀ p∈r.list,Inside buffer p) (hfail : r.ret=false → r.list=[]) :
    ParsedInside buffer := ⟨r,h,fun _ => hin,hfail⟩

lemma length_lt_append (items : List Item) (tag : UInt8) (rest : List UInt8) :
    ((items.flatMap Item.bytes).length : ℤ)<(items.flatMap Item.bytes++tag::rest).length := by
  rw [length_append,length_cons]
  omega

/-- The parser stays inside a buffer exactly when that does not end in the tag of an option. -/
theorem dhcpolParseBuffer_inside_iff (buffer : List UInt8) :
    ParsedInside buffer ↔ ¬EndsInTag buffer := by
  constructor
  · rintro ⟨r,hr,-⟩ ⟨items,tag,hreg,rfl⟩
    have hnone := parseBuffer_lone [] items hreg (length_lt_append items tag [])
    exact some_ne_none r (hr.symm.trans hnone)
  · intro h
    obtain ⟨items,t,rfl,ht⟩ := exists_items buffer
    have hin : ∀ p∈offsetsOf 0 items,Inside (items.flatMap Item.bytes++t) p := by
      intro p hp
      rw [←nil_append (items.flatMap Item.bytes++t)]
      exact inside_of_mem_offsetsOf hp
    cases ht with
    | nil =>
      have hr := parseBuffer_nil [] [] items
      rw [nil_append] at hr
      rw [append_nil] at hr hin ⊢
      exact parsedInside_of_some hr hin fun hf => absurd hf Bool.noConfusion
    | terminated rest =>
      refine parsedInside_of_some (parseBuffer_terminated [] items rest
        (length_lt_append items tagEnd rest)) ?_ fun hf => absurd hf Bool.noConfusion
      intro p hp
      rcases mem_append.mp hp with hp | hp
      · exact hin p hp
      · refine .inl ?_
        rw [mem_singleton.mp hp,length_nil,zero_add,getElem?_front_zero]
        rfl
    | lone tag hreg => exact absurd ⟨items,tag,hreg,rfl⟩ h
    | cut tag l data hreg hlen =>
      have hcut : ((items.flatMap Item.bytes++tag::l::data).length : ℤ) <
          (items.flatMap Item.bytes).length+(l.toNat+2) := by
        rw [length_append,length_cons,length_cons]
        omega
      obtain ⟨err,hr⟩ := parseBuffer_cut [] items hreg data
        (length_lt_append items tag (l::data)) hcut
      exact parsedInside_of_some hr (fun p hp => absurd hp not_mem_nil) fun _ => rfl

/-- A lone tag is a buffer whose parser reads the byte behind it. -/
theorem dhcpolParseBuffer_lone : ¬ParsedInside [53] := by
  rintro ⟨r,hr,-⟩
  have hreg : Regular 53 := ⟨by decide,by decide⟩
  have hnone := parseBuffer_lone [] [] hreg (length_lt_append [] 53 [])
  exact some_ne_none r (hr.symm.trans hnone)

end Buffer

lemma parseLoop_parseScan (bytes : ℕ → UInt8) (n scan : ℕ) (tag : UInt8) (list : List ℕ)
    (ht : tag≠tagEnd) :
    (parseLoop (fun a => some (bytes a)) scan n tag list).map (fun (len,tag,list) =>
        if len<0 then .error s!"parse failed near tag {tag}" else .ok list) =
      some ((parseScan bytes scan n).map (list ++ ·)) := by
  induction n using Nat.strong_induction_on generalizing scan tag list with
  | _ n ih =>
    cases n with
    | zero =>
      rw [parseLoop_done fun h => absurd h.2 (by simp),parseScan,map_some,Except.map,
        append_nil]
      rfl
    | succ n =>
      have hpos : (0 : ℤ)<((n+1 : ℕ) : ℤ) := by omega
      have hn : ((n+1 : ℕ) : ℤ)-1=(n : ℕ) := by omega
      rw [parseScan]
      by_cases hend : bytes scan=tagEnd
      · have hread : (fun a => some (bytes a)) scan=some tagEnd := congrArg some hend
        rw [parseLoop_end ht hpos hread,if_pos hend,map_some,hn]
        dsimp only
        rw [if_neg (by omega)]
        rfl
      · by_cases hpad : bytes scan=tagPad
        · have hread : (fun a => some (bytes a)) scan=some tagPad := congrArg some hpad
          rw [parseLoop_pad ht hpos hread,if_neg hend,if_pos hpad,hn]
          exact ih n n.lt_succ_self (scan+1) tagPad list (by decide)
        · rw [parseLoop_option ht hpos rfl ⟨hpad,hend⟩ rfl,if_neg hend,if_neg hpad]
          dsimp only
          by_cases hle : (bytes (scan+1)).toNat+2≤n+1
          · have hcast : ((n+1 : ℕ) : ℤ)-((bytes (scan+1)).toNat+2) =
                ((n+1-((bytes (scan+1)).toNat+2) : ℕ) : ℤ) := by omega
            rw [if_pos hle,hcast,ih _ (by omega) _ _ _ hend]
            cases parseScan bytes (scan+((bytes (scan+1)).toNat+2))
                (n+1-((bytes (scan+1)).toNat+2)) with
            | error e => rfl
            | ok l => simp [Except.map]
          · rw [if_neg hle,parseLoop_done fun h => absurd h.2 (by omega),map_some]
            dsimp only
            rw [if_pos (by omega)]
            rfl

/-- In a memory without an end `dhcpol_parse_buffer` finds what it finds there without a check. -/
theorem dhcpolParseBuffer_total (bytes : ℕ → UInt8) (n : ℕ) :
    (dhcpolParseBuffer (fun a => some (bytes a)) 0 n).map (fun r =>
        if r.ret then .ok r.list else .error r.err)=some (Bootp.dhcpolParseBuffer bytes n) := by
  have hscan := parseLoop_parseScan bytes n 0 tagPad [] (by decide)
  have hnil : (parseScan bytes 0 n).map ([] ++ ·)=parseScan bytes 0 n := by
    cases parseScan bytes 0 n <;> rfl
  rw [hnil] at hscan
  rw [Bootp.dhcpolParseBuffer,←hscan,dhcpolParseBuffer,Option.map_map]
  refine congrArg (Option.map · _) (funext fun ⟨len,tag,list⟩ => ?_)
  by_cases hlen : len<0
  · simp only [Function.comp_apply,if_pos hlen]
    rfl
  · simp only [Function.comp_apply,if_neg hlen]
    rfl

end Darwin.Bootp.Pol
