import Darwin.Netinfo.DsrecordRoundTrip

/-! `dsdata_to_dsrecord` on arbitrary bytes: it trusts every count and every length in them. -/
open List
namespace Darwin.Netinfo.Stored
open Lib Lib.Wire Lib.Wire.Reader

lemma takes_deserialize_32 : Takes deserialize_32 word := by
  intro l v rest h
  obtain ⟨t,m,ht,h⟩ := bind_eq_some_iff.mp h
  obtain ⟨rfl,rfl⟩ := Prod.mk.inj (Option.some.inj h)
  obtain ⟨bytes,hbytes⟩ := t
  have hlt : Bytes.ofBytes bytes<2^32 := by
    have := Bytes.ofBytes_lt bytes
    rwa [hbytes] at this
  have hword : word (UInt32.ofNat (Bytes.ofBytes bytes))=bytes := by
    rw [word,UInt32.toNat_ofNat',Nat.mod_eq_of_lt hlt,←hbytes,Bytes.toBytes_ofBytes]
  rw [takes_bytes 4 _ _ _ ht,hword]

lemma takes_deserializeDsdata : Takes deserializeDsdata Dsdata.bytes := by
  intro l d rest h
  obtain ⟨type,l₁,htype,h⟩ := bind_eq_some_iff.mp h
  obtain ⟨length,l₂,hlength,h⟩ := bind_eq_some_iff.mp h
  obtain ⟨data,l₃,hdata,h⟩ := bind_eq_some_iff.mp h
  obtain ⟨rfl,rfl⟩ := Prod.mk.inj (Option.some.inj h)
  rw [takes_deserialize_32 _ _ _ htype,takes_deserialize_32 _ _ _ hlength,
    takes_bytes _ _ _ _ hdata,Dsdata.bytes,append_assoc,append_assoc]

lemma takes_deserializeDsattribute : Takes deserializeDsattribute Dsattribute.bytes := by
  intro l a rest h
  obtain ⟨key,l₁,hkey,h⟩ := bind_eq_some_iff.mp h
  obtain ⟨count,l₂,hcount,h⟩ := bind_eq_some_iff.mp h
  obtain ⟨value,l₃,hvalue,h⟩ := bind_eq_some_iff.mp h
  obtain ⟨rfl,rfl⟩ := Prod.mk.inj (Option.some.inj h)
  rw [takes_deserializeDsdata _ _ _ hkey,takes_deserialize_32 _ _ _ hcount,
    takes_many takes_deserializeDsdata _ _ _ _ hvalue,Dsattribute.bytes,append_assoc,append_assoc]

lemma takes_deserializeDsrecord : Takes deserializeDsrecord Dsrecord.bytes := by
  intro l r rest h
  obtain ⟨dsid,l₁,hdsid,h⟩ := bind_eq_some_iff.mp h
  obtain ⟨serial,l₂,hserial,h⟩ := bind_eq_some_iff.mp h
  obtain ⟨vers,l₃,hvers,h⟩ := bind_eq_some_iff.mp h
  obtain ⟨super,l₄,hsuper,h⟩ := bind_eq_some_iff.mp h
  obtain ⟨sub_count,l₅,hsub_count,h⟩ := bind_eq_some_iff.mp h
  obtain ⟨sub,l₆,hsub,h⟩ := bind_eq_some_iff.mp h
  obtain ⟨count,l₇,hcount,h⟩ := bind_eq_some_iff.mp h
  obtain ⟨attributes,l₈,hattributes,h⟩ := bind_eq_some_iff.mp h
  obtain ⟨meta_count,l₉,hmeta_count,h⟩ := bind_eq_some_iff.mp h
  obtain ⟨meta_attributes,l₁₀,hmeta,h⟩ := bind_eq_some_iff.mp h
  obtain ⟨rfl,rfl⟩ := Prod.mk.inj (Option.some.inj h)
  rw [takes_deserialize_32 _ _ _ hdsid,takes_deserialize_32 _ _ _ hserial,
    takes_deserialize_32 _ _ _ hvers,takes_deserialize_32 _ _ _ hsuper,
    takes_deserialize_32 _ _ _ hsub_count,takes_many takes_deserialize_32 _ _ _ _ hsub,
    takes_deserialize_32 _ _ _ hcount,takes_many takes_deserializeDsattribute _ _ _ _ hattributes,
    takes_deserialize_32 _ _ _ hmeta_count,takes_many takes_deserializeDsattribute _ _ _ _ hmeta]
  simp only [Dsrecord.bytes,append_assoc]

/-- What `dsdata_to_dsrecord` does with an item: it reads beyond the item's end, or it returns
nothing or a record. -/
def dsdataToDsrecordReturn (d : Dsdata) : Option (Option Dsrecord) :=
  if d.type≠DataTypeDSRecord then some none
  else (deserializeDsrecord d.data).map fun p => some p.1

lemma dsdataToDsrecord_eq (d : Dsdata) : dsdataToDsrecord d=(dsdataToDsrecordReturn d).join := by
  rw [dsdataToDsrecord,dsdataToDsrecordReturn]
  by_cases h : d.type≠DataTypeDSRecord
  · rw [if_pos h,if_pos h]
    rfl
  · rw [if_neg h,if_neg h]
    cases deserializeDsrecord d.data <;> rfl

/-- No byte outside the item is read, and what is returned is a failure or a record whose encoding
is the item. -/
def DecodesItem (d : Dsdata) : Prop :=
  ∃ result,dsdataToDsrecordReturn d=some result ∧ ∀ r∈result,∀ junk,dsrecordToDsdata junk r=some d

lemma dsrecordToDsdata_eq (junk : ℕ → UInt8) {d : Dsdata} {r : Dsrecord}
    (ht : d.type=DataTypeDSRecord) (hd : d.data=r.bytes) : dsrecordToDsdata junk r=some d := by
  have hlt : r.storedSize<2^32 := by
    rw [←r.length_bytes,←hd,d.size]
    exact d.length.toNat_lt
  have hlength : dsrecordLength r=d.length := by
    refine UInt32.toNat_inj.mp ?_
    rw [dsrecordLength_toNat,Nat.mod_eq_of_lt hlt,←r.length_bytes,←hd,d.size]
  obtain ⟨b,hb,-,hdata⟩ := dsrecordFill_of_lt junk r hlt
  rw [dsrecordToDsdata,hb,Option.map_some,Option.some.injEq]
  obtain ⟨type,length,data,hsize⟩ := d
  simp only [Dsdata.mk.injEq]
  exact ⟨ht.symm,hlength,hdata.trans hd.symm⟩

/-- An item is decoded safely and fully exactly when it is of another type, or its bytes are a
record's in the stored form, every count and length right and nothing behind. -/
theorem decodesItem_iff (d : Dsdata) :
    DecodesItem d ↔ d.type≠DataTypeDSRecord ∨ ∃ r : Dsrecord,d.data=r.bytes := by
  by_cases ht : d.type=DataTypeDSRecord
  swap
  · refine iff_of_true ⟨none,if_pos ht,fun r hr => ?_⟩ (.inl ht)
    exact absurd hr.symm (Option.some_ne_none r)
  have hret : dsdataToDsrecordReturn d=(deserializeDsrecord d.data).map fun p => some p.1 :=
    if_neg (not_not.mpr ht)
  constructor
  · rintro ⟨result,hresult,henc⟩
    rw [hret] at hresult
    obtain ⟨⟨r,rest⟩,hread,rfl⟩ := Option.map_eq_some_iff.mp hresult
    have hlt : r.storedSize<2^32 := by
      have htakes := congrArg List.length (takes_deserializeDsrecord _ _ _ hread)
      have hsize := d.length.toNat_lt
      rw [length_append,r.length_bytes,d.size] at htakes
      omega
    obtain ⟨d',hd',-,hbytes⟩ := dsrecordToDsdata_of_lt (fun _ => 0) r hlt
    have he := Option.some.inj (hd'.symm.trans (henc r rfl fun _ => 0))
    exact .inr ⟨r,he▸hbytes⟩
  · rintro (h | ⟨r,hr⟩)
    · exact absurd ht h
    · have hread := reads_deserializeDsrecord r []
      rw [append_nil] at hread
      refine ⟨some r,?_,?_⟩
      · rw [hret,hr,hread]
        rfl
      · intro r' hr' junk
        obtain rfl := Option.some.inj hr'
        exact dsrecordToDsdata_eq junk ht hr

def emptyItem : Dsdata := ⟨DataTypeDSRecord,0,[],rfl⟩

/-- The decoder reads a record's id beyond the end of an item without bytes. -/
theorem emptyItem_not_decodesItem : ¬DecodesItem emptyItem := by
  rintro ⟨result,hresult,-⟩
  exact Option.some_ne_none result (hresult.symm.trans rfl)

end Darwin.Netinfo.Stored
