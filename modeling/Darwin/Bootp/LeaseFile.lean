import Darwin.Lib.Lines
import Mathlib.Data.List.TakeWhile

/-! The lease file of the DHCP server, from `bootplib/NICache.c`: a cache of property lists is
written in lines and read back. The file system does its work without errors. The reader's two
fixed buffers hold 128 bytes; a copy past the end of one of them gives nothing. -/
namespace Darwin.Bootp
open Lib

abbrev CString := {l : List UInt8 // (0 : UInt8)∉l}

lemma zero_notMem_takeWhile (l : List UInt8) : (0 : UInt8)∉l.takeWhile (·≠0) := by
  intro h
  simpa using List.mem_takeWhile_imp h

def CString.at (l : List UInt8) : CString :=
  ⟨l.takeWhile (·≠0),zero_notMem_takeWhile l⟩

def ascii (l : List Char) : List UInt8 := l.map fun c => UInt8.ofNat c.toNat

/-- A property, with its values: `ni_property`. -/
structure NiProperty where
  nip_name : CString
  nip_val : List CString
  deriving DecidableEq

abbrev NiProplist := List NiProperty

abbrev PLCache := List NiProplist

def newline : UInt8 := 10
def tab : UInt8 := 9
def space : UInt8 := 32
def equalSign : UInt8 := 61
def openLine : List UInt8 := [123,newline]
def closeLine : List UInt8 := [125,newline]

/-- The text of a line for a property, without the newline. Only the first value is written. -/
def propertyText (p : NiProperty) : List UInt8 :=
  match p.nip_val with
  | [] => tab::p.nip_name.1
  | v::_ => tab::(p.nip_name.1++equalSign::v.1)

def PLCache_write (cache : PLCache) : List UInt8 :=
  cache.flatMap fun pl =>
    openLine++((pl.flatMap fun p => propertyText p++[newline])++closeLine)

/-- The part of an entry that the reader is in. -/
inductive Where
  | nowhere
  | start
  | body
  | finish
  deriving DecidableEq

/-- The variables of `PLCache_read`. -/
structure ReadState where
  cache : PLCache
  pl : NiProplist
  where_ : Where
  deriving DecidableEq

/-- Where the loop goes after a line: on, out of it, or past the end of a buffer. -/
inductive Next
  | line (st : ReadState)
  | failed (cache : PLCache)
  | overrun
  deriving DecidableEq

def bufferSize : ℤ := 128

/-- `strncpy` of `n` bytes into a fixed buffer, and the zero byte behind them. -/
def copyInto (src : List UInt8) (n : ℤ) : Option (List UInt8) :=
  if 0≤n ∧ n<bufferSize then some (src.take n.toNat) else none

/-- A property is inserted at index `NI_INDEX_NULL`, that is behind all others. -/
def insertLast (st : ReadState) (name : List UInt8) (val : List CString) : Next :=
  .line {st with pl := st.pl++[⟨CString.at name,val⟩],where_ := .body}

def readProperty (st : ReadState) (line : CString) : Next :=
  let len := line.1.length
  let whitespace_len := (line.1.takeWhile fun c => c ∈ [space,tab,newline]).length
  if whitespace_len=len then .line st
  else
    match line.1.idxOf? equalSign with
    | some sep =>
      let nlen : ℤ := sep-whitespace_len
      let vlen : ℤ := len-whitespace_len-nlen-2
      match copyInto (line.1.drop whitespace_len) nlen with
      | none => .overrun
      | some propname =>
        match copyInto (line.1.drop (sep+1)) vlen with
        | none => .overrun
        | some propval => insertLast st propname [CString.at propval]
    | none =>
      let nlen : ℤ := len-whitespace_len-1
      match copyInto (line.1.drop whitespace_len) nlen with
      | none => .overrun
      | some propname => insertLast st propname []

def readLine (st : ReadState) (line : CString) : Next :=
  if line.1=openLine then
    if st.where_≠.finish ∧ st.where_≠.nowhere then .failed st.cache
    else .line {st with where_ := .start}
  else if line.1=closeLine then
    if st.where_≠.start ∧ st.where_≠.body then .failed st.cache
    else if 0<st.pl.length then .line ⟨st.pl::st.cache,[],.finish⟩
    else .line {st with where_ := .finish}
  else readProperty st line

def readLines : List (List UInt8) → ReadState → Option PLCache
  | [],st => some st.cache
  | l::ls,st =>
    match readLine st (CString.at l) with
    | .line st => readLines ls st
    | .failed cache => some cache
    | .overrun => none

def lineRoom : ℕ := 511

def PLCache_read (cache : PLCache) (file : Option (List UInt8)) : Option PLCache :=
  match file with
  | none => some cache
  | some text => readLines (Lines.lines newline lineRoom text) ⟨cache,[],.nowhere⟩

end Darwin.Bootp

/-! The lease list of the DHCP server, from `bootpd.tproj/dhcpd.m`, and the changes that requests
make to it. A request finds its entry by a place in the list; which of the changes a message leads
to is left open, so that the list after any messages is one of those here. -/
namespace Darwin.Bootp

/-- The name of a property, as it stands in `netinfo.h`. -/
def propName (l : List Char) : CString := CString.at (ascii l)

def NIPROP_NAME : CString := propName ['n','a','m','e']
def NIPROP_DHCP_RELEASED : CString := propName ['r','e','l','e','a','s','e','d']
def NIPROP_DHCP_DECLINED : CString := propName ['d','e','c','l','i','n','e','d']
def NIPROP_DHCP_LEASE : CString := propName ['l','e','a','s','e']
def NIPROP_HWADDR : CString := propName ['h','w','_','a','d','d','r','e','s','s']
def NIPROP_IDENTIFIER : CString :=
  propName ['i','d','e','n','t','i','f','i','e','r']
def NIPROP_IPADDR : CString := propName ['i','p','_','a','d','d','r','e','s','s']

def ni_proplist_match (pl : NiProplist) (pname : CString) (pval : Option CString) : Option ℕ :=
  (pl.findIdx? fun p => p.nip_name=pname).bind fun i =>
    match pval with
    | none => some i
    | some v => if ∃ p∈pl[i]?,v∈p.nip_val then some i else none

def ni_set_prop (pl : NiProplist) (prop value : CString) : NiProplist :=
  match ni_proplist_match pl prop none with
  | some i =>
    if some i=ni_proplist_match pl prop (some value) then pl
    else (pl.eraseIdx i).insertIdx i ⟨prop,[value]⟩
  | none => pl++[⟨prop,[value]⟩]

def ni_delete_prop (pl : NiProplist) (prop : CString) : NiProplist :=
  match ni_proplist_match pl prop none with
  | some i => pl.eraseIdx i
  | none => pl

def hexText (n : ℕ) : List UInt8 := ascii (Nat.toDigits 16 n)
def decimalText (n : ℕ) : List UInt8 := ascii (Nat.toDigits 10 n)

def identifierToString (type : UInt8) : List UInt8 → CString
  | [] => CString.at (hexText type.toNat++ascii [','])
  | b::bs => CString.at (hexText type.toNat++ascii [',']++hexText b.toNat++
      bs.flatMap fun b => ascii [':']++hexText b.toNat)

/-- `struct in_addr`, byte by byte. -/
structure InAddr where
  a : UInt8
  b : UInt8
  c : UInt8
  d : UInt8
  deriving DecidableEq

def inet_ntoa (i : InAddr) : CString :=
  CString.at (decimalText i.a.toNat++ascii ['.']++decimalText i.b.toNat++ascii ['.']++
    decimalText i.c.toNat++ascii ['.']++decimalText i.d.toNat)

def leaseText (expiry : UInt32) : CString := CString.at (ascii ['0','x']++hexText expiry.toNat)

/-- What a packet says about its client: the hardware address, and two options. -/
structure DhcpRequest where
  dp_htype : UInt8
  dp_chaddr : List UInt8
  client_identifier : Option (List UInt8)
  host_name : Option (List UInt8)

/-- The client's identifier: the option if it has more than a type, else the hardware address. -/
def DhcpRequest.cid (rq : DhcpRequest) : UInt8 × List UInt8 :=
  match rq.client_identifier with
  | some (cid_type::b::bs) => (cid_type,b::bs)
  | _ => (rq.dp_htype,rq.dp_chaddr)

def DhcpRequest.idstr (rq : DhcpRequest) : CString := identifierToString rq.cid.1 rq.cid.2

def DhcpRequest.hwstr (rq : DhcpRequest) : CString :=
  if rq.cid.1=0 then identifierToString rq.dp_htype rq.dp_chaddr else rq.idstr

def S_get_hostname (hostname_opt : Option (List UInt8)) : Option CString :=
  match hostname_opt with
  | some (b::bs) => some (CString.at (b::bs))
  | _ => none

def S_create_host (cache : PLCache) (idstr hwstr : CString) (iaddr : InAddr)
    (hostname : Option CString) (expiry : UInt32) : PLCache :=
  let pl : NiProplist := hostname.toList.map fun h => ⟨NIPROP_NAME,[h]⟩
  let pl := pl++[⟨NIPROP_IPADDR,[inet_ntoa iaddr]⟩]
  let pl := pl++[⟨NIPROP_HWADDR,[hwstr]⟩]
  let pl := pl++[⟨NIPROP_IDENTIFIER,[idstr]⟩]
  let pl := pl++[⟨NIPROP_DHCP_LEASE,[leaseText expiry]⟩]
  pl::cache

def S_set_lease (pl : NiProplist) (expiry : UInt32) : NiProplist :=
  ni_set_prop pl NIPROP_DHCP_LEASE (leaseText expiry)

def declineProps (pl : NiProplist) (idstr : CString) : NiProplist :=
  let pl := ni_delete_prop pl NIPROP_NAME
  let pl := ni_delete_prop pl NIPROP_IDENTIFIER
  let pl := ni_delete_prop pl NIPROP_HWADDR
  let pl := ni_delete_prop pl NIPROP_DHCP_LEASE
  let pl := ni_delete_prop pl NIPROP_DHCP_RELEASED
  ni_set_prop pl NIPROP_DHCP_DECLINED idstr

/-- A change that a request makes to the lease list. The host name of a new entry is that of the
request or of a pending host. -/
inductive LeaseEvent
  | createHost (rq : DhcpRequest) (iaddr : InAddr) (hostname : Option CString)
      (expiry : UInt32)
  | setName (i : ℕ) (rq : DhcpRequest)
  | setLease (i : ℕ) (expiry : UInt32)
  | selected (i : ℕ)
  | declined (i : ℕ) (rq : DhcpRequest)
  | released (i : ℕ) (rq : DhcpRequest)
  | removed (i : ℕ)
  | makeHead (i : ℕ)

def leaseStep (cache : PLCache) : LeaseEvent → PLCache
  | .createHost rq iaddr hostname expiry =>
    S_create_host cache rq.idstr rq.hwstr iaddr hostname expiry
  | .setName i rq =>
    match S_get_hostname rq.host_name with
    | none => cache
    | some hostname => cache.modify i fun pl => ni_set_prop pl NIPROP_NAME hostname
  | .setLease i expiry => cache.modify i fun pl => S_set_lease pl expiry
  | .selected i => cache.modify i fun pl => ni_delete_prop pl NIPROP_DHCP_RELEASED
  | .declined i rq => cache.modify i fun pl => declineProps pl rq.idstr
  | .released i rq => cache.modify i fun pl => ni_set_prop pl NIPROP_DHCP_RELEASED rq.idstr
  | .removed i => cache.eraseIdx i
  | .makeHead i => cache[i]?.toList++cache.eraseIdx i

def leases (es : List LeaseEvent) : PLCache := es.foldl leaseStep []

end Darwin.Bootp
