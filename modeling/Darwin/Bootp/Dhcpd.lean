import Mathlib.Data.Nat.Notation

/-! The DHCP server of `bootpd.tproj/dhcpd.m`, with its lease list and its pending offers, and the
subnets of `bootplib/subnetDescr.m`. Addresses are numbers in host order, and an identifier stands
for its text too. Files are written without errors, and no call leaves `ERANGE` in `errno`. Host
names and the options of replies are left out. -/
namespace Darwin.Bootp.Dhcpd

abbrev Cid := UInt8 × List UInt8

def infinite : Int32 := -1

def DHCP_MIN_LEASE : Int32 := 60*60
def DHCP_MAX_LEASE : Int32 := 60*60*24*30
def DEFAULT_PENDING_SECS : ℕ := 60

/-- An entry of the lease list; `lease` is when it ends. -/
structure LeaseEntry where
  ip : ℕ
  identifier : Option Cid
  lease : Option Int32
  released : Option Cid
  declined : Option Cid
  deriving DecidableEq

/-- `struct hosts`, which keeps an offer. -/
structure PendingHost where
  cid : Cid
  iaddr : ℕ
  tv : ℕ
  lease : Int32
  deriving DecidableEq

/-- `subnetEntry`; `dhcp` is whether its client types include `DHCP_CLIENT_TYPE`. -/
structure SubnetEntry where
  net_address : ℕ
  net_mask : ℕ
  first : ℕ
  last : ℕ
  supernet : Option String
  dhcp : Bool
  lease_min : Option Int32
  lease_max : Option Int32
  nextip : ℕ
  deriving DecidableEq

/-- `interface_t`, with the networks of its link routes. -/
structure Interface where
  addr : ℕ
  netaddr : ℕ
  routes : List (ℕ × ℕ)
  deriving DecidableEq

/-- The permanent bindings, the lease list, the pending offers and the subnets. -/
structure Server where
  hosts : List (Cid × ℕ)
  leases : List LeaseEntry
  pending : List PendingHost
  subnets : List SubnetEntry
  deriving DecidableEq

inductive MsgType
  | discover
  | request
  | decline
  | release
  deriving DecidableEq

/-- A DHCP packet, on an interface; `broadcast` is whether it was sent to all. -/
structure Packet where
  msgtype : MsgType
  cid : Cid
  if_p : Interface
  giaddr : ℕ
  ciaddr : ℕ
  broadcast : Bool
  dhcp_allocate : Bool
  server_id : Option ℕ
  req_ip : Option ℕ
  suggested_lease : Option Int32
  deriving DecidableEq

/-- A BOOTP request for an address. -/
structure BootpPacket where
  cid : Cid
  if_p : Interface
  giaddr : ℕ

/-- A reply, with `yiaddr` and the lease before it is prorated. -/
inductive Reply
  | offer (yiaddr : ℕ) (lease : Int32)
  | ack (yiaddr : ℕ) (lease : Int32)
  | nak
  deriving DecidableEq

def in_subnet (netaddr netmask ip : ℕ) : Bool := ip&&&netmask == netaddr

def SubnetEntry.ipSameSubnet (e : SubnetEntry) (addr : ℕ) : Bool :=
  in_subnet e.net_address e.net_mask addr

def SubnetEntry.ipWithinIpRange (e : SubnetEntry) (addr : ℕ) : Bool :=
  e.ipSameSubnet addr && decide (e.first≤addr) && decide (addr≤e.last)

def SubnetEntry.sameSupernet (e e' : SubnetEntry) : Bool :=
  match e.supernet,e'.supernet with
  | some a,some b => a == b
  | _,_ => false

def Server.entry (s : Server) (addr : ℕ) : Option SubnetEntry :=
  s.subnets.find? fun e => e.ipWithinIpRange addr

def Server.ipSameSupernet (s : Server) (ip1 ip2 : ℕ) : Bool :=
  s.subnets.findIdx? (fun e => e.ipSameSubnet ip1) ==
      s.subnets.findIdx? (fun e => e.ipSameSubnet ip2) ||
    match s.subnets.find? (fun e => e.ipSameSubnet ip1),
      s.subnets.find? (fun e => e.ipSameSubnet ip2) with
    | some entry1,some entry2 => entry1.sameSupernet entry2
    | _,_ => false

def Server.ip_address_reachable (s : Server) (ip giaddr : ℕ) (if_p : Interface) : Bool :=
  if giaddr≠0 then s.ipSameSupernet ip giaddr
  else if_p.routes.any fun r => in_subnet r.1 r.2 ip

def Server.subnet_match (s : Server) (if_p : Interface) (giaddr ciaddr iaddr : ℕ) : Bool :=
  iaddr == ciaddr || s.ip_address_reachable iaddr giaddr if_p

def network (if_p : Interface) (giaddr : ℕ) : ℕ := if giaddr≠0 then giaddr else if_p.netaddr

def lease_from_subnet (subnet : Option SubnetEntry) : Int32 × Int32 :=
  ((subnet.bind SubnetEntry.lease_min).getD DHCP_MIN_LEASE,
    (subnet.bind SubnetEntry.lease_max).getD DHCP_MAX_LEASE)

def Server.NICache_lookup_hw (s : Server) (cid : Cid) (func : ℕ → Bool) : Option ℕ :=
  (s.hosts.find? fun h => h.1 == cid && func h.2).map Prod.snd

def Server.NICache_ip_in_use (s : Server) (ip : ℕ) : Bool := s.hosts.any fun h => h.2 == ip

/-- The loops of `PLCache_lookup_identifier` and `PLCache_lookup_ip`: the entry that is found
becomes the head. -/
def Server.lookup (s : Server) (p : LeaseEntry → Bool) : Option (LeaseEntry × Server) :=
  (s.leases.find? p).map fun e => (e,{s with leases := e::s.leases.eraseP p})

def Server.PLCache_lookup_identifier (s : Server) (cid : Cid) (func : ℕ → Bool) :
    Option (LeaseEntry × Server) := s.lookup fun e => e.identifier == some cid && func e.ip

def Server.PLCache_lookup_ip (s : Server) (ip : ℕ) : Option (LeaseEntry × Server) :=
  s.lookup fun e => e.ip == ip

def Server.S_remove_host (s : Server) : Server := {s with leases := s.leases.tail}

def Server.setHead (s : Server) (e : LeaseEntry) : Server := {s with leases := e::s.leases.tail}

def Server.S_create_host (s : Server) (cid : Cid) (iaddr : ℕ) (expiry : Int32) : Server :=
  {s with leases := ⟨iaddr,some cid,some expiry,none,none⟩::s.leases}

def Server.hostfree (s : Server) (cid : Cid) : Server :=
  {s with pending := s.pending.eraseP fun hp => hp.cid == cid}

def Server.S_ipinuse (s : Server) (t ip : ℕ) : Bool × Server :=
  if s.NICache_ip_in_use ip then (true,s)
  else
    match s.PLCache_lookup_ip ip with
    | some r => (true,r.2)
    | none =>
      match s.pending.find? (fun hp => hp.iaddr == ip) with
      | none => (false,s)
      | some hp =>
        if t-hp.tv<DEFAULT_PENDING_SECS then (true,s)
        else (false,{s with pending := s.pending.eraseP fun hp => hp.iaddr == ip})

def Server.acquireLoop (t : ℕ) (s : Server) : ℕ → ℕ → Option ℕ × Server
  | _,0 => (none,s)
  | i,n+1 =>
    let r := s.S_ipinuse t i
    if r.1 then r.2.acquireLoop t (i+1) n else (some i,r.2)

def Server.acquireIp (s : Server) (t k : ℕ) (e : SubnetEntry) : Option ℕ × Server :=
  if ¬e.dhcp then (none,s)
  else
    let i := if e.nextip=e.last+1 then e.first else e.nextip
    let r := s.acquireLoop t i (e.last+1-i)
    (r.1,{r.2 with subnets := r.2.subnets.set k {e with nextip := r.1.getD (e.last+1)}})

def Server.acquireFrom (t addr k : ℕ) (entry : SubnetEntry) (s : Server) :
    List ℕ → Option (ℕ × SubnetEntry) × Server
  | [] => (none,s)
  | i::is =>
    match s.subnets[i]? with
    | none => (none,s)
    | some e =>
      if i=k ∨ e.ipSameSubnet addr ∨ e.sameSupernet entry then
        let r := s.acquireIp t i e
        match r.1 with
        | some ip => (some (ip,e),r.2)
        | none => r.2.acquireFrom t addr k entry is
      else s.acquireFrom t addr k entry is

def Server.acquireIpSupernet (s : Server) (t addr : ℕ) : Option (ℕ × SubnetEntry) × Server :=
  match s.subnets.findIdx? (fun e => e.ipSameSubnet addr),
    s.subnets.find? (fun e => e.ipSameSubnet addr) with
  | some k,some entry => s.acquireFrom t addr k entry (List.range s.subnets.length)
  | _,_ => (none,s)

def Server.reclaimable (s : Server) (t : ℕ) (if_p : Interface) (giaddr : ℕ) (e : LeaseEntry) :
    Bool :=
  match e.lease with
  | none => false
  | some expiry => decide (expiry<Int32.ofNat t) && s.ip_address_reachable e.ip giaddr if_p

def Server.DHCPLeases_reclaim (s : Server) (t : ℕ) (if_p : Interface) (giaddr : ℕ) :
    Option (LeaseEntry × Server) :=
  (s.leases.reverse.find? (s.reclaimable t if_p giaddr)).map fun e =>
    (e,{s with leases := (s.leases.reverse.eraseP (s.reclaimable t if_p giaddr)).reverse})

/-- `dhcp_binding_t`, with what is bound. A temporary binding is the entry at the head. -/
inductive Binding
  | none
  | permanent (iaddr : ℕ)
  | temporary (e : LeaseEntry)
  deriving DecidableEq

def Binding.iaddr : Binding → Option ℕ
  | .none => Option.none
  | .permanent iaddr => some iaddr
  | .temporary e => some e.ip

def LeaseEntry.lease_time_expiry (e : LeaseEntry) : Int32 := e.lease.getD infinite

/-- The start of `dhcp_request`: the client's binding, and whether one was removed that is on no
subnet. -/
def Server.findBinding (s : Server) (rq : Packet) : Server × Binding × Bool :=
  let func := s.subnet_match rq.if_p rq.giaddr rq.ciaddr
  match if rq.cid.1≠0 then s.NICache_lookup_hw rq.cid func else none with
  | some iaddr => (s,.permanent iaddr,false)
  | none =>
    match s.PLCache_lookup_identifier rq.cid func with
    | none => (s,.none,false)
    | some r =>
      match s.entry r.1.ip with
      | none => (r.2.S_remove_host,.none,true)
      | some _ => (r.2,.temporary r.1,false)

def clampLease (bounds : Int32 × Int32) (lease : Int32) : Int32 :=
  if bounds.2<lease then bounds.2 else if lease<bounds.1 then bounds.1 else lease

def Server.boundLease (s : Server) (t : ℕ) (rq : Packet) : Binding → Int32
  | .temporary e =>
    let bounds := lease_from_subnet (s.entry e.ip)
    if e.lease_time_expiry=infinite then infinite
    else
      match rq.suggested_lease with
      | some lease => clampLease bounds lease
      | none =>
        if e.lease_time_expiry≤Int32.ofNat t+bounds.1 then bounds.1
        else e.lease_time_expiry-Int32.ofNat t
  | _ => infinite

def expiryOf (t : ℕ) (lease : Int32) : Int32 :=
  if lease=infinite then infinite else lease+Int32.ofNat t

section Requests

variable (s : Server) (t : ℕ) (rq : Packet)

def Server.offer (iaddr : ℕ) (lease : Int32) : Server × Option Reply :=
  ({s with pending := ⟨rq.cid,iaddr,t,lease⟩::s.pending},some (.offer iaddr lease))

def newLease (subnet : SubnetEntry) : Int32 :=
  let bounds := lease_from_subnet (some subnet)
  match rq.suggested_lease with
  | some lease => clampLease bounds lease
  | none => bounds.1

def Server.findAddress (if_p : Interface) (giaddr : ℕ) : Option (ℕ × SubnetEntry) × Server :=
  let r := s.acquireIpSupernet t (network if_p giaddr)
  match r.1 with
  | some _ => r
  | none =>
    match r.2.DHCPLeases_reclaim t if_p giaddr with
    | none => (none,r.2)
    | some x => ((x.2.entry x.1.ip).map fun subnet => (x.1.ip,subnet),x.2)

def Server.discover (binding : Binding) : Server × Option Reply :=
  let s := s.hostfree rq.cid
  match binding.iaddr with
  | some iaddr => s.offer t rq iaddr (s.boundLease t rq binding)
  | none =>
    if ¬rq.dhcp_allocate then (s,none)
    else
      let r := s.findAddress t rq.if_p rq.giaddr
      match r.1 with
      | none => (r.2,none)
      | some (iaddr,subnet) => r.2.offer t rq iaddr (newLease rq subnet)

def Server.accept (binding : Binding) (iaddr : ℕ) (lease expiry : Int32) : Server × Option Reply :=
  if rq.req_ip≠some iaddr then (s,some .nak)
  else
    match binding with
    | .permanent _ => (s,some (.ack iaddr lease))
    | .temporary e =>
      (s.setHead {e with lease := some expiry,released := none},some (.ack iaddr lease))
    | .none =>
      match s.entry iaddr with
      | none => (s,some .nak)
      | some _ => (s.S_create_host rq.cid iaddr expiry,some (.ack iaddr lease))

def Server.select (binding : Binding) (server_id : ℕ) : Server × Option Reply :=
  if server_id≠rq.if_p.addr then
    let s := s.hostfree rq.cid
    match binding with
    | .temporary _ => (s.S_remove_host,none)
    | _ => (s,none)
  else
    match s.pending.find? (fun hp => hp.cid == rq.cid) with
    | some hp => s.accept rq binding hp.iaddr hp.lease (expiryOf t hp.lease)
    | none =>
      let lease := s.boundLease t rq binding
      match binding with
      | .none => (s,none)
      | .permanent iaddr => s.accept rq binding iaddr lease infinite
      | .temporary e => s.accept rq binding e.ip lease e.lease_time_expiry

def S_extend_leases : Bool := true

def Server.extend (binding : Binding) (iaddr : ℕ) : Server × Option Reply :=
  match binding with
  | .temporary e =>
    let bounds := lease_from_subnet (s.entry e.ip)
    let extended := fun lease => (s.setHead {e with lease := some (expiryOf t lease)},
      some (Reply.ack iaddr lease))
    match rq.suggested_lease with
    | some lease => extended (clampLease bounds lease)
    | none =>
      if S_extend_leases then extended bounds.1
      else if e.lease_time_expiry≤Int32.ofNat t then (s,some .nak)
      else extended (e.lease_time_expiry-Int32.ofNat t)
  | _ => (s,some (.ack iaddr infinite))

def Server.confirm (binding : Binding) (orphan : Bool) : Server × Option Reply :=
  match rq.req_ip,binding.iaddr with
  | some _,none => (s,if orphan then some .nak else none)
  | some req_ip,some iaddr =>
    if req_ip≠iaddr then (s,some .nak) else s.extend t rq binding iaddr
  | none,iaddr =>
    if rq.ciaddr=0 then (s,none)
    else
      match iaddr with
      | none => (s,if orphan then some .nak else none)
      | some iaddr =>
        if rq.broadcast ∨ rq.giaddr≠0 then
          if rq.ciaddr≠iaddr then (s,none) else s.extend t rq binding iaddr
        -- RENEW trusts the address that the client says it has.
        else s.extend t rq binding rq.ciaddr

def Server.decline (binding : Binding) : Server :=
  match rq.server_id,rq.req_ip,binding with
  | some server_id,some req_ip,.temporary e =>
    if server_id=rq.if_p.addr ∧ e.ip=req_ip then
      s.setHead ⟨e.ip,none,none,none,some rq.cid⟩
    else s
  | _,_,_ => s

def Server.release (binding : Binding) : Server :=
  match binding with
  | .temporary e => s.setHead {e with released := some rq.cid}
  | _ => s

def Server.dhcp_request : Server × Option Reply :=
  let found := s.findBinding rq
  match rq.msgtype with
  | .discover => found.1.discover t rq found.2.1
  | .request =>
    match rq.server_id with
    | some server_id => found.1.select t rq found.2.1 server_id
    | none => found.1.confirm t rq found.2.1 found.2.2
  | .decline => (found.1.decline rq found.2.1,none)
  | .release => (found.1.release rq found.2.1,none)

def Server.bootpCreate (rq : BootpPacket) : Server × Option ℕ :=
  let addr := network rq.if_p rq.giaddr
  let r := s.acquireIpSupernet t addr
  match r.1 with
  | some (iaddr,subnet) =>
    (r.2.S_create_host rq.cid iaddr ((lease_from_subnet (some subnet)).2+Int32.ofNat t),some iaddr)
  | none =>
    match r.2.DHCPLeases_reclaim t rq.if_p rq.giaddr with
    | none =>
      (r.2.S_create_host rq.cid addr ((lease_from_subnet none).2+Int32.ofNat t),some addr)
    | some x =>
      match x.2.entry x.1.ip with
      | none => (x.2,none)
      | some subnet =>
        (x.2.S_create_host rq.cid x.1.ip ((lease_from_subnet (some subnet)).2+Int32.ofNat t),
          some x.1.ip)

def Server.dhcp_bootp_allocate (rq : BootpPacket) : Server × Option ℕ :=
  let func := s.subnet_match rq.if_p rq.giaddr 0
  match s.NICache_lookup_hw rq.cid func with
  | some iaddr => (s,some iaddr)
  | none =>
    match s.PLCache_lookup_identifier rq.cid func with
    | none => s.bootpCreate t rq
    | some r =>
      match s.entry r.1.ip with
      | none => r.2.S_remove_host.bootpCreate t rq
      | some subnet =>
        (r.2.setHead { r.1 with
          lease := some ((lease_from_subnet (some subnet)).2+Int32.ofNat t)},some r.1.ip)

end Requests

end Darwin.Bootp.Dhcpd
