import Darwin.Bootp.DhcpdRequests

/-! Runs of the DHCP server. No address gets two entries, and no client gets what is another's, but
where an offered address is reclaimed, an infinite lease is, an offer is accepted that does not hold
any more, or an allocation for BOOTP finds nothing. -/
open List
namespace Darwin.Bootp.Dhcpd

variable {s s' : Server} {t : ℕ} {es : List Event}

inductive Request
  | dhcp (rq : Packet)
  | bootp (rq : BootpPacket)

/-- A request and when it comes. -/
structure Event where
  time : ℕ
  request : Request

def Server.step (s : Server) (e : Event) : Server × Option Reply :=
  match e.request with
  | .dhcp rq => s.dhcp_request e.time rq
  | .bootp rq => ((s.dhcp_bootp_allocate e.time rq).1,none)

def Server.run (s : Server) : List Event → Server
  | [] => s
  | e::es => (s.step e).1.run es

/-- The replies of a run, each with the server before it, the time and the packet. -/
def Server.replies (s : Server) : List Event → List (Server × ℕ × Packet × Reply)
  | [] => []
  | e::es =>
    (match e.request with
      | .dhcp rq => (s.dhcp_request e.time rq).2.toList.map fun p => (s,e.time,rq,p)
      | .bootp _ => [])++(s.step e).1.replies es

/-- The start of a server: its lease list names each address once, and none that is permanently
bound, and a permanently bound address has one client. -/
structure Ready (s : Server) : Prop where
  ips : (s.leases.map LeaseEntry.ip).Nodup
  unbound : ∀ e∈s.leases,s.NICache_ip_in_use e.ip=false
  hosts : ∀ h∈s.hosts,∀ h'∈s.hosts,h.2=h'.2 → h.1=h'.1
  pending : s.pending=[]

/-- A BOOTP client without a binding gets an address that is free or reclaimed. -/
def Server.Creates (s : Server) (t : ℕ) (rq : BootpPacket) : Prop :=
  s.ReclaimsUnoffered t rq.if_p rq.giaddr ∧
    ((s.acquireIpSupernet t (network rq.if_p rq.giaddr)).1=none →
      (s.acquireIpSupernet t (network rq.if_p rq.giaddr)).2.DHCPLeases_reclaim t rq.if_p
        rq.giaddr≠none)

def Server.Fair (s : Server) (t : ℕ) : Request → Prop
  | .dhcp rq =>
    let found := s.findBinding rq
    match rq.msgtype,rq.server_id with
    | .discover,_ => found.2.1.iaddr=none → rq.dhcp_allocate=true →
        (found.1.hostfree rq.cid).ReclaimsUnoffered t rq.if_p rq.giaddr ∧
          (found.1.hostfree rq.cid).ReclaimsFinite t rq.if_p rq.giaddr
    | .request,some server_id => server_id=rq.if_p.addr →
        ∀ hp∈found.1.pending.find? (fun hp => hp.cid == rq.cid),rq.req_ip=some hp.iaddr →
          found.1.Accepts t found.2.1 hp
    | _,_ => True
  | .bootp rq =>
    let func := s.subnet_match rq.if_p rq.giaddr 0
    s.NICache_lookup_hw rq.cid func=none →
      (s.PLCache_lookup_identifier rq.cid func=none → s.Creates t rq) ∧
        ∀ r∈s.PLCache_lookup_identifier rq.cid func,s.entry r.1.ip=none →
          r.2.S_remove_host.Creates t rq

def Server.FairRun (s : Server) : List Event → Prop
  | [] => True
  | e::es => s.Fair e.time e.request ∧ (s.step e).1.FairRun es

def Server.RenewsOther (s : Server) (rq : Packet) (a : ℕ) : Prop :=
  rq.msgtype=.request ∧ rq.server_id=none ∧ rq.OfCiaddr ∧ a=rq.ciaddr ∧
    (s.findBinding rq).2.1.iaddr≠some a

lemma Ready.good (h : Ready s) (t : ℕ) : Good s t := by
  have hnone : ∀ p∈s.pending,False := by
    rw [h.pending]
    exact fun p hp => absurd hp not_mem_nil
  refine ⟨h.ips,h.unbound,h.hosts,?_,fun p hp => (hnone p hp).elim,
    fun p hp => (hnone p hp).elim⟩
  rw [h.pending]
  exact List.Pairwise.nil

lemma bootpCreate_spec {rq : BootpPacket} (hs : Good s t) (hfair : s.Creates t rq) :
    Good (s.bootpCreate t rq).1 t := by
  obtain ⟨hsearched,hfree⟩ := acquire_spec hs t (network rq.if_p rq.giaddr)
  have hgood := hs.kept (hsearched.kept rq.cid)
  have hcreate : ∀ {s' : Server} {a : ℕ},Good s' t → Free s' t a → ∀ expiry,
      Good (s'.S_create_host rq.cid a expiry) t := fun hs' hfree' =>
    hs'.create (hfree'.clear rq.cid) hfree'.leases hfree'.hosts
  rw [Server.bootpCreate]
  cases hacquired : (s.acquireIpSupernet t (network rq.if_p rq.giaddr)).1 with
  | some x => exact hcreate hgood (hfree x hacquired) _
  | none =>
    dsimp only
    cases hreclaimed : (s.acquireIpSupernet t
        (network rq.if_p rq.giaddr)).2.DHCPLeases_reclaim t rq.if_p rq.giaddr with
    | none => exact absurd hreclaimed (hfair.2 hacquired)
    | some x =>
      obtain ⟨hgood',hfree'⟩ := reclaim_free hgood hreclaimed fun p hp =>
        hfair.1 hacquired x hreclaimed p (hsearched.pending.subset hp)
      dsimp only
      cases x.2.entry x.1.ip with
      | none => exact hgood'
      | some subnet => exact hcreate hgood' hfree' _

lemma bootp_spec {rq : BootpPacket} (hs : Good s t) (hfair : s.Fair t (.bootp rq)) :
    Good (s.dhcp_bootp_allocate t rq).1 t := by
  rw [Server.dhcp_bootp_allocate]
  dsimp only
  cases hhost : s.NICache_lookup_hw rq.cid (s.subnet_match rq.if_p rq.giaddr 0) with
  | some iaddr => exact hs
  | none =>
    obtain ⟨hnone,hremoved⟩ := hfair hhost
    dsimp only
    cases hlook : s.PLCache_lookup_identifier rq.cid (s.subnet_match rq.if_p rq.giaddr 0) with
    | none => exact bootpCreate_spec hs (hnone hlook)
    | some r =>
      obtain ⟨hkept,hid,-,rest,hrest⟩ := lookup_spec hlook t rq.cid
      have hid' := beq_iff_eq.mp (Bool.and_eq_true_iff.mp hid).1
      have hgood := hs.kept hkept
      dsimp only
      cases hentry : s.entry r.1.ip with
      | none =>
        exact bootpCreate_spec
          (hgood.kept (remove_head_kept hrest (holder_of_identifier hid') t))
          (hremoved r hlook hentry)
      | some subnet => exact hgood.setHead hrest rfl rfl

lemma Confirmed.kept {rq : Packet} {b : Binding} {r : Server × Option Reply}
    (h : Confirmed t rq b s' r) (hk : Kept t rq.cid s s') : Confirmed t rq b s r :=
  ⟨h.good,fun p hp a ha => (h.reply p hp a ha).imp (fun hallowed => hallowed.kept hk) id⟩

lemma dhcp_spec {rq : Packet} (hs : Good s t) (hfair : s.Fair t (.dhcp rq)) :
    Good (s.dhcp_request t rq).1 t ∧ ∀ p∈(s.dhcp_request t rq).2,∀ a∈p.yiaddr,
      Allowed s t rq.cid a ∨ s.RenewsOther rq a := by
  obtain ⟨hkept,hbound⟩ := findBinding_spec s t rq
  have hgood := hs.kept hkept
  have hserved : ∀ {r},Served t rq.cid (s.findBinding rq).1 r →
      Good r.1 t ∧ ∀ p∈r.2,∀ a∈p.yiaddr,Allowed s t rq.cid a ∨ s.RenewsOther rq a :=
    fun hr => ⟨hr.good,fun p hp a ha => .inl ((hr.kept hkept).reply p hp a ha)⟩
  rw [Server.Fair] at hfair
  rw [Server.dhcp_request]
  cases htype : rq.msgtype with
  | discover =>
    rw [htype] at hfair
    exact hserved (discover_spec hgood hbound hfair)
  | request =>
    cases hserver : rq.server_id with
    | some server_id =>
      rw [htype,hserver] at hfair
      exact hserved (select_spec hgood hbound hfair)
    | none =>
      have hconfirmed := (confirm_spec hgood hbound (s.findBinding rq).2.2).kept hkept
      refine ⟨hconfirmed.good,fun p hp a ha => (hconfirmed.reply p hp a ha).imp id ?_⟩
      rintro ⟨heq,hother,hof⟩
      exact ⟨htype,hserver,hof,heq,hother⟩
  | decline => exact hserved (served_silent (decline_spec hgood hbound))
  | release => exact hserved (served_silent (release_spec hgood hbound))

/-- In every run whose requests meet the condition, no address is named by two entries of the lease
list, and each `OFFER` and `ACK` gives an address that is not another client's, except that a
`RENEW` is trusted with an address that the client is not bound to. -/
theorem leases_run (hs : Ready s) (htimes : (es.map Event.time).Pairwise (·≤·))
    (hfair : s.FairRun es) : ((s.run es).leases.map LeaseEntry.ip).Nodup ∧
      ∀ x∈s.replies es,∀ a∈x.2.2.2.yiaddr,
        Allowed x.1 x.2.1 x.2.2.1.cid a ∨ x.1.RenewsOther x.2.2.1 a := by
  suffices hall : ∀ (es : List Event) (s : Server) (now : ℕ),Good s now →
      (now::es.map Event.time).Pairwise (·≤·) → s.FairRun es →
      (∃ later,Good (s.run es) later) ∧ ∀ x∈s.replies es,∀ a∈x.2.2.2.yiaddr,
        Allowed x.1 x.2.1 x.2.2.1.cid a ∨ x.1.RenewsOther x.2.2.1 a by
    obtain ⟨⟨later,hgood⟩,hreplies⟩ := hall es s 0 (hs.good 0)
      (pairwise_cons.mpr ⟨fun _ _ => Nat.zero_le _,htimes⟩) hfair
    exact ⟨hgood.ips,hreplies⟩
  intro es
  induction es with
  | nil => exact fun s now hs _ _ => ⟨⟨now,hs⟩,fun x hx => absurd hx not_mem_nil⟩
  | cons e es ih =>
    intro s now hs htimes hfair
    obtain ⟨hle,htimes⟩ := pairwise_cons.mp htimes
    have hs := hs.later (hle e.time mem_cons_self)
    obtain ⟨hfair,hrest⟩ := hfair
    obtain ⟨time,request⟩ := e
    cases request with
    | dhcp rq =>
      obtain ⟨hgood,hreply⟩ := dhcp_spec hs hfair
      obtain ⟨hlater,hreplies⟩ := ih _ time hgood htimes hrest
      refine ⟨hlater,fun x hx => ?_⟩
      rcases mem_append.mp hx with hx | hx
      · obtain ⟨p,hp,rfl⟩ := mem_map.mp hx
        exact hreply p (Option.mem_toList.mp hp)
      · exact hreplies x hx
    | bootp rq => exact ih _ time (bootp_spec hs hfair) htimes hrest

def smallNet : Interface := ⟨15,8,[(8,4294967288)]⟩
def smallServer : Server := ⟨[],[],[],[⟨8,4294967288,9,14,none,true,none,none,9⟩]⟩

def packetOf (msgtype : MsgType) (client : UInt8) (ciaddr : ℕ) (server_id req_ip : Option ℕ) :
    Packet := ⟨msgtype,(1,[client]),smallNet,0,ciaddr,false,true,server_id,req_ip,none⟩

def selectRun : List Event :=
  [⟨1,.dhcp (packetOf .discover 1 0 none none)⟩,⟨1,.dhcp (packetOf .request 1 0 (some 15) (some 9))⟩]

lemma smallServer_ready : Ready smallServer :=
  ⟨nodup_nil,fun _ he => absurd he not_mem_nil,
    fun _ hh => absurd hh not_mem_nil,rfl⟩

theorem leases_run_select : ((smallServer.run selectRun).leases.map LeaseEntry.ip).Nodup ∧
    ∀ x∈smallServer.replies selectRun,∀ a∈x.2.2.2.yiaddr,
      Allowed x.1 x.2.1 x.2.2.1.cid a ∨ x.1.RenewsOther x.2.2.1 a := by
  refine leases_run smallServer_ready (by decide) ⟨fun _ _ => ⟨fun h => ?_,fun h => ?_⟩,?_,trivial⟩
  · exact absurd h (by decide)
  · exact absurd h (by decide)
  · intro _ hp hfind _
    have hfound : (smallServer.step ⟨1,.dhcp (packetOf .discover 1 0 none none)⟩).1.pending.find?
          (fun hp => hp.cid == (1,[1]))=some ⟨(1,[1]),9,1,3600⟩ := by decide
    cases hfound.symm.trans hfind
    exact ⟨Nat.zero_lt_succ 59,by decide,fun _ he => absurd he not_mem_nil⟩

/-- A second client gets an address of its own, and then renews that of the first. -/
def renewRun : List Event :=
  selectRun++[⟨2,.dhcp (packetOf .discover 2 0 none none)⟩,
    ⟨2,.dhcp (packetOf .request 2 0 (some 15) (some 10))⟩,
    ⟨3,.dhcp (packetOf .request 2 9 none none)⟩]

def renewServer : Server := smallServer.run (renewRun.take 4)

theorem renewedOther_not_allowed : ∃ (s : Server) (es : List Event),Ready s ∧
    (es.map Event.time).Pairwise (·≤·) ∧ ∃ x∈s.replies es,∃ a∈x.2.2.2.yiaddr,
      ¬Allowed x.1 x.2.1 x.2.2.1.cid a := by
  have hreply : (smallServer.replies renewRun)[4]? =
      some (renewServer,3,packetOf .request 2 9 none none,.ack 9 3600) := by decide
  refine ⟨smallServer,renewRun,smallServer_ready,by decide,_,mem_of_getElem? hreply,9,rfl,
    fun h => ?_⟩
  have hfirst : ⟨9,some (1,[1]),some 3601,none,none⟩∈renewServer.leases := by decide
  have hruns : (⟨9,some (1,[1]),some 3601,none,none⟩ : LeaseEntry).Runs 3 :=
    ⟨by decide,.inr (by decide)⟩
  exact absurd (h.leases _ hfirst rfl hruns) (by decide)

end Darwin.Bootp.Dhcpd
