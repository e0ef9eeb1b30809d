import Darwin.Bootp.DhcpdGood

/-! What one request does to the lease list and to the offers, and which address its reply gives. -/
open List Option
namespace Darwin.Bootp.Dhcpd

variable {s s' : Server} {t a : ℕ} {rq : Packet} {b : Binding} {c : Cid}

def Reply.yiaddr : Reply → Option ℕ
  | .offer yiaddr _ => some yiaddr
  | .ack yiaddr _ => some yiaddr
  | .nak => none

/-- A binding is the client's own, a temporary one at the head of the list. -/
structure Bound (s : Server) (c : Cid) (b : Binding) : Prop where
  permanent : ∀ iaddr,b=.permanent iaddr → (c,iaddr)∈s.hosts
  temporary : ∀ e,b=.temporary e → e.identifier=some c ∧ ∃ rest,s.leases=e::rest

/-- A request leaves a good server, and gives an address that is allowed. -/
structure Served (t : ℕ) (c : Cid) (s : Server) (r : Server × Option Reply) : Prop where
  good : Good r.1 t
  reply : ∀ p∈r.2,∀ a∈p.yiaddr,Allowed s t c a

def Packet.OfCiaddr (rq : Packet) : Prop :=
  rq.req_ip=none ∧ ¬(rq.broadcast=true ∨ rq.giaddr≠0)

/-- As `Served`, but that the reply may confirm the address in `ciaddr` where the client is bound to
another one. -/
structure Confirmed (t : ℕ) (rq : Packet) (b : Binding) (s : Server) (r : Server × Option Reply) :
    Prop where
  good : Good r.1 t
  reply : ∀ p∈r.2,∀ a∈p.yiaddr,
    Allowed s t rq.cid a ∨ a=rq.ciaddr ∧ b.iaddr≠some a ∧ rq.OfCiaddr

/-- The address that is reclaimed, if one is, is not that of an offer which is still pending. -/
def Server.ReclaimsUnoffered (s : Server) (t : ℕ) (if_p : Interface) (giaddr : ℕ) : Prop :=
  (s.acquireIpSupernet t (network if_p giaddr)).1=none →
    ∀ x∈(s.acquireIpSupernet t (network if_p giaddr)).2.DHCPLeases_reclaim t if_p giaddr,
      ∀ p∈s.pending,p.iaddr=x.1.ip → ¬p.StillPending t

def Server.ReclaimsFinite (s : Server) (t : ℕ) (if_p : Interface) (giaddr : ℕ) : Prop :=
  (s.acquireIpSupernet t (network if_p giaddr)).1=none →
    ∀ x∈(s.acquireIpSupernet t (network if_p giaddr)).2.DHCPLeases_reclaim t if_p giaddr,
      x.1.lease≠some infinite

/-- An offer that can be accepted: it is of the address that the client is bound to, or it is still
pending and nothing else names its address. -/
def Server.Accepts (s : Server) (t : ℕ) (b : Binding) (hp : PendingHost) : Prop :=
  match b.iaddr with
  | some iaddr => iaddr=hp.iaddr
  | none => hp.StillPending t ∧ s.NICache_ip_in_use hp.iaddr=false ∧ ∀ e∈s.leases,e.ip≠hp.iaddr

lemma Allowed.kept (h : Allowed s' t c a) (hk : Kept t c s s') : Allowed s t c a := by
  obtain ⟨l,hl,hown⟩ := hk.leases
  refine ⟨fun e he heq hruns => ?_,fun x hx => h.hosts x (hk.hosts.symm▸hx),
    fun p hp heq hfresh => ?_⟩
  · rcases mem_append.mp (hl.subset he) with he | he
    · have hholder := hown e he
      rw [LeaseEntry.holder] at hholder
      cases hid : e.identifier with
      | none => exact absurd hid hruns.1
      | some c' =>
        rw [hid] at hholder
        exact hholder
    · exact h.leases e he heq hruns
  · rcases hk.fresh p hp hfresh with hp' | hc
    · exact h.pending p hp' heq hfresh
    · exact hc

lemma Served.kept {r : Server × Option Reply} (h : Served t c s' r) (hk : Kept t c s s') :
    Served t c s r :=
  ⟨h.good,fun p hp a ha => (h.reply p hp a ha).kept hk⟩

lemma served_silent (h : Good s' t) : Served t c s (s',none) := ⟨h,fun p hp => (by cases hp)⟩

lemma served_nak (h : Good s' t) : Served t c s (s',some .nak) := by
  refine ⟨h,fun p hp a ha => ?_⟩
  cases hp
  cases ha

lemma holder_of_identifier {e : LeaseEntry} (h : e.identifier=some c) : e.holder=some c := by
  rw [LeaseEntry.holder,h]
  rfl

lemma hostfree_kept (s : Server) (t : ℕ) (c : Cid) : Kept t c s (s.hostfree c) := by
  refine ⟨rfl,⟨[],List.Perm.refl _,fun _ h => absurd h not_mem_nil⟩,eraseP_sublist,
    fun p hp _ => ?_⟩
  by_cases heq : p.cid=c
  · exact .inr heq
  · have hne : ¬(p.cid == c)=true := fun h => heq (beq_iff_eq.mp h)
    exact .inl ((mem_eraseP_of_neg (a := p) hne).mpr hp)

lemma remove_head_kept {e : LeaseEntry} {rest : List LeaseEntry} (hs : s.leases=e::rest)
    (he : e.holder=some c) (t : ℕ) : Kept t c s s.S_remove_host := by
  refine ⟨rfl,⟨[e],?_,fun x hx => mem_singleton.mp hx▸he⟩,List.Sublist.refl _,
    fun _ h _ => .inl h⟩
  rw [Server.S_remove_host,hs]
  exact List.Perm.refl _

lemma findBinding_spec (s : Server) (t : ℕ) (rq : Packet) : Kept t rq.cid s (s.findBinding rq).1 ∧
      Bound (s.findBinding rq).1 rq.cid (s.findBinding rq).2.1 := by
  rw [Server.findBinding]
  split
  · rename_i iaddr hhost
    refine ⟨Kept.refl t rq.cid s,fun iaddr' heq => ?_,fun e heq => (by cases heq)⟩
    cases heq
    split_ifs at hhost
    obtain ⟨h,hfind,rfl⟩ := map_eq_some_iff.mp hhost
    have hfound := find?_some hfind
    rw [←beq_iff_eq.mp (Bool.and_eq_true_iff.mp hfound).1]
    exact mem_of_find?_eq_some hfind
  · have hnone : ∀ s' : Server,Bound s' rq.cid .none := fun s' =>
      ⟨fun iaddr heq => (by cases heq),fun e heq => (by cases heq)⟩
    cases hlook : s.PLCache_lookup_identifier rq.cid
        (s.subnet_match rq.if_p rq.giaddr rq.ciaddr) with
    | none => exact ⟨Kept.refl t rq.cid s,hnone s⟩
    | some r =>
      obtain ⟨hkept,hid,-,rest,hrest⟩ := lookup_spec hlook t rq.cid
      have hid' := beq_iff_eq.mp (Bool.and_eq_true_iff.mp hid).1
      dsimp only
      cases s.entry r.1.ip with
      | none =>
        exact ⟨hkept.trans (remove_head_kept hrest (holder_of_identifier hid') t),hnone _⟩
      | some subnet =>
        refine ⟨hkept,fun iaddr heq => (by cases heq),fun e heq => ?_⟩
        cases heq
        exact ⟨hid',rest,hrest⟩

lemma Bound.clear (h : Bound s c b) (hs : Good s t) (ha : b.iaddr=some a) : Clear s t c a := by
  cases b with
  | none => cases ha
  | permanent iaddr =>
    cases ha
    exact hs.clear_host (h.permanent a rfl)
  | temporary e =>
    cases ha
    obtain ⟨hid,rest,hrest⟩ := h.temporary e rfl
    exact hs.clear_entry (hrest▸mem_cons_self) (holder_of_identifier hid)

lemma reclaim_free {if_p : Interface} {giaddr : ℕ} {x : LeaseEntry × Server} (hs : Good s t)
    (h : s.DHCPLeases_reclaim t if_p giaddr=some x)
    (hpending : ∀ p∈s.pending,p.iaddr=x.1.ip → ¬p.StillPending t) :
    Good x.2 t ∧ Free x.2 t x.1.ip := by
  obtain ⟨hperm,hhosts,hsame,-⟩ := reclaim_spec h
  have hgood : Good x.2 t := hs.less hhosts
    ((sublist_cons_self x.1 x.2.leases).subperm.trans hperm.symm.subperm)
    (hsame▸List.Sublist.refl _)
  refine ⟨hgood,fun e he heq => ?_,?_,fun p hp => hpending p (hsame▸hp)⟩
  · have hips := (hperm.map LeaseEntry.ip).nodup_iff.mp hs.ips
    exact (nodup_cons.mp hips).1 (heq▸mem_map_of_mem he)
  · rw [Server.NICache_ip_in_use,hhosts]
    exact hs.unbound x.1 (hperm.symm.subset mem_cons_self)

lemma reclaim_allowed {if_p : Interface} {giaddr : ℕ} {x : LeaseEntry × Server}
    (h : s.DHCPLeases_reclaim t if_p giaddr=some x) (hfinite : x.1.lease≠some infinite)
    (hfree : Free x.2 t x.1.ip) (c : Cid) : Allowed s t c x.1.ip := by
  obtain ⟨hperm,hhosts,hsame,expiry,hlease,hended⟩ := reclaim_spec h
  have hclear := hfree.clear c
  refine ⟨fun e he heq hruns => ?_,fun y hy => hclear.hosts y (hhosts.symm▸hy),
    fun p hp => hclear.pending p (hsame.symm▸hp)⟩
  rcases mem_cons.mp (hperm.subset he) with rfl | he
  · have hexpiry : x.1.lease_time_expiry=expiry := by
      rw [LeaseEntry.lease_time_expiry,hlease]
      rfl
    rcases hruns.2 with hinf | hrun
    · rw [hlease,←hexpiry,hinf] at hfinite
      exact absurd rfl hfinite
    · rw [hexpiry] at hrun
      exact absurd hended hrun
  · exact absurd heq (hfree.leases e he)

lemma findAddress_spec {if_p : Interface} {giaddr : ℕ} (hs : Good s t)
    (hoffered : s.ReclaimsUnoffered t if_p giaddr) (hfinite : s.ReclaimsFinite t if_p giaddr)
    (c : Cid) :
    Good (s.findAddress t if_p giaddr).2 t ∧ ∀ x,(s.findAddress t if_p giaddr).1=some x →
      Clear (s.findAddress t if_p giaddr).2 t c x.1 ∧ Allowed s t c x.1 := by
  obtain ⟨hsearched,hfree⟩ := acquire_spec hs t (network if_p giaddr)
  have hkept := hsearched.kept c
  have hgood := hs.kept hkept
  rw [Server.findAddress]
  cases hacquired : (s.acquireIpSupernet t (network if_p giaddr)).1 with
  | some y =>
    dsimp only
    refine ⟨hgood,fun x hx => ?_⟩
    have hclear := (hfree x hx).clear c
    exact ⟨hclear,hclear.allowed.kept hkept⟩
  | none =>
    dsimp only
    cases hreclaimed : (s.acquireIpSupernet t (network if_p giaddr)).2.DHCPLeases_reclaim t if_p
        giaddr with
    | none => exact ⟨hgood,fun x hx => (by cases hx)⟩
    | some y =>
      obtain ⟨hgood',hfree'⟩ := reclaim_free hgood hreclaimed fun p hp =>
        hoffered hacquired y hreclaimed p (hsearched.pending.subset hp)
      refine ⟨hgood',fun x hx => ?_⟩
      obtain ⟨subnet,-,rfl⟩ := map_eq_some_iff.mp hx
      exact ⟨hfree'.clear c,(reclaim_allowed hreclaimed
        (hfinite hacquired y hreclaimed) hfree' c).kept hkept⟩

lemma offer_spec (hs : Good s' t) (hclear : Clear s' t rq.cid a) (hallowed : Allowed s t rq.cid a)
    (lease : Int32) : Served t rq.cid s (s'.offer t rq a lease) := by
  refine ⟨hs.offer hclear lease,fun p hp a' ha => ?_⟩
  cases hp
  cases ha
  exact hallowed

lemma discover_spec (hs : Good s t) (hb : Bound s rq.cid b)
    (hfair : b.iaddr=none → rq.dhcp_allocate=true →
      (s.hostfree rq.cid).ReclaimsUnoffered t rq.if_p rq.giaddr ∧
        (s.hostfree rq.cid).ReclaimsFinite t rq.if_p rq.giaddr) :
    Served t rq.cid s (s.discover t rq b) := by
  have hkept := hostfree_kept s t rq.cid
  have hgood := hs.kept hkept
  refine Served.kept ?_ hkept
  rw [Server.discover]
  dsimp only
  cases ha : b.iaddr with
  | some iaddr =>
    have hclear : Clear (s.hostfree rq.cid) t rq.cid iaddr := by
      have hold := hb.clear hs ha
      exact ⟨hold.leases,hold.hosts,
        fun p hp => hold.pending p (hkept.pending.subset hp)⟩
    exact offer_spec hgood hclear hclear.allowed _
  | none =>
    dsimp only
    split_ifs with hallocate
    · obtain ⟨hoffered,hfinite⟩ := hfair ha hallocate
      obtain ⟨hfound,haddress⟩ := findAddress_spec hgood hoffered hfinite rq.cid
      cases hr : ((s.hostfree rq.cid).findAddress t rq.if_p rq.giaddr).1 with
      | none => exact served_silent hfound
      | some x =>
        obtain ⟨hclear,hallowed⟩ := haddress x hr
        exact offer_spec hfound hclear hallowed _
    · exact served_silent hgood

lemma accept_spec (hs : Good s t) (hb : Bound s rq.cid b)
    (hclear : rq.req_ip=some a → Clear s t rq.cid a)
    (hfree : rq.req_ip=some a → b.iaddr=none →
      s.NICache_ip_in_use a=false ∧ ∀ e∈s.leases,e.ip≠a) (lease expiry : Int32) :
    Served t rq.cid s (s.accept rq b a lease expiry) := by
  rw [Server.accept.eq_def]
  split_ifs with hreq
  · exact served_nak hs
  · have hreq' := not_not.mp hreq
    have hack : ∀ s',Good s' t → Served t rq.cid s (s',some (.ack a lease)) := by
      intro s' hgood
      refine ⟨hgood,fun p hp a' ha => ?_⟩
      cases hp
      cases ha
      exact (hclear hreq').allowed
    cases b with
    | permanent iaddr => exact hack s hs
    | temporary e =>
      obtain ⟨hid,rest,hrest⟩ := hb.temporary e rfl
      exact hack _ (hs.setHead hrest rfl rfl)
    | none =>
      dsimp only
      cases s.entry a with
      | none => exact served_nak hs
      | some subnet =>
        obtain ⟨hin,hnone⟩ := hfree hreq' rfl
        exact hack _ (hs.create (hclear hreq') hnone hin expiry)

lemma select_spec (hs : Good s t) (hb : Bound s rq.cid b) {server_id : ℕ}
    (hfair : server_id=rq.if_p.addr →
      ∀ hp∈s.pending.find? (fun hp => hp.cid == rq.cid),rq.req_ip=some hp.iaddr →
        s.Accepts t b hp) : Served t rq.cid s (s.select t rq b server_id) := by
  rw [Server.select]
  split_ifs with hserver
  · have hkept := hostfree_kept s t rq.cid
    cases b with
    | none => exact served_silent (hs.kept hkept)
    | permanent iaddr => exact served_silent (hs.kept hkept)
    | temporary e =>
      obtain ⟨hid,rest,hrest⟩ := hb.temporary e rfl
      have hremoved := remove_head_kept (s := s.hostfree rq.cid) hrest (holder_of_identifier hid) t
      exact served_silent ((hs.kept hkept).kept hremoved)
  · cases hfind : s.pending.find? (fun hp => hp.cid == rq.cid) with
    | some hp =>
      have hmem := mem_of_find?_eq_some hfind
      have hfound := find?_some hfind
      have hcid := beq_iff_eq.mp hfound
      have haccepts := hfair (not_not.mp hserver) hp hfind
      refine accept_spec hs hb (fun hreq => ?_) (fun hreq hnone => ?_) _ _
      · have hacc := haccepts hreq
        rw [Server.Accepts] at hacc
        cases ha : b.iaddr with
        | some iaddr =>
          rw [ha] at hacc
          exact hb.clear hs (hacc▸ha)
        | none =>
          rw [ha] at hacc
          exact hcid▸hs.offers hp hmem hacc.1
      · have hacc := haccepts hreq
        rw [Server.Accepts,hnone] at hacc
        exact hacc.2
    | none =>
      cases b with
      | none => exact served_silent hs
      | permanent iaddr =>
        exact accept_spec hs hb (fun _ => hb.clear hs rfl) (fun _ h => (by cases h)) _ _
      | temporary e =>
        exact accept_spec hs hb (fun _ => hb.clear hs rfl) (fun _ h => (by cases h)) _ _

lemma extend_spec (hs : Good s t) (hb : Bound s rq.cid b) (a : ℕ) : Good (s.extend t rq b a).1 t ∧
      ∀ p∈(s.extend t rq b a).2,∀ a'∈p.yiaddr,a'=a := by
  have hack : ∀ lease : Int32,∀ p∈some (Reply.ack a lease),∀ a'∈p.yiaddr,a'=a := by
    intro lease p hp a' ha
    cases hp
    cases ha
    rfl
  cases b with
  | none => exact ⟨hs,hack infinite⟩
  | permanent iaddr => exact ⟨hs,hack infinite⟩
  | temporary e =>
    obtain ⟨hid,rest,hrest⟩ := hb.temporary e rfl
    have hextended : ∀ lease : Int32,
        Good (s.setHead {e with lease := some (expiryOf t lease)}) t := fun lease =>
      hs.setHead hrest rfl rfl
    rw [Server.extend]
    cases hsuggested : rq.suggested_lease with
    | some lease => exact ⟨hextended _,hack _⟩
    | none => exact ⟨hextended _,hack _⟩

lemma Served.confirmed {b : Binding} {r : Server × Option Reply} (h : Served t rq.cid s r) :
    Confirmed t rq b s r := ⟨h.good,fun p hp a ha => .inl (h.reply p hp a ha)⟩

lemma confirm_spec (hs : Good s t) (hb : Bound s rq.cid b) (orphan : Bool) :
    Confirmed t rq b s (s.confirm t rq b orphan) := by
  have hquiet : Confirmed t rq b s (s,if orphan then some .nak else none) := by
    cases orphan with
    | false => exact (served_silent hs).confirmed
    | true => exact (served_nak hs).confirmed
  have hextended : ∀ iaddr,b.iaddr=some iaddr → Confirmed t rq b s (s.extend t rq b iaddr) := by
    intro iaddr hiaddr
    obtain ⟨hgood,haddress⟩ := extend_spec hs hb iaddr
    refine ⟨hgood,fun p hp a ha => .inl ?_⟩
    rw [haddress p hp a ha]
    exact (hb.clear hs hiaddr).allowed
  rw [Server.confirm.eq_def]
  split
  · exact hquiet
  · rename_i req_ip iaddr hreq hiaddr
    split_ifs
    · exact (served_nak hs).confirmed
    · exact hextended iaddr hiaddr
  · rename_i hreq
    by_cases hciaddr : rq.ciaddr=0
    · rw [if_pos hciaddr]
      exact (served_silent hs).confirmed
    · rw [if_neg hciaddr]
      split
      · exact hquiet
      · rename_i iaddr hiaddr
        split_ifs with hrebinds
        · exact (served_silent hs).confirmed
        · exact hextended iaddr hiaddr
        · by_cases hsame : iaddr=rq.ciaddr
          · exact hsame▸hextended iaddr hiaddr
          · obtain ⟨hgood,haddress⟩ := extend_spec hs hb rq.ciaddr
            refine ⟨hgood,fun p hp a ha => .inr ⟨haddress p hp a ha,fun heq => ?_,hreq,hrebinds⟩⟩
            rw [haddress p hp a ha,hiaddr] at heq
            exact hsame (some.inj heq)

lemma decline_spec (hs : Good s t) (hb : Bound s rq.cid b) : Good (s.decline rq b) t := by
  rw [Server.decline.eq_def]
  split
  · rename_i e _ _
    obtain ⟨hid,rest,hrest⟩ := hb.temporary e rfl
    split_ifs
    · exact hs.setHead hrest rfl (holder_of_identifier hid).symm
    · exact hs
  · exact hs

lemma release_spec (hs : Good s t) (hb : Bound s rq.cid b) : Good (s.release rq b) t := by
  cases b with
  | none => exact hs
  | permanent iaddr => exact hs
  | temporary e =>
    obtain ⟨hid,rest,hrest⟩ := hb.temporary e rfl
    exact hs.setHead hrest rfl rfl

end Darwin.Bootp.Dhcpd
